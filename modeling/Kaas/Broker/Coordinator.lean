import Mathlib.Data.List.AList
import Mathlib.Data.List.Chain

namespace Kaas

abbrev PartitionKey := String × Int

structure PartitionAssignment where
  topic : String
  partition : Int
  broker : String
  epoch : UInt32
  deriving DecidableEq, Repr

def PartitionAssignment.key (p : PartitionAssignment) : PartitionKey := (p.topic,p.partition)

structure Assignment where
  controllerEpoch : Int
  assignmentVersion : Int
  partitions : List PartitionAssignment := []
  deriving DecidableEq, Repr

structure CoordinatorInner where
  ownership : AList (fun _ : PartitionKey => UInt32) := ∅
  leaders : AList (fun _ : PartitionKey => String) := ∅
  lastAppliedVersion : Int := 0

structure Coordinator where
  selfId : String
  current : Option Assignment := none
  inner : CoordinatorInner := {}

inductive FileRead
  | failed
  | torn
  | parsed (file : Assignment)

/-- One poll: the file it reads and the lease epoch it compares with. -/
structure Observation where
  read : FileRead
  leaseEpoch : Int

namespace Coordinator

def buildOwnership (selfId : String) (partitions : List PartitionAssignment) :
    AList (fun _ : PartitionKey => UInt32) :=
  partitions.foldl (fun m p => if p.broker=selfId then m.insert p.key p.epoch else m) ∅

def buildLeaders (partitions : List PartitionAssignment) : AList (fun _ : PartitionKey => String) :=
  partitions.foldl (fun m p => m.insert p.key p.broker) ∅

/-- The dedup against the assignment in effect; it is silent when the controller epochs differ. -/
def alreadyApplied (c : Coordinator) (file : Assignment) : Bool :=
  match c.current with
  | none => false
  | some prev => decide (file.controllerEpoch=prev.controllerEpoch ∧
      file.assignmentVersion≤ c.inner.lastAppliedVersion)

def apply (c : Coordinator) (file : Assignment) : Coordinator :=
  {c with
    current := some file
    inner := {
      ownership := buildOwnership c.selfId file.partitions
      leaders := buildLeaders file.partitions
      lastAppliedVersion := file.assignmentVersion}}

def applyIfNew (c : Coordinator) (o : Observation) : Coordinator × Option Assignment :=
  match o.read with
  | .failed => (c,none)
  | .torn => (c,none)
  | .parsed file =>
    if file.controllerEpoch<o.leaseEpoch then (c,none)
    else if c.alreadyApplied file then (c,none)
    else (c.apply file,some file)

def applied : Coordinator → List Observation → List Assignment
  | _,[] => []
  | c,o::os => (c.applyIfNew o).2.toList++applied (c.applyIfNew o).1 os

end Coordinator

def Assignment.Before (a b : Assignment) : Prop :=
  a.controllerEpoch<b.controllerEpoch ∨
    (a.controllerEpoch=b.controllerEpoch ∧ a.assignmentVersion<b.assignmentVersion)

instance (a b : Assignment) : Decidable (a.Before b) :=
  inferInstanceAs (Decidable (_ ∨ _))

instance : IsTrans Assignment Assignment.Before where
  trans := by
    intro a b c h k
    unfold Assignment.Before at *
    omega

def Coordinator.Consistent (c : Coordinator) : Prop :=
  ∀prev,c.current=some prev → c.inner.lastAppliedVersion=prev.assignmentVersion

/-- A file with a lower controller epoch than the assignment in effect is also below the lease
epoch of the poll that finds it. -/
def EpochHeld (c : Coordinator) (o : Observation) : Prop :=
  ∀file prev,o.read=.parsed file → c.current=some prev → file.controllerEpoch<prev.controllerEpoch →
    file.controllerEpoch<o.leaseEpoch

def EpochsHeld : Coordinator → List Observation → Prop
  | _,[] => True
  | c,o::os => EpochHeld c o ∧ EpochsHeld (c.applyIfNew o).1 os

theorem applyIfNew_cases (c : Coordinator) (o : Observation) :
    (c.applyIfNew o=(c,none) ∧ ∀file,o.read=.parsed file →
      file.controllerEpoch<o.leaseEpoch ∨ c.alreadyApplied file=true) ∨
    ∃file,o.read=.parsed file ∧ o.leaseEpoch≤file.controllerEpoch ∧ c.alreadyApplied file=false ∧
      c.applyIfNew o=(c.apply file,some file) := by
  unfold Coordinator.applyIfNew
  cases o.read with
  | failed | torn => exact Or.inl ⟨rfl,nofun⟩
  | parsed file =>
    dsimp only
    split_ifs with hlease hold
    · exact Or.inl ⟨rfl,by rintro _ ⟨rfl⟩; exact Or.inl hlease⟩
    · exact Or.inl ⟨rfl,by rintro _ ⟨rfl⟩; exact Or.inr hold⟩
    · exact Or.inr ⟨file,rfl,by omega,by simpa using hold,rfl⟩

variable {c : Coordinator}

theorem Coordinator.Consistent.applyIfNew (h : c.Consistent) (o : Observation) :
    (c.applyIfNew o).1.Consistent := by
  rcases applyIfNew_cases c o with ⟨he,_⟩|⟨file,_,_,_,he⟩
  · rw [he]
    exact h
  · rw [he]
    rintro prev ⟨rfl⟩
    rfl

theorem before_iff_of_applied (h : c.Consistent) {file prev : Assignment}
    (hp : c.current=some prev) (hn : c.alreadyApplied file=false) :
    prev.Before file ↔ prev.controllerEpoch≤file.controllerEpoch := by
  have hv := h prev hp
  unfold Coordinator.alreadyApplied at hn
  rw [hp] at hn
  simp only [decide_eq_false_iff_not] at hn
  unfold Assignment.Before
  omega

theorem chain_step (h : c.Consistent) (o : Observation) :
    (c.current.toList++(c.applyIfNew o).2.toList).IsChain Assignment.Before ↔ EpochHeld c o := by
  rcases applyIfNew_cases c o with ⟨he,hrefused⟩|⟨file,hread,hlease,hnew,he⟩
  · rw [he]
    have hchain : (c.current.toList++[]).IsChain Assignment.Before := by
      cases c.current <;> simp
    refine ⟨fun _ => ?_,fun _ => hchain⟩
    intro file prev hread hprev hlt
    rcases hrefused file hread with hl|hold
    · exact hl
    · unfold Coordinator.alreadyApplied at hold
      rw [hprev] at hold
      simp only [decide_eq_true_eq] at hold
      omega
  · rw [he]
    cases hprev : c.current with
    | none =>
      refine ⟨fun _ => ?_,fun _ => by simp⟩
      intro _ prev _ hp
      rw [hprev] at hp
      cases hp
    | some prev =>
      have hiff := before_iff_of_applied h hprev hnew
      have hchain : ([prev,file].IsChain Assignment.Before) ↔ prev.Before file := by simp
      rw [show (some prev).toList++(some file).toList=[prev,file] from rfl,hchain,hiff]
      constructor
      · intro hle f q hf hq hlt
        rw [hread] at hf
        rw [hprev] at hq
        cases hf
        cases hq
        omega
      · intro hheld
        by_contra hgt
        have := hheld file prev hread hprev (by omega)
        omega

theorem chain_applied (h : c.Consistent) (os : List Observation) :
    (c.current.toList++c.applied os).IsChain Assignment.Before ↔ EpochsHeld c os := by
  induction os generalizing c with
  | nil =>
    refine ⟨fun _ => trivial,fun _ => ?_⟩
    change (c.current.toList++[]).IsChain Assignment.Before
    cases c.current <;> simp
  | cons o os ih =>
    have hstep := chain_step h o
    have hrest := ih (h.applyIfNew o)
    rw [EpochsHeld,← hstep,← hrest,Coordinator.applied]
    rcases applyIfNew_cases c o with ⟨he,_⟩|⟨file,_,_,_,he⟩
    · rw [he]
      have hchain : (c.current.toList++[]).IsChain Assignment.Before := by
        cases c.current <;> simp
      simp only [Option.toList_none,List.nil_append]
      exact ⟨fun hc => ⟨hchain,hc⟩,fun hc => hc.2⟩
    · rw [he]
      change (c.current.toList++(file::_)).IsChain _ ↔ (c.current.toList++[file]).IsChain _ ∧
        (file::_).IsChain _
      cases c.current with
      | none => simp
      | some prev =>
        change (prev::file::_).IsChain _ ↔ [prev,file].IsChain _ ∧ _
        simp

/-- The assignments a fresh broker applies are strictly increasing exactly when no poll finds a
file of a lower controller epoch than the one in effect that the lease epoch lets through. -/
theorem applied_increasing_iff (selfId : String) (os : List Observation) :
    (Coordinator.applied {selfId := selfId} os).Pairwise Assignment.Before ↔
      EpochsHeld {selfId := selfId} os := by
  have h := chain_applied (c := {selfId := selfId}) nofun os
  rw [← h]
  exact List.isChain_iff_pairwise.symm

/-- A broker whose lease reading still shows epoch 1 applies the file of controller 2, and then the
later file of the deposed controller 1. -/
theorem deposed_controller_applied :
    (Coordinator.applied {selfId := "kaas-0"} [⟨.parsed ⟨2,1,[]⟩,1⟩,⟨.parsed ⟨1,7,[]⟩,1⟩])=
      [⟨2,1,[]⟩,⟨1,7,[]⟩] ∧
    ¬[(⟨2,1,[]⟩ : Assignment),⟨1,7,[]⟩].Pairwise Assignment.Before := by
  decide +kernel

end Kaas
