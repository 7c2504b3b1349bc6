import Kaas.Framework.Run
import Kaas.Math.BigEndian
import Mathlib.Data.List.Basic
import Mathlib.Logic.Function.Basic

namespace Kaas

/-- What the election reads of the Lease object; `lastHolder` is the annotation a release leaves. -/
structure Lease where
  holderIdentity : Option String := none
  leaseTransitions : Option Int := none
  lastHolder : Option String := none
  deriving DecidableEq, Repr

def Lease.prevHolder (l : Lease) : Option String :=
  match l.holderIdentity with
  | some h => if h="" then l.lastHolder else some h
  | none => l.lastHolder

def Lease.transitions (l : Lease) : Int := l.leaseTransitions.getD 0

def nextTransitions (prevHolder : Option String) (identity : String) (current : Int) : Int :=
  if prevHolder=some identity then current else wrapI32 (current+1)

/-- Between which two calls to the API server a candidate stands. -/
inductive ElectionPhase
  | idle
  | acquiring (existing : Option Lease)
  | renewing (transitions : Int)
  deriving DecidableEq, Repr

def ElectionPhase.found : ElectionPhase → Option Lease
  | .acquiring existing => existing
  | _ => none

def ElectionPhase.renewed : ElectionPhase → Option Int
  | .renewing t => some t
  | _ => none

structure Candidate where
  phase : ElectionPhase := .idle
  lastTransitions : Int := 0
  deriving DecidableEq, Repr

structure Election where
  lease : Option Lease := none
  candidates : String → Candidate := fun _ => {}
  elected : List (String × Int) := []

/-- The calls of the candidates. A write may take effect without its answer arriving. -/
inductive ElectionOp
  | getForAcquire (id : String) (stale : Bool)
  | writeAcquire (id : String) (answered : Bool)
  | getForRenew (id : String)
  | writeRenew (id : String) (answered : Bool)
  | release (id : String)
  | abandon (id : String)
  | restart (id : String)

namespace Election

def transitions (e : Election) : Int := (e.lease.map Lease.transitions).getD 0

def setPhase (e : Election) (id : String) (phase : ElectionPhase) : Election :=
  {e with candidates := Function.update e.candidates id {e.candidates id with phase := phase}}

def mayAcquire (id : String) (stale : Bool) (existing : Option Lease) : Bool :=
  match existing with
  | none => true
  | some l => decide (l.holderIdentity=some id) || stale || decide (l.holderIdentity=none) ||
      decide (l.holderIdentity=some "")

def acquireTransitions (id : String) (existing : Option Lease) : Int :=
  nextTransitions (existing.bind Lease.prevHolder) id ((existing.map Lease.transitions).getD 0)

def heldBy (id : String) (transitions : Int) : Lease := ⟨some id,some transitions,none⟩

/-- The server half of the write of `try_acquire`: a forced apply, or a create that fails when
the object has appeared in the meantime. -/
def acquireWrite (e : Election) (id : String) (existing : Option Lease) : Option Election :=
  if existing=none ∧ e.lease≠none then none
  else some {e with lease := some (heldBy id (acquireTransitions id existing))}

def stored (e : Election) (id : String) (transitions : Int) : Election :=
  {e with candidates := Function.update e.candidates id ⟨.idle,transitions⟩}

def exec (e : Election) : ElectionOp → Option Election
  | .getForAcquire id stale =>
    if mayAcquire id stale e.lease then some (e.setPhase id (.acquiring e.lease))
    else some (e.setPhase id .idle)
  | .writeAcquire id answered => match (e.candidates id).phase with
    | .acquiring existing => match e.acquireWrite id existing with
      | none => some (e.setPhase id .idle)
      | some e' =>
        if answered then
          some {e'.stored id (acquireTransitions id existing) with
            elected := e.elected++[(id,acquireTransitions id existing)]}
        else some (e'.setPhase id .idle)
    | _ => none
  | .getForRenew id => match e.lease with
    | none => some (e.setPhase id .idle)
    | some l =>
      if l.holderIdentity=some id then some (e.setPhase id (.renewing l.transitions))
      else some (e.setPhase id .idle)
  | .writeRenew id answered => match (e.candidates id).phase with
    | .renewing t =>
      if answered then some ({e with lease := some (heldBy id t)}.stored id t)
      else some ({e with lease := some (heldBy id t)}.setPhase id .idle)
    | _ => none
  | .release id => some {e with
      lease := some ⟨some "",some (e.candidates id).lastTransitions,some id⟩}
  | .abandon id => some (e.setPhase id .idle)
  | .restart id => some {e with candidates := Function.update e.candidates id {}}

end Election

def ElectionStep (e : Election) (op : ElectionOp) (e' : Election) : Prop := e.exec op=some e'

/-- A write finds the transitions and the last holder its candidate has read: nobody has changed
them in between, and the next count of transitions is an `i32`. A lease is released by its last
holder, under the transitions it has. -/
def ElectionOk (e : Election) : ElectionOp → Prop
  | .writeAcquire id _ => ∀found∈(e.candidates id).phase.found,∃l∈e.lease,
      l.transitions=found.transitions ∧ l.prevHolder=found.prevHolder ∧ l.transitions+1<2^31
  | .writeRenew id _ => ∀t∈(e.candidates id).phase.renewed,∃l∈e.lease,
      l.prevHolder=some id ∧ l.transitions=t
  | .release id => ∃l∈e.lease,l.prevHolder=some id ∧ l.transitions=(e.candidates id).lastTransitions
  | _ => True

instance (e : Election) : (op : ElectionOp) → Decidable (ElectionOk e op)
  | .getForAcquire _ _ => .isTrue trivial
  | .writeAcquire id _ => inferInstanceAs (Decidable (∀found∈(e.candidates id).phase.found,∃l∈e.lease,
      l.transitions=found.transitions ∧ l.prevHolder=found.prevHolder ∧ l.transitions+1<2^31))
  | .getForRenew _ => .isTrue trivial
  | .writeRenew id _ => inferInstanceAs (Decidable (∀t∈(e.candidates id).phase.renewed,∃l∈e.lease,
      l.prevHolder=some id ∧ l.transitions=t))
  | .release id => inferInstanceAs (Decidable (∃l∈e.lease,l.prevHolder=some id ∧
      l.transitions=(e.candidates id).lastTransitions))
  | .abandon _ | .restart _ => .isTrue trivial

/-- Everything a step does to the lease and to the list of elections. -/
inductive LeaseChange (e : Election) (op : ElectionOp) (e' : Election) : Prop
  | none (lease : e'.lease=e.lease) (elected : e'.elected=e.elected)
  | acquired (id : String) (answered : Bool) (existing : Option Lease) (call : op=.writeAcquire id answered)
      (phase : (e.candidates id).phase=.acquiring existing) (fresh : existing=.none → e.lease=.none)
      (lease : e'.lease=some (Election.heldBy id (Election.acquireTransitions id existing)))
      (elected : e'.elected=e.elected ∨
        e'.elected=e.elected++[(id,Election.acquireTransitions id existing)])
  | renewed (id : String) (answered : Bool) (t : Int) (call : op=.writeRenew id answered)
      (phase : (e.candidates id).phase=.renewing t) (lease : e'.lease=some (Election.heldBy id t))
      (elected : e'.elected=e.elected)
  | released (id : String) (call : op=.release id)
      (lease : e'.lease=some ⟨some "",some (e.candidates id).lastTransitions,some id⟩)
      (elected : e'.elected=e.elected)

variable {e e' : Election} {l : Lease} {elected : List (String × Int)}

theorem electionStep_change {op : ElectionOp} (h : ElectionStep e op e') : LeaseChange e op e' := by
  unfold ElectionStep Election.exec at h
  cases op with
  | getForAcquire id stale =>
    dsimp only at h
    split_ifs at h <;> cases h <;> exact .none rfl rfl
  | writeAcquire id answered =>
    cases hp : (e.candidates id).phase with
    | idle | renewing t => simp only [hp,reduceCtorEq] at h
    | acquiring existing =>
      simp only [hp] at h
      unfold Election.acquireWrite at h
      by_cases hex : existing=none ∧ e.lease≠none
      · rw [if_pos hex] at h
        cases h
        exact .none rfl rfl
      · rw [if_neg hex] at h
        have hfresh : existing=none → e.lease=none := by
          intro he
          by_contra hl
          exact hex ⟨he,hl⟩
        dsimp only at h
        split_ifs at h
        · cases h
          exact .acquired id _ existing rfl hp hfresh rfl (Or.inr rfl)
        · cases h
          exact .acquired id _ existing rfl hp hfresh rfl (Or.inl rfl)
  | getForRenew id =>
    cases hl : e.lease with
    | none =>
      rw [hl] at h
      cases h
      exact .none rfl rfl
    | some l =>
      rw [hl] at h
      dsimp only at h
      split_ifs at h <;> cases h <;> exact .none rfl rfl
  | writeRenew id answered =>
    cases hp : (e.candidates id).phase with
    | idle | acquiring existing => simp only [hp,reduceCtorEq] at h
    | renewing t =>
      simp only [hp] at h
      split_ifs at h <;> cases h <;> exact .renewed id _ t rfl hp rfl rfl
  | release id =>
    cases h
    exact .released id rfl rfl rfl
  | abandon id | restart id =>
    cases h
    exact .none rfl rfl

/-- No election is above the lease, and those at its transitions are its last holder's. -/
structure LeaseSound (l : Lease) (elected : List (String × Int)) : Prop where
  low : 0≤l.transitions
  bounded : ∀p∈elected,p.2≤l.transitions
  last : ∀p∈elected,p.2=l.transitions → ∀o,l.prevHolder=some o → o=p.1

structure ElectionSound (e : Election) : Prop where
  absent : e.lease=none → e.elected=[]
  lease : ∀l,e.lease=some l → LeaseSound l e.elected
  unique : ∀p∈e.elected,∀q∈e.elected,p.2=q.2 → p.1=q.1

theorem heldBy_prevHolder (id : String) (t : Int) (o : String)
    (h : (Election.heldBy id t).prevHolder=some o) : o=id := by
  unfold Lease.prevHolder Election.heldBy at h
  dsimp only at h
  split_ifs at h
  exact (Option.some.inj h).symm

theorem LeaseSound.kept {l' : Lease} (h : LeaseSound l elected)
    (id : String) (hid : l.prevHolder=some id) (ht : l'.transitions=l.transitions)
    (hp : ∀o,l'.prevHolder=some o → o=id) : LeaseSound l' elected where
  low := by
    rw [ht]
    exact h.low
  bounded := by
    rw [ht]
    exact h.bounded
  last := by
    intro p hmem hpt o ho
    rw [hp o ho]
    exact h.last p hmem (hpt.trans ht) id hid

theorem LeaseSound.acquired (h : LeaseSound l elected) (id : String) (hr : l.transitions+1<2^31) :
    LeaseSound (Election.heldBy id (nextTransitions l.prevHolder id l.transitions)) elected ∧
    l.transitions≤nextTransitions l.prevHolder id l.transitions ∧
    ∀p∈elected,p.2=nextTransitions l.prevHolder id l.transitions → p.1=id := by
  have hlow := h.low
  unfold nextTransitions
  by_cases hid : l.prevHolder=some id
  · rw [if_pos hid]
    refine ⟨h.kept id hid rfl (heldBy_prevHolder id _),le_refl _,?_⟩
    intro p hp hpt
    exact (h.last p hp hpt id hid).symm
  · have hwrap : wrapI32 (l.transitions+1)=l.transitions+1 := by
      unfold wrapI32
      omega
    rw [if_neg hid,hwrap]
    have hlt (p : String × Int) (hp : p∈elected) : p.2<l.transitions+1 := by
      have := h.bounded p hp
      omega
    refine ⟨⟨?_,fun p hp => le_of_lt (hlt p hp),?_⟩,by omega,?_⟩
    · change 0≤l.transitions+1
      omega
    · intro p hp hpt
      exact absurd hpt (ne_of_lt (hlt p hp))
    · intro p hp hpt
      exact absurd hpt (ne_of_lt (hlt p hp))

theorem ElectionSound.told (id : String)
    (h : LeaseSound l elected) (hu : ∀p∈elected,∀q∈elected,p.2=q.2 → p.1=q.1)
    (hid : ∀p∈elected,p.2=l.transitions → p.1=id) (hp : ∀o,l.prevHolder=some o → o=id) :
    LeaseSound l (elected++[(id,l.transitions)]) ∧
    ∀p∈elected++[(id,l.transitions)],∀q∈elected++[(id,l.transitions)],p.2=q.2 → p.1=q.1 := by
  refine ⟨⟨h.low,fun p hmem => ?_,fun p hmem hpt o ho => ?_⟩,fun p hmem q hq hpq => ?_⟩
  · rcases List.mem_append.mp hmem with hmem|hmem
    · exact h.bounded p hmem
    · rw [List.mem_singleton.mp hmem]
  · rw [hp o ho]
    rcases List.mem_append.mp hmem with hmem|hmem
    · exact (hid p hmem hpt).symm
    · rw [List.mem_singleton.mp hmem]
  · rcases List.mem_append.mp hmem with hmem|hmem <;> rcases List.mem_append.mp hq with hq|hq
    · exact hu p hmem q hq hpq
    · rw [List.mem_singleton.mp hq] at hpq ⊢
      exact hid p hmem hpq
    · rw [List.mem_singleton.mp hmem] at hpq ⊢
      exact (hid q hq hpq.symm).symm
    · rw [List.mem_singleton.mp hmem,List.mem_singleton.mp hq]

theorem ElectionSound.rewritten {l' : Lease} (h : ElectionSound e) (hold : e.lease=some l)
    (hl : e'.lease=some l') (he : e'.elected=e.elected) (hkept : LeaseSound l' e.elected)
    (hle : l.transitions≤l'.transitions) : ElectionSound e' ∧ e.transitions≤e'.transitions := by
  refine ⟨⟨fun hn => ?_,fun x hx => ?_,?_⟩,?_⟩
  · rw [hl] at hn
    cases hn
  · rw [hl] at hx
    cases hx
    rw [he]
    exact hkept
  · rw [he]
    exact h.unique
  · unfold Election.transitions
    rw [hl,hold]
    exact hle

theorem electionSound_step {op : ElectionOp} (h : ElectionSound e)
    (hok : ElectionOk e op) (hs : ElectionStep e op e') :
    ElectionSound e' ∧ e.transitions≤e'.transitions := by
  cases electionStep_change hs with
  | none hl he =>
    refine ⟨⟨?_,?_,?_⟩,?_⟩
    · rw [hl,he]
      exact h.absent
    · rw [hl,he]
      exact h.lease
    · rw [he]
      exact h.unique
    · unfold Election.transitions
      rw [hl]
  | acquired id answered existing call phase fresh hl he =>
    subst call
    -- the lease before the write, as the candidate has read it
    obtain ⟨l,hcur,hsound,hnext,hrange⟩ : ∃l : Lease,e.transitions=l.transitions ∧ LeaseSound l e.elected ∧
        Election.acquireTransitions id existing=nextTransitions l.prevHolder id l.transitions ∧
        l.transitions+1<2^31 := by
      cases existing with
      | none =>
        have hnone := fresh rfl
        refine ⟨{},?_,?_,rfl,by decide⟩
        · unfold Election.transitions
          rw [hnone]
          rfl
        · rw [h.absent hnone]
          exact ⟨by decide,by simp,by simp⟩
      | some read =>
        obtain ⟨l,hlease,ht,hp,hr⟩ := hok read (by rw [phase]; rfl)
        have hsome : e.lease=some l := hlease
        refine ⟨l,?_,h.lease l hlease,?_,hr⟩
        · unfold Election.transitions
          rw [hsome]
          rfl
        · rw [ht,hp]
          rfl
    obtain ⟨hheld,hle,hown⟩ := hsound.acquired id hrange
    rw [← hnext] at hheld hle hown
    have htold := ElectionSound.told id hheld h.unique hown (heldBy_prevHolder id _)
    have hmono : e.transitions≤e'.transitions := by
      rw [hcur]
      unfold Election.transitions
      rw [hl]
      exact hle
    refine ⟨⟨fun hn => ?_,fun l' hl' => ?_,?_⟩,hmono⟩
    · rw [hl] at hn
      cases hn
    · rw [hl] at hl'
      cases hl'
      rcases he with he|he
      · rw [he]
        exact hheld
      · rw [he]
        exact htold.1
    · rcases he with he|he
      · rw [he]
        exact h.unique
      · rw [he]
        exact htold.2
  | renewed id answered t call phase hl he =>
    subst call
    obtain ⟨l,hlease,hp,ht⟩ := hok t (by rw [phase]; rfl)
    have hkept : LeaseSound (Election.heldBy id t) e.elected :=
      (h.lease l hlease).kept id hp ht.symm (heldBy_prevHolder id t)
    exact h.rewritten hlease hl he hkept (le_of_eq ht)
  | released id call hl he =>
    subst call
    obtain ⟨l,hlease,hp,ht⟩ := hok
    have hkept : LeaseSound ⟨some "",some (e.candidates id).lastTransitions,some id⟩ e.elected :=
      (h.lease l hlease).kept id hp ht.symm (fun o ho => (Option.some.inj ho).symm)
    exact h.rewritten hlease hl he hkept (le_of_eq ht)

/-- In every run whose writes meet the lease they were computed from, no step lowers
`leaseTransitions`, and no two identities are elected under the same epoch. -/
theorem lease_epochs_unique (e : Election) (run : Reaches ElectionStep ElectionOk {} e) :
    (∀op e',ElectionOk e op → ElectionStep e op e' → e.transitions≤e'.transitions) ∧
    ∀i j epoch,(i,epoch)∈e.elected → (j,epoch)∈e.elected → i=j := by
  have h0 : ElectionSound {} := ⟨fun _ => rfl,nofun,by simp⟩
  have h := run.invariant h0 (fun _ _ _ h hok hs => (electionSound_step h hok hs).1)
  refine ⟨fun op e' hok hs => (electionSound_step h hok hs).2,?_⟩
  intro i j epoch hi hj
  exact h.unique _ hi _ hj rfl

theorem handover_epochs_unique :
    ∃e,runChecked Election.exec ElectionOk [.getForAcquire "kaas-0" false,.writeAcquire "kaas-0" true,
        .release "kaas-0",.getForAcquire "kaas-0" false,.writeAcquire "kaas-0" true,
        .getForAcquire "kaas-1" true,.writeAcquire "kaas-1" true] {}=some e ∧
      e.elected=[("kaas-0",1),("kaas-0",1),("kaas-1",2)] ∧
      ∀i j epoch,(i,epoch)∈e.elected → (j,epoch)∈e.elected → i=j := by
  refine runChecked_outcome (p := fun e => e.elected=[("kaas-0",1),("kaas-0",1),("kaas-1",2)])
    (fun _ _ _ h => h) (by decide +kernel) fun e hreach helected => ?_
  exact ⟨helected,(lease_epochs_unique e hreach).2⟩

/-- Two candidates that read the same expired lease both write and both return epoch 2; and a
deposed holder that releases puts its own, lower count back. -/
theorem stale_lease_elects_two :
    (∃e,runAll Election.exec [.getForAcquire "kaas-0" false,.writeAcquire "kaas-0" true,
        .getForAcquire "kaas-1" true,.getForAcquire "kaas-2" true,.writeAcquire "kaas-1" true,
        .writeAcquire "kaas-2" true] {}=some e ∧ ("kaas-1",2)∈e.elected ∧ ("kaas-2",2)∈e.elected) ∧
    ∃e e',runAll Election.exec [.getForAcquire "kaas-0" false,.writeAcquire "kaas-0" true,
        .getForAcquire "kaas-1" true,.writeAcquire "kaas-1" true] {}=some e ∧
      ElectionStep e (.release "kaas-0") e' ∧ e.transitions=2 ∧ e'.transitions=1 := by
  have hrelease : ∃e∈runAll Election.exec [.getForAcquire "kaas-0" false,
      .writeAcquire "kaas-0" true,.getForAcquire "kaas-1" true,.writeAcquire "kaas-1" true] {},
      e.transitions=2 ∧ (e.candidates "kaas-0").lastTransitions=1 := by
    decide +kernel
  obtain ⟨r,hr,ht,hlast⟩ := hrelease
  exact ⟨exists_outcome (by decide +kernel),r,_,hr,rfl,ht,hlast⟩

end Kaas
