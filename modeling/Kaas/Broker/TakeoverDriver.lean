import Kaas.Broker.Coordinator
import Kaas.Framework.Run
import Kaas.Storage.Lifecycle

namespace Kaas

/-- What is left of a spawned task: the two halves of a `take_over`, the second bound to the
partition object the first has found, or a `relinquish`. -/
inductive DriverTask
  | takeOver (key : PartitionKey) (epoch : UInt32)
  | raise (object : Nat) (epoch : UInt32)
  | relinquish (key : PartitionKey)
  deriving DecidableEq, Repr

/-- A broker's open partitions under the assignment in effect. `partitions` is the map of the disk
engine, `epochs` holds the epoch of each partition object that was ever opened. -/
structure Driver where
  brokerId : String
  current : Option Assignment := none
  partitions : AList (fun _ : PartitionKey => Nat) := ∅
  epochs : List Int := []
  tasks : List DriverTask := []

def ownedBy (brokerId : String) : Option Assignment → AList (fun _ : PartitionKey => UInt32)
  | none => ∅
  | some a => Coordinator.buildOwnership brokerId a.partitions

inductive DriverOp
  | applied (next : Assignment)
  | reconcile
  | ensureOpen (task : Nat) (manifestEpoch : Int)
  | raise (task : Nat)
  | relinquish (task : Nat)
  | fail (task : Nat)

namespace Driver

def owned (d : Driver) : AList (fun _ : PartitionKey => UInt32) := ownedBy d.brokerId d.current

def changes (prev next : AList (fun _ : PartitionKey => UInt32)) : List DriverTask :=
  (next.entries.filter (fun e => decide (prev.lookup e.1≠some e.2))).map
      (fun e => .takeOver e.1 e.2)++
    (prev.entries.filter (fun e => decide (e.1∉next))).map (fun e => .relinquish e.1)

def partitionEpoch (d : Driver) (key : PartitionKey) : Option Int :=
  (d.partitions.lookup key).bind (fun object => d.epochs[object]?)

def converged (d : Driver) (key : PartitionKey) (epoch : UInt32) : Bool :=
  decide (key∈d.partitions) &&
    !(d.partitionEpoch key).any (fun held => decide (held<(epoch.toNat : Int)))

def redriven (d : Driver) : List DriverTask :=
  (d.owned.entries.filter (fun e => !d.converged e.1 e.2)).map (fun e => .takeOver e.1 e.2)

def ensureOpen (d : Driver) (key : PartitionKey) (manifestEpoch : Int) : Driver × Nat :=
  match d.partitions.lookup key with
  | some object => (d,object)
  | none => ({d with
      partitions := d.partitions.insert key d.epochs.length
      epochs := d.epochs++[manifestEpoch]},d.epochs.length)

def raisedEpoch (current : Int) (epoch : UInt32) : Int :=
  if (epoch.toNat : Int)≤ current then current else epoch.toNat

def exec (d : Driver) : DriverOp → Option Driver
  | .applied next => some {d with
      current := some next
      tasks := d.tasks++changes d.owned (ownedBy d.brokerId (some next))}
  | .reconcile => some {d with tasks := d.tasks++d.redriven}
  | .ensureOpen i manifestEpoch => match d.tasks[i]? with
    | some (.takeOver key epoch) =>
      some {(d.ensureOpen key manifestEpoch).1 with
        tasks := d.tasks.set i (.raise (d.ensureOpen key manifestEpoch).2 epoch)}
    | _ => none
  | .raise i => match d.tasks[i]? with
    | some (.raise object epoch) => some {d with
        epochs := d.epochs.modify object (fun current => raisedEpoch current epoch)
        tasks := d.tasks.eraseIdx i}
    | _ => none
  | .relinquish i => match d.tasks[i]? with
    | some (.relinquish key) => some {d with
        partitions := d.partitions.erase key
        tasks := d.tasks.eraseIdx i}
    | _ => none
  | .fail i => match d.tasks[i]? with
    | some (.takeOver _ _) => some {d with tasks := d.tasks.eraseIdx i}
    | some (.raise _ _) => some {d with tasks := d.tasks.eraseIdx i}
    | _ => none

end Driver

def DriverTask.opens : DriverTask → Option PartitionKey
  | .takeOver key _ => some key
  | _ => none

/-- A task opens a partition only while the assignment in effect gives it to this broker, or
while a `relinquish` of it is still to run. -/
def DriverOk (d : Driver) : DriverOp → Prop
  | .ensureOpen i _ => ∀task∈d.tasks[i]?,∀key∈task.opens,key∈d.partitions ∨ key∈d.owned ∨
      .relinquish key∈d.tasks
  | _ => True

instance (d : Driver) : (op : DriverOp) → Decidable (DriverOk d op)
  | .applied _ | .reconcile => .isTrue trivial
  | .ensureOpen i _ => inferInstanceAs (Decidable (∀task∈d.tasks[i]?,∀key∈task.opens,
      key∈d.partitions ∨ key∈d.owned ∨ .relinquish key∈d.tasks))
  | .raise _ | .relinquish _ | .fail _ => .isTrue trivial

def DriverStep (d : Driver) (op : DriverOp) (d' : Driver) : Prop := d.exec op=some d'

/-- Every open partition is owned or about to be relinquished, and its object exists. -/
structure DriverSound (d : Driver) : Prop where
  held : ∀key∈d.partitions,key∈d.owned ∨ .relinquish key∈d.tasks
  object : ∀key object,d.partitions.lookup key=some object → object<d.epochs.length

theorem mem_tasks_of_ne {tasks : List DriverTask} {i : Nat} {task other : DriverTask}
    (hi : tasks[i]?=some task) (hm : other∈tasks) (hne : other≠task) (next : DriverTask) :
    other∈tasks.eraseIdx i ∧ other∈tasks.set i next := by
  obtain ⟨j,hj⟩ := List.mem_iff_getElem?.mp hm
  have hij : i≠j := by
    rintro rfl
    rw [hi] at hj
    exact hne (Option.some.inj hj).symm
  refine ⟨List.mem_eraseIdx_iff_getElem?.mpr ⟨j,fun he => hij he.symm,hj⟩,?_⟩
  exact List.mem_iff_getElem?.mpr ⟨j,by rw [List.getElem?_set_ne hij]; exact hj⟩

theorem mem_changes_relinquish {prev next : AList (fun _ : PartitionKey => UInt32)} {key : PartitionKey}
    (hp : key∈prev) (hn : key∉next) : .relinquish key∈Driver.changes prev next := by
  obtain ⟨epoch,he⟩ := Option.isSome_iff_exists.mp (AList.lookup_isSome.mpr hp)
  refine List.mem_append_right _ (List.mem_map.mpr ⟨⟨key,epoch⟩,?_,rfl⟩)
  exact List.mem_filter.mpr ⟨AList.mem_lookup_iff.mp he,decide_eq_true hn⟩

theorem ensureOpen_sound {d : Driver} (h : DriverSound d) (key : PartitionKey) (m : Int) :
    (∀k,k∈(d.ensureOpen key m).1.partitions → k=key ∨ k∈d.partitions) ∧
    ∀k object,(d.ensureOpen key m).1.partitions.lookup k=some object →
      object<(d.ensureOpen key m).1.epochs.length := by
  unfold Driver.ensureOpen
  cases hl : d.partitions.lookup key with
  | some object => exact ⟨fun k hk => Or.inr hk,h.object⟩
  | none =>
    refine ⟨fun k hk => ?_,fun k object ho => ?_⟩
    · exact (AList.mem_insert _).mp hk
    · change object<(d.epochs++[m]).length
      rw [List.length_append,List.length_singleton]
      by_cases hk : k=key
      · subst hk
        change (d.partitions.insert k d.epochs.length).lookup k=some object at ho
        rw [AList.lookup_insert] at ho
        cases ho
        omega
      · change (d.partitions.insert key d.epochs.length).lookup k=some object at ho
        rw [AList.lookup_insert_ne hk] at ho
        have := h.object k object ho
        omega

theorem DriverSound.erased {d : Driver} {i : Nat} {task : DriverTask} (h : DriverSound d)
    (ht : d.tasks[i]?=some task) (hne : ∀k,.relinquish k≠task) :
    DriverSound {d with tasks := d.tasks.eraseIdx i} := by
  refine ⟨fun k hk => ?_,h.object⟩
  exact (h.held k hk).imp_right (fun hm => (mem_tasks_of_ne ht hm (hne k) (.relinquish k)).1)

theorem driverSound_step {d d' : Driver} {op : DriverOp} (h : DriverSound d) (hok : DriverOk d op)
    (hs : DriverStep d op d') : DriverSound d' := by
  unfold DriverStep Driver.exec at hs
  cases op with
  | applied next =>
    cases hs
    refine ⟨fun key hk => ?_,h.object⟩
    change key∈ownedBy d.brokerId (some next) ∨ _∈d.tasks++_
    by_cases hn : key∈ownedBy d.brokerId (some next)
    · exact Or.inl hn
    · rcases h.held key hk with ho|ht
      · exact Or.inr (List.mem_append_right _ (mem_changes_relinquish ho hn))
      · exact Or.inr (List.mem_append_left _ ht)
  | reconcile =>
    cases hs
    refine ⟨fun key hk => ?_,h.object⟩
    exact (h.held key hk).imp_right (List.mem_append_left _)
  | ensureOpen i m =>
    dsimp only at hs
    split at hs
    · rename_i key epoch ht
      cases hs
      obtain ⟨hopen,hobject⟩ := ensureOpen_sound h key m
      have howned : (d.ensureOpen key m).1.owned=d.owned := by
        unfold Driver.ensureOpen
        cases d.partitions.lookup key <;> rfl
      refine ⟨fun k hk => ?_,hobject⟩
      have hbefore : k∈d.owned ∨ .relinquish k∈d.tasks := by
        rcases hopen k hk with rfl|hk
        · rcases hok _ ht k rfl with hold|hgood
          · exact h.held k hold
          · exact hgood
        · exact h.held k hk
      change k∈(d.ensureOpen key m).1.owned ∨ _
      rw [howned]
      exact hbefore.imp_right (fun hm => (mem_tasks_of_ne ht hm (by simp) _).2)
    · cases hs
  | raise i =>
    dsimp only at hs
    split at hs
    · rename_i object epoch ht
      cases hs
      refine ⟨(h.erased ht (by simp)).held,fun k o ho => ?_⟩
      change o<(d.epochs.modify object _).length
      rw [List.length_modify]
      exact h.object k o ho
    · cases hs
  | relinquish i =>
    dsimp only at hs
    split at hs
    · rename_i key ht
      cases hs
      refine ⟨fun k hk => ?_,fun k o ho => ?_⟩
      · obtain ⟨hne,hk⟩ := AList.mem_erase.mp hk
        refine (h.held k hk).imp_right (fun hm => (mem_tasks_of_ne ht hm ?_ (.relinquish k)).1)
        intro he
        exact hne (DriverTask.relinquish.inj he)
      · have hk : k∈d.partitions.erase key := AList.lookup_isSome.mp (by rw [ho]; rfl)
        rw [AList.lookup_erase_ne (AList.mem_erase.mp hk).1] at ho
        exact h.object k o ho
    · cases hs
  | fail i =>
    dsimp only at hs
    split at hs
    · rename_i key epoch ht
      cases hs
      exact h.erased ht (by simp)
    · rename_i object epoch ht
      cases hs
      exact h.erased ht (by simp)
    · cases hs

theorem owned_converged {d : Driver} (h : DriverSound d) (quiet : d.redriven=[])
    {key : PartitionKey} {epoch : UInt32} (ho : d.owned.lookup key=some epoch) :
    key∈d.partitions ∧ ∃held,d.partitionEpoch key=some held ∧ (epoch.toNat : Int)≤held := by
  have hmem : ⟨key,epoch⟩∈d.owned.entries := AList.mem_lookup_iff.mp ho
  have hconv : d.converged key epoch=true := by
    by_contra hc
    have hin : DriverTask.takeOver key epoch∈d.redriven :=
      List.mem_map.mpr ⟨⟨key,epoch⟩,List.mem_filter.mpr ⟨hmem,by simpa using hc⟩,rfl⟩
    rw [quiet] at hin
    cases hin
  obtain ⟨hopen,hepoch⟩ := Bool.and_eq_true_iff.mp hconv
  have hopen := of_decide_eq_true hopen
  obtain ⟨object,hobject⟩ := Option.isSome_iff_exists.mp (AList.lookup_isSome.mpr hopen)
  have hlt := h.object key object hobject
  have hheld : d.partitionEpoch key=some (d.epochs.get ⟨object,hlt⟩) := by
    unfold Driver.partitionEpoch
    rw [hobject]
    exact List.getElem?_eq_getElem hlt
  refine ⟨hopen,_,hheld,?_⟩
  rw [hheld] at hepoch
  simpa using hepoch

/-- Once all tasks have finished and a reconcile pass re-drives nothing, a broker has open exactly
what the last assignment gives it, each at the assigned epoch or above. -/
theorem settled_open_iff_owned (brokerId : String) (d : Driver)
    (run : Reaches DriverStep DriverOk {brokerId := brokerId} d) (finished : d.tasks=[])
    (quiet : d.redriven=[]) :
    (∀key,key∈d.partitions ↔ key∈d.owned) ∧
    ∀key epoch,d.owned.lookup key=some epoch →
      ∃held,d.partitionEpoch key=some held ∧ (epoch.toNat : Int)≤held := by
  have h0 : DriverSound {brokerId := brokerId} := by
    refine ⟨fun key hk => absurd hk (AList.notMem_empty key),fun key object ho => ?_⟩
    cases ho
  have h := run.invariant h0 (fun _ _ _ h hok hs => driverSound_step h hok hs)
  refine ⟨fun key => ⟨fun hk => ?_,fun hk => ?_⟩,fun key epoch ho => (owned_converged h quiet ho).2⟩
  · rcases h.held key hk with ho|ht
    · exact ho
    · rw [finished] at ht
      cases ht
  · obtain ⟨epoch,he⟩ := Option.isSome_iff_exists.mp (AList.lookup_isSome.mpr hk)
    exact (owned_converged h quiet he).1

def ownsOne : Assignment := ⟨1,1,[⟨"t",0,"kaas-0",1⟩]⟩

def ownsNone : Assignment := ⟨1,2,[]⟩

theorem redriven_partition_settles :
    ∃d,runChecked Driver.exec DriverOk [.applied ownsOne,.ensureOpen 0 0,.fail 0,.reconcile,
        .ensureOpen 0 0,.raise 0] {brokerId := "kaas-0"}=some d ∧
      d.tasks=[] ∧ d.redriven=[] ∧ ("t",0)∈d.partitions ∧ ("t",0)∈d.owned := by
  refine runChecked_outcome (p := fun d => d.tasks=[] ∧ d.redriven=[] ∧ ("t",0)∈d.owned)
    (fun _ _ _ h => h) (by decide +kernel) fun d hreach ⟨finished,quiet,howned⟩ => ?_
  exact ⟨finished,quiet,((settled_open_iff_owned "kaas-0" d hreach finished quiet).1 _).mpr howned,howned⟩

/-- The relinquish of the second assignment overtakes the take-over of the first: the partition
stays open on a broker that does not own it, and no reconcile pass looks at it again. -/
theorem late_takeover_stays_open :
    ∃d,runAll Driver.exec [.applied ownsOne,.applied ownsNone,.relinquish 1,.ensureOpen 0 0,
        .raise 0] {brokerId := "kaas-0"}=some d ∧
      d.tasks=[] ∧ d.redriven=[] ∧ ("t",0)∈d.partitions ∧ ("t",0)∉d.owned :=
  exists_outcome (by decide +kernel)

end Kaas
