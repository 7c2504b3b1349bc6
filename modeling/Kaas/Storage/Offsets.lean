import Kaas.Framework.Run
import Kaas.Math.Ranges
import Kaas.Storage.Append

namespace Kaas

structure AppendCall where
  cfg : PartitionConfig := {}
  env : IoEnv := {}
  epoch : UInt32 := 0
  batch : Bytes

structure OffsetLog where
  store : Store
  ranges : List (Int × Int) := []

def assignedRange (batch : Bytes) : Except StorageError Appended → List (Int × Int)
  | .ok (.stored assigned _ _) => [(assigned,assigned+recordCount batch)]
  | _ => []

def OffsetLog.append (c : AppendCall) (l : OffsetLog) : Option OffsetLog :=
  match appendLocked c.cfg c.env c.epoch c.batch l.store with
  | none => none
  | some (s,r) => some ⟨s,l.ranges++assignedRange c.batch r⟩

/-- A batch the checks let through has its offset field, and one long enough for a header
counts at least one record and does not leave `i64`. -/
def SafeCall (l : OffsetLog) (c : AppendCall) : Prop :=
  ∀accepted,admission l.store.toPartitionInner c.epoch c.batch=.admitted accepted → 8≤ c.batch.length ∧
    (43≤ c.batch.length → 0≤lastOffsetDelta c.batch ∧ l.store.highWater+recordCount c.batch<2^63)

variable {c : AppendCall} {l : OffsetLog}

theorem append_offsets {l' : OffsetLog} (hl : -2^63≤l.store.highWater)
    (hc : SafeCall l c) (h : l.append c=some l') :
    (l'.store.highWater=l.store.highWater ∧ l'.ranges=l.ranges) ∨
    (l.store.highWater<l'.store.highWater ∧
      l'.ranges=l.ranges++[(l.store.highWater,l'.store.highWater)]) := by
  unfold OffsetLog.append at h
  split at h
  · cases h
  · rename_i s r ha
    cases h
    cases appendLocked_step ha with
    | refused e _ | known base _ => exact Or.inl ⟨rfl,by simp [assignedRange]⟩
    | rollFailed accepted s1 e _ roll | failed accepted s1 d e _ roll _ _ =>
      exact Or.inl ⟨(rollIfDue_ledger roll).highWater,by simp [assignedRange]⟩
    | stored accepted s1 d a admitted roll long write =>
      obtain ⟨hd,hu⟩ := (hc accepted admitted).2 long
      have hw := (rollIfDue_ledger roll).highWater
      have hn : (advance c.cfg accepted c.batch {s1 with active := a,dir := d}).1.highWater=
          l.store.highWater+recordCount c.batch := by
        rw [← hw] at hl hu ⊢
        exact advance_highWater_eq c.cfg accepted c.batch s1 a d hl hd hu
      refine Or.inr ⟨?_,?_⟩
      · rw [hn,recordCount]; omega
      · rw [hn]
        change l.ranges++[(s1.highWater,s1.highWater+recordCount c.batch)]=_
        rw [hw]

theorem append_defined (hc : SafeCall l c) : ∃l',l.append c=some l' := by
  have hd : ∃p,appendLocked c.cfg c.env c.epoch c.batch l.store=some p := by
    unfold appendLocked
    split
    · exact ⟨_,rfl⟩
    · exact ⟨_,rfl⟩
    · rename_i accepted ha
      split
      · exact ⟨_,rfl⟩
      · rw [if_neg (not_lt.mpr (hc accepted ha).1)]
        exact ⟨_,rfl⟩
  obtain ⟨⟨s,r⟩,hp⟩ := hd
  exact ⟨⟨s,l.ranges++assignedRange c.batch r⟩,by simp only [OffsetLog.append,hp]⟩

/-- What a run of appends keeps: the assigned ranges tile the offsets it has handed out. -/
structure Tiled (start : Int) (l : OffsetLog) : Prop where
  contiguous : Contiguous start l.ranges l.store.highWater
  nonempty : ∀r∈l.ranges,r.1<r.2
  signed : -2^63≤l.store.highWater

theorem tiled_append {start : Int} {l' : OffsetLog}
    (ht : Tiled start l) (hc : SafeCall l c) (h : l.append c=some l') : Tiled start l' := by
  rcases append_offsets ht.signed hc h with ⟨hw,hr⟩|⟨hw,hr⟩
  · exact ⟨by rw [hw,hr]; exact ht.contiguous,by rw [hr]; exact ht.nonempty,by rw [hw]; exact ht.signed⟩
  · refine ⟨by rw [hr]; exact ht.contiguous.concat _,?_,by have := ht.signed; omega⟩
    intro r hm
    rw [hr] at hm
    rcases List.mem_append.mp hm with hm|hm
    · exact ht.nonempty r hm
    · rw [List.mem_singleton.mp hm]
      exact hw

/-- In every run of safe appends from any partition state the assigned ranges are non-empty,
disjoint and contiguous up to the high watermark, and the next safe append neither panics nor
lowers it. -/
theorem safe_appends_tile_offsets (s : Store) (hs : -2^63≤ s.highWater) (l : OffsetLog)
    (run : Reaches (fun l c l' => l.append c=some l') SafeCall ⟨s,[]⟩ l) :
    Contiguous s.highWater l.ranges l.store.highWater ∧ (∀r∈l.ranges,r.1<r.2) ∧
    l.ranges.Pairwise (fun a b => a.2≤b.1) ∧ s.highWater≤l.store.highWater ∧
    ∀c,SafeCall l c → ∃l',l.append c=some l' ∧ l.store.highWater≤l'.store.highWater := by
  have ht : Tiled s.highWater l := run.invariant
    ⟨rfl,by simp,hs⟩ (fun l c l' hl hc h => tiled_append hl hc h)
  refine ⟨ht.contiguous,ht.nonempty,ht.contiguous.disjoint ht.nonempty,
    (ht.contiguous.bounds ht.nonempty).1,?_⟩
  intro c hc
  obtain ⟨l',hl'⟩ := append_defined hc
  refine ⟨l',hl',?_⟩
  rcases append_offsets ht.signed hc hl' with ⟨hw,_⟩|⟨hw,_⟩ <;> omega

instance SafeCall.decidable (l : OffsetLog) (c : AppendCall) : Decidable (SafeCall l c) :=
  inferInstanceAs (Decidable (∀accepted,admission _ _ _=.admitted accepted → _ ∧ _))

/-- A producer's batch, its retry, one out of the producer's order, and five records of no producer:
two ranges are assigned. -/
theorem safe_appends_tile_two :
    ∃l,runChecked (fun l c => OffsetLog.append c l) SafeCall [{batch := seqBatch 0 0},{batch := seqBatch 0 0},
        {batch := seqBatch 5 0},{batch := encodeBatch castagnoli {lastOffsetDelta := 4}}]
          ⟨firstStore,[]⟩=some l ∧
      l.ranges=[(0,1),(1,6)] ∧ Contiguous 0 l.ranges l.store.highWater :=
  runChecked_outcome (p := fun l => l.ranges=[(0,1),(1,6)]) (fun _ _ _ h => h) (by decide +kernel)
    fun l hrun hranges => ⟨hranges,(safe_appends_tile_offsets firstStore (by decide) l hrun).1⟩

/-- An empty batch panics; a batch that counts minus one records lowers the high watermark. -/
theorem append_panics_and_rewinds : appendLocked {} {} 0 [] firstStore=none ∧
    (appendLocked {} {} 0 (encodeBatch castagnoli {lastOffsetDelta := -2}) firstStore).map
      (fun p => p.1.highWater)=some (-1) := by
  refine ⟨rfl,?_⟩
  decide +kernel

end Kaas
