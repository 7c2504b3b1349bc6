import Kaas.Group.OffsetMirror

namespace Kaas

/-! Calls on the offset store whose write fails, and the offsets staged by transactions. -/

structure TxnOffsets where
  store : OffsetCache := {}
  file : JsonFile OffsetFile := .absent
  pending : AList (fun _ : String × Int => OffsetMap) := ∅

namespace TxnOffsets

def storePending (w : TxnOffsets) (group : String) (producerId : Int) (offsets : OffsetMap) : TxnOffsets :=
  let slot := (w.pending.lookup (group,producerId)).getD ∅
  {w with pending := w.pending.insert (group,producerId) (offsets.entries.foldl (fun m e => m.insert e.1 e.2) slot)}

def commitPending (w : TxnOffsets) (io : OffsetIo) (group : String) (producerId : Int) :
    TxnOffsets × OffsetResult :=
  match w.pending.lookup (group,producerId) with
  | none => (w,.ok)
  | some offsets =>
    let (s,f,r) := w.store.commitWithMetadata w.file io.fence io.readable io.written group offsets ∅
    (⟨s,f,w.pending.erase (group,producerId)⟩,r)

def Durable (w : TxnOffsets) (offsets : OffsetMap) : Prop :=
  ∀k v,offsets.lookup k=some v → (fileContents w.file).offsets.lookup k=some v

end TxnOffsets

namespace OffsetCache

variable {s : OffsetCache} {f : JsonFile OffsetFile} {io : OffsetIo} {group k : String}
  {m offsets : OffsetMap} {metadata : MetadataMap} {keys : List String}

theorem fetchKey_eq (s : OffsetCache) (group k : String) :
    s.fetchKey group k=((s.contents group).offsets.lookup k).getD (-1) := by
  unfold fetchKey contents
  cases s.cache.lookup group <;> rfl

theorem commit_failed (h :
    (s.commitWithMetadata f io.fence io.readable io.written group offsets metadata).2.2≠.ok) :
    (s.commitWithMetadata f io.fence io.readable io.written group offsets metadata).1.contents group=
      (s.mergeCommit group offsets metadata).1.contents group ∧
    (s.commitWithMetadata f io.fence io.readable io.written group offsets metadata).2.1=f := by
  unfold commitWithMetadata at h ⊢
  simp only at h ⊢
  split_ifs at h ⊢
  · rcases (s.mergeCommit group offsets metadata).1.writeGroup_done f io group
      ((s.mergeCommit group offsets metadata).1.contents group) with hw|⟨r,-,hw⟩
    · rw [hw] at h
      exact absurd rfl h
    · rw [hw]
      exact ⟨rfl,rfl⟩
  · exact absurd rfl h

theorem commit_failed_visible
    (h : (s.commitWithMetadata f io.fence io.readable io.written group offsets metadata).2.2≠.ok) :
    (∀k,(s.commitWithMetadata f io.fence io.readable io.written group offsets metadata).1.fetchKey group k=
      s.fetchKey group k) ↔ ∀k v,offsets.lookup k=some v → s.fetchKey group k=v := by
  have hkey (k : String) :
      (s.commitWithMetadata f io.fence io.readable io.written group offsets metadata).1.fetchKey
        group k= (offsets.lookup k).getD (s.fetchKey group k) := by
    rw [fetchKey_eq,(commit_failed h).1,mergeCommit_lookup,fetchKey_eq]
    cases offsets.lookup k <;> rfl
  simp only [hkey]
  constructor
  · intro hsame k v hv
    have := hsame k
    rw [hv] at this
    exact this.symm
  · intro hthere k
    cases hv : offsets.lookup k with
    | none => rfl
    | some v => exact (hthere k v hv).symm

theorem delete_failed_visible
    (h : (s.deletePartitions f io.fence io.readable io.written group keys).2.2.1≠.ok) :
    (∀k,(s.deletePartitions f io.fence io.readable io.written group keys).1.fetchKey group
      k=s.fetchKey group k) ↔
      ∀k∈keys,s.fetchKey group k=-1 := by
  have hin : s.cache.lookup group≠none := by
    intro hm
    simp only [deletePartitions,mergeDelete,hm,Option.map_none] at h
    exact absurd rfl h
  obtain ⟨m,hm⟩ := Option.ne_none_iff_exists'.mp hin
  have hs (k : String) : s.fetchKey group k=(m.lookup k).getD (-1) := by
    rw [fetchKey_eq]
    simp [contents,hm]
  have hkey (k : String) : (s.deletePartitions f io.fence io.readable io.written group keys).1.fetchKey group k=
      if k∈keys then -1 else s.fetchKey group k := by
    have hafter : (s.deletePartitions f io.fence io.readable io.written group keys).1.contents group=
        (s.dropKeys group m (keys.filter (fun k => decide (k∈m)))).contents group := by
      unfold deletePartitions mergeDelete
      rw [hm]
      dsimp only [Option.map_some]
      rcases (s.dropKeys group m (keys.filter (fun k => decide (k∈m)))).writeGroup_done f io group
        ((s.dropKeys group m (keys.filter (fun k => decide (k∈m)))).contents group) with hw|⟨r,-,hw⟩
      · rw [hw]
        rfl
      · rw [hw]
        rfl
    rw [fetchKey_eq,hafter,dropKeys_lookup,hs]
    by_cases hk : k∈m
    · simp only [List.mem_filter,hk,decide_true,and_true]
      split_ifs <;> rfl
    · have hnone := AList.lookup_eq_none.mpr hk
      simp [hk,hnone]
  simp only [hkey]
  constructor
  · intro hsame k hk
    have := hsame k
    rw [if_pos hk] at this
    exact this.symm
  · intro hgone k
    split_ifs with hk
    · exact (hgone k hk).symm
    · rfl

end OffsetCache

/-- A commit, OffsetDelete or commit of staged offsets whose write fails or is refused leaves what
OffsetFetch shows exactly when there was nothing in it to move; a commit of staged offsets that
failed does nothing when called again. -/
theorem failed_calls_iff (w : TxnOffsets) (group : String) (io : OffsetIo) : (∀offsets metadata,
      (w.store.commitWithMetadata w.file io.fence io.readable io.written group offsets metadata).2.2≠.ok →
      ((∀k,(w.store.commitWithMetadata w.file io.fence io.readable io.written group offsets
        metadata).1.fetchKey group k=
        w.store.fetchKey group k) ↔ ∀k v,offsets.lookup k=some v → w.store.fetchKey group k=v)) ∧
    (∀keys,(w.store.deletePartitions w.file io.fence io.readable io.written group keys).2.2.1≠.ok →
      ((∀k,(w.store.deletePartitions w.file io.fence io.readable io.written group keys).1.fetchKey group k=
        w.store.fetchKey group k) ↔ ∀k∈keys,w.store.fetchKey group k=-1)) ∧
    ∀producerId staged,w.pending.lookup (group,producerId)=some staged →
      (w.commitPending io group producerId).2≠.ok →
      ((∀k,(w.commitPending io group producerId).1.store.fetchKey group k=w.store.fetchKey group k) ↔
        ∀k v,staged.lookup k=some v → w.store.fetchKey group k=v) ∧
      ∀again,(w.commitPending io group producerId).1.commitPending again group producerId=
          ((w.commitPending io group producerId).1,.ok) ∧
        (((w.commitPending io group producerId).1.commitPending again group producerId).1.Durable staged ↔
          w.Durable staged) := by
  refine ⟨fun _ _ h => OffsetCache.commit_failed_visible h,fun _ h => OffsetCache.delete_failed_visible h,?_⟩
  intro producerId staged hstaged h
  have hcall : w.commitPending io group producerId=
      (⟨(w.store.commitWithMetadata w.file io.fence io.readable io.written group staged ∅).1,
        (w.store.commitWithMetadata w.file io.fence io.readable io.written group staged ∅).2.1,
        w.pending.erase (group,producerId)⟩,
        (w.store.commitWithMetadata w.file io.fence io.readable io.written group staged ∅).2.2) := by
    unfold TxnOffsets.commitPending
    rw [hstaged]
  rw [hcall] at h ⊢
  refine ⟨OffsetCache.commit_failed_visible h,fun again => ?_⟩
  have hagain (t : TxnOffsets) (ht : t.pending=w.pending.erase (group,producerId)) :
      t.commitPending again group producerId=(t,.ok) := by
    unfold TxnOffsets.commitPending
    rw [ht,AList.lookup_erase]
  rw [hagain _ rfl]
  refine ⟨rfl,?_⟩
  unfold TxnOffsets.Durable
  rw [(OffsetCache.commit_failed h).2]

theorem failed_calls_repeated :
    let w : TxnOffsets := {store :=
      ((({} : OffsetMirror).exec "g" (.commit {} (oneOffset "t/0" 5) ∅)).store.markDirty "g")}
    (w.store.commitWithMetadata w.file {} true false "g" (oneOffset "t/0" 5) ∅).2.2=.io ∧
    ∀k,(w.store.commitWithMetadata w.file {} true false "g" (oneOffset "t/0" 5) ∅).1.fetchKey "g" k=
      w.store.fetchKey "g" k := by
  intro w
  have hio : (w.store.commitWithMetadata w.file {} true false "g" (oneOffset "t/0" 5) ∅).2.2=.io :=
    by decide +kernel
  refine ⟨hio,((failed_calls_iff w "g" {written := false}).1 (oneOffset "t/0" 5) ∅ (by rw [hio]; nofun)).mpr ?_⟩
  intro k v hv
  have hk : k="t/0" := by
    by_contra hne
    rw [oneOffset,AList.lookup_insert_ne hne] at hv
    cases hv
  subst hk
  rw [oneOffset,AList.lookup_insert] at hv
  cases hv
  decide +kernel

def stagedOffset : TxnOffsets := ({} : TxnOffsets).storePending "g" 7 (oneOffset "t/0" 5)

/-- The offset of a commit that fails is shown. The staged offset is shown as well, it is no longer
staged, and the retry reports success without a file. -/
theorem failed_calls_visible :
    ((({} : OffsetCache).commitWithMetadata .absent {} true false "g" (oneOffset "t/0" 5) ∅).2.2=.io ∧
      (({} : OffsetCache).commitWithMetadata .absent {} true false "g" (oneOffset "t/0" 5)
        ∅).1.fetchKey "g" "t/0"=5 ∧
      ({} : OffsetCache).fetchKey "g" "t/0"=-1) ∧
    (stagedOffset.commitPending {written := false} "g" 7).2=.io ∧
    (stagedOffset.commitPending {written := false} "g" 7).1.store.fetchKey "g" "t/0"=5 ∧
    ((stagedOffset.commitPending {written := false} "g" 7).1.pending.lookup ("g",7)).isNone ∧
    ((stagedOffset.commitPending {written := false} "g" 7).1.commitPending {} "g" 7).2=.ok ∧
    ((stagedOffset.commitPending {written := false} "g" 7).1.commitPending {} "g" 7).1.file=.absent := by
  decide +kernel

end Kaas
