import Kaas.Group.TopicPurge

namespace Kaas

/-! OffsetCommit and OffsetFetch between the wire and the store. -/

instance (p : Int) : Decidable (PartitionIndex p) := inferInstanceAs (Decidable (_ ∧ _))

/-- One partition of a request; the index is an `i32` on the wire. -/
structure CommitPartition where
  partitionIndex : Int
  committedOffset : Int
  committedMetadata : Option String
  index : PartitionIndex partitionIndex := by decide

structure CommitTopic where
  name : String
  partitions : List CommitPartition

def CommitPartition.noted (p : CommitPartition) : Option String := p.committedMetadata.filter (·≠"")

def namedPartitions (topics : List CommitTopic) : List (String × CommitPartition) :=
  topics.flatMap (fun t => t.partitions.map (fun p => (t.name,p)))

def collect {β : Type} (value : CommitPartition → Option β) (topics : List CommitTopic) :
    AList (fun _ : String => β) :=
  (namedPartitions topics).foldl (fun m e => match value e.2 with
    | some v => m.insert (offsetKey e.1 e.2.partitionIndex) v
    | none => m) ∅

def commitOffsets (topics : List CommitTopic) : OffsetMap := collect (fun p => some p.committedOffset) topics

def commitMetadata (topics : List CommitTopic) : MetadataMap := collect CommitPartition.noted topics

structure OffsetCommitRequest where
  io : OffsetIo := {}
  topics : List CommitTopic

/-- The handler on the broker that coordinates the group, whatever becomes of the write. -/
def OffsetMirror.offsetCommit (group : String) (w : OffsetMirror) (req : OffsetCommitRequest) : OffsetMirror :=
  w.exec group (.commit req.io (commitOffsets req.topics) (commitMetadata req.topics))

def OffsetCache.fetchMetadata (s : OffsetCache) (group : String)
    (specs : List (String × List Int)) : MetadataMap :=
  match s.metadata.lookup group with
  | none => ∅
  | some m => (requested specs).foldl (fun out k => match m.lookup k with
    | some v => out.insert k v
    | none => out) ∅

def OffsetCache.fetchPartition (s : OffsetCache) (group : String) (specs : List (String × List Int))
    (topic : String) (p : Int) : Int × Option String :=
  (((s.fetch group specs).lookup (offsetKey topic p)).getD (-1),
    (s.fetchMetadata group specs).lookup (offsetKey topic p))

def commitsOf (topic : String) (p : Int) (reqs : List OffsetCommitRequest) : List CommitPartition :=
  ((reqs.flatMap (fun r => namedPartitions r.topics)).filter (fun e => e.1=topic ∧
    e.2.partitionIndex=p)).map (·.2)

variable {s : OffsetCache} {w : OffsetMirror} {group topic t k : String} {p q : Int}

theorem offsetKey_eq_iff (hp : PartitionIndex p) (hq : PartitionIndex q) :
    offsetKey t p=offsetKey topic q ↔ t=topic ∧ p=q := by
  constructor
  · intro h
    have ht : t=topic := ((keyHasTopic_iff hp).mp (h ▸ (keyHasTopic_iff hq).mpr rfl)).symm ▸ rfl
    subst ht
    exact ⟨rfl,offsetKey_injective hp hq h⟩
  · rintro ⟨rfl,rfl⟩
    rfl

theorem collect_lookup {β : Type} (value : CommitPartition → Option β) (topics : List CommitTopic)
    (hp : PartitionIndex p) : (collect value topics).lookup (offsetKey topic p)=
      (((namedPartitions topics).filter (fun e => e.1=topic ∧ e.2.partitionIndex=p)).filterMap
        (fun e => value e.2)).getLast? := by
  unfold collect
  induction namedPartitions topics using List.reverseRecOn with
  | nil => rfl
  | append_singleton l e ih =>
    obtain ⟨t,c⟩ := e
    have hkey : offsetKey t c.partitionIndex=offsetKey topic p ↔ _ := offsetKey_eq_iff c.index hp
    rw [List.foldl_append,List.filter_append,List.filterMap_append]
    by_cases hname : t=topic ∧ c.partitionIndex=p
    · simp only [List.foldl_cons,List.foldl_nil,List.filter_cons,hname,and_self,decide_true,if_true,
        List.filter_nil]
      cases hv : value c with
      | none => simpa [hv] using ih
      | some v =>
        simp [hv,AList.lookup_insert]
    · have hne : offsetKey topic p≠offsetKey t c.partitionIndex := fun he => hname (hkey.mp he.symm)
      simp only [List.foldl_cons,List.foldl_nil,List.filter_cons,hname,decide_false,
        Bool.false_eq_true,if_false,List.filter_nil,List.filterMap_nil,List.append_nil]
      cases hv : value c with
      | none => exact ih
      | some v =>
        rw [← ih]
        exact AList.lookup_insert_ne hne

theorem offsetCommit_offsets (w : OffsetMirror) (group : String) (req : OffsetCommitRequest) :
    (w.offsetCommit group req).store.contents group=
      (w.store.mergeCommit group (commitOffsets req.topics) (commitMetadata req.topics)).1.contents group := by
  unfold OffsetMirror.offsetCommit OffsetMirror.exec OffsetCache.commitWithMetadata
  simp only
  split_ifs
  · rcases (w.store.mergeCommit group (commitOffsets req.topics)
      (commitMetadata req.topics)).1.writeGroup_done w.file
      req.io group ((w.store.mergeCommit group (commitOffsets req.topics)
        (commitMetadata req.topics)).1.contents group)
      with hw|⟨r,-,hw⟩
    · rw [hw]
      rfl
    · rw [hw]
      rfl
  · rfl

theorem noted_ne_empty {c : CommitPartition} {v : String} (h : c.noted=some v) : v≠"" := by
  unfold CommitPartition.noted at h
  exact of_decide_eq_true (Option.filter_eq_some_iff.mp h).2

theorem commitsOf_append (reqs : List OffsetCommitRequest) (req : OffsetCommitRequest) :
    commitsOf topic p (reqs++[req])=commitsOf topic p reqs++commitsOf topic p [req] := by
  simp [commitsOf]

theorem collect_commitsOf {β : Type} (topic : String) (value : CommitPartition → Option β)
    (req : OffsetCommitRequest)
    (hp : PartitionIndex p) : (collect value req.topics).lookup (offsetKey topic p)=
      ((commitsOf topic p [req]).filterMap value).getLast? := by
  rw [collect_lookup value req.topics hp,commitsOf,List.filterMap_map]
  simp only [List.flatMap_cons,List.flatMap_nil,List.append_nil]
  rfl

theorem committed (reqs : List OffsetCommitRequest) (group topic : String) (hp : PartitionIndex p) :
    ((reqs.foldl (OffsetMirror.offsetCommit group) {}).store.contents group).offsets.lookup
      (offsetKey topic p)= ((commitsOf topic p reqs).map (·.committedOffset)).getLast? ∧
    ((reqs.foldl (OffsetMirror.offsetCommit group) {}).store.contents group).metadata.lookup
    (offsetKey topic p)= ((commitsOf topic p reqs).filterMap CommitPartition.noted).getLast? := by
  induction reqs using List.reverseRecOn with
  | nil => exact ⟨rfl,rfl⟩
  | append_singleton reqs req ih =>
    rw [List.foldl_append,List.foldl_cons,List.foldl_nil,offsetCommit_offsets,OffsetCache.mergeCommit_lookup,
      OffsetCache.mergeCommit_metadata,ih.1,ih.2,commitsOf_append,List.map_append,List.filterMap_append,
      List.getLast?_append,List.getLast?_append]
    have hoff := collect_commitsOf topic (fun c => some c.committedOffset) req hp
    have hmeta := collect_commitsOf topic CommitPartition.noted req hp
    rw [List.filterMap_eq_map'] at hoff
    rw [commitOffsets,commitMetadata,hoff,hmeta]
    refine ⟨?_,?_⟩
    · cases ((commitsOf topic p [req]).map (·.committedOffset)).getLast? <;> rfl
    · cases hl : ((commitsOf topic p [req]).filterMap CommitPartition.noted).getLast? with
      | none => rfl
      | some v =>
        obtain ⟨c,-,hc⟩ := List.mem_filterMap.mp (List.mem_of_getLast? hl)
        simp [noted_ne_empty hc]

theorem foldl_present (md : MetadataMap) (keys : List String) (out : MetadataMap)
    (hout : out.lookup k=none ∨ out.lookup k=md.lookup k) :
    (keys.foldl (fun out k => match md.lookup k with
      | some v => out.insert k v
      | none => out) out).lookup k=if k∈keys then md.lookup k else out.lookup k := by
  induction keys generalizing out with
  | nil => rfl
  | cons a keys ih =>
    rw [List.foldl_cons]
    by_cases ha : k=a
    · subst ha
      rw [if_pos (List.mem_cons_self ..)]
      cases hv : md.lookup k with
      | none =>
        rw [hv,or_self] at hout
        rw [ih out (Or.inl hout),hv,hout,ite_self]
      | some v => rw [ih _ (Or.inr (by rw [AList.lookup_insert,hv])),AList.lookup_insert,hv,ite_self]
    · have hmem : k∈a::keys ↔ k∈keys := by simp [ha]
      simp only [hmem]
      cases hv : md.lookup a with
      | none => exact ih out hout
      | some v =>
        rw [ih _ (by rwa [AList.lookup_insert_ne ha]),AList.lookup_insert_ne ha]

theorem fetchMetadata_lookup (s : OffsetCache) (group : String) {specs : List (String × List Int)}
    (hk : k∈OffsetCache.requested specs) :
    (s.fetchMetadata group specs).lookup k=(s.contents group).metadata.lookup k := by
  unfold OffsetCache.fetchMetadata OffsetCache.contents
  cases hm : s.metadata.lookup group with
  | none => rfl
  | some md =>
    dsimp only
    rw [foldl_present md _ ∅ (Or.inl rfl),if_pos hk]
    rfl

theorem fetch_lookup_getD (s : OffsetCache) (group : String) {specs : List (String × List Int)}
    (hk : k∈OffsetCache.requested specs) :
    ((s.fetch group specs).lookup k).getD (-1)=((s.contents group).offsets.lookup k).getD (-1) := by
  unfold OffsetCache.fetch OffsetCache.fetchKey OffsetCache.contents
  rw [OffsetCache.lookup_foldl_insert_of,if_pos hk]
  cases s.cache.lookup group <;> rfl

theorem getLast?_filterMap {α β : Type} {f : α → Option β} {l : List α} {v : β}
    (h : l.getLast?.bind f=some v) : (l.filterMap f).getLast?=some v := by
  obtain ⟨a,ha,hv⟩ := Option.bind_eq_some_iff.mp h
  obtain ⟨l',rfl⟩ := List.getLast?_eq_some_iff.mp ha
  simp [List.filterMap_append,hv]

/-- OffsetFetch returns the offset of the last commit that named the partition. It returns that
commit's metadata just when the commit carries some, or no commit of the partition did. -/
theorem offsetFetch_last_iff (reqs : List OffsetCommitRequest) (group topic : String) (p : Int)
    (specs : List (String × List Int)) (hp : PartitionIndex p)
    (hk : offsetKey topic p∈OffsetCache.requested specs) :
    ((reqs.foldl (OffsetMirror.offsetCommit group) {}).store.fetchPartition group specs topic p).1=
      ((commitsOf topic p reqs).getLast?.map (·.committedOffset)).getD (-1) ∧
    (((reqs.foldl (OffsetMirror.offsetCommit group) {}).store.fetchPartition group specs topic p).2=
        (commitsOf topic p reqs).getLast?.bind CommitPartition.noted ↔
      ((commitsOf topic p reqs).getLast?.bind CommitPartition.noted=none →
        ∀c∈commitsOf topic p reqs,c.noted=none)) := by
  obtain ⟨hoff,hmeta⟩ := committed reqs group topic hp
  unfold OffsetCache.fetchPartition
  rw [fetch_lookup_getD _ _ hk,fetchMetadata_lookup _ _ hk,hoff,hmeta,List.getLast?_map]
  refine ⟨rfl,?_⟩
  cases hl : (commitsOf topic p reqs).getLast?.bind CommitPartition.noted with
  | some v =>
    rw [getLast?_filterMap hl]
    exact ⟨nofun,fun _ => rfl⟩
  | none =>
    rw [List.getLast?_eq_none_iff,List.filterMap_eq_nil_iff]
    exact ⟨fun h _ => h,fun h => h rfl⟩

def commitOne (offset : Int) (metadata : Option String) : OffsetCommitRequest where
  topics := [⟨"t",[{partitionIndex := 0,committedOffset := offset,committedMetadata := metadata}]⟩]

theorem offsetFetch_last_noted :
    (([commitOne 5 none,commitOne 6 (some "m")].foldl (OffsetMirror.offsetCommit "g")
      {}).store.fetchPartition "g"
      [("t",[0])] "t" 0)=(6,some "m") := by
  have h := offsetFetch_last_iff [commitOne 5 none,commitOne 6 (some "m")] "g" "t" 0 [("t",[0])] (by decide)
    (by decide +kernel)
  exact Prod.ext (h.1.trans (by decide +kernel)) ((h.2.mpr (by decide +kernel)).trans (by decide +kernel))

/-- Null and the empty text leave the metadata of an earlier commit in place. -/
theorem metadata_not_cleared :
    (([commitOne 5 (some "m"),commitOne 6 none].foldl (OffsetMirror.offsetCommit "g")
      {}).store.fetchPartition "g"
      [("t",[0])] "t" 0)=(6,some "m") ∧
    (([commitOne 5 (some "m"),commitOne 6 (some "")].foldl (OffsetMirror.offsetCommit "g")
      {}).store.fetchPartition "g"
      [("t",[0])] "t" 0)=(6,some "m") := by
  decide +kernel

end Kaas
