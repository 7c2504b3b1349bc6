import Kaas.Storage.Index

namespace Kaas

/-! The position of the last index entry against the size of the log. -/

/-- There is at most one entry for every 4096 bytes in front of the last indexed position, which
lies inside the accounted log, which lies inside the file. -/
structure IndexBounded (s : SegmentStore) : Prop where
  file : s.active.logSize≤ s.log.length
  present : s.active.logOpen=true → s.active.info.name∈s.dir.logs
  cursor : s.active.indexPos≤ s.index.length
  estimate : s.index.length/8*4096≤ s.active.lastIndexedLogPos
  below : s.active.lastIndexedLogPos≤ s.active.logSize
  checkpoint : s.dir.checkpoint=.absent

/-- Entries are at least 4096 bytes apart, a segment with data is not rolled to its own name, and a
crash leaves no more entries than the whole batches at the front of the log have room for. -/
def IndexBoundOk (crc : Crc32c) (s : SegmentStore) : SegmentOp → Prop
  | .append _ _ interval => 4096≤ interval
  | .roll _ epoch => s.active.info.name=segmentName s.next epoch → s.active.logSize=0
  | .reopen => True
  | .crash image => (image.indexData s.active.info.name).length/8*4096≤
      (completeRun crc (image.logData s.active.info.name)).flatten.length

theorem subU64_le {a b : Nat} (h : b≤a) : subU64 a b≤a-b := by
  unfold subU64
  omega

theorem firstSegment_bounded (base epoch : Int) : IndexBounded (firstSegment base epoch) where
  file := Nat.zero_le _
  present _ := (ActiveSegment.mem_created _ _ _).mpr (Or.inl rfl)
  cursor := Nat.zero_le _
  estimate := by
    rw [SegmentStore.index]
    change ((ActiveSegment.created {} (segmentName base epoch)).indexData
      (segmentName base epoch)).length/8*4096≤0
    rw [indexData_created,if_pos rfl]
    simp
  below := le_refl _
  checkpoint := rfl

variable {crc : Crc32c} {s : SegmentStore} {d : Dir}

section Steps

variable {env : IoEnv}

theorem appendBatch_marks {a b : ActiveSegment} {d' : Dir} {raw : Bytes} {interval : Nat}
    (h : a.appendBatch env d raw interval=(d',.ok b)) :
    ((d'.indexData a.info.name).length=(d.indexData a.info.name).length ∧ b.indexPos=a.indexPos ∧
      b.lastIndexedLogPos=a.lastIndexedLogPos) ∨
    (interval≤ subU64 a.logSize a.lastIndexedLogPos ∧
      (d'.indexData a.info.name).length=max (d.indexData a.info.name).length (a.indexPos+8) ∧
      b.indexPos=a.indexPos+8 ∧ b.lastIndexedLogPos=a.logSize) := by
  have hidx := (d.onLog_rest a.info.name (fun f => f.writeAt raw a.logSize)).1
  have hsame : (d.onLog a.info.name (fun f => f.writeAt raw a.logSize)).indexData a.info.name=
      d.indexData a.info.name := by
    rw [Dir.indexData,hidx]
    rfl
  by_cases hdue : interval≤ subU64 a.logSize a.lastIndexedLogPos
  · obtain ⟨_,_,⟨rfl,rfl⟩|⟨entry,he,rfl,rfl⟩⟩ := ActiveSegment.appendBatch_ok env a b d d' raw interval h
    · exact Or.inl ⟨congrArg List.length hsame,rfl,rfl⟩
    · have hentry : entry.length=8 := by
        unfold ActiveSegment.indexEntry at he
        split_ifs at he
        cases he
        simp
      refine Or.inr ⟨hdue,?_,rfl,rfl⟩
      rw [Dir.indexData,ActiveSegment.writeIndex,AList.lookup_insert,hsame,Option.getD_some]
      simp only [List.length_append,List.length_take,List.length_replicate,List.length_drop,hentry]
      omega
  · obtain ⟨rfl,rfl⟩ := ActiveSegment.appendBatch_unindexed env a b d d' raw interval h hdue
    exact Or.inl ⟨congrArg List.length hsame,rfl,rfl⟩

theorem marks_kept {len len' pos pos' last last' size interval : Nat} (hcursor : pos≤len)
    (hestimate : len/8*4096≤last) (hbelow : last≤ size) (hok : 4096≤ interval)
    (h : (len'=len ∧ pos'=pos ∧ last'=last) ∨
      (interval≤ subU64 size last ∧ len'=max len (pos+8) ∧ pos'=pos+8 ∧ last'=size)) :
    pos'≤len' ∧ len'/8*4096≤last' ∧ last'≤ size := by
  rcases h with ⟨rfl,rfl,rfl⟩|⟨hdue,rfl,rfl,rfl⟩
  · exact ⟨hcursor,hestimate,hbelow⟩
  · have hgap : 4096≤last'-last := hok.trans (hdue.trans (subU64_le hbelow))
    have hentries : max len (pos+8)/8≤len/8+1 := by omega
    have hroom := Nat.mul_le_mul_right 4096 hentries
    refine ⟨Nat.le_max_right _ _,?_,le_refl _⟩
    calc max len (pos+8)/8*4096≤len/8*4096+4096 := by rwa [Nat.succ_mul] at hroom
      _≤last+(last'-last) := Nat.add_le_add hestimate hgap
      _=last' := Nat.add_sub_of_le hbelow

theorem IndexBounded.wrote (h : IndexBounded s) (ho : s.active.logOpen=true) (buf : Bytes) :
    s.active.logSize+buf.length≤
      ((s.dir.onLog s.active.info.name (fun f => f.writeAt buf s.active.logSize)).logData
        s.active.info.name).length := by
  obtain ⟨f,hf⟩ := Dir.lookup_of_mem (h.present ho)
  have hsize := h.file
  rw [SegmentStore.log,logData_getD,hf] at hsize
  rw [logData_getD,Dir.onLog_lookup,if_pos rfl,hf]
  exact LogFile.writeAt_length f buf _ hsize

theorem IndexBounded.moved (h : IndexBounded s) (hi : d.indexes=s.dir.indexes)
    (hlog : s.active.logSize≤(d.logData s.active.info.name).length)
    (hmem : s.active.logOpen=true → s.active.info.name∈d.logs) (hcp : d.checkpoint=s.dir.checkpoint) :
    IndexBounded {s with dir := d} := by
  have hindex : d.indexData s.active.info.name=s.index := by
    rw [Dir.indexData,hi]
    rfl
  refine ⟨hlog,hmem,?_,?_,h.below,hcp.trans h.checkpoint⟩
  · change s.active.indexPos≤(d.indexData s.active.info.name).length
    rw [hindex]
    exact h.cursor
  · change (d.indexData s.active.info.name).length/8*4096≤_
    rw [hindex]
    exact h.estimate

theorem indexBounded_append (h : IndexBounded s) {batch : Bytes} {interval : Nat}
    (hok : 4096≤ interval) : IndexBounded (s.append env batch interval) := by
  unfold SegmentStore.append
  cases hcall : s.active.appendBatch env s.dir (rewriteBase batch s.next) interval with
  | mk d r =>
    cases r with
    | error e =>
      rcases ActiveSegment.appendBatch_error env _ _ _ _ _ e hcall with rfl|⟨ho,buf,rfl⟩
      · exact h
      · obtain ⟨hi,_,_,_,hcp⟩ := s.dir.onLog_rest s.active.info.name (fun f => f.writeAt buf s.active.logSize)
        exact h.moved hi (le_trans (Nat.le_add_right _ _) (h.wrote ho buf))
          (fun ho => (s.dir.mem_onLog _ _ _).mpr (h.present ho)) hcp
    | ok a =>
      have hw := ActiveSegment.appendBatch_wrote _ _ _ _ _ _ _ hcall
      have hlog := h.wrote hw.opened (rewriteBase batch s.next)
      have hsize := hw.logSize
      have hkept : a.indexPos≤(d.indexData a.info.name).length ∧
          (d.indexData a.info.name).length/8*4096≤a.lastIndexedLogPos ∧
            a.lastIndexedLogPos≤ s.active.logSize := by
        rw [hw.named]
        exact marks_kept h.cursor h.estimate h.below hok (appendBatch_marks hcall)
      refine ⟨?_,fun _ => ?_,?_,?_,?_,hw.rest.checkpoint.trans h.checkpoint⟩
      · change a.logSize≤(d.logData a.info.name).length
        rw [hsize,hw.named,logData_getD,hw.logs,← logData_getD]
        exact hlog
      · change a.info.name∈d.logs
        rw [hw.named]
        exact (hw.mem_logs _).mpr (h.present hw.opened)
      · exact hkept.1
      · exact hkept.2.1
      · exact hkept.2.2.trans (by change _≤a.logSize; omega)

theorem indexBounded_roll (h : IndexBounded s) {epoch : Int}
    (hok : s.active.info.name=segmentName s.next epoch → s.active.logSize=0) :
    IndexBounded (s.roll env epoch) := by
  have hindexes := s.active.syncedDir_indexes s.dir
  have hlength (n : SegmentName) : ((s.active.syncedDir s.dir).logData n).length=(s.dir.logData n).length := by
    rw [logData_getD,logData_getD,ActiveSegment.syncedDir_lookup]
    split_ifs
    · cases s.dir.logs.lookup n <;> rfl
    · rfl
  have hcp := (s.active.syncedDir_segmentsOnly s.dir).checkpoint
  have hclosed {d : Dir} (hi : d.indexes=s.dir.indexes) (hcp : d.checkpoint=s.dir.checkpoint)
      (hlog : s.active.logSize≤(d.logData s.active.info.name).length) :
      IndexBounded {s with dir := d,active := s.active.closeHandles} := by
    have hb : IndexBounded {s with active := s.active.closeHandles} :=
      ⟨h.file,fun hopen => (nomatch hopen),h.cursor,h.estimate,h.below,h.checkpoint⟩
    exact hb.moved hi hlog (fun hopen => nomatch hopen) hcp
  unfold SegmentStore.roll
  rcases ActiveSegment.rollFast_cases env s.active s.dir s.next epoch with hc|⟨d,e,hc,hd⟩
  · rw [hc]
    refine ⟨Nat.zero_le _,fun _ => (ActiveSegment.mem_created _ _ _).mpr (Or.inl rfl),Nat.zero_le _,
      ?_,le_refl _,hcp.trans h.checkpoint⟩
    change ((ActiveSegment.created _ (segmentName s.next epoch)).indexData
      (segmentName s.next epoch)).length/8*4096≤0
    rw [indexData_created,if_pos rfl]
    simp
  · rw [hc]
    rcases hd with rfl|rfl|rfl
    · exact hclosed rfl rfl h.file
    · exact hclosed hindexes hcp (by rw [hlength]; exact h.file)
    · refine hclosed hindexes hcp ?_
      by_cases hn : s.active.info.name=segmentName s.next epoch
      · rw [hok hn]
        exact Nat.zero_le _
      · rw [logData_getD,Dir.eraseLog_lookup_ne _ _ _ hn,← logData_getD,hlength]
        exact h.file

theorem indexBounded_opened {a : ActiveSegment} (next : Int) (hclosed : (a.logOpen && a.indexOpen)=false)
    (hroom : (d.indexData a.info.name).length/8*4096≤(d.logData a.info.name).length)
    (hcp : d.checkpoint=.absent) : IndexBounded ⟨(a.openHandles d).1,(a.openHandles d).2,next⟩ := by
  obtain ⟨hlook,hidx,hck,ha⟩ := openHandles_spec a d hclosed
  generalize a.openHandles d=o at hlook hidx hck ha
  obtain ⟨d',a'⟩ := o
  dsimp only at hlook hidx hck ha ⊢
  subst ha
  have hfile : d'.logs.lookup a.info.name=some ((d.logs.lookup a.info.name).getD {}) :=
    (hlook _).trans (if_pos rfl)
  refine ⟨?_,fun _ => AList.lookup_isSome.mp (by rw [hfile]; rfl),Nat.zero_le _,?_,hroom,hck.trans hcp⟩
  · change (d.logData a.info.name).length≤(d'.logData a.info.name).length
    rw [logData_getD d',hfile,logData_getD]
    rfl
  · change (d'.indexData a.info.name).length/8*4096≤(d.indexData a.info.name).length/8*4096
    rw [hidx]

theorem indexBounded_reopen (h : IndexBounded s) : IndexBounded s.reopen :=
  indexBounded_opened s.next rfl (h.estimate.trans (h.below.trans h.file)) h.checkpoint

theorem indexBounded_recovered {image : Dir} {info : SegmentMeta} (hcp : image.checkpoint=.absent)
    (hroom : (image.indexData info.name).length/8*4096≤(completeRun crc
      (image.logData info.name)).flatten.length) :
    IndexBounded (.recover crc image info) := by
  have hrec := recover_recovered crc info hcp
  generalize SegmentStore.recover crc image info=t at hrec
  -- the repair keeps the whole batches
  have hkept : (completeRun crc (image.logData info.name)).flatten.length≤t.active.logSize := by
    have hlen := congrArg List.length (log_eq_run crc (image.logData info.name))
    rw [List.length_append] at hlen
    rw [hrec.logSize,repairedFile,logData_getD]
    rw [logData_getD] at hlen
    split_ifs
    · omega
    · simp only [LogFile.truncate,List.length_take]
      omega
  refine ⟨?_,fun _ => ?_,?_,?_,?_,hrec.checkpoint⟩
  · rw [SegmentStore.log,hrec.named,logData_getD,hrec.file,hrec.logSize]
    exact le_refl _
  · rw [hrec.named]
    exact AList.lookup_isSome.mp (by rw [hrec.file]; rfl)
  · rw [hrec.cursor]
    exact Nat.zero_le _
  · rw [SegmentStore.index,hrec.named,hrec.indexes,hrec.marked]
  · rw [hrec.marked]
    exact hroom.trans hkept

theorem indexBounded_step {t : SegmentStore} {op : SegmentOp} (h : IndexBounded s)
    (hok : IndexBoundOk crc s op) (step : SegmentStep crc s op t) : IndexBounded t := by
  cases step with
  | append env batch interval => exact indexBounded_append h hok
  | roll env epoch => exact indexBounded_roll h hok
  | reopen => exact indexBounded_reopen h
  | crash left => exact indexBounded_recovered (left.checkpoint.trans h.checkpoint) hok

end Steps

/-- In every run the subtraction an append makes is exact. -/
theorem indexed_below_size (crc : Crc32c) (base epoch : Int) (s : SegmentStore)
    (run : Reaches (SegmentStep crc) (IndexBoundOk crc) (firstSegment base epoch) s) :
    s.active.lastIndexedLogPos≤ s.active.logSize ∧
    (s.active.logSize<2^64 →
      subU64 s.active.logSize s.active.lastIndexedLogPos=s.active.logSize-s.active.lastIndexedLogPos) := by
  have h := (run.invariant (firstSegment_bounded base epoch)
    (fun _ _ _ h hok hs => indexBounded_step h hok hs)).below
  refine ⟨h,fun hsize => ?_⟩
  unfold subU64
  omega

theorem indexed_below_size_reopened :
    ∃s,Reaches (SegmentStep castagnoli) (IndexBoundOk castagnoli) (firstSegment 0 0) s ∧
    s.active.logSize=122 ∧ s.active.lastIndexedLogPos≤ s.active.logSize := by
  have happend : Reaches (SegmentStep castagnoli) (IndexBoundOk castagnoli) (firstSegment 0 0)
      ((firstSegment 0 0).append {} plainBatch 4096) := .next _ .start (le_refl 4096) (.append ..)
  have hreopen := Reaches.next SegmentOp.reopen happend trivial .reopen
  have hrun := Reaches.next (.append {} plainBatch 4096) hreopen (le_refl 4096) (.append ..)
  exact ⟨_,hrun,by decide +kernel,(indexed_below_size castagnoli 0 0 _ hrun).1⟩

/-- Entries 61 bytes apart count for 4096 bytes each once the segment is opened again: the
subtraction goes below zero, and the next append is indexed although the interval is a million
bytes. -/
theorem indexed_past_size : ∃s,Reaches (SegmentStep castagnoli) (fun _ _ => True)
    (firstSegment 0 0) s ∧ s.active.logSize=122 ∧ s.active.lastIndexedLogPos=4096 ∧
    subU64 s.active.logSize s.active.lastIndexedLogPos=2^64-3974 ∧
    (s.append {} plainBatch 1000000).active.lastIndexedLogPos=122 := by
  obtain ⟨s,hs,h⟩ : ∃s∈runAll SegmentStore.exec [.append {} plainBatch 1,.append {} plainBatch 1,
      .reopen] (firstSegment 0 0),s.active.logSize=122 ∧ s.active.lastIndexedLogPos=4096 ∧
        subU64 s.active.logSize s.active.lastIndexedLogPos=2^64-3974 ∧
        (s.append {} plainBatch 1000000).active.lastIndexedLogPos=122 := by
    decide +kernel
  exact ⟨s,runAll_reaches (SegmentStore.exec_step castagnoli) _ (fun _ _ _ => trivial) _ _ s .start hs,h⟩

end Kaas
