import Kaas.Storage.Tracking

namespace Kaas

/-- A batch in a log: its offset, the flush request it came with, and where its bytes end. -/
structure PlacedBatch where
  base : Int
  seq : Nat
  name : SegmentName
  stop : Nat
  deriving DecidableEq, Repr

def PlacedBatch.Covered (e : PlacedBatch) (d : Dir) : Prop := ∃f∈d.logs.lookup e.name,e.stop≤f.synced

instance (e : PlacedBatch) (d : Dir) : Decidable (e.Covered d) :=
  inferInstanceAs (Decidable (∃f∈d.logs.lookup e.name,e.stop≤f.synced))

def placedBatch (s : Store) : Except StorageError Appended → List PlacedBatch
  | .ok (.stored assigned seq _) => [⟨assigned,seq,s.active.info.name,s.active.logSize⟩]
  | _ => []

/-- The segment that takes appends: it is the top of the directory, and every batch placed so far
lies inside it or is covered. -/
structure LiveLog (s : Store) (placed : List PlacedBatch) : Prop where
  top : s.dir.Top s.active.info.name s.active.info.baseOffset
  file : ∃f,s.dir.logs.lookup s.active.info.name=some f ∧ s.active.logSize≤f.data.length
  based : s.active.info.baseOffset≤ s.highWater
  filled : 0<s.active.logSize → s.active.info.baseOffset<s.highWater
  within : ∀e∈placed,e.name=s.active.info.name → e.stop≤ s.active.logSize
  tail : ∀e∈placed,e.Covered s.dir ∨ e.name=s.active.info.name

/-- After a failed roll there is no such segment, and nothing is appended or synced any more. -/
structure LogSound (s : Store) (placed : List PlacedBatch) : Prop where
  live : s.active.logOpen=true → LiveLog s placed
  dead : s.active.logOpen=false → s.active.logSize=0
  ranged : -2^63≤ s.highWater ∧ s.highWater<2^63

theorem PlacedBatch.covered_congr {e : PlacedBatch} {d d' : Dir}
    (h : d'.logs.lookup e.name=d.logs.lookup e.name) (hc : e.Covered d) : e.Covered d' := by
  unfold PlacedBatch.Covered
  rw [h]
  exact hc

variable {s s' : Store} {placed : List PlacedBatch} {env : IoEnv}

theorem LiveLog.sync (h : LiveLog s placed) :
    ∀e∈placed,e.Covered (s.dir.onLog s.active.info.name LogFile.syncAll) := by
  intro e he
  by_cases hn : e.name=s.active.info.name
  · obtain ⟨f,hf,hl⟩ := h.file
    have hw := h.within e he hn
    refine ⟨f.syncAll,?_,?_⟩
    · rw [Option.mem_def,Dir.onLog_lookup,if_pos hn,hf]
      rfl
    · change e.stop≤f.data.length
      omega
  · rcases h.tail e he with hc|hn'
    · exact PlacedBatch.covered_congr (by rw [Dir.onLog_lookup,if_neg hn]) hc
    · exact absurd hn' hn

theorem LiveLog.write (h : LiveLog s placed) (buf : Bytes) : ∀e∈placed,e.Covered s.dir →
      e.Covered (s.dir.onLog s.active.info.name (fun f => f.writeAt buf s.active.logSize)) := by
  intro e he hc
  by_cases hn : e.name=s.active.info.name
  · obtain ⟨f,hf,hs⟩ := hc
    have hw := h.within e he hn
    rw [hn,Option.mem_def] at hf
    refine ⟨f.writeAt buf s.active.logSize,?_,?_⟩
    · rw [Option.mem_def,Dir.onLog_lookup,if_pos hn,hf]
      rfl
    · simp only [LogFile.writeAt]
      omega
  · exact PlacedBatch.covered_congr (by rw [Dir.onLog_lookup,if_neg hn]) hc

theorem LiveLog.syncedDir (h : LiveLog s placed)
    (ho : s.active.logOpen=true) : ∀e∈placed,e.Covered (s.active.syncedDir s.dir) := by
  rw [ActiveSegment.syncedDir,if_pos ho]
  exact h.sync

theorem LiveLog.new_name (h : LiveLog s placed)
    (ho : s.active.logOpen=true) (hp : 0<s.active.logSize)
    (hr : -2^63≤ s.highWater ∧ s.highWater<2^63) :
    ∀e∈placed,e.name≠segmentName s.highWater s.epoch := by
  intro e he heq
  obtain ⟨f,hf,_⟩ := h.syncedDir ho e he
  refine not_mem_above (h.top.congr (s.active.mem_syncedDir s.dir)) s.epoch
    (h.filled hp) hr ?_
  rw [← heq]
  exact AList.lookup_isSome.mp (by rw [Option.mem_def.mp hf]; rfl)

theorem LogSound.opened (h : LogSound s placed)
    (hp : 0<s.active.logSize) : s.active.logOpen=true := by
  by_contra hf
  have := h.dead (Bool.eq_false_iff.mpr hf)
  omega

theorem logSound_rolled (h : LogSound s placed) (hp : 0<s.active.logSize) :
    LogSound (rolled s) placed ∧ ∀e∈placed,e.Covered (rolled s).dir := by
  have ho := h.opened hp
  have hl := h.live ho
  have hnew := hl.new_name ho hp h.ranged
  have hlook (n : SegmentName) : (rolled s).dir.logs.lookup n=
      if n=segmentName s.highWater s.epoch then some {}
      else (s.active.syncedDir s.dir).logs.lookup n := ActiveSegment.created_lookup _ _ n
  have hall : ∀e∈placed,e.Covered (rolled s).dir := fun e he =>
    PlacedBatch.covered_congr (by rw [hlook,if_neg (hnew e he)]) (hl.syncedDir ho e he)
  refine ⟨⟨fun _ => ?_,fun hf => (by cases hf),h.ranged⟩,hall⟩
  exact {
    top := top_created (hl.top.congr (s.active.mem_syncedDir s.dir)) s.epoch
      (hl.filled hp) h.ranged
    file := ⟨{},(hlook _).trans (if_pos rfl),le_refl _⟩
    based := le_refl _
    filled := fun hf => absurd hf (lt_irrefl 0)
    within := fun e he hn => absurd hn (hnew e he)
    tail := fun e he => Or.inl (hall e he)}

theorem logSound_roll {s1 : Store} (h : LogSound s placed)
    {cfg : PartitionConfig} {batch : Bytes} {r : Except StorageError Unit}
    (hr : rollIfDue cfg env batch s=(s1,r)) :
    LogSound s1 placed ∧ ∀e∈placed,e.Covered s.dir → e.Covered s1.dir := by
  rcases rollIfDue_cases cfg env batch s with hs|⟨hp,hs⟩|⟨hp,d,e,hs,hd⟩
  all_goals obtain ⟨rfl,_⟩ := Prod.mk.inj (hs.symm.trans hr)
  · exact ⟨h,fun _ _ hc => hc⟩
  · obtain ⟨h1,hall⟩ := logSound_rolled h hp
    exact ⟨h1,fun e he _ => hall e he⟩
  · have ho := h.opened hp
    have hl := h.live ho
    refine ⟨⟨fun hf => (by cases hf),fun _ => rfl,h.ranged⟩,fun e he hc => ?_⟩
    rcases hd with rfl|rfl|rfl
    · exact hc
    · exact hl.syncedDir ho e he
    · exact PlacedBatch.covered_congr
        (Dir.eraseLog_lookup_ne _ _ _ (hl.new_name ho hp h.ranged e he)) (hl.syncedDir ho e he)

theorem logSound_failed (h : LogSound s placed) (ho : s.active.logOpen=true) (buf : Bytes) :
    LogSound {s with dir := s.dir.onLog s.active.info.name (fun f => f.writeAt buf s.active.logSize)}
      placed := by
  have hl := h.live ho
  refine ⟨fun _ => ?_,h.dead,h.ranged⟩
  obtain ⟨f,hf,hle⟩ := hl.file
  exact {
    top := hl.top.congr (s.dir.mem_onLog _ _)
    file := ⟨f.writeAt buf s.active.logSize,by
      change (s.dir.onLog _ _).logs.lookup s.active.info.name=_
      rw [Dir.onLog_lookup,if_pos rfl,hf]
      rfl,by
      have := f.writeAt_length buf _ hle
      change s.active.logSize≤_
      omega⟩
    based := hl.based
    filled := hl.filled
    within := hl.within
    tail := fun e he => (hl.tail e he).imp (hl.write buf e he) id}

theorem logSound_stored (h : LogSound s placed)
    {cfg : PartitionConfig} (accepted : Bool) {batch : Bytes} {d : Dir} {a : ActiveSegment}
    (hd : 0≤lastOffsetDelta batch) (hu : s.highWater+recordCount batch<2^63)
    (write : s.active.appendBatch env s.dir (rewriteBase batch s.highWater) cfg.indexIntervalBytes=(d,.ok a))
    (seq : Nat) :
    LogSound (advance cfg accepted batch {s with active := a,dir := d}).1
      (placed++[⟨s.highWater,seq,a.info.name,a.logSize⟩]) ∧
    ∀e∈placed,e.Covered s.dir → e.Covered d := by
  have w := ActiveSegment.appendBatch_wrote _ _ _ _ _ _ _ write
  have hl := h.live w.opened
  have hhw := advance_highWater_eq cfg accepted batch s a d h.ranged.1 hd hu
  have hlt : s.highWater<s.highWater+recordCount batch := by unfold recordCount; omega
  have hlook (n : SegmentName) : d.logs.lookup n=
      (s.dir.onLog s.active.info.name
        (fun f => f.writeAt (rewriteBase batch s.highWater) s.active.logSize)).logs.lookup n := by
    rw [w.logs]
  have hkeep (e : PlacedBatch) (he : e∈placed) (hc : e.Covered s.dir) : e.Covered d :=
    PlacedBatch.covered_congr (hlook _) (hl.write _ e he hc)
  have hranged := h.ranged
  obtain ⟨f,hf,hle⟩ := hl.file
  refine ⟨⟨fun _ => ?_,fun hf => ?_,?_⟩,hkeep⟩
  · exact {
      top := by
        change d.Top a.info.name a.info.baseOffset
        rw [w.named,w.based]
        exact hl.top.congr w.mem_logs
      file := ⟨f.writeAt (rewriteBase batch s.highWater) s.active.logSize,by
        change d.logs.lookup a.info.name=_
        rw [w.named,hlook,Dir.onLog_lookup,if_pos rfl,hf]
        rfl,by
        change a.logSize≤_
        rw [w.logSize]
        exact f.writeAt_length _ _ hle⟩
      based := by
        have := hl.based
        change a.info.baseOffset≤_
        rw [hhw,w.based]
        omega
      filled := fun _ => by
        have := hl.based
        change a.info.baseOffset<_
        rw [hhw,w.based]
        omega
      within := by
        intro e he hn
        change e.stop≤a.logSize
        rcases List.mem_append.mp he with he|he
        · have := hl.within e he (hn.trans w.named)
          rw [w.logSize]
          omega
        · rw [List.mem_singleton.mp he]
      tail := by
        intro e he
        rcases List.mem_append.mp he with he|he
        · exact (hl.tail e he).imp (hkeep e he) (fun hn => hn.trans w.named.symm)
        · rw [List.mem_singleton.mp he]
          exact Or.inr rfl}
  · change a.logOpen=false at hf
    rw [w.stays] at hf
    cases hf
  · rw [hhw]
    omega

theorem logSound_append (h : LogSound s placed) {c : AppendCall} {r : Except StorageError Appended}
    (hc : ∀accepted,admission s.toPartitionInner c.epoch c.batch=.admitted accepted →
      43≤ c.batch.length → 0≤lastOffsetDelta c.batch ∧ s.highWater+recordCount c.batch<2^63)
    (ha : appendLocked c.cfg c.env c.epoch c.batch s=some (s',r)) :
    LogSound s' (placed++placedBatch s' r) ∧ ∀e∈placed,e.Covered s.dir → e.Covered s'.dir := by
  cases appendLocked_step ha with
  | refused e _ | known base _ => exact ⟨by simpa [placedBatch] using h,fun _ _ hc => hc⟩
  | rollFailed accepted s1 e _ roll =>
    obtain ⟨h1,hk⟩ := logSound_roll h roll
    exact ⟨by simpa [placedBatch] using h1,hk⟩
  | failed accepted s1 d e _ roll _ hd =>
    obtain ⟨h1,hk⟩ := logSound_roll h roll
    rcases hd with rfl|⟨ho,buf,rfl⟩
    · exact ⟨by simpa [placedBatch] using h1,hk⟩
    · exact ⟨by simpa [placedBatch] using logSound_failed h1 ho buf,
        fun e he hc => (h1.live ho).write buf e he (hk e he hc)⟩
  | stored accepted s1 d a admitted roll long write =>
    obtain ⟨h1,hk⟩ := logSound_roll h roll
    obtain ⟨hd,hu⟩ := hc accepted admitted long
    rw [← (rollIfDue_ledger roll).highWater] at hu
    obtain ⟨h2,hk2⟩ := logSound_stored h1 accepted hd hu write
      (advance c.cfg accepted c.batch {s1 with active := a,dir := d}).1.requestedFlushSeq
    exact ⟨h2,fun e he hc => hk2 e he (hk e he hc)⟩

theorem append_request {c : AppendCall} {r : Except StorageError Appended}
    (hr : -2^63≤ s.highWater ∧ s.highWater<2^63) (hp : s.pendingFlushRecords=0)
    (hi : c.cfg.flushIntervalMessages=1)
    (hc : ∀accepted,admission s.toPartitionInner c.epoch c.batch=.admitted accepted →
      43≤ c.batch.length → 0≤lastOffsetDelta c.batch ∧ s.highWater+recordCount c.batch<2^63)
    (ha : appendLocked c.cfg c.env c.epoch c.batch s=some (s',r)) :
    s'.pendingFlushRecords=0 ∧ s'.completedFlushSeq=s.completedFlushSeq ∧
    ((r=.ok (.stored s.highWater (s.requestedFlushSeq+1) true) ∧
        s'.requestedFlushSeq=s.requestedFlushSeq+1 ∧ s.highWater<s'.highWater) ∨
     (s'.requestedFlushSeq=s.requestedFlushSeq ∧ s'.highWater=s.highWater ∧
      ((∃e,r=.error e) ∨ ∃base,r=.ok (.duplicate base) ∧
        admission s.toPartitionInner c.epoch c.batch=.known base))) := by
  cases appendLocked_step ha with
  | refused e _ => exact ⟨hp,rfl,Or.inr ⟨rfl,rfl,Or.inl ⟨e,rfl⟩⟩⟩
  | known base h => exact ⟨hp,rfl,Or.inr ⟨rfl,rfl,Or.inr ⟨base,rfl,h⟩⟩⟩
  | rollFailed accepted s1 e _ roll =>
    have hl := rollIfDue_ledger roll
    exact ⟨hl.pending.trans hp,hl.completed,Or.inr ⟨hl.requested,hl.highWater,Or.inl ⟨e,rfl⟩⟩⟩
  | failed accepted s1 d e _ roll _ _ =>
    have hl := rollIfDue_ledger roll
    exact ⟨hl.pending.trans hp,hl.completed,Or.inr ⟨hl.requested,hl.highWater,Or.inl ⟨.io e,rfl⟩⟩⟩
  | stored accepted s1 d a admitted roll long write =>
    have hl := rollIfDue_ledger roll
    obtain ⟨hd,hu⟩ := hc accepted admitted long
    have hpending : wrapI64 (s1.pendingFlushRecords+lastOffsetDelta (rewriteBase c.batch s1.highWater)+1)=
        recordCount c.batch := by
      have h32 := lastOffsetDelta_range c.batch
      rw [rewriteBase_lastOffsetDelta,hl.pending,hp]
      unfold recordCount
      rw [wrapI64_of_range _ (by omega) (by omega)]
      omega
    have htrigger : decide (0<c.cfg.flushIntervalMessages ∧ c.cfg.flushIntervalMessages≤
        wrapI64 (s1.pendingFlushRecords+lastOffsetDelta (rewriteBase c.batch s1.highWater)+1))=true := by
      rw [hi,hpending]
      unfold recordCount
      simp only [decide_eq_true_eq]
      omega
    have hhw := advance_highWater_eq c.cfg accepted c.batch s1 a d
      (hl.highWater.symm ▸ hr.1) hd (hl.highWater.symm ▸ hu)
    refine ⟨?_,hl.completed,Or.inl ⟨?_,?_,?_⟩⟩
    · simp only [advance,Store.publish,htrigger,if_true]
    · simp only [advance,htrigger,if_true]
      rw [hl.highWater,hl.requested]
    · simp only [advance,Store.publish,htrigger,if_true,hl.requested]
    · rw [hhw,hl.highWater]
      unfold recordCount
      omega

/-- Over the step the active log was synced, and nothing else that counts has changed. -/
structure Store.SyncedTo (s s' : Store) : Prop where
  opened : s.active.logOpen=true
  active : s'.active=s.active
  highWater : s'.highWater=s.highWater
  pending : s'.pendingFlushRecords=s.pendingFlushRecords
  requested : s'.requestedFlushSeq=s.requestedFlushSeq
  completed : s'.completedFlushSeq=s.completedFlushSeq
  producers : s'.producerStates=s.producerStates
  logs : s'.dir.logs=(s.dir.onLog s.active.info.name LogFile.syncAll).logs

theorem commit_synced {seq : Nat} {cp : Option RecoveryCheckpoint}
    (h : commitLocked env s=(s',.ok (seq,cp))) :
    seq=s.requestedFlushSeq ∧ s.SyncedTo (writeDue env s' cp) := by
  obtain ⟨ho,hseq,hs,_⟩ := commitLocked_ok h
  refine ⟨hseq,?_⟩
  rw [hs]
  unfold writeDue
  split
  · split_ifs <;> exact ⟨ho,rfl,rfl,rfl,rfl,rfl,rfl,rfl⟩
  · exact ⟨ho,rfl,rfl,rfl,rfl,rfl,rfl,rfl⟩

theorem LogSound.synced (h : LogSound s placed)
    (hs : s.SyncedTo s') : LogSound s' placed ∧ ∀e∈placed,e.Covered s'.dir := by
  have hl := h.live hs.opened
  have hlook (n : SegmentName) : s'.dir.logs.lookup n=
      (s.dir.onLog s.active.info.name LogFile.syncAll).logs.lookup n := by rw [hs.logs]
  have hall : ∀e∈placed,e.Covered s'.dir := fun e he =>
    PlacedBatch.covered_congr (hlook _) (hl.sync e he)
  obtain ⟨f,hf,hle⟩ := hl.file
  refine ⟨⟨fun _ => ?_,fun hf => ?_,by rw [hs.highWater]; exact h.ranged⟩,hall⟩
  · exact {
      top := by
        rw [hs.active]
        exact hl.top.congr (fun n => by rw [hs.logs]; exact s.dir.mem_onLog _ _ n)
      file := ⟨f.syncAll,by
        rw [hs.active,hlook,Dir.onLog_lookup,if_pos rfl,hf]
        rfl,by
        rw [hs.active]
        exact hle⟩
      based := by
        rw [hs.active,hs.highWater]
        exact hl.based
      filled := by
        rw [hs.active,hs.highWater]
        exact hl.filled
      within := by
        rw [hs.active]
        exact hl.within
      tail := fun e he => Or.inl (hall e he)}
  · rw [hs.active,hs.opened] at hf
    cases hf

theorem LogSound.congr (h : LogSound s placed)
    (ha : s'.active=s.active) (hw : s'.highWater=s.highWater) (hd : s'.dir=s.dir) :
    LogSound s' placed := by
  refine ⟨fun ho => ?_,by rw [ha]; exact h.dead,by rw [hw]; exact h.ranged⟩
  obtain ⟨h1,h2,h3,h4,h5,h6⟩ := h.live (ha ▸ ho)
  exact ⟨by rw [ha,hd]; exact h1,by rw [ha,hd]; exact h2,by rw [ha,hw]; exact h3,
    by rw [ha,hw]; exact h4,by rw [ha]; exact h5,by rw [ha,hd]; exact h6⟩

theorem Tracks.logSound {crc : Crc32c} {f : LogFile} {fs : List Bytes} (h : Tracks crc s f fs)
    (ho : s.active.logOpen=true) : LogSound s [] where
  live := fun _ => {
    top := h.top
    file := ⟨f,h.file,h.sized⟩
    based := by
      by_cases hn : fs=[]
      · have he := h.ends
        rw [hn] at he
        exact le_of_eq he
      · exact le_of_lt (h.above hn)
    filled := fun hp => h.above (h.ne_nil hp)
    within := fun e he => absurd he (List.not_mem_nil)
    tail := fun e he => absurd he (List.not_mem_nil)}
  dead := fun hf => by rw [ho] at hf; cases hf
  ranged := h.ranged

theorem firstStore_tracks (crc : Crc32c) : Tracks crc firstStore {} [] where
  top := by
    refine ⟨(ActiveSegment.mem_created _ _ _).mpr (Or.inl rfl),0,rfl,?_⟩
    intro n hn b e hp
    rcases (ActiveSegment.mem_created _ _ _).mp hn with rfl|hn
    · cases hp
      exact Or.inr ⟨rfl,le_refl _⟩
    · exact absurd hn (AList.notMem_empty n)
  file := rfl
  sized := le_refl _
  held := rfl
  complete := by simp
  ends := rfl
  above := fun h => absurd rfl h
  ranged := by decide

end Kaas
