import Kaas.Storage.Partition

namespace Kaas

inductive Appended
  | duplicate (base : Int)
  | stored (assigned : Int) (seq : Nat) (triggered : Bool)
  deriving DecidableEq, Repr

def Appended.base : Appended → Int
  | .duplicate base => base
  | .stored assigned _ _ => assigned

inductive Admission
  | refused (e : StorageError)
  | known (base : Int)
  | admitted (accepted : Bool)
  deriving DecidableEq, Repr

def classifyBatch (g : PartitionInner) (batch : Bytes) : Admission :=
  match parseBatchProducerInfo batch with
  | none => .admitted false
  | some info => match classify g.producerStates info with
    | .duplicate base => .known base
    | .outOfOrder => .refused .outOfOrderSequence
    | .invalidEpoch => .refused .invalidProducerEpoch
    | .accept => .admitted true
    | .notIdempotent => .admitted false

def admission (g : PartitionInner) (epoch : UInt32) (batch : Bytes) : Admission :=
  if g.flushErr.isSome then .refused .stalled
  else if (epoch.toNat : Int)<g.epoch then .refused .epochMismatch
  else classifyBatch g batch

def rollDue (cfg : PartitionConfig) (env : IoEnv) (a : ActiveSegment) (batch : Bytes) : Bool :=
  (decide (cfg.segmentBytes<a.logSize+batch.length) ||
    cfg.segmentMs.any (fun ms => decide (ms≤env.ageMs))) && decide (0<a.logSize)

/-- What stands in for the active segment while it is being rolled, and stays when the roll
fails. -/
def placeholderSegment : ActiveSegment :=
  ActiveSegment.openMetaOnly ⟨0,0,0,.placeholder,unknownMaxTimestamp⟩

def rollIfDue (cfg : PartitionConfig) (env : IoEnv) (batch : Bytes) (s : Store) :
    Store × Except StorageError Unit :=
  if rollDue cfg env s.active batch then
    match s.active.rollFast env s.dir s.highWater s.epoch with
    | (d,.error e) => ({s with active := placeholderSegment,dir := d},.error (.io e))
    | (d,.ok (a,old)) => ({s with active := a,closed := s.closed++[old],dir := d},.ok ())
  else (s,.ok ())

def advance (cfg : PartitionConfig) (accepted : Bool) (batch : Bytes) (s : Store) : Store × Appended :=
  let owned := rewriteBase batch s.highWater
  let delta := lastOffsetDelta owned
  let pending := wrapI64 (s.pendingFlushRecords+delta+1)
  let trigger := decide (0<cfg.flushIntervalMessages ∧ cfg.flushIntervalMessages≤pending)
  let seq := if trigger then s.requestedFlushSeq+1 else s.requestedFlushSeq
  let txns := recordTxn s.openTxns s.abortedTxns owned s.highWater
  ({s with
      highWater := wrapI64 (s.highWater+delta+1)
      pendingFlushRecords := if trigger then 0 else pending
      requestedFlushSeq := seq
      producerStates := match accepted,parseBatchProducerInfo batch with
        | true,some info => recordAccepted s.producerStates info s.highWater
        | _,_ => s.producerStates
      openTxns := txns.1
      abortedTxns := txns.2 : Store}.publish,
    .stored s.highWater seq trigger)

def storeBatch (cfg : PartitionConfig) (env : IoEnv) (accepted : Bool) (batch : Bytes) (s : Store) :
    Store × Except StorageError Appended :=
  match parseBatchOffsets (rewriteBase batch s.highWater) with
  | .error e => (s,.error (.io e))
  | .ok _ => match s.active.appendBatch env s.dir (rewriteBase batch s.highWater)
      cfg.indexIntervalBytes with
    | (d,.error e) => ({s with dir := d},.error (.io e))
    | (d,.ok a) =>
      ((advance cfg accepted batch {s with active := a,dir := d}).1,
        .ok (advance cfg accepted batch {s with active := a,dir := d}).2)

/-- The critical section of `append`. No result: the slice `owned[0..8]` does not exist
and the task panics. -/
def appendLocked (cfg : PartitionConfig) (env : IoEnv) (epoch : UInt32) (batch : Bytes)
    (s : Store) : Option (Store × Except StorageError Appended) :=
  match admission s.toPartitionInner epoch batch with
  | .refused e => some (s,.error e)
  | .known base => some (s,.ok (.duplicate base))
  | .admitted accepted => match rollIfDue cfg env batch s with
    | (s,.error e) => some (s,.error e)
    | (s,.ok _) => if batch.length<8 then none else some (storeBatch cfg env accepted batch s)

/-- The committer's blocking half: fsync under the lock, and the checkpoint that is due. -/
def commitLocked (env : IoEnv) (s : Store) :
    Store × Except IoError (Nat × Option RecoveryCheckpoint) :=
  match s.active.syncLog env s.dir with
  | (d,.error e) => ({s with dir := d},.error e)
  | (d,.ok _) =>
    if checkpointIntervalBytes≤(s.active.logSize : Int)-s.lastCheckpointByte then
      ({s with dir := d,lastCheckpointByte := (s.active.logSize : Int)},
        .ok (s.requestedFlushSeq,
          some ⟨s.active.info.baseOffset,(s.active.logSize : Int),s.highWater⟩))
    else ({s with dir := d},.ok (s.requestedFlushSeq,none))

def writeDue (env : IoEnv) (s : Store) : Option RecoveryCheckpoint → Store
  | some cp => if env.persistCheckpoint then {s with dir := {s.dir with checkpoint := .present cp}} else s
  | none => s

variable {g : PartitionInner} {epoch : UInt32} {batch : Bytes} {cfg : PartitionConfig} {env : IoEnv}
  {s s' s1 : Store} {r : Except StorageError Unit}

theorem admission_classify {out : Admission}
    (h : admission g epoch batch=out) (ho : ∀e,out≠.refused e) : classifyBatch g batch=out := by
  unfold admission at h
  split_ifs at h
  · exact absurd h.symm (ho _)
  · exact absurd h.symm (ho _)
  · exact h

theorem classifyBatch_known {base : Int} (h : classifyBatch g batch=.known base) :
    ∃info,parseBatchProducerInfo batch=some info ∧ classify g.producerStates info=.duplicate base := by
  unfold classifyBatch at h
  split at h
  · cases h
  · rename_i info hi
    refine ⟨info,hi,?_⟩
    split at h <;> cases h
    assumption

theorem classifyBatch_admitted {accepted : Bool} (h : classifyBatch g batch=.admitted accepted) :
    (accepted=true ∧ ∃info,parseBatchProducerInfo batch=some info ∧
      classify g.producerStates info=.accept) ∨
    (accepted=false ∧ ∀info,parseBatchProducerInfo batch=some info →
      classify g.producerStates info=.notIdempotent) := by
  unfold classifyBatch at h
  split at h
  · rename_i hn
    cases h
    exact Or.inr ⟨rfl,fun info hi => by rw [hn] at hi; cases hi⟩
  · rename_i info hi
    split at h <;> cases h
    · rename_i hc
      exact Or.inl ⟨rfl,info,hi,hc⟩
    · rename_i hc
      refine Or.inr ⟨rfl,fun info' hi' => ?_⟩
      rw [hi] at hi'
      cases hi'
      exact hc

@[simp] theorem advance_highWater (cfg : PartitionConfig) (accepted : Bool) (batch : Bytes) (s : Store) :
    (advance cfg accepted batch s).1.highWater=wrapI64 (s.highWater+lastOffsetDelta batch+1) := by
  change wrapI64 (s.highWater+lastOffsetDelta (rewriteBase batch s.highWater)+1)=_
  rw [rewriteBase_lastOffsetDelta]

theorem advance_highWater_eq (cfg : PartitionConfig) (accepted : Bool) (batch : Bytes) (s : Store)
    (a : ActiveSegment) (d : Dir) (h : -2^63≤ s.highWater) (hd : 0≤lastOffsetDelta batch)
    (hu : s.highWater+recordCount batch<2^63) :
    (advance cfg accepted batch {s with active := a,dir := d}).1.highWater=s.highWater+recordCount batch := by
  unfold recordCount at hu ⊢
  rw [advance_highWater]
  dsimp only
  rw [wrapI64_of_range _ (by omega) (by omega)]
  omega

theorem advance_accepted (cfg : PartitionConfig) (s : Store) {info : BatchProducerInfo}
    (h : parseBatchProducerInfo batch=some info) :
    (advance cfg true batch s).1.producerStates=recordAccepted s.producerStates info s.highWater := by
  simp only [advance,Store.publish,h]

def rolled (s : Store) : Store :=
  {s with
    active := ActiveSegment.fresh s.highWater s.epoch
    closed := s.closed++[s.active.closedMeta]
    dir := ActiveSegment.created (s.active.syncedDir s.dir) (segmentName s.highWater s.epoch)}

theorem rollIfDue_cases (cfg : PartitionConfig) (env : IoEnv) (batch : Bytes) (s : Store) :
    rollIfDue cfg env batch s=(s,.ok ()) ∨
    (0<s.active.logSize ∧ rollIfDue cfg env batch s=(rolled s,.ok ())) ∨
    (0<s.active.logSize ∧ ∃d e,
      rollIfDue cfg env batch s=({s with active := placeholderSegment,dir := d},.error (.io e)) ∧
      (d=s.dir ∨ d=s.active.syncedDir s.dir ∨
        d=(s.active.syncedDir s.dir).eraseLog (segmentName s.highWater s.epoch))) := by
  unfold rollIfDue
  by_cases h : rollDue cfg env s.active batch=true
  · have hp : 0<s.active.logSize := by
      simp only [rollDue,Bool.and_eq_true,decide_eq_true_eq] at h
      exact h.2
    rw [if_pos h]
    rcases s.active.rollFast_cases env s.dir s.highWater s.epoch with hr|⟨d,e,hr,hd⟩
    · exact Or.inr (Or.inl ⟨hp,by simp only [hr,rolled]⟩)
    · exact Or.inr (Or.inr ⟨hp,d,e,by simp only [hr],hd⟩)
  · exact Or.inl (if_neg h)

/-- The stores differ in nothing but their segments and directories. -/
structure Store.SameLedger (s s1 : Store) : Prop where
  highWater : s1.highWater=s.highWater
  logStart : s1.logStart=s.logStart
  epoch : s1.epoch=s.epoch
  pending : s1.pendingFlushRecords=s.pendingFlushRecords
  requested : s1.requestedFlushSeq=s.requestedFlushSeq
  completed : s1.completedFlushSeq=s.completedFlushSeq
  producers : s1.producerStates=s.producerStates
  openTxns : s1.openTxns=s.openTxns
  abortedTxns : s1.abortedTxns=s.abortedTxns

theorem rollIfDue_ledger (h : rollIfDue cfg env batch s=(s1,r)) : s.SameLedger s1 := by
  rcases rollIfDue_cases cfg env batch s with hr|⟨_,hr⟩|⟨_,d,e,hr,_⟩
  all_goals
    obtain ⟨rfl,_⟩ := Prod.mk.inj (hr.symm.trans h)
    exact ⟨rfl,rfl,rfl,rfl,rfl,rfl,rfl,rfl,rfl⟩

theorem rollIfDue_flushErr (h : rollIfDue cfg env batch s=(s1,r)) : s1.flushErr=s.flushErr := by
  rcases rollIfDue_cases cfg env batch s with hr|⟨_,hr⟩|⟨_,d,e,hr,_⟩
  all_goals
    obtain ⟨rfl,_⟩ := Prod.mk.inj (hr.symm.trans h)
    rfl

/-- The four ways out of `append`: turned away, rolled into a failure, failed at the log,
or stored. -/
inductive AppendStep (cfg : PartitionConfig) (env : IoEnv) (epoch : UInt32) (batch : Bytes)
    (s : Store) : Store → Except StorageError Appended → Prop
  | refused (e : StorageError) (h : admission s.toPartitionInner epoch batch=.refused e) :
      AppendStep cfg env epoch batch s s (.error e)
  | known (base : Int) (h : admission s.toPartitionInner epoch batch=.known base) :
      AppendStep cfg env epoch batch s s (.ok (.duplicate base))
  | rollFailed (accepted : Bool) (s1 : Store) (e : StorageError)
      (h : admission s.toPartitionInner epoch batch=.admitted accepted)
      (roll : rollIfDue cfg env batch s=(s1,.error e)) :
      AppendStep cfg env epoch batch s s1 (.error e)
  | failed (accepted : Bool) (s1 : Store) (d : Dir) (e : IoError)
      (h : admission s.toPartitionInner epoch batch=.admitted accepted)
      (roll : rollIfDue cfg env batch s=(s1,.ok ())) (long : 8≤batch.length)
      (dir : d=s1.dir ∨ (s1.active.logOpen=true ∧ ∃buf,d=s1.dir.onLog s1.active.info.name
        (fun f => f.writeAt buf s1.active.logSize))) :
      AppendStep cfg env epoch batch s {s1 with dir := d} (.error (.io e))
  | stored (accepted : Bool) (s1 : Store) (d : Dir) (a : ActiveSegment)
      (h : admission s.toPartitionInner epoch batch=.admitted accepted)
      (roll : rollIfDue cfg env batch s=(s1,.ok ())) (long : 43≤batch.length)
      (write : s1.active.appendBatch env s1.dir (rewriteBase batch s1.highWater)
        cfg.indexIntervalBytes=(d,.ok a)) :
      AppendStep cfg env epoch batch s (advance cfg accepted batch {s1 with active := a,dir := d}).1
        (.ok (advance cfg accepted batch {s1 with active := a,dir := d}).2)

theorem appendLocked_step {r : Except StorageError Appended}
    (h : appendLocked cfg env epoch batch s=some (s',r)) : AppendStep cfg env epoch batch s s' r := by
  unfold appendLocked at h
  cases ha : admission s.toPartitionInner epoch batch with
  | refused e =>
    rw [ha] at h
    obtain ⟨rfl,rfl⟩ := Prod.mk.inj (Option.some.inj h)
    exact .refused e ha
  | known base =>
    rw [ha] at h
    obtain ⟨rfl,rfl⟩ := Prod.mk.inj (Option.some.inj h)
    exact .known base ha
  | admitted accepted =>
    rw [ha] at h
    dsimp only at h
    split at h
    · rename_i s1 e hr
      obtain ⟨rfl,rfl⟩ := Prod.mk.inj (Option.some.inj h)
      exact .rollFailed accepted s1 e ha hr
    · rename_i s1 u hr
      split_ifs at h with hl
      have h8 : 8≤batch.length := not_lt.mp hl
      have hlen := rewriteBase_length batch s1.highWater h8
      unfold storeBatch at h
      split at h
      · rename_i e hp
        obtain ⟨rfl,rfl⟩ := Prod.mk.inj (Option.some.inj h)
        exact .failed accepted s1 s1.dir e ha hr h8 (Or.inl rfl)
      · split at h
        · rename_i d e hw
          obtain ⟨rfl,rfl⟩ := Prod.mk.inj (Option.some.inj h)
          exact .failed accepted s1 d e ha hr h8 (ActiveSegment.appendBatch_error _ _ _ _ _ _ _ hw)
        · rename_i d a hw
          obtain ⟨rfl,rfl⟩ := Prod.mk.inj (Option.some.inj h)
          have h43 := (ActiveSegment.appendBatch_ok _ _ _ _ _ _ _ hw).1
          rw [hlen] at h43
          exact .stored accepted s1 d a ha hr h43 hw

theorem rollIfDue_segmentsOnly (h : rollIfDue cfg env batch s=(s1,r)) : s.dir.SegmentsOnly s1.dir := by
  have hs := s.active.syncedDir_segmentsOnly s.dir
  rcases rollIfDue_cases cfg env batch s with hr|⟨_,hr⟩|⟨_,d,e,hr,rfl|rfl|rfl⟩
  all_goals obtain ⟨rfl,_⟩ := Prod.mk.inj (hr.symm.trans h)
  · exact .refl _
  · exact hs.trans ⟨rfl,rfl,rfl,rfl⟩
  · exact .refl _
  · exact hs
  · exact hs.trans ⟨rfl,rfl,rfl,rfl⟩

theorem appendLocked_segmentsOnly {r : Except StorageError Appended}
    (h : appendLocked cfg env epoch batch s=some (s',r)) : s.dir.SegmentsOnly s'.dir := by
  cases appendLocked_step h with
  | refused e _ => exact .refl _
  | known base _ => exact .refl _
  | rollFailed accepted s1 e _ roll => exact rollIfDue_segmentsOnly roll
  | failed accepted s1 d e _ roll _ hd =>
    have h1 := rollIfDue_segmentsOnly roll
    rcases hd with rfl|⟨_,buf,rfl⟩
    · exact h1
    · exact h1.trans (s1.dir.onLog_segmentsOnly _ _)
  | stored accepted s1 d a _ roll _ write =>
    exact (rollIfDue_segmentsOnly roll).trans
      (ActiveSegment.appendBatch_wrote _ _ _ _ _ _ _ write).rest

theorem commitLocked_ok {seq : Nat} {cp : Option RecoveryCheckpoint}
    (h : commitLocked env s=(s',.ok (seq,cp))) :
    s.active.logOpen=true ∧ seq=s.requestedFlushSeq ∧
    s'={s with
      dir := s.dir.onLog s.active.info.name LogFile.syncAll
      lastCheckpointByte := s'.lastCheckpointByte} ∧
    (cp=none ∨ cp=some ⟨s.active.info.baseOffset,(s.active.logSize : Int),s.highWater⟩) := by
  unfold commitLocked at h
  rcases s.active.syncLog_cases env s.dir with ⟨ho,hs⟩|⟨e,hs⟩
  · rw [hs] at h
    dsimp only at h
    split_ifs at h
    · obtain ⟨rfl,hr⟩ := Prod.mk.inj h
      cases hr
      exact ⟨ho,rfl,rfl,Or.inr rfl⟩
    · obtain ⟨rfl,hr⟩ := Prod.mk.inj h
      cases hr
      exact ⟨ho,rfl,rfl,Or.inl rfl⟩
  · rw [hs] at h
    cases (Prod.mk.inj h).2

theorem commitLocked_error {e : IoError} (h : commitLocked env s=(s',.error e)) : s'=s := by
  unfold commitLocked at h
  rcases s.active.syncLog_cases env s.dir with ⟨ho,hs⟩|⟨e,hs⟩
  · rw [hs] at h
    dsimp only at h
    split_ifs at h <;> cases (Prod.mk.inj h).2
  · rw [hs] at h
    exact (Prod.mk.inj h).1.symm

end Kaas
