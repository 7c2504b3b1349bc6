import Kaas.Storage.Contents
import Kaas.Storage.Memory

namespace Kaas

/-! One partition in both engines. -/

structure Engines where
  disk : Store
  memory : MemoryPartition

inductive EngineOp
  | append (cfg : PartitionConfig) (ageMs : Nat) (epoch : UInt32) (batch : Bytes)
  | deleteRecords (unlinked : Bool) (target : Int)

/-- A call to the disk engine when its files can be written; unlinking may fail all the same. -/
def diskCall (s : Store) : EngineOp → Option (Store × Except StorageError Int)
  | .append cfg ageMs epoch batch =>
    (appendLocked cfg {ageMs := ageMs} epoch batch s).map (fun r => (r.1,r.2.map Appended.base))
  | .deleteRecords unlinked target => some (deleteRecords {remove := unlinked} target s)

def memoryCall (m : MemoryPartition) : EngineOp → MemoryPartition × Except StorageError Int
  | .append _ _ _ batch => m.append batch
  | .deleteRecords _ target => m.deleteRecords target

def Engines.exec (e : Engines) : Option EngineOp → Option Engines
  | some op => (diskCall e.disk op).map (fun r => ⟨r.1,(memoryCall e.memory op).1⟩)
  | none => match commitLocked {} e.disk with
    | (s,.error _) => some {e with disk := s}
    | (s,.ok (_,cp)) => some {e with disk := writeDue {} s cp}

def firstEngines : Engines := ⟨firstStore,{}⟩

def EngineStep (e : Engines) (op : Option EngineOp) (e' : Engines) : Prop := e.exec op=some e'

/-- Well-formed batches outside the idempotence window, as long as offsets last and an index entry
that is due has room. -/
def EngineOk (crc : Crc32c) (e : Engines) : Option EngineOp → Prop
  | some (.append cfg ageMs _ batch) => WellFormed crc batch ∧ (producerId batch<0 ∨ baseSequence batch<0) ∧
      e.disk.highWater+recordCount batch<2^63 ∧
      (rollDue cfg {ageMs := ageMs} e.disk.active batch=false → EntryFits cfg e.disk)
  | _ => True

instance (crc : Crc32c) (e : Engines) : (op : Option EngineOp) → Decidable (EngineOk crc e op)
  | some (.append cfg ageMs _ batch) => inferInstanceAs (Decidable (WellFormed crc batch ∧
      (producerId batch<0 ∨ baseSequence batch<0) ∧ e.disk.highWater+recordCount batch<2^63 ∧
      (rollDue cfg {ageMs := ageMs} e.disk.active batch=false → EntryFits cfg e.disk)))
  | some (.deleteRecords _ _) | none => .isTrue trivial

/-- The disk engine's segments and the batches in memory hold the same log, but for what a deletion
has dropped. -/
structure Mirrored (crc : Crc32c) (s : Store) (m : MemoryPartition)
    (rows : SegmentName → List Bytes) : Prop extends Filed crc s rows where
  epoch : s.epoch=0
  flushErr : s.flushErr=none
  highWater : m.highWater=s.highWater
  logStart : m.logStart=s.logStart
  headed : ∀b∈m.batches,MemoryPartition.Headed b
  same : ∀start,s.logStart≤ start → wanted start (m.batches.map MemoryBatch.raw)=wanted start (s.contents rows)

section Calls

variable {crc : Crc32c} {s : Store} {m : MemoryPartition} {rows : SegmentName → List Bytes}

theorem Mirrored.reads (h : Mirrored crc s m rows) (start : Int) (maxBytes : Nat) (hu : start<2^63)
    (near : ∀c∈s.closed++[s.active.info],c.baseOffset-max start s.logStart≤2^31) :
    readSnapshot s.dir (snapshotOf s.toPartitionInner) start maxBytes=m.read start maxBytes ↔
      Aligned maxBytes (wanted (max start s.logStart) (m.batches.map MemoryBatch.raw)) := by
  obtain ⟨hstart,hle⟩ := h.started
  have hhigh := h.active.high
  have hdisk : readSnapshot s.dir (snapshotOf s.toPartitionInner) start maxBytes=(fill maxBytes (wanted
      (max start s.logStart) (s.contents rows)) []).take maxBytes :=
    readSnapshot_fill rows h.closed h.active maxBytes hstart
      (show max start s.logStart<2^63 by omega) near
  rw [← h.same _ (le_max_right _ _)] at hdisk
  rw [hdisk,MemoryPartition.read,h.logStart]
  by_cases hz : 0< maxBytes
  · rw [MemoryPartition.readFrom_fill start s.logStart maxBytes m.batches h.headed [] (by simpa using hz)]
    exact fill_take_iff _ hz
  · have h0 : maxBytes=0 := by omega
    rw [h0,MemoryPartition.readFrom_zero start s.logStart m.batches h.headed,List.take_zero]
    cases hw : wanted (max start s.logStart) (m.batches.map MemoryBatch.raw) with
    | nil => exact ⟨fun _ => Or.inl rfl,fun _ => rfl⟩
    | cons raw rest =>
      have hmem : raw∈m.batches.map MemoryBatch.raw := List.mem_of_mem_filter (hw ▸ List.mem_cons_self ..)
      obtain ⟨b,hb,rfl⟩ := List.mem_map.mp hmem
      have hne := (h.headed b hb).1
      constructor
      · intro hnil
        rw [List.take_succ_cons,List.take_zero,List.flatten_singleton] at hnil
        exact absurd hnil.symm hne
      · rintro (hnil|⟨hpos,_⟩)
        · cases hnil
        · omega

theorem admission_plain (h : Mirrored crc s m rows) (epoch : UInt32) {batch : Bytes}
    (hn : producerId batch<0 ∨ baseSequence batch<0) :
    admission s.toPartitionInner epoch batch=.admitted false := by
  have hepoch : ¬(epoch.toNat : Int)<s.epoch := by rw [h.epoch]; omega
  rw [admission,h.flushErr,if_neg (by simp),if_neg hepoch,classifyBatch,parseBatchProducerInfo]
  by_cases hl : batch.length<57
  · rw [if_pos hl]
  · rw [if_neg hl]
    dsimp only
    by_cases hp : producerId batch<0
    · rw [classify,if_pos hp]
    · rw [classify,if_neg hp,if_pos (hn.resolve_left hp)]

theorem mirrored_append (h : Mirrored crc s m rows) {cfg : PartitionConfig} {ageMs : Nat} {epoch : UInt32}
    {batch : Bytes} (hok : EngineOk crc ⟨s,m⟩ (some (.append cfg ageMs epoch batch))) :
    ∃s' rows',diskCall s (.append cfg ageMs epoch batch)=some (s',(m.append batch).2) ∧
      Mirrored crc s' (m.append batch).1 rows' ∧ s'.snapshot=snapshotOf s'.toPartitionInner := by
  obtain ⟨hb,hn,hu,hfit⟩ := hok
  have hstart := h.started
  have hmem := m.append_stored batch hb.headed (by rw [h.highWater]; omega) hb.counted
    (by rw [h.highWater]; exact hu)
  rw [h.highWater] at hmem
  obtain ⟨t,d,a,rows',hcall,hroll,hf,hc⟩ := filed_append h.toFiled
    (admission_plain h epoch hn) hb hu hfit
  have hl := rollIfDue_ledger hroll
  have herr := rollIfDue_flushErr hroll
  have hlow : (advance cfg false batch {t with active := a,dir := d}).1.logStart=s.logStart := hl.logStart
  have hhw : (advance cfg false batch
    {t with active := a,dir := d}).1.highWater=s.highWater+recordCount batch := by
    rw [← hl.highWater] at hu ⊢
    exact advance_highWater_eq cfg false batch t a d (by rw [hl.highWater]; omega) hb.counted hu
  refine ⟨_,rows',?_,⟨hf,hl.epoch.trans h.epoch,herr.trans h.flushErr,?_,?_,?_,fun start hle => ?_⟩,rfl⟩
  · rw [diskCall,hcall,hmem,← hl.highWater]
    rfl
  · rw [hmem,hhw]
  · rw [hmem,hlow]
    exact h.logStart
  · rw [hmem]
    intro b hm
    rcases List.mem_append.mp hm with hm|hm
    · exact h.headed b hm
    · rw [List.mem_singleton.mp hm]
      exact MemoryPartition.headed_stored batch s.highWater hb.headed (by omega) hb.counted hu
  · rw [hlow] at hle
    rw [hc,wanted_append,← h.same start hle,hmem,List.map_append,wanted_append]
    rfl

theorem mirrored_delete (h : Mirrored crc s m rows) (hp : s.snapshot=snapshotOf s.toPartitionInner)
    (removed : Bool) (target : Int) :
    ∃s',diskCall s (.deleteRecords removed target)=some (s',(m.deleteRecords target).2) ∧
      Mirrored crc s' (m.deleteRecords target).1 rows ∧ s'.snapshot=snapshotOf s'.toPartitionInner := by
  have htarget : m.deleteTarget target=deleteTarget s.toPartitionInner target := by
    rw [MemoryPartition.deleteTarget,h.highWater,deleteTarget]
  rw [diskCall,deleteRecords,MemoryPartition.deleteRecords,htarget]
  cases ht : deleteTarget s.toPartitionInner target with
  | error e => exact ⟨s,rfl,h,hp⟩
  | ok low =>
    dsimp only
    rw [h.logStart]
    by_cases hlt : s.logStart<low
    · rw [if_pos hlt,if_pos hlt]
      obtain ⟨hf,hsame⟩ := filed_deleted h.toFiled hlt (deleteTarget_le ht)
        (removeSegments_kept h.sorted h.named removed low)
      exact ⟨_,rfl,⟨hf,h.epoch,h.flushErr,h.highWater,rfl,h.headed,
        fun start hle => (h.same start (le_trans (le_of_lt hlt) hle)).trans (hsame start hle)⟩,rfl⟩
    · rw [if_neg hlt,if_neg hlt]
      exact ⟨s,rfl,h,hp⟩

end Calls

/-- The engines agree: on both offsets, on the answer to every call, and on what is read when the
limit falls between two batches and no segment lies more than `2^31` above the start. -/
structure Equivalent (crc : Crc32c) (e : Engines) : Prop where
  highWater : e.disk.snapshot.highWater=e.memory.highWater
  logStart : e.disk.snapshot.logStart=e.memory.logStart
  answers : ∀op,EngineOk crc e (some op) →
    (diskCall e.disk op).map Prod.snd=some (memoryCall e.memory op).2
  reads : ∀start maxBytes,start<2^63 →
    (∀c∈e.disk.snapshot.closed++[e.disk.snapshot.activeMeta],c.baseOffset-max start e.memory.logStart≤2^31) →
    (readSnapshot e.disk.dir e.disk.snapshot start maxBytes=e.memory.read start maxBytes ↔
      Aligned maxBytes (wanted (max start e.memory.logStart) (e.memory.batches.map MemoryBatch.raw)))

section Runs

variable {crc : Crc32c} {e : Engines}

def EnginesSound (crc : Crc32c) (e : Engines) : Prop :=
  (∃rows,Mirrored crc e.disk e.memory rows) ∧ e.disk.snapshot=snapshotOf e.disk.toPartitionInner

theorem enginesSound_call (h : EnginesSound crc e) {op : EngineOp} (hok : EngineOk crc e (some op)) :
    ∃s',diskCall e.disk op=some (s',(memoryCall e.memory op).2) ∧
      EnginesSound crc ⟨s',(memoryCall e.memory op).1⟩ := by
  obtain ⟨⟨rows,hm⟩,hp⟩ := h
  cases op with
  | append cfg ageMs epoch batch =>
    obtain ⟨s',rows',hcall,hm',hp'⟩ := mirrored_append hm hok
    exact ⟨s',hcall,⟨rows',hm'⟩,hp'⟩
  | deleteRecords removed target =>
    obtain ⟨s',hcall,hm',hp'⟩ := mirrored_delete hm hp removed target
    exact ⟨s',hcall,⟨rows,hm'⟩,hp'⟩

theorem enginesSound_commit (h : EnginesSound crc e) {e' : Engines} (hs : e.exec none=some e') :
    EnginesSound crc e' := by
  obtain ⟨⟨rows,hm⟩,hp⟩ := h
  have hsame := Dir.SameData.sync e.disk.dir e.disk.active.info.name
  have hidx := (e.disk.dir.onLog_rest e.disk.active.info.name LogFile.syncAll).1
  simp only [Engines.exec,commitLocked,ActiveSegment.syncLog,hm.opened.1,if_true] at hs
  -- whether a checkpoint is due changes nothing that the engines share
  split_ifs at hs
  all_goals
    cases hs
    exact ⟨⟨rows,filed_synced hm.toFiled _ hsame hidx,hm.epoch,hm.flushErr,hm.highWater,hm.logStart,
      hm.headed,hm.same⟩,hp⟩

theorem firstStore_mirrored (crc : Crc32c) : Mirrored crc firstStore {} (fun _ => []) :=
  ⟨firstStore_filed crc,rfl,rfl,rfl,rfl,fun _ hb => absurd hb List.not_mem_nil,fun _ _ => rfl⟩

theorem enginesSound_step {op : Option EngineOp} {e' : Engines} (h : EnginesSound crc e)
    (hok : EngineOk crc e op)
    (hs : EngineStep e op e') : EnginesSound crc e' := by
  cases op with
  | none => exact enginesSound_commit h hs
  | some op =>
    obtain ⟨s',hcall,h'⟩ := enginesSound_call h hok
    rw [EngineStep,Engines.exec,hcall] at hs
    cases hs
    exact h'

end Runs

theorem engines_equivalent (crc : Crc32c) (e : Engines)
    (run : Reaches EngineStep (EngineOk crc) firstEngines e) : Equivalent crc e := by
  have h := run.invariant ⟨⟨_,firstStore_mirrored crc⟩,rfl⟩
    (fun _ op e' h hok hs => enginesSound_step h hok hs)
  obtain ⟨⟨rows,hm⟩,hp⟩ := h
  refine ⟨?_,?_,fun op hok => ?_,fun start maxBytes hu near => ?_⟩
  · rw [hp]
    exact hm.highWater.symm
  · rw [hp]
    exact hm.logStart.symm
  · obtain ⟨s',hcall,_⟩ := enginesSound_call ⟨⟨rows,hm⟩,hp⟩ hok
    rw [hcall]
    rfl
  · rw [hp] at near ⊢
    rw [hm.logStart] at near ⊢
    exact hm.reads start maxBytes hu near

theorem rolled_engines_equivalent :
    ∃e,runChecked Engines.exec (EngineOk castagnoli) [some (.append {segmentBytes := 100} 0 0 plainBatch),none,
        some (.append {segmentBytes := 100} 0 0 plainBatch),some (.append {segmentBytes := 100} 0 0 plainBatch),
        some (.deleteRecords true 1)] firstEngines=some e ∧
      e.disk.closed.length=1 ∧ Equivalent castagnoli e ∧
      readSnapshot e.disk.dir e.disk.snapshot 0 122=e.memory.read 0 122 ∧ (e.memory.read 0 122).length=122 := by
  refine runChecked_outcome (p := fun e => e.disk.closed.length=1 ∧
    (∀c∈e.disk.snapshot.closed++[e.disk.snapshot.activeMeta],c.baseOffset-max 0 e.memory.logStart≤2^31) ∧
    (wanted (max 0 e.memory.logStart) (e.memory.batches.map MemoryBatch.raw)).flatten.length≤122 ∧
    (e.memory.read 0 122).length=122)
    (fun _ _ _ h => h) (by decide +kernel) fun e hreach ⟨hclosed,hnear,hfit,hlen⟩ => ?_
  have heq := engines_equivalent castagnoli e hreach
  have haligned : Aligned 122 (wanted (max 0 e.memory.logStart) (e.memory.batches.map MemoryBatch.raw)) :=
    Or.inr ⟨by omega,Or.inl hfit⟩
  exact ⟨hclosed,heq,(heq.reads 0 122 (by omega) hnear).mpr haligned,hlen⟩

/-- One batch, read with a limit below its length: the disk engine cuts it off, the engine in memory
does not. -/
theorem cut_read_differs : WellFormed castagnoli plainBatch ∧ producerId plainBatch<0 ∧
    ∃e,runAll Engines.exec [some (.append {} 0 0 plainBatch)] firstEngines=some e ∧
      readSnapshot e.disk.dir e.disk.snapshot 0 30=(rewriteBase plainBatch 0).take 30 ∧
      e.memory.read 0 30=rewriteBase plainBatch 0 ∧
      readSnapshot e.disk.dir e.disk.snapshot 0 30≠e.memory.read 0 30 :=
  ⟨by decide +kernel,by decide +kernel,exists_outcome (by decide +kernel)⟩

end Kaas
