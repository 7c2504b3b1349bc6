import Kaas.Storage.Scan
import Kaas.Storage.Segment

namespace Kaas

def checkpointIntervalBytes : Int := 64*1024*1024

structure PartitionConfig where
  segmentBytes : Nat := 2^30
  segmentMs : Option Nat := some (7*24*60*60*1000)
  indexIntervalBytes : Nat := 4096
  flushIntervalMessages : Int := 1
  deriving DecidableEq, Repr

structure ReadSnapshot where
  highWater : Int
  logStart : Int
  epoch : Int
  closed : List SegmentMeta
  activeMeta : SegmentMeta
  deriving DecidableEq, Repr

structure PartitionInner where
  active : ActiveSegment
  closed : List SegmentMeta
  logStart : Int
  highWater : Int
  epoch : Int
  pendingFlushRecords : Int := 0
  lastCheckpointByte : Int := 0
  requestedFlushSeq : Nat := 0
  completedFlushSeq : Nat := 0
  flushErr : Option StorageError := none
  producerStates : ProducerStates := ∅
  openTxns : OpenTxnIndex := ∅
  abortedTxns : AbortedTxnIndex := []

def snapshotOf (g : PartitionInner) : ReadSnapshot :=
  ⟨g.highWater,g.logStart,g.epoch,g.closed,g.active.info⟩

structure Partition extends PartitionInner where
  snapshot : ReadSnapshot

structure Store extends Partition where
  dir : Dir

def Store.publish (s : Store) : Store := {s with snapshot := snapshotOf s.toPartitionInner}

/-- Where the recovery scan starts and with which high watermark: at the checkpoint when it names
this segment and lies within its log, else at the first byte. -/
def recoveryStart (d : Dir) (a : ActiveSegment) : Nat × Int :=
  match d.checkpoint with
  | .present cp =>
    if cp.segmentBase=a.info.baseOffset ∧ 0≤ cp.bytePos ∧ cp.bytePos≤a.logSize then
      (cp.bytePos.toNat,cp.highWatermark)
    else (0,a.info.baseOffset)
  | _ => (0,a.info.baseOffset)

def recoveryScan (crc : Crc32c) (d : Dir) (a : ActiveSegment) : ScanResult :=
  scanHighWatermarkFrom crc (d.logData a.info.name) (recoveryStart d a).1 (recoveryStart d a).2

def openActive (env : IoEnv) (d : Dir) (hwm epoch : Int) :
    Dir × Except IoError (List SegmentMeta × ActiveSegment) :=
  match (listSegments d).getLast? with
  | some last =>
    (((ActiveSegment.openMetaOnly last).openHandles d).1,
      .ok ((listSegments d).dropLast,((ActiveSegment.openMetaOnly last).openHandles d).2))
  | none => match ActiveSegment.create env d hwm epoch with
    | (d,.error e) => (d,.error e)
    | (d,.ok a) => (d,.ok ([],a))

def repairTail (crc : Crc32c) (d : Dir) (a : ActiveSegment) : Dir × ActiveSegment :=
  if (recoveryScan crc d a).stop=.eof then (d,a)
  else a.truncateTo d (recoveryScan crc d a).validEnd

def restoreProducers (d : Dir) : Except StorageError ProducerStates :=
  match d.producers with
  | .absent => .ok ∅
  | .corrupt => .error .json
  | .present entries => .ok (entries.foldl (fun m e => m.insert e.1 e.2) ∅)

def restoreTxns (d : Dir) (logStart : Int) : Except StorageError (OpenTxnIndex × AbortedTxnIndex) :=
  match d.txns with
  | .absent => .ok (∅,[])
  | .corrupt => .error .json
  | .present (opened,aborted) =>
    .ok (OpenTxnIndex.restore opened,(AbortedTxnIndex.restore aborted).evictBelow logStart)

def ReadResult.values : ReadResult → Int × Int × Int
  | .present m => (m.epoch,m.highWatermark,m.logStartOffset)
  | .legacy m => (m.epoch,0,0)
  | .notFound => (0,0,0)

def ManifestFiles.Typed (files : ManifestFiles) : Prop :=
  ∀m,files.read=.ok m → -2^63≤ m.values.2.1 ∧ m.values.2.1<2^63

/-- The last step of an open: the manifest is rewritten unless a higher epoch is on disk,
and the partition comes up at the epoch in effect. -/
def openWrite (d : Dir) (closed : List SegmentMeta) (active : ActiveSegment) (hwm epoch logStart : Int)
    (producers : ProducerStates) (txns : OpenTxnIndex × AbortedTxnIndex) : Dir × PartitionInner :=
  ({d with manifest := (d.manifest.writeUnlessSuperseded ⟨epoch,hwm,logStart⟩).1},
    {active := active
     closed := closed
     logStart := logStart
     highWater := hwm
     epoch := (d.manifest.writeUnlessSuperseded ⟨epoch,hwm,logStart⟩).2
     producerStates := producers
     openTxns := txns.1
     abortedTxns := txns.2})

/-- What follows the repair: the persisted windows are read back before the manifest is written. -/
def restoreState (d : Dir) (closed : List SegmentMeta) (active : ActiveSegment)
    (hwm epoch logStart : Int) : Dir × Except StorageError PartitionInner :=
  match restoreProducers d with
  | .error e => (d,.error e)
  | .ok producers => match restoreTxns d logStart with
    | .error e => (d,.error e)
    | .ok txns => ((openWrite d closed active hwm epoch logStart producers txns).1,
        .ok (openWrite d closed active hwm epoch logStart producers txns).2)

def openBlocking (crc : Crc32c) (env : IoEnv) (d : Dir) : Dir × Except StorageError PartitionInner :=
  match d.manifest.read with
  | .error e => (d,.error e)
  | .ok m => match openActive env d m.values.2.1 m.values.1 with
    | (d,.error e) => (d,.error (.io e))
    | (d,.ok (closed,a)) => restoreState (repairTail crc d a).1 closed (repairTail crc d a).2
        (recoveryScan crc d a).highWatermark m.values.1 m.values.2.2

def openPartition (crc : Crc32c) (env : IoEnv) (d : Dir) : Dir × Except StorageError Partition :=
  match openBlocking crc env d with
  | (d,.error e) => (d,.error e)
  | (d,.ok g) => (d,.ok ⟨g,snapshotOf g⟩)

/-- The partition a first open makes of an empty directory. -/
def firstStore : Store where
  active := ActiveSegment.fresh 0 0
  closed := []
  logStart := 0
  highWater := 0
  epoch := 0
  snapshot := ⟨0,0,0,[],(ActiveSegment.fresh 0 0).info⟩
  dir := {ActiveSegment.created {} (segmentName 0 0) with manifest := ⟨.present ⟨0,0,0⟩,none⟩}

theorem openPartition_empty (crc : Crc32c) :
    openPartition crc {} {}=(firstStore.dir,.ok firstStore.toPartition) := rfl

end Kaas
