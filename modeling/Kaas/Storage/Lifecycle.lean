import Kaas.Storage.Append

namespace Kaas

def superseded (d : Dir) (epoch : Int) : Bool :=
  match d.manifest.read with
  | .ok (.present onDisk) => decide (epoch<onDisk.epoch)
  | _ => false

/-- The snapshot files of the producer window and the transaction indexes, in this order. -/
def persistWindows (env : IoEnv) (g : PartitionInner) (d : Dir) : Dir × Except StorageError Unit :=
  if env.persistProducers then
    if env.persistTxns then
      ({d with
          producers := .present (g.producerStates.entries.map (fun e => (e.1,e.2)))
          txns := .present (g.openTxns.toEntries,g.abortedTxns)},.ok ())
    else
      ({d with producers := .present (g.producerStates.entries.map (fun e => (e.1,e.2)))},
        .error (.io .fault))
  else (d,.error (.io .fault))

/-- The manifest write that ends `persist_state_locked`; true when our epoch is in effect. -/
def persistManifest (g : PartitionInner) (d : Dir) (epoch : Int) : Dir × Bool :=
  ({d with manifest := (d.manifest.writeUnlessSuperseded ⟨epoch,g.highWater,g.logStart⟩).1},
    decide ((d.manifest.writeUnlessSuperseded ⟨epoch,g.highWater,g.logStart⟩).2=epoch))

def persistStateLocked (env : IoEnv) (g : PartitionInner) (d : Dir) (epoch : Int) :
    Dir × Except StorageError Bool :=
  if superseded d epoch then (d,.ok false)
  else match persistWindows env g d with
    | (d,.error e) => (d,.error e)
    | (d,.ok _) =>
      if env.persistManifest then ((persistManifest g d epoch).1,.ok (persistManifest g d epoch).2)
      else (d,.error (.io .fault))

/-- The outgoing segment of an epoch roll: kept as closed when it holds bytes, else unlinked. -/
def retireActive (env : IoEnv) (s : Store) (a : ActiveSegment) : Store :=
  if 0<s.active.logSize then
    {s with active := a,closed := s.closed++[s.active.closedMeta],lastCheckpointByte := 0}
  else
    {s with
      active := a
      lastCheckpointByte := 0
      dir := if env.remove then s.dir.removeSegment s.active.info.name else s.dir}

def rollForEpochLocked (env : IoEnv) (s : Store) (newEpoch : Int) : Store × Except StorageError Unit :=
  if s.active.info.epoch=newEpoch ∧ s.active.info.baseOffset=s.highWater then (s,.ok ())
  else
    match (if 0<s.active.logSize then s.active.syncLog env s.dir else (s.dir,.ok ())) with
    | (d,.error e) => ({s with dir := d},.error (.io e))
    | (d,.ok _) => match ActiveSegment.create env d s.highWater newEpoch with
      | (d,.error e) => ({s with dir := d},.error (.io e))
      | (d,.ok a) => (retireActive env {s with dir := d} a,.ok ())

def takeOverFinish (s : Store) (epoch : Int) : Store := {s with epoch := epoch : Store}.publish

/-- `take_over`: the returned flag of the persist step is not looked at. -/
def takeOver (env : IoEnv) (epoch : UInt32) (s : Store) : Store × Except StorageError Int :=
  if (epoch.toNat : Int)≤ s.epoch then (s,.ok s.snapshot.highWater)
  else match rollForEpochLocked env s epoch.toNat with
    | (s,.error e) => (s,.error e)
    | (s,.ok _) => match persistStateLocked env s.toPartitionInner s.dir epoch.toNat with
      | (d,.error e) => ({s with dir := d},.error e)
      | (d,.ok _) => (takeOverFinish {s with dir := d} epoch.toNat,.ok s.highWater)

def closeCheckpoint (s : Store) : RecoveryCheckpoint :=
  ⟨s.active.info.baseOffset,(s.active.logSize : Int),s.highWater⟩

/-- What a close does behind its persist step: sync, checkpoint unless superseded, release. -/
def closeFinish (env : IoEnv) (s : Store) (persisted : Bool) : Store :=
  if persisted then
    match s.active.syncLog env s.dir with
    | (d,.error _) => {s with dir := d,active := s.active.closeHandles}
    | (d,.ok _) =>
      {s with
        active := s.active.closeHandles
        lastCheckpointByte := (closeCheckpoint s).bytePos
        dir := if env.persistCheckpoint then {d with checkpoint := .present (closeCheckpoint s)}
          else d}
  else {s with active := s.active.closeHandles}

def closePartition (env : IoEnv) (s : Store) : Store × Except StorageError Unit :=
  match persistStateLocked env s.toPartitionInner s.dir s.epoch with
  | (d,.error e) => ({s with dir := d},.error e)
  | (d,.ok persisted) => (closeFinish env {s with dir := d} persisted,.ok ())

/-- Exclusive upper bounds of the closed segments: the next base, for the last the active one's. -/
def upperBounds (closed : List SegmentMeta) (activeBase : Int) : List Int :=
  closed.tail.map (fun m => m.baseOffset)++[activeBase]

def dropBelow (s : Store) (newStart : Int) : List (SegmentMeta × Int) :=
  (s.closed.zip (upperBounds s.closed s.active.info.baseOffset)).filter
    (fun p => decide (p.2≤newStart))

def keepAbove (s : Store) (newStart : Int) : List (SegmentMeta × Int) :=
  (s.closed.zip (upperBounds s.closed s.active.info.baseOffset)).filter
    (fun p => !decide (p.2≤newStart))

def deleteTarget (g : PartitionInner) (target : Int) : Except StorageError Int :=
  if target<0 then .ok g.highWater
  else if g.highWater<target then .error .offsetOutOfRange
  else .ok target

def deleteRecords (env : IoEnv) (target : Int) (s : Store) : Store × Except StorageError Int :=
  match deleteTarget s.toPartitionInner target with
  | .error e => (s,.error e)
  | .ok newStart =>
    if s.logStart<newStart then
      ({s with
          logStart := newStart
          closed := (keepAbove s newStart).map Prod.fst
          abortedTxns := s.abortedTxns.evictBelow newStart
          dir := if env.remove then
              (dropBelow s newStart).foldl (fun d p => d.removeSegment p.1.name) s.dir
            else s.dir : Store}.publish,
        .ok newStart)
    else (s,.ok s.logStart)

def lastStableOffset (g : PartitionInner) : Int := g.openTxns.minOpenOffset.getD g.highWater

def abortedInRange (g : PartitionInner) (start stop : Int) : List AbortedTxn :=
  g.abortedTxns.inRange start stop

theorem superseded_iff (d : Dir) (epoch : Int) :
    superseded d epoch=true ↔ ∃m,d.manifest.manifestJson=.present m ∧ epoch< m.epoch := by
  unfold superseded
  split
  · rename_i m hm
    have hp := (ManifestFiles.read_present _ _).mp hm
    simp [hp]
  · rename_i hne
    simp only [Bool.false_eq_true,false_iff]
    rintro ⟨m,hm,_⟩
    exact hne m ((ManifestFiles.read_present _ _).mpr hm)

theorem superseded_durable {d : Dir} {epoch : Int} (h : superseded d epoch=true) :
    ∃e,d.manifest.durableEpoch=some e ∧ epoch<e := by
  obtain ⟨m,hm,hlt⟩ := (superseded_iff d epoch).mp h
  exact ⟨m.epoch,by rw [ManifestFiles.durableEpoch,hm],hlt⟩

theorem persistWindows_manifest (env : IoEnv) (g : PartitionInner) (d : Dir) :
    (persistWindows env g d).1.manifest=d.manifest := by
  unfold persistWindows
  split_ifs <;> rfl

theorem create_manifest (env : IoEnv) (d : Dir) (base epoch : Int) :
    (ActiveSegment.create env d base epoch).1.manifest=d.manifest := by
  unfold ActiveSegment.create
  split_ifs <;> rfl

def outgoingDir (s : Store) : Dir :=
  if 0<s.active.logSize then s.dir.onLog s.active.info.name LogFile.syncAll else s.dir

theorem rollForEpochLocked_cases (env : IoEnv) (s : Store) (epoch : Int) :
    (s.active.info.epoch=epoch ∧ s.active.info.baseOffset=s.highWater ∧
      rollForEpochLocked env s epoch=(s,.ok ())) ∨
    (¬(s.active.info.epoch=epoch ∧ s.active.info.baseOffset=s.highWater) ∧
      (0<s.active.logSize → s.active.logOpen=true) ∧ rollForEpochLocked env s epoch=
        (retireActive env
          {s with dir := ActiveSegment.created (outgoingDir s) (segmentName s.highWater epoch)}
          (ActiveSegment.fresh s.highWater epoch),.ok ())) ∨
    ∃d e,rollForEpochLocked env s epoch=({s with dir := d},.error e) ∧
      (d=s.dir ∨ d=outgoingDir s ∨ d=(outgoingDir s).eraseLog (segmentName s.highWater epoch)) := by
  by_cases h0 : s.active.info.epoch=epoch ∧ s.active.info.baseOffset=s.highWater
  · exact Or.inl ⟨h0.1,h0.2,if_pos h0⟩
  · right
    have hsync : ((0<s.active.logSize → s.active.logOpen=true) ∧
        (if 0<s.active.logSize then s.active.syncLog env s.dir else (s.dir,.ok ()))=(outgoingDir s,.ok ())) ∨
        ∃e,(if 0<s.active.logSize then s.active.syncLog env s.dir else (s.dir,.ok ()))=(s.dir,.error e) := by
      unfold outgoingDir
      split_ifs with hp
      · exact (s.active.syncLog_cases env s.dir).imp (fun h => ⟨fun _ => h.1,h.2⟩) id
      · exact Or.inl ⟨fun h => absurd h hp,rfl⟩
    unfold rollForEpochLocked
    obtain ⟨ho,hs⟩|⟨e,hs⟩ := hsync <;> rw [if_neg h0,hs]
    · rcases ActiveSegment.create_cases env (outgoingDir s) s.highWater epoch with hc|⟨e,hc⟩|⟨e,hc⟩
      · exact Or.inl ⟨h0,ho,by simp only [hc]⟩
      · exact Or.inr ⟨_,.io e,by simp only [hc],Or.inr (Or.inl rfl)⟩
      · exact Or.inr ⟨_,.io e,by simp only [hc],Or.inr (Or.inr rfl)⟩
    · exact Or.inr ⟨s.dir,.io e,rfl,Or.inl rfl⟩

theorem outgoingDir_manifest (s : Store) : (outgoingDir s).manifest=s.dir.manifest := by
  unfold outgoingDir
  split_ifs
  · exact (Dir.onLog_rest s.dir _ _).2.1
  · rfl

theorem rollForEpochLocked_manifest (env : IoEnv) (s : Store) (epoch : Int) :
    (rollForEpochLocked env s epoch).1.dir.manifest=s.dir.manifest := by
  rcases rollForEpochLocked_cases env s epoch with ⟨_,_,h⟩|⟨_,_,h⟩|⟨d,e,h,rfl|rfl|rfl⟩
  · rw [h]
  · rw [h]
    unfold retireActive
    split_ifs <;> exact outgoingDir_manifest s
  · rw [h]
  · rw [h]; exact outgoingDir_manifest s
  · rw [h]; exact outgoingDir_manifest s

theorem closeFinish_manifest (env : IoEnv) (s : Store) (persisted : Bool) :
    (closeFinish env s persisted).dir.manifest=s.dir.manifest := by
  cases persisted with
  | false => rfl
  | true =>
    unfold closeFinish
    rw [if_pos rfl]
    rcases s.active.syncLog_cases env s.dir with ⟨_,hs⟩|⟨e,hs⟩
    · rw [hs]
      dsimp only
      split_ifs <;> exact (Dir.onLog_rest s.dir _ _).2.1
    · rw [hs]

theorem openActive_manifest (env : IoEnv) (d : Dir) (hwm epoch : Int) :
    (openActive env d hwm epoch).1.manifest=d.manifest := by
  unfold openActive
  split
  · unfold ActiveSegment.openHandles
    split_ifs <;> rfl
  · have hc := create_manifest env d hwm epoch
    split <;> (rename_i hd; rw [hd] at hc; exact hc)

theorem repairTail_manifest (crc : Crc32c) (d : Dir) (a : ActiveSegment) :
    (repairTail crc d a).1.manifest=d.manifest := by
  unfold repairTail ActiveSegment.truncateTo
  split_ifs
  · rfl
  · rfl
  · exact (Dir.onLog_rest d _ _).2.1

theorem restoreState_manifest (d : Dir) (closed : List SegmentMeta) (a : ActiveSegment)
    (hwm epoch logStart : Int) :
    (restoreState d closed a hwm epoch logStart).1.manifest=d.manifest ∨
    (restoreState d closed a hwm epoch logStart).1.manifest=
      (d.manifest.writeUnlessSuperseded ⟨epoch,hwm,logStart⟩).1 := by
  unfold restoreState
  split
  · exact Or.inl rfl
  · split
    · exact Or.inl rfl
    · exact Or.inr rfl

theorem persistStateLocked_windowsOnly (env : IoEnv) (g : PartitionInner) (d : Dir) (epoch : Int) :
    d.WindowsOnly (persistStateLocked env g d epoch).1 := by
  unfold persistStateLocked persistWindows persistManifest
  split_ifs <;> exact ⟨rfl,rfl,rfl⟩

variable {env : IoEnv} {s s' : Store}

theorem closePartition_ok (h : closePartition env s=(s',.ok ())) :
    ∃d,s.dir.WindowsOnly d ∧ (s'.dir=d ∨ (s.active.logOpen=true ∧
      (s'.dir=d.onLog s.active.info.name LogFile.syncAll ∨
        s'.dir={d.onLog s.active.info.name LogFile.syncAll with
          checkpoint := .present (closeCheckpoint s)}))) := by
  unfold closePartition at h
  have hw := persistStateLocked_windowsOnly env s.toPartitionInner s.dir s.epoch
  rcases hp : persistStateLocked env s.toPartitionInner s.dir s.epoch with ⟨d,e|persisted⟩
  · rw [hp] at h
    cases (Prod.mk.inj h).2
  · rw [hp] at h hw
    obtain ⟨rfl,_⟩ := Prod.mk.inj h
    refine ⟨d,hw,?_⟩
    cases persisted with
    | false => exact Or.inl rfl
    | true =>
      unfold closeFinish
      rw [if_pos rfl]
      rcases s.active.syncLog_cases env d with ⟨ho,hs⟩|⟨e,hs⟩
      · dsimp only
        rw [hs]
        dsimp only
        split_ifs
        · exact Or.inr ⟨ho,Or.inr rfl⟩
        · exact Or.inr ⟨ho,Or.inl rfl⟩
      · dsimp only
        rw [hs]
        exact Or.inl rfl

theorem closePartition_error {e : StorageError}
    (h : closePartition env s=(s',.error e)) : ∃d,s.dir.WindowsOnly d ∧ s'={s with dir := d} := by
  unfold closePartition at h
  have hw := persistStateLocked_windowsOnly env s.toPartitionInner s.dir s.epoch
  rcases hp : persistStateLocked env s.toPartitionInner s.dir s.epoch with ⟨d,e|persisted⟩
  · rw [hp] at h hw
    exact ⟨d,hw,(Prod.mk.inj h).1.symm⟩
  · rw [hp] at h
    cases (Prod.mk.inj h).2

theorem closeFinish_windows (env : IoEnv) (s : Store) (persisted : Bool) :
    (closeFinish env s persisted).dir.producers=s.dir.producers ∧
    (closeFinish env s persisted).dir.txns=s.dir.txns := by
  cases persisted with
  | false => exact ⟨rfl,rfl⟩
  | true =>
    unfold closeFinish
    rw [if_pos rfl]
    obtain ⟨_,_,hproducers,htxns,_⟩ := s.dir.onLog_rest s.active.info.name LogFile.syncAll
    rcases s.active.syncLog_cases env s.dir with ⟨_,hs⟩|⟨e,hs⟩
    · rw [hs]
      dsimp only
      split_ifs <;> exact ⟨hproducers,htxns⟩
    · rw [hs]
      exact ⟨rfl,rfl⟩

theorem closePartition_persisted (h : closePartition env s=(s',.ok ()))
    (hs : superseded s.dir s.epoch=false) :
    s'.dir.producers=.present (s.producerStates.entries.map (fun e => (e.1,e.2))) ∧
    s'.dir.txns=.present (s.openTxns.toEntries,s.abortedTxns) ∧
    s'.dir.manifest=(s.dir.manifest.writeUnlessSuperseded ⟨s.epoch,s.highWater,s.logStart⟩).1 := by
  unfold closePartition persistStateLocked persistWindows at h
  simp only [hs,Bool.false_eq_true,if_false] at h
  split_ifs at h
  · rw [← (Prod.mk.inj h).1]
    obtain ⟨hproducers,htxns⟩ := closeFinish_windows env _ _
    exact ⟨hproducers,htxns,closeFinish_manifest env _ _⟩
  all_goals cases (Prod.mk.inj h).2

end Kaas
