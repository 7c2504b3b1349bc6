import Kaas.Storage.Offsets
import Kaas.Storage.Lifecycle

namespace Kaas

def Boundary (crc : Crc32c) (base : Int) (data : Bytes) (pos : Nat) (hwm : Int) : Prop :=
  ∃gs,(∀g∈gs,CompleteBatch crc g) ∧ data.take pos=gs.flatten ∧ gs.flatten.length=pos ∧
    endOffset base gs=hwm

variable {crc : Crc32c} {base : Int} {data : Bytes} {pos : Nat} {d d' : Dir} {n : SegmentName}
  {env : IoEnv} {p : Partition} {f : LogFile}

theorem boundary_congr {data' : Bytes} (hwm : Int)
    (h : Boundary crc base data pos hwm) (hd : data'.take pos=data.take pos) :
    Boundary crc base data' pos hwm := by
  obtain ⟨gs,h1,h2,h3,h4⟩ := h
  exact ⟨gs,h1,hd.trans h2,h3,h4⟩

theorem boundary_zero (crc : Crc32c) (base : Int) (data : Bytes) : Boundary crc base data 0 base :=
  ⟨[],by simp,by simp,rfl,rfl⟩

theorem boundary_le (hwm : Int) (h : Boundary crc base data pos hwm) : pos≤data.length := by
  obtain ⟨gs,_,h2,h3,_⟩ := h
  have hl := congrArg List.length h2
  rw [h3,List.length_take] at hl
  omega

theorem boundary_scan (hwm : Int) (h : Boundary crc base data pos hwm) :
    scanHighWatermarkFrom crc data pos hwm=scanHighWatermarkFrom crc data 0 base := by
  obtain ⟨gs,h1,h2,h3,h4⟩ := h
  have hr := scan_resume crc gs h1 (data.drop pos) base
  rw [h3,h4,← h2,List.take_append_drop] at hr
  exact hr

def completeRun (crc : Crc32c) (log : Bytes) : List Bytes := (logFraming crc).decode log

def tornTail (crc : Crc32c) (log : Bytes) : Bytes := log.drop (completeRun crc log).flatten.length

theorem splits_run (crc : Crc32c) (log : Bytes) :
    ∃stop,(logFraming crc).Splits log (completeRun crc log) (tornTail crc log) stop ∧
      (stop=.eof ↔ (tornTail crc log).length<12) := by
  obtain ⟨fs,t,stop,hs⟩ := Framing.splits_exists (F := logFraming crc) log
  have hf : completeRun crc log=fs := hs.decode_eq
  have ht : tornTail crc log=t := by
    rw [tornTail,hf]
    conv_lhs => rw [hs.eq_append]
    exact List.drop_left
  refine ⟨stop,by rw [hf,ht]; exact hs,?_⟩
  rw [ht,← next_eof_iff crc t,hs.tail_error]
  constructor
  · rintro rfl; rfl
  · exact fun h => Except.error.inj h

theorem completeRun_complete (crc : Crc32c) (log : Bytes) : ∀x∈completeRun crc log,CompleteBatch crc x := by
  obtain ⟨stop,hs,_⟩ := splits_run crc log
  exact fun x hx => (frame_iff_complete crc x).mp (hs.all_frames x hx)

theorem log_eq_run (crc : Crc32c) (log : Bytes) :
    log=(completeRun crc log).flatten++tornTail crc log := by
  obtain ⟨stop,hs,_⟩ := splits_run crc log
  exact hs.eq_append

theorem completeRun_flatten (crc : Crc32c) (fs : List Bytes) (h : ∀x∈fs,CompleteBatch crc x) :
    completeRun crc fs.flatten=fs ∧ tornTail crc fs.flatten=[] := by
  have hr : completeRun crc fs.flatten=fs :=
    Framing.decode_flatten fs (fun x hx => (frame_iff_complete crc x).mpr (h x hx))
  exact ⟨hr,by rw [tornTail,hr]; simp⟩

theorem boundary_le_run (hwm : Int)
    (h : Boundary crc base data pos hwm) : pos≤(completeRun crc data).flatten.length := by
  obtain ⟨gs,h1,h2,h3,_⟩ := h
  obtain ⟨stop,hs,_⟩ := splits_run crc data
  obtain ⟨hs',t',stop',hr⟩ := Framing.splits_exists (F := logFraming crc) (data.drop pos)
  have ha := hr.append gs (fun f hf => (frame_iff_complete crc f).mpr (h1 f hf))
  rw [← h2,List.take_append_drop] at ha
  rw [(hs.unique ha).1,List.flatten_append,List.length_append,h3]
  omega

theorem boundary_scan_run (hwm : Int) (h : Boundary crc base data pos hwm) :
    ∃stop,scanHighWatermarkFrom crc data pos hwm=
        ⟨endOffset base (completeRun crc data),(completeRun crc data).flatten.length,stop⟩ ∧
      (stop=.eof ↔ (tornTail crc data).length<12) := by
  obtain ⟨stop,hs,he⟩ := splits_run crc data
  refine ⟨stop,?_,he⟩
  rw [boundary_scan hwm h]
  simpa using scan_splits crc data 0 base (by simpa using hs)

def CheckpointSound (crc : Crc32c) (d : Dir) (cp : RecoveryCheckpoint) : Prop :=
  ∃n base,d.Top n base ∧ cp.segmentBase≤base ∧
    ∀f,d.logs.lookup n=some f → cp.segmentBase=base → 0≤ cp.bytePos →
      Boundary crc base f.data cp.bytePos.toNat cp.highWatermark ∧ cp.bytePos.toNat≤f.synced

theorem top_unique {n' : SegmentName} {base' : Int} (h : d.Top n base)
    (h' : d.Top n' base') : n=n' ∧ base=base' := by
  obtain ⟨hn,e,he,hall⟩ := h
  obtain ⟨hn',e',he',hall'⟩ := h'
  have h1 := hall n' hn' base' e' he'
  have h2 := hall' n hn base e he
  have hb : base=base' := by omega
  have hee : e=e' := by omega
  subst hb hee
  exact ⟨stem_parse_injective he he',rfl⟩

structure OpenedFrom (crc : Crc32c) (env : IoEnv) (d d' : Dir) (p : Partition) (m : ReadResult)
    (d1 : Dir) (closed : List SegmentMeta) (a : ActiveSegment) : Prop where
  read : d.manifest.read=.ok m
  adopted : openActive env d m.values.2.1 m.values.1=(d1,.ok (closed,a))
  active : p.active=(repairTail crc d1 a).2
  closed : p.closed=closed
  highWater : p.highWater=(recoveryScan crc d1 a).highWatermark
  logStart : p.logStart=m.values.2.2
  snapshot : p.snapshot=snapshotOf p.toPartitionInner
  clean : p.flushErr=none ∧ p.lastCheckpointByte=0 ∧ p.requestedFlushSeq=0 ∧ p.completedFlushSeq=0
  producers : restoreProducers (repairTail crc d1 a).1=.ok p.producerStates
  txns : restoreTxns (repairTail crc d1 a).1 m.values.2.2=.ok (p.openTxns,p.abortedTxns)
  manifest : (d'.manifest,p.epoch)=
    (repairTail crc d1 a).1.manifest.writeUnlessSuperseded ⟨m.values.1,p.highWater,p.logStart⟩
  dir : d'={(repairTail crc d1 a).1 with manifest := d'.manifest}

theorem openPartition_ok
    (h : openPartition crc env d=(d',.ok p)) : ∃m d1 closed a,OpenedFrom crc env d d' p m d1 closed a := by
  unfold openPartition openBlocking at h
  cases hm : d.manifest.read with
  | error e => rw [hm] at h; cases (Prod.mk.inj h).2
  | ok m =>
    rw [hm] at h
    dsimp only at h
    rcases ha : openActive env d m.values.2.1 m.values.1 with ⟨d1,e|⟨closed,a⟩⟩
    · rw [ha] at h; cases (Prod.mk.inj h).2
    · rw [ha] at h
      dsimp only at h
      unfold restoreState at h
      cases hp : restoreProducers (repairTail crc d1 a).1 with
      | error e => rw [hp] at h; cases (Prod.mk.inj h).2
      | ok producers =>
        rw [hp] at h
        dsimp only at h
        cases ht : restoreTxns (repairTail crc d1 a).1 m.values.2.2 with
        | error e => rw [ht] at h; cases (Prod.mk.inj h).2
        | ok txns =>
          rw [ht] at h
          obtain ⟨rfl,hq⟩ := Prod.mk.inj h
          cases hq
          exact ⟨m,d1,closed,a,⟨hm,ha,rfl,rfl,rfl,rfl,rfl,⟨rfl,rfl,rfl,rfl⟩,hp,ht,rfl,rfl⟩⟩

theorem openActive_top (env : IoEnv) (hwm epoch : Int) (h : d.Top n base) (hl : d.logs.lookup n=some f) :
    ∃d1 a,openActive env d hwm epoch=(d1,.ok ((listSegments d).dropLast,a)) ∧
      (∀k,d1.logs.lookup k=d.logs.lookup k) ∧ (∀k,d1.indexData k=d.indexData k) ∧
      d1.checkpoint=d.checkpoint ∧ d1.producers=d.producers ∧ d1.txns=d.txns ∧
      a.info.name=n ∧ a.info.baseOffset=base ∧ a.logSize=f.data.length ∧ a.logOpen=true ∧
      n.parse=some (base,a.info.epoch) ∧ a.info.size=a.logSize := by
  obtain ⟨e,he,hg⟩ := listSegments_getLast h hl
  let m : SegmentMeta := ⟨base,e,f.data.length,n,unknownMaxTimestamp⟩
  refine ⟨((ActiveSegment.openMetaOnly m).openHandles d).1,((ActiveSegment.openMetaOnly m).openHandles d).2,
    by simp only [openActive,hg,m],?_,?_,rfl,rfl,rfl,rfl,rfl,?_,rfl,he,rfl⟩
  · intro k
    by_cases hk : k=n
    · subst hk
      refine (AList.lookup_insert _).trans ?_
      simp only [ActiveSegment.openMetaOnly,m,hl,Option.getD_some]
    · exact AList.lookup_insert_ne hk
  · intro k
    have hi : ((ActiveSegment.openMetaOnly m).openHandles d).1.indexes=
        d.indexes.insert n (d.indexData n) := rfl
    by_cases hk : k=n
    · rw [Dir.indexData,hi,hk,AList.lookup_insert]; rfl
    · rw [Dir.indexData,hi,AList.lookup_insert_ne hk]; rfl
  · exact congrArg List.length (d.logData_of_lookup n f hl)

theorem repairTail_spec {a : ActiveSegment}
    (hl : d.logs.lookup a.info.name=some f) (hsize : a.logSize=f.data.length)
    (hb : Boundary crc a.info.baseOffset f.data (recoveryStart d a).1 (recoveryStart d a).2) :
    (recoveryScan crc d a).highWatermark=endOffset a.info.baseOffset (completeRun crc f.data) ∧
    (recoveryScan crc d a).validEnd=(completeRun crc f.data).flatten.length ∧
    ((tornTail crc f.data).length<12 → repairTail crc d a=(d,a)) ∧
    (12≤(tornTail crc f.data).length → repairTail crc d a=
      (d.onLog a.info.name (fun g => g.truncate (completeRun crc f.data).flatten.length),
        {a with
          logSize := (completeRun crc f.data).flatten.length
          info := {a.info with size := (completeRun crc f.data).flatten.length}})) := by
  obtain ⟨stop,hscan,hstop⟩ := boundary_scan_run _ hb
  have hrec : recoveryScan crc d a=
      ⟨endOffset a.info.baseOffset (completeRun crc f.data),(completeRun crc f.data).flatten.length,stop⟩ := by
    rw [recoveryScan,d.logData_of_lookup _ f hl]
    exact hscan
  refine ⟨by rw [hrec],by rw [hrec],?_,?_⟩
  · intro ht
    rw [repairTail,hrec,if_pos (hstop.mpr ht)]
  · intro ht
    have hne : stop≠.eof := fun he => by have := hstop.mp he; omega
    have hlen := congrArg List.length (log_eq_run crc f.data)
    rw [List.length_append] at hlen
    rw [repairTail,hrec,if_neg hne,ActiveSegment.truncateTo,if_neg (by simp only [hsize]; omega)]

theorem recoveryStart_boundary {d1 : Dir} {a : ActiveSegment}
    (htop : d.Top a.info.name a.info.baseOffset) (hl : d.logs.lookup a.info.name=some f)
    (hcp : ∀cp,d.checkpoint=.present cp → CheckpointSound crc d cp) (h1 : d1.checkpoint=d.checkpoint) :
    Boundary crc a.info.baseOffset f.data (recoveryStart d1 a).1 (recoveryStart d1 a).2 := by
  unfold recoveryStart
  rw [h1]
  split
  · rename_i cp hc
    split_ifs with huse
    · obtain ⟨n,base,ht,_,hs⟩ := hcp cp hc
      obtain ⟨rfl,rfl⟩ := top_unique ht htop
      exact (hs f hl huse.1 huse.2.1).1
    · exact boundary_zero crc _ _
  · exact boundary_zero crc _ _

def repairedFile (crc : Crc32c) (f : LogFile) : LogFile :=
  if (tornTail crc f.data).length<12 then f else f.truncate (completeRun crc f.data).flatten.length

structure Adopted (crc : Crc32c) (d d' : Dir) (p : Partition) (n : SegmentName) (base : Int)
    (f : LogFile) : Prop where
  named : p.active.info.name=n
  based : p.active.info.baseOffset=base
  opened : p.active.logOpen=true
  highWater : p.highWater=endOffset base (completeRun crc f.data)
  logSize : p.active.logSize=(repairedFile crc f).data.length
  file : d'.logs.lookup n=some (repairedFile crc f)
  others : ∀k,k≠n → d'.logs.lookup k=d.logs.lookup k
  indexes : ∀k,d'.indexData k=d.indexData k
  checkpoint : d'.checkpoint=d.checkpoint
  closed : p.closed=(listSegments d).dropLast
  snapshot : p.snapshot=snapshotOf p.toPartitionInner
  parsed : n.parse=some (base,p.active.info.epoch)

theorem openPartition_adopts (h : openPartition crc env d=(d',.ok p))
    (htop : d.Top n base) (hl : d.logs.lookup n=some f)
    (hcp : ∀cp,d.checkpoint=.present cp → CheckpointSound crc d cp) :
    Adopted crc d d' p n base f := by
  obtain ⟨m,d1,closed,a,ho⟩ := openPartition_ok h
  obtain ⟨d2,a2,h2,hlook,hidx,hcheck,_,_,hname,hbase,hsize,hopen,hepoch,_⟩ :=
    openActive_top env m.values.2.1 m.values.1 htop hl
  rw [ho.adopted] at h2
  obtain ⟨rfl,h3⟩ := Prod.mk.inj h2
  obtain ⟨rfl,rfl⟩ := Prod.mk.inj (Except.ok.inj h3)
  subst hname hbase
  have hl1 : d1.logs.lookup a.info.name=some f := by rw [hlook]; exact hl
  have hb := recoveryStart_boundary htop hl hcp hcheck
  obtain ⟨hhw,_,hkeep,hcut⟩ := repairTail_spec hl1 hsize hb
  have hlogs : d'.logs=(repairTail crc d1 a).1.logs := by rw [ho.dir]
  have hind : d'.indexes=(repairTail crc d1 a).1.indexes := by rw [ho.dir]
  have hchk : d'.checkpoint=(repairTail crc d1 a).1.checkpoint := by rw [ho.dir]
  by_cases ht : (tornTail crc f.data).length<12
  · have hr := hkeep ht
    rw [hr] at hlogs hind hchk
    have hp := ho.active
    rw [hr] at hp
    refine ⟨by rw [hp],by rw [hp],by rw [hp,hopen],by rw [ho.highWater,hhw],?_,?_,?_,?_,?_,ho.closed,ho.snapshot,
      by rw [hp]; exact hepoch⟩
    · rw [hp,hsize,repairedFile,if_pos ht]
    · rw [hlogs,hl1,repairedFile,if_pos ht]
    · intro k _; rw [hlogs,hlook]
    · intro k; rw [← hidx k,Dir.indexData,Dir.indexData,hind]
    · rw [hchk,hcheck]
  · have hr := hcut (by omega)
    rw [hr] at hlogs hind hchk
    have hp := ho.active
    rw [hr] at hp
    obtain ⟨r1,_,_,_,r5⟩ := d1.onLog_rest a.info.name
      (fun g => g.truncate (completeRun crc f.data).flatten.length)
    refine ⟨by rw [hp],by rw [hp],by rw [hp]; exact hopen,by rw [ho.highWater,hhw],?_,?_,?_,?_,?_,ho.closed,ho.snapshot,
      by rw [hp]; exact hepoch⟩
    · have hlen := congrArg List.length (log_eq_run crc f.data)
      rw [List.length_append] at hlen
      rw [hp,repairedFile,if_neg ht]
      simp only [LogFile.truncate,List.length_take]
      omega
    · rw [hlogs,Dir.onLog_lookup,if_pos rfl,hl1,repairedFile,if_neg ht]; rfl
    · intro k hk; rw [hlogs,Dir.onLog_lookup,if_neg hk,hlook]
    · intro k; rw [← hidx k,Dir.indexData,Dir.indexData,hind,r1]
    · rw [hchk,r5,hcheck]

theorem repairedFile_clean (h : tornTail crc f.data=[]) : repairedFile crc f=f := by
  rw [repairedFile,h,if_pos (by simp)]

theorem Adopted.sameData
    (h : Adopted crc d d' p n base f) (hl : d.logs.lookup n=some f) (htail : tornTail crc f.data=[]) :
    d.SameData d' := by
  intro k
  by_cases hk : k=n
  · rw [hk,h.file,repairedFile_clean htail,hl]
  · rw [h.others k hk]

theorem repairTail_segmentsOnly (crc : Crc32c) (d : Dir) (a : ActiveSegment) :
    d.SegmentsOnly (repairTail crc d a).1 := by
  unfold repairTail ActiveSegment.truncateTo
  split_ifs
  · exact .refl d
  · exact .refl d
  · exact d.onLog_segmentsOnly _ _

structure Readable (d : Dir) : Prop where
  manifest : ∃m,d.manifest.read=.ok m
  producers : d.producers≠.corrupt
  txns : d.txns≠.corrupt

theorem openPartition_total (crc : Crc32c) (env : IoEnv)
    (htop : d.Top n base) (hr : Readable d) : ∃d' p,openPartition crc env d=(d',.ok p) := by
  obtain ⟨f,hl⟩ := Dir.lookup_of_mem htop.1
  obtain ⟨m,hm⟩ := hr.manifest
  obtain ⟨d1,a,ha,_,_,_,hprod,htxn,_⟩ := openActive_top env m.values.2.1 m.values.1 htop hl
  have hs := repairTail_segmentsOnly crc d1 a
  have hp : ∃producers,restoreProducers (repairTail crc d1 a).1=.ok producers := by
    unfold restoreProducers
    rw [hs.producers,hprod]
    have := hr.producers
    cases hd : d.producers with
    | absent => exact ⟨_,rfl⟩
    | corrupt => exact absurd hd this
    | present entries => exact ⟨_,rfl⟩
  have ht : ∃txns,restoreTxns (repairTail crc d1 a).1 m.values.2.2=.ok txns := by
    unfold restoreTxns
    rw [hs.txns,htxn]
    have := hr.txns
    cases hd : d.txns with
    | absent => exact ⟨_,rfl⟩
    | corrupt => exact absurd hd this
    | present entries => exact ⟨_,rfl⟩
  obtain ⟨producers,hp⟩ := hp
  obtain ⟨txns,ht⟩ := ht
  simp only [openPartition,openBlocking,hm,ha,restoreState,hp,ht]
  exact ⟨_,_,rfl⟩

theorem openPartition_readable (h : openPartition crc env d=(d',.ok p)) : Readable d' := by
  obtain ⟨m,d1,closed,a,ho⟩ := openPartition_ok h
  have hp := ho.producers
  have ht := ho.txns
  refine ⟨?_,?_,?_⟩
  · have hm : d'.manifest=((repairTail crc d1 a).1.manifest.writeUnlessSuperseded
        ⟨m.values.1,p.highWater,p.logStart⟩).1 := congrArg Prod.fst ho.manifest
    rcases ManifestFiles.writeUnlessSuperseded_cases (repairTail crc d1 a).1.manifest
      ⟨m.values.1,p.highWater,p.logStart⟩ with ⟨disk,hd,_,he⟩|⟨hw,_,_⟩
    · rw [he] at hm
      exact ⟨_,by rw [hm]; exact (ManifestFiles.read_present _ _).mpr hd⟩
    · exact ⟨_,by rw [hm]; exact (ManifestFiles.read_present _ _).mpr hw⟩
  · rw [ho.dir]
    intro hc
    change (repairTail crc d1 a).1.producers=.corrupt at hc
    rw [restoreProducers,hc] at hp
    cases hp
  · rw [ho.dir]
    intro hc
    change (repairTail crc d1 a).1.txns=.corrupt at hc
    rw [restoreTxns,hc] at ht
    cases ht

theorem openPartition_logStart {m : ReadResult}
    (h : openPartition crc env d=(d',.ok p)) (hm : d.manifest.read=.ok m) : p.logStart=m.values.2.2 := by
  obtain ⟨m',d1,closed,a,ho⟩ := openPartition_ok h
  have hr := ho.read
  rw [hm] at hr
  cases hr
  exact ho.logStart

theorem openPartition_epoch
    (h : openPartition crc env d=(d',.ok p)) : d'.manifest.durableEpoch=some p.epoch := by
  obtain ⟨m,d1,closed,a,ho⟩ := openPartition_ok h
  obtain ⟨h1,h2⟩ := Prod.mk.inj ho.manifest
  rw [h1,h2]
  exact ManifestFiles.writeUnlessSuperseded_epoch _ _

theorem openPartition_restores (h : openPartition crc env d=(d',.ok p)) (htop : d.Top n base)
    {producers : List (Int × ProducerEntry)} (hp : d.producers=.present producers)
    {opened : List (Int × Int)} {aborted : List AbortedTxn} (ht : d.txns=.present (opened,aborted)) :
    p.producerStates=producers.foldl (fun m e => m.insert e.1 e.2) ∅ ∧
    p.openTxns=OpenTxnIndex.restore opened ∧
    p.abortedTxns=(AbortedTxnIndex.restore aborted).evictBelow p.logStart := by
  obtain ⟨m,d1,closed,a,ho⟩ := openPartition_ok h
  obtain ⟨f,hl⟩ := Dir.lookup_of_mem htop.1
  obtain ⟨d2,a2,h2,_,_,_,hpr,htx,_⟩ := openActive_top env m.values.2.1 m.values.1 htop hl
  rw [ho.adopted] at h2
  obtain ⟨rfl,_⟩ := Prod.mk.inj h2
  have hrest := repairTail_segmentsOnly crc d1 a
  have hq := ho.producers
  rw [restoreProducers,hrest.producers,hpr,hp] at hq
  have hr := ho.txns
  rw [restoreTxns,hrest.txns,htx,ht] at hr
  obtain ⟨h1,h2⟩ := Prod.mk.inj (Except.ok.inj hr)
  exact ⟨(Except.ok.inj hq).symm,h1.symm,by rw [← h2,ho.logStart]⟩

end Kaas
