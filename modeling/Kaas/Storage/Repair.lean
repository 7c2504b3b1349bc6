import Kaas.Storage.Node

namespace Kaas

/-- The log an open leaves is a row of complete batches that ends where the scan of the log it
found ends. -/
def Repaired (crc : Crc32c) (d d' : Dir) : Prop :=
  ∀n base f,d.Top n base → d.logs.lookup n=some f →
    ∃(f' : LogFile) (gs : List Bytes),d'.logs.lookup n=some f' ∧ (∀g∈gs,CompleteBatch crc g) ∧
      f'.data=gs.flatten ∧ f'.data.length=(scanHighWatermarkFrom crc f.data 0 base).validEnd

theorem scan_validEnd (crc : Crc32c) (data : Bytes) (base : Int) :
    (scanHighWatermarkFrom crc data 0 base).validEnd=(completeRun crc data).flatten.length := by
  obtain ⟨stop,hs,_⟩ := boundary_scan_run base (boundary_zero crc base data)
  rw [hs]

variable {crc : Crc32c} {d : Dir}

theorem repaired_iff {env : IoEnv} {d' : Dir} {p : Partition}
    (h : openPartition crc env d=(d',.ok p))
    (hcp : ∀cp,d.checkpoint=.present cp → CheckpointSound crc d cp) :
    Repaired crc d d' ↔ NoFragment crc d := by
  constructor
  · intro hr n base f htop hl
    obtain ⟨f',gs,hl',_,_,hend⟩ := hr n base f htop hl
    rw [(openPartition_adopts h htop hl hcp).file] at hl'
    cases hl'
    rw [scan_validEnd] at hend
    by_cases ht : (tornTail crc f.data).length<12
    · left
      rw [repairedFile,if_pos ht] at hend
      have hlen := congrArg List.length (log_eq_run crc f.data)
      rw [List.length_append] at hlen
      exact List.length_eq_zero_iff.mp (by omega)
    · exact Or.inr (by omega)
  · intro hn n base f htop hl
    have hdata := repairedFile_data (hn n base f htop hl)
    exact ⟨_,_,(openPartition_adopts h htop hl hcp).file,
      completeRun_complete crc f.data,hdata,by rw [scan_validEnd,hdata]⟩

def StoringStep (crc : Crc32c) (n : Node) (op : NodeOp) (n' : Node) : Prop :=
  NodeStep crc n op n' ∧ match op with
    | .append c => n'.appended=n.appended++[c.batch]
    | .commit _ => True
    | .writeCheckpoint _ => True
    | _ => False

def totalRecords (batches : List Bytes) : Int := (batches.map recordCount).sum

/-- What the steps behind an open keep: the active log is tracked to its last byte and counts the
stored records on top of the offset the open recovered. -/
structure Grown (crc : Crc32c) (start : Int) (d : Dir) (n : Node) (q : Partition) : Prop where
  sound : NodeSound crc n
  live : n.live=some q
  exact : ∃f fs,Tracks crc ⟨q,n.dir⟩ f fs ∧ f.data.length=q.active.logSize
  counts : q.highWater=start+totalRecords n.appended
  manifest : n.dir.manifest=d.manifest
  producers : n.dir.producers=d.producers
  txns : n.dir.txns=d.txns

theorem exact_stored {s s' : Store} {f : LogFile} {fs : List Bytes} (ht : Tracks crc s f fs)
    (hx : f.data.length=s.active.logSize) {c : AppendCall} {r : Except StorageError Appended}
    (hc : c.Keepable crc s)
    (call : appendLocked c.cfg c.env c.epoch c.batch s=some (s',r)) (hr : storedBatches c.batch r=[c.batch]) :
    (∃f' fs',Tracks crc s' f' fs' ∧ f'.data.length=s'.active.logSize) ∧
    s'.highWater=s.highWater+recordCount c.batch := by
  cases appendLocked_step call with
  | refused e _ => cases hr
  | known base _ => cases hr
  | rollFailed accepted s1 e _ roll => cases hr
  | failed accepted s1 d e _ roll _ _ => cases hr
  | stored accepted s1 d a admitted roll long write =>
    obtain ⟨hs,hu⟩ := hc accepted admitted
    have hhw := (rollIfDue_ledger roll).highWater
    rw [← hhw] at hu
    have h1 : ∃f1 fs1,Tracks crc s1 f1 fs1 ∧ f1.data.length=s1.active.logSize := by
      rcases rollIfDue_cases c.cfg c.env c.batch s with hr|⟨hp,hr⟩|⟨_,_,_,hr,_⟩
      · obtain ⟨rfl,_⟩ := Prod.mk.inj (hr.symm.trans roll)
        exact ⟨f,fs,ht,hx⟩
      · obtain ⟨rfl,_⟩ := Prod.mk.inj (hr.symm.trans roll)
        exact ⟨{},[],tracks_rolled ht hp,rfl⟩
      · cases (Prod.mk.inj (hr.symm.trans roll)).2
    obtain ⟨f1,fs1,ht1,hx1⟩ := h1
    refine ⟨⟨_,_,tracks_stored ht1 accepted hs hu write,?_⟩,?_⟩
    · change (f1.writeAt _ s1.active.logSize).data.length=a.logSize
      rw [(ActiveSegment.appendBatch_wrote _ _ _ _ _ _ _ write).logSize,← hx1,LogFile.writeAt_end_length]
    · rw [advance_highWater_eq c.cfg accepted c.batch s1 a d ht1.ranged.1 hs.2 hu,hhw]

theorem grown_step {start : Int} {n n' : Node} {q : Partition} {op : NodeOp}
    (h : Grown crc start d n q) (hok : NodeOk crc n op) (hs : StoringStep crc n op n') :
    ∃q',Grown crc start d n' q' := by
  obtain ⟨f,fs,ht,hx⟩ := h.exact
  have hsound := (nodeStep_sound h.sound hok hs.1).1
  obtain ⟨hstep,hop⟩ := hs
  cases hstep with
  | @append p c s r up call =>
    rw [h.live] at up
    cases up
    have hr : storedBatches c.batch r=[c.batch] := List.append_cancel_left hop
    obtain ⟨hexact,hhw⟩ := exact_stored ht hx (fun accepted ha => hok q accepted h.live ha) call hr
    have hrest := appendLocked_segmentsOnly call
    refine ⟨s.toPartition,hsound,rfl,hexact,?_,hrest.manifest.trans h.manifest,
      hrest.producers.trans h.producers,hrest.txns.trans h.txns⟩
    rw [hhw,hr]
    simp only [totalRecords,List.map_append,List.sum_append,List.map_cons,List.map_nil,List.sum_singleton]
    have hc := h.counts
    unfold totalRecords at hc
    omega
  | @commit p env s seq cp up call =>
    rw [h.live] at up
    cases up
    obtain ⟨_,_,hs,_⟩ := commitLocked_ok call
    have hdir : s.dir=n.dir.onLog q.active.info.name LogFile.syncAll := by rw [hs]
    have hactive : s.active=q.active := by rw [hs]
    have hhw : s.highWater=q.highWater := by rw [hs]
    have hrest : n.dir.SegmentsOnly s.dir := by rw [hdir]; exact n.dir.onLog_segmentsOnly _ _
    exact ⟨s.toPartition,hsound,rfl,
      ⟨f.syncAll,fs,(tracks_synced ht).congr (by rw [hdir]) hactive hhw,by
        change f.data.length=s.active.logSize
        rw [hactive]
        exact hx⟩,hhw.trans h.counts,hrest.manifest.trans h.manifest,
      hrest.producers.trans h.producers,hrest.txns.trans h.txns⟩
  | @commitFailed p env s e up call =>
    rw [h.live] at up
    cases up
    have hs := commitLocked_error call
    subst hs
    exact ⟨q,hsound,rfl,⟨f,fs,ht,hx⟩,h.counts,h.manifest,h.producers,h.txns⟩
  | writeCheckpoint due =>
    exact ⟨q,hsound,h.live,⟨f,fs,ht.congr rfl rfl rfl,hx⟩,h.counts,h.manifest,h.producers,h.txns⟩
  | close up call | closeFailed up call | crash image | start down call => exact absurd hop id

theorem synced_recovers {start : Int} {n : Node} {q : Partition}
    (h : Grown crc start d n q) (hr : Readable d) {env : IoEnv} {s : Store}
    {r : Nat × Option RecoveryCheckpoint} (call : commitLocked env ⟨q,n.dir⟩=(s,.ok r)) (d2 : Dir)
    (left : s.dir.CrashImage d2 ∨ d2=s.dir) (env2 : IoEnv) :
    ∃d3 p,openPartition crc env2 d2=(d3,.ok p) ∧ p.highWater=q.highWater := by
  obtain ⟨f,fs,ht,hx⟩ := h.exact
  have hstep : NodeStep crc n (.commit env) {n with
      dir := s.dir
      live := some s.toPartition
      pending := n.pending++r.2.toList} := .commit h.live call
  have hsound := (nodeStep_sound h.sound (show NodeOk crc n (.commit env) from trivial) hstep).1
  obtain ⟨_,_,hs,_⟩ := commitLocked_ok call
  have hdir : s.dir=n.dir.onLog q.active.info.name LogFile.syncAll := by rw [hs]
  have ht' := tracks_synced ht
  have hlook : s.dir.logs.lookup q.active.info.name=some f.syncAll := by rw [hdir]; exact ht'.file
  have htop : s.dir.Top q.active.info.name q.active.info.baseOffset := by rw [hdir]; exact ht'.top
  have hrest : n.dir.SegmentsOnly s.dir := by rw [hdir]; exact n.dir.onLog_segmentsOnly _ _
  have hfile : ∃g,d2.logs.lookup q.active.info.name=some g ∧ g.data=f.data := by
    rcases left with image|rfl
    · have hm := (image.names q.active.info.name).mpr htop.1
      obtain ⟨g,hg⟩ := Dir.lookup_of_mem hm
      exact ⟨g,hg,(image.logs _ _ _ hlook hg).data_eq (le_refl _)⟩
    · exact ⟨_,hlook,rfl⟩
  obtain ⟨g,hg,hdata⟩ := hfile
  have htop2 : d2.Top q.active.info.name q.active.info.baseOffset := by
    rcases left with image|rfl
    · exact htop.congr image.names
    · exact htop
  have hcp (cp : RecoveryCheckpoint) (hc : d2.checkpoint=.present cp) : CheckpointSound crc d2 cp := by
    rcases left with image|rfl
    · rw [image.checkpoint] at hc
      exact (Keeps.crash image).sound (hsound.checkpoints cp (Or.inl hc))
    · exact hsound.checkpoints cp (Or.inl hc)
  have hread : Readable d2 := by
    have hm : d2.manifest=d.manifest ∧ d2.producers=d.producers ∧ d2.txns=d.txns := by
      rcases left with image|rfl
      · exact ⟨image.manifest.trans (hrest.manifest.trans h.manifest),
          image.producers.trans (hrest.producers.trans h.producers),
          image.txns.trans (hrest.txns.trans h.txns)⟩
      · exact ⟨hrest.manifest.trans h.manifest,hrest.producers.trans h.producers,
          hrest.txns.trans h.txns⟩
    exact ⟨by rw [hm.1]; exact hr.manifest,by rw [hm.2.1]; exact hr.producers,
      by rw [hm.2.2]; exact hr.txns⟩
  obtain ⟨d3,p,hopen⟩ := openPartition_total crc env2 htop2 hread
  refine ⟨d3,p,hopen,?_⟩
  have hwhole : f.data=fs.flatten := by
    have hheld := ht.held
    change f.data.take q.active.logSize=_ at hheld
    rwa [← hx,List.take_length] at hheld
  rw [(openPartition_adopts hopen htop2 hg hcp).highWater,hdata,hwhole,
    (completeRun_flatten crc fs ht.complete).1]
  exact ht.ends

/-- From a sound checkpoint an open leaves a log of complete batches, as long as the scan, exactly
when it found no fragment of a header; and then, if the batches it found end above their base, all
that is stored and synced afterwards is recovered by the next open. -/
theorem repaired_log_recovers (crc : Crc32c) (env : IoEnv) (d d' : Dir) (p : Partition)
    (opened : openPartition crc env d=(d',.ok p)) (typed : d.manifest.Typed)
    (checkpoint : ∀cp,d.checkpoint=.present cp → CheckpointSound crc d cp) :
    (Repaired crc d d' ↔ NoFragment crc d) ∧
    (NoFragment crc d → EndsAbove crc d →
      ∀n,Reaches (StoringStep crc) (NodeOk crc) {dir := d',live := some p} n →
      ∃q,n.live=some q ∧ ∀env1 s r,commitLocked env1 ⟨q,n.dir⟩=(s,.ok r) →
        ∀d2,(s.dir.CrashImage d2 ∨ d2=s.dir) → ∀env2,∃d3 p',openPartition crc env2 d2=(d3,.ok p') ∧
          p'.highWater=p.highWater+totalRecords n.appended) := by
  refine ⟨repaired_iff opened checkpoint,fun hn ha n run => ?_⟩
  have h0 : NodeSound crc {dir := d,live := none} := by
    refine .down rfl (Or.inr typed) (fun cp hc => ?_)
    rcases hc with hc|hc
    · exact checkpoint cp hc
    · cases hc
  obtain ⟨hexact,_,_⟩ := openPartition_tracks opened (Or.inr typed) checkpoint hn ha
  let inv : Node → Prop := fun n => ∃q,Grown crc p.highWater d' n q
  have hstart : inv {dir := d',live := some p} :=
    ⟨p,(nodeSound_start h0 opened hn ha).1,rfl,hexact,by simp [totalRecords],rfl,rfl,rfl⟩
  obtain ⟨q,hq⟩ := run.invariant hstart (fun t op u ⟨q,hq⟩ hok hs => grown_step hq hok hs)
  refine ⟨q,hq.live,fun env1 s r call d2 left env2 => ?_⟩
  obtain ⟨d3,p',ho,hhw⟩ := synced_recovers hq (openPartition_readable opened)
    call d2 left env2
  exact ⟨d3,p',ho,hhw.trans hq.counts⟩

def tornDir (k : Nat) : Dir :=
  {logs := AList.insert (segmentName 0 0) ⟨oneRecord.batch++oneRecord.batch.take k,61+k⟩ ∅}

theorem tornDir_lookup {k : Nat} {n : SegmentName} {f : LogFile}
    (h : (tornDir k).logs.lookup n=some f) : f=⟨oneRecord.batch++oneRecord.batch.take k,61+k⟩ := by
  by_cases hn : n=segmentName 0 0
  · rw [hn,tornDir,AList.lookup_insert] at h
    exact (Option.some.inj h).symm
  · rw [tornDir,AList.lookup_insert_ne hn] at h
    cases h

theorem torn_batch_recovers :
    ∃d' p n q s r,openPartition castagnoli {} (tornDir 30)=(d',.ok p) ∧ p.highWater=1 ∧
      Repaired castagnoli (tornDir 30) d' ∧
      Node.exec castagnoli {dir := d',live := some p} (.append oneRecord)=some n ∧ n.live=some q ∧
      commitLocked {} ⟨q,n.dir⟩=(s,.ok r) ∧
      ∃d3 p',openPartition castagnoli {} s.dir=(d3,.ok p') ∧ p'.highWater=2 := by
  obtain ⟨p,hp,n,hexec,q,hlive,r,hr,hhw,happ⟩ : ∃p∈(openPartition castagnoli {} (tornDir 30)).2.toOption,
      ∃n∈Node.exec castagnoli {dir := (openPartition castagnoli {} (tornDir 30)).1,live := some p}
        (.append oneRecord),
      ∃q∈n.live,∃_r∈(commitLocked {} ⟨q,n.dir⟩).2.toOption,p.highWater=1 ∧ n.appended=[oneRecord.batch] := by
    decide +kernel
  have hopen := eq_ok_of_toOption hp
  have hcommit := eq_ok_of_toOption hr
  generalize (openPartition castagnoli {} (tornDir 30)).1=d' at hopen hexec
  generalize (commitLocked {} ⟨q,n.dir⟩).1=s at hcommit
  have hfragment : NoFragment castagnoli (tornDir 30) := by
    intro m base f _ hl
    rw [tornDir_lookup hl]
    decide +kernel
  have habove : EndsAbove castagnoli (tornDir 30) := by
    intro m base f htop hl _
    obtain ⟨e,hp,_⟩ := htop.2
    have hm : m=segmentName 0 0 := by
      by_contra hm
      rw [tornDir,AList.lookup_insert_ne hm] at hl
      cases hl
    subst hm
    cases hp
    rw [tornDir_lookup hl]
    decide +kernel
  have hstep : StoringStep castagnoli {dir := d',live := some p} (.append oneRecord) n :=
    ⟨Node.exec_step _ _ _ _ hexec,happ⟩
  have hok : NodeOk castagnoli {dir := d',live := some p} (.append oneRecord) := by
    rintro p' accepted ⟨rfl⟩ _
    exact ⟨oneRecord_storable,by rw [hhw]; decide +kernel⟩
  obtain ⟨hiff,hrec⟩ := repaired_log_recovers castagnoli {} (tornDir 30) d' p hopen
    (by rintro m ⟨⟩; decide) (by rintro cp ⟨⟩)
  obtain ⟨q',hq',hrec⟩ := hrec hfragment habove n (.next _ .start hok hstep)
  rw [hlive] at hq'
  cases hq'
  obtain ⟨d3,p',hre,hhw'⟩ := hrec {} s r hcommit s.dir (Or.inr rfl) {}
  refine ⟨d',p,n,q,s,r,hopen,hhw,hiff.mpr hfragment,hexec,hlive,hcommit,d3,p',hre,?_⟩
  rw [hhw',hhw,happ]
  decide +kernel

/-- Five bytes of a second batch are kept: the log an open leaves has 66 bytes where its scan ends
at 61, and the batch stored and synced behind them is gone at the next open. -/
theorem fragment_swallows_synced_batch :
    (∃d' p n q s r d3 p',openPartition castagnoli {} (tornDir 5)=(d',.ok p) ∧
      Node.exec castagnoli {dir := d',live := some p} (.append oneRecord)=some n ∧ n.live=some q ∧
      n.appended=[oneRecord.batch] ∧ commitLocked {} ⟨q,n.dir⟩=(s,.ok r) ∧
      openPartition castagnoli {} s.dir=(d3,.ok p') ∧
      (d'.logData (segmentName 0 0)).length=66 ∧ p.highWater=1 ∧ p'.highWater=1) ∧
    (scanHighWatermarkFrom castagnoli ((tornDir 5).logData (segmentName 0 0)) 0 0).validEnd=61 ∧
    totalRecords [oneRecord.batch]=1 := by
  refine ⟨?_,by decide +kernel,by decide +kernel⟩
  obtain ⟨p,hp,n,hexec,q,hlive,r,hr,p',hp',happ,hends⟩ :
    ∃p∈(openPartition castagnoli {} (tornDir 5)).2.toOption,
      ∃n∈Node.exec castagnoli {dir := (openPartition castagnoli {} (tornDir 5)).1,live := some p}
        (.append oneRecord),
      ∃q∈n.live,∃_r∈(commitLocked {} ⟨q,n.dir⟩).2.toOption,
      ∃p'∈(openPartition castagnoli {} (commitLocked {} ⟨q,n.dir⟩).1.dir).2.toOption,
        n.appended=[oneRecord.batch] ∧
        ((openPartition castagnoli {} (tornDir 5)).1.logData (segmentName 0 0)).length=66 ∧
        p.highWater=1 ∧ p'.highWater=1 := by decide +kernel
  exact ⟨_,p,n,q,_,r,_,p',eq_ok_of_toOption hp,hexec,hlive,happ,eq_ok_of_toOption hr,
    eq_ok_of_toOption hp',hends⟩

end Kaas
