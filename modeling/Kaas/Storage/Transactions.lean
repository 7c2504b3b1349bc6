import Kaas.Storage.Reopen

namespace Kaas

structure TxnLog where
  store : Store
  history : List LogEntry := []

inductive TxnOp
  | append (c : AppendCall)
  | commit (env : IoEnv)
  | deleteRecords (env : IoEnv) (target : Int)
  | reopen (closing opening : IoEnv)

def storedEntries (batch : Bytes) : Except StorageError Appended → List LogEntry
  | .ok (.stored assigned _ _) => [⟨assigned,rewriteBase batch assigned⟩]
  | _ => []

def retainedFrom (start : Int) (history : List LogEntry) : List LogEntry :=
  history.filter (fun e => decide (start≤e.lastOffset))

def TxnLog.exec (crc : Crc32c) (t : TxnLog) : TxnOp → Option TxnLog
  | .append c => (appendLocked c.cfg c.env c.epoch c.batch t.store).map
      (fun p => ⟨p.1,t.history++storedEntries c.batch p.2⟩)
  | .commit env => match commitLocked env t.store with
    | (s,.error _) => some {t with store := s}
    | (s,.ok (_,cp)) => some {t with store := writeDue env s cp}
  | .deleteRecords env target => some {t with store := (deleteRecords env target t.store).1}
  | .reopen closing opening => match closePartition closing t.store with
    | (_,.error _) => none
    | (s,.ok _) => match openPartition crc opening s.dir with
      | (_,.error _) => none
      | (d,.ok p) => some {t with store := ⟨p,d⟩}

/-- What is appended is well formed; records are not deleted past the last stable offset; and a
partition is closed with its log open and no bytes of a failed append behind it. -/
def TxnOk (crc : Crc32c) (t : TxnLog) : TxnOp → Prop
  | .append c => ∀accepted,admission t.store.toPartitionInner c.epoch c.batch=.admitted accepted →
    WellFormed crc c.batch ∧ MarkedTransactional c.batch ∧
      t.store.highWater+recordCount c.batch<2^63
  | .commit _ => True
  | .deleteRecords _ target => ∀start,deleteTarget t.store.toPartitionInner target=.ok start →
    t.store.logStart< start → start≤lastStableOffset t.store.toPartitionInner
  | .reopen _ _ => t.store.active.logOpen=true ∧
    (t.store.dir.logData t.store.active.info.name).length=t.store.active.logSize

theorem lastStableOffset_le (g : PartitionInner) (pid o : Int) (h : g.openTxns.lookup pid=some o) :
    lastStableOffset g≤o := by
  unfold lastStableOffset
  cases hm : g.openTxns.minOpenOffset with
  | none =>
    rw [minOpenOffset_none hm] at h
    cases h
  | some m => exact (minOpenOffset_some hm).2 pid o h

structure TxnsSound (g : PartitionInner) (history : List LogEntry) : Prop where
  ordered : history.Pairwise (fun a b => a.lastOffset<b.lastOffset)
  counted : ∀e∈history,e.offset≤e.lastOffset ∧ e.lastOffset<g.highWater
  index : ∀pid,g.openTxns.lookup pid=openAt pid (retainedFrom g.logStart history)
  opens : ∀pid o,g.openTxns.lookup pid=some o → g.logStart≤o ∧ o<g.highWater
  start : 0≤g.logStart ∧ g.logStart≤g.highWater

variable {g g' : PartitionInner} {history : List LogEntry} {d : Dir} {crc : Crc32c} {s s' : Store}
  {env : IoEnv} {r : Except StorageError Appended} {c : AppendCall} {t : TxnLog}

theorem TxnsSound.congr (h : TxnsSound g history)
    (hidx : ∀pid,g'.openTxns.lookup pid=g.openTxns.lookup pid) (hs : g'.logStart=g.logStart)
    (hw : g'.highWater=g.highWater) : TxnsSound g' history where
  ordered := h.ordered
  counted := by
    rw [hw]
    exact h.counted
  index := by
    intro pid
    rw [hidx,hs]
    exact h.index pid
  opens := by
    intro pid o ho
    rw [hs,hw]
    exact h.opens pid o ((hidx pid).symm.trans ho)
  start := by
    rw [hs,hw]
    exact h.start

theorem TxnsSound.bounds (h : TxnsSound g history) :
    g.logStart≤lastStableOffset g ∧ lastStableOffset g≤g.highWater := by
  unfold lastStableOffset
  cases hm : g.openTxns.minOpenOffset with
  | none => exact ⟨h.start.2,le_refl _⟩
  | some m =>
    obtain ⟨pid,hp⟩ := (minOpenOffset_some hm).1
    obtain ⟨h1,h2⟩ := h.opens pid m hp
    exact ⟨h1,le_of_lt h2⟩

theorem filter_lastOffset_split (l : List LogEntry)
    (h : l.Pairwise (fun a b => a.lastOffset<b.lastOffset)) (start : Int) :
    l=l.filter (fun e => decide (e.lastOffset< start))++retainedFrom start l := by
  induction l with
  | nil => rfl
  | cons x l ih =>
    obtain ⟨hx,hl⟩ := List.pairwise_cons.mp h
    by_cases hlt : x.lastOffset< start
    · have hr : ¬start≤x.lastOffset := by omega
      simp only [retainedFrom,List.filter_cons,hlt,hr,decide_true,decide_false,if_true,
        Bool.false_eq_true,if_false,List.cons_append]
      exact congrArg (x::·) (ih hl)
    · have hfront : (x::l).filter (fun e => decide (e.lastOffset< start))=[] := by
        refine List.filter_eq_nil_iff.mpr (fun e he => ?_)
        rcases List.mem_cons.mp he with rfl|he
        · simpa using hlt
        · have := hx e he
          simp only [decide_eq_true_eq]
          omega
      have hback : retainedFrom start (x::l)=x::l := by
        refine List.filter_eq_self.mpr (fun e he => ?_)
        rcases List.mem_cons.mp he with rfl|he
        · simpa using hlt
        · have := hx e he
          simp only [decide_eq_true_eq]
          omega
      rw [hfront,hback]
      rfl

theorem retainedFrom_retainedFrom (a b : Int) (hab : a≤b) (l : List LogEntry) :
    retainedFrom b (retainedFrom a l)=retainedFrom b l := by
  unfold retainedFrom
  rw [List.filter_filter]
  refine List.filter_congr (fun e _ => ?_)
  by_cases h : b≤e.lastOffset
  · have : a≤e.lastOffset := by omega
    simp [h,this]
  · simp [h]

theorem TxnsSound.delete (h : TxnsSound g history)
    (start : Int) (hlt : g.logStart< start) (hle : start≤lastStableOffset g) (hmax : start≤g.highWater)
    (hidx : g'.openTxns=g.openTxns) (hs : g'.logStart=start) (hw : g'.highWater=g.highWater) :
    TxnsSound g' history where
  ordered := h.ordered
  counted := by
    rw [hw]
    exact h.counted
  index := by
    intro pid
    rw [hidx,hs,h.index pid,← retainedFrom_retainedFrom g.logStart start (le_of_lt hlt)]
    have hord := h.ordered.filter (fun e => decide (g.logStart≤e.lastOffset))
    have hsplit := filter_lastOffset_split (retainedFrom g.logStart history) hord start
    have hopen (o : Int) (ho : openAt pid (retainedFrom g.logStart history)=some o) : start≤o :=
      hle.trans (lastStableOffset_le g pid o ((h.index pid).trans ho))
    rw [hsplit] at hopen
    conv_lhs => rw [hsplit]
    refine openAt_dropped pid start _ _ (fun e he => ?_) hopen
    obtain ⟨hm,hlast⟩ := List.mem_filter.mp he
    have := (h.counted e (List.mem_of_mem_filter hm)).1
    simp only [decide_eq_true_eq] at hlast
    omega
  opens := by
    intro pid o ho
    rw [hidx] at ho
    rw [hs,hw]
    exact ⟨hle.trans (lastStableOffset_le g pid o ho),(h.opens pid o ho).2⟩
  start := by
    rw [hs,hw]
    exact ⟨h.start.1.trans (le_of_lt hlt),hmax⟩

theorem TxnsSound.stored (h : TxnsSound g history)
    (raw : Bytes) (aborted : AbortedTxnIndex) (hd : 0≤lastOffsetDelta raw) (hc : MarkedTransactional raw)
    (hidx : g'.openTxns=(recordTxn g.openTxns aborted raw g.highWater).1)
    (hs : g'.logStart=g.logStart) (hw : g'.highWater=g.highWater+recordCount raw) :
    TxnsSound g' (history++[⟨g.highWater,raw⟩]) := by
  have hstart := h.start
  have hlast : (⟨g.highWater,raw⟩ : LogEntry).lastOffset=g.highWater+lastOffsetDelta raw := rfl
  have hretained : retainedFrom g.logStart (history++[⟨g.highWater,raw⟩])=
      retainedFrom g.logStart history++[⟨g.highWater,raw⟩] := by
    have hkeep : g.logStart≤(⟨g.highWater,raw⟩ : LogEntry).lastOffset := by rw [hlast]; omega
    simp [retainedFrom,List.filter_append,hkeep]
  have hstep (pid : Int) : g'.openTxns.lookup pid=
      openStep pid (g.openTxns.lookup pid) ⟨g.highWater,raw⟩ := by
    rw [hidx]
    exact recordTxn_open g.openTxns aborted g.highWater hc pid
  refine ⟨?_,?_,?_,?_,?_⟩
  · refine List.pairwise_append.mpr ⟨h.ordered,List.pairwise_singleton _ _,?_⟩
    intro e he x hx
    rw [List.mem_singleton.mp hx,hlast]
    have := (h.counted e he).2
    omega
  · intro e he
    rw [hw,recordCount]
    rcases List.mem_append.mp he with he|he
    · have := h.counted e he
      omega
    · rw [List.mem_singleton.mp he,hlast]
      constructor
      · change g.highWater≤_
        omega
      · omega
  · intro pid
    rw [hs,hretained,openAt_concat,hstep,h.index pid]
  · intro pid o ho
    rw [hs,hw,recordCount]
    rw [hstep] at ho
    unfold openStep at ho
    split_ifs at ho
    · cases hcur : g.openTxns.lookup pid with
      | none =>
        rw [hcur] at ho
        cases ho
        change g.logStart≤g.highWater ∧ g.highWater<_
        omega
      | some v =>
        rw [hcur] at ho
        cases ho
        have := h.opens pid v hcur
        change g.logStart≤v ∧ v<_
        omega
    · have := h.opens pid o ho
      omega
  · rw [hs,hw,recordCount]
    omega

def ClosedBelow (d : Dir) (closed : List SegmentMeta) : Prop :=
  ∃n base,d.Top n base ∧ ∀m∈closed,∃b e,m.name.parse=some (b,e) ∧ b<base

theorem ClosedBelow.congr {d' : Dir} {closed : List SegmentMeta} (h : ClosedBelow d closed)
    (hk : ∀k,k∈d'.logs ↔ k∈d.logs) : ClosedBelow d' closed := by
  obtain ⟨n,base,ht,hc⟩ := h
  exact ⟨n,base,ht.congr hk,hc⟩

theorem closedBelow_roll {s1 : Store} {cps : RecoveryCheckpoint → Prop}
    (h : StoreSound crc s cps) (hc : ClosedBelow s.dir s.closed) {cfg : PartitionConfig}
    {batch : Bytes} {r : Except StorageError Unit} (roll : rollIfDue cfg env batch s=(s1,r)) :
    ClosedBelow s1.dir s1.closed := by
  rcases rollIfDue_cases cfg env batch s with hr|⟨hp,hr⟩|⟨hp,d,e,hr,hd⟩
  · obtain ⟨rfl,_⟩ := Prod.mk.inj (hr.symm.trans roll)
    exact hc
  all_goals
    obtain ⟨rfl,_⟩ := Prod.mk.inj (hr.symm.trans roll)
    rcases h.active with ⟨_,h0⟩|⟨f,fs,ht,_⟩
    · omega
  · obtain ⟨n,base,htop,hclosed⟩ := hc
    obtain ⟨rfl,rfl⟩ := top_unique htop ht.top
    have hlt := ht.above (ht.ne_nil hp)
    refine ⟨_,_,(tracks_rolled ht hp).top,fun m hm => ?_⟩
    change ∃b e,m.name.parse=some (b,e) ∧ b<s.highWater
    rcases List.mem_append.mp hm with hm|hm
    · obtain ⟨b,e,hb,hbase⟩ := hclosed m hm
      exact ⟨b,e,hb,hbase.trans hlt⟩
    · rw [List.mem_singleton.mp hm]
      obtain ⟨e,he,_⟩ := ht.top.2
      exact ⟨_,e,he,hlt⟩
  · refine hc.congr (fun k => ?_)
    rcases hd with rfl|rfl|rfl
    · rfl
    · exact s.active.mem_syncedDir s.dir k
    · have hnew := not_mem_above (ht.top.congr (s.active.mem_syncedDir s.dir)) s.epoch
        (ht.above (ht.ne_nil hp)) ht.ranged
      rw [Dir.mem_eraseLog,s.active.mem_syncedDir]
      exact ⟨fun hk => hk.2,fun hk => ⟨fun he => hnew (he ▸ (s.active.mem_syncedDir s.dir k).mpr hk),hk⟩⟩

theorem closedBelow_append {cps : RecoveryCheckpoint → Prop}
    (h : StoreSound crc s cps) (hc : ClosedBelow s.dir s.closed)
    (call : appendLocked c.cfg c.env c.epoch c.batch s=some (s',r)) : ClosedBelow s'.dir s'.closed := by
  cases appendLocked_step call with
  | refused e _ => exact hc
  | known base _ => exact hc
  | rollFailed accepted s1 e _ roll => exact closedBelow_roll h hc roll
  | failed accepted s1 d e _ roll _ hd =>
    have h1 := closedBelow_roll h hc roll
    rcases hd with rfl|⟨_,buf,rfl⟩
    · exact h1
    · exact h1.congr (s1.dir.mem_onLog _ _)
  | stored accepted s1 d a _ roll _ write =>
    have h1 := closedBelow_roll h hc roll
    have hw := ActiveSegment.appendBatch_wrote _ _ _ _ _ _ _ write
    exact h1.congr hw.mem_logs

theorem removeSegments_segmentsOnly (ps : List (SegmentMeta × Int)) (d : Dir) :
    d.SegmentsOnly (ps.foldl (fun d p => d.removeSegment p.1.name) d) := by
  induction ps generalizing d with
  | nil => exact .refl d
  | cons p ps ih =>
    have h0 : d.SegmentsOnly (d.removeSegment p.1.name) := ⟨rfl,rfl,rfl,rfl⟩
    exact h0.trans (ih _)

theorem removeSegments_top (ps : List (SegmentMeta × Int)) (d : Dir) (n : SegmentName) (base : Int)
    (h : d.Top n base) (hne : ∀p∈ps,p.1.name≠n) :
    (ps.foldl (fun d p => d.removeSegment p.1.name) d).Top n base ∧
    (ps.foldl (fun d p => d.removeSegment p.1.name) d).logs.lookup n=d.logs.lookup n := by
  induction ps generalizing d with
  | nil => exact ⟨h,rfl⟩
  | cons p ps ih =>
    have hp := hne p (List.mem_cons_self ..)
    have htop : (d.removeSegment p.1.name).Top n base := by
      obtain ⟨hn,e,he,hall⟩ := h
      refine ⟨AList.mem_erase.mpr ⟨Ne.symm hp,hn⟩,e,he,fun k hk => ?_⟩
      exact hall k (AList.mem_erase.mp hk).2
    obtain ⟨h1,h2⟩ := ih (d.removeSegment p.1.name) htop (fun q hq => hne q (List.mem_cons_of_mem _ hq))
    exact ⟨h1,h2.trans (AList.lookup_erase_ne (Ne.symm hp))⟩

def Store.toNode (s : Store) : Node := {dir := s.dir,live := some s.toPartition}

/-- The directory an open partition can be recovered from. -/
structure DiskSound (crc : Crc32c) (s : Store) : Prop where
  node : NodeSound crc s.toNode
  closed : ClosedBelow s.dir s.closed
  manifest : Unfenced s

theorem NodeSound.forget {n : Node} (h : NodeSound crc n) (appended : List Bytes) :
    NodeSound crc ⟨n.dir,n.live,[],appended⟩ := by
  have hheld (cp : RecoveryCheckpoint) (hc : Node.Holds ⟨n.dir,n.live,[],appended⟩ cp) : n.Holds cp := by
    rcases hc with hc|hc
    · exact Or.inl hc
    · cases hc
  refine ⟨h.rooted,fun cp hc => h.checkpoints cp (hheld cp hc),fun p up => ?_⟩
  have hl := h.live p up
  refine ⟨hl.rooted,fun cp hc => hl.checkpoints cp (hheld cp hc),?_⟩
  rcases hl.active with hdead|⟨f,fs,ht,hw⟩
  · exact Or.inl hdead
  · exact Or.inr ⟨f,fs,ht,fun cp hc => hw cp (hheld cp hc)⟩

theorem appendLocked_kept (call : appendLocked c.cfg c.env c.epoch c.batch s=some (s',r)) :
    s'.epoch=s.epoch ∧ s'.logStart=s.logStart := by
  cases appendLocked_step call with
  | refused e _ | known base _ => exact ⟨rfl,rfl⟩
  | rollFailed accepted s1 e _ roll | failed accepted s1 d e _ roll _ _ | stored accepted s1 d a _ roll _ _ =>
    have hl := rollIfDue_ledger roll
    exact ⟨hl.epoch,hl.logStart⟩

theorem diskSound_append (h : DiskSound crc s)
    (hc : c.Keepable crc s) (call : appendLocked c.cfg c.env c.epoch c.batch s=some (s',r)) : DiskSound crc s' := by
  have hok : NodeOk crc s.toNode (.append c) := by
    rintro p accepted ⟨rfl⟩ ha
    exact hc accepted ha
  refine ⟨(nodeSound_append h.node rfl hok call []).1,
    closedBelow_append (h.node.live _ rfl) h.closed call,?_⟩
  exact h.manifest.congr (appendLocked_segmentsOnly call).manifest (appendLocked_kept call).1

theorem diskSound_commit (h : DiskSound crc s) {seq : Nat}
    {cp : Option RecoveryCheckpoint} (call : commitLocked env s=(s',.ok (seq,cp))) :
    DiskSound crc (writeDue env s' cp) := by
  obtain ⟨_,_,hs,_⟩ := commitLocked_ok call
  have hclosed : ClosedBelow s'.dir s'.closed := by
    rw [hs]
    exact h.closed.congr (s.dir.mem_onLog _ _)
  have hmanifest : Unfenced s' := by
    refine h.manifest.congr ?_ (by rw [hs])
    rw [hs]
    exact (s.dir.onLog_segmentsOnly s.active.info.name LogFile.syncAll).manifest
  have hn := (nodeSound_commit h.node rfl call).1
  cases cp with
  | none => exact ⟨hn.forget [],hclosed,hmanifest⟩
  | some c =>
    unfold writeDue
    split_ifs
    · have hdue : c∈(some c).toList := List.mem_singleton.mpr rfl
      have hw := (nodeStep_sound hn (show NodeOk crc _ (.writeCheckpoint c) from trivial)
        (.writeCheckpoint hdue)).1
      exact ⟨hw.forget [],hclosed.congr (fun _ => Iff.rfl),hmanifest⟩
    · exact ⟨hn.forget [],hclosed,hmanifest⟩

theorem DiskSound.unlink (h : DiskSound crc s) (n : SegmentName) (base : Int)
    (htop : s.dir.Top n base) (htop' : s'.dir.Top n base)
    (hlook : s'.dir.logs.lookup n=s.dir.logs.lookup n) (hrest : s.dir.SegmentsOnly s'.dir)
    (hactive : s'.active=s.active) (hhigh : s'.highWater=s.highWater) : NodeSound crc s'.toNode := by
  have hl := h.node.live _ rfl
  have hheld (cp : RecoveryCheckpoint) (hc : s'.toNode.Holds cp) : s.dir.checkpoint=.present cp := by
    rcases hc with hc|hc
    · exact hrest.checkpoint.symm.trans hc
    · cases hc
  have hsound (cp : RecoveryCheckpoint) (hc : s'.toNode.Holds cp) : CheckpointSound crc s'.dir cp := by
    obtain ⟨m,b,ht,hle,hb⟩ := h.node.checkpoints cp (Or.inl (hheld cp hc))
    obtain ⟨rfl,rfl⟩ := top_unique ht htop
    refine ⟨m,b,htop',hle,fun f hf => hb f ?_⟩
    exact hlook.symm.trans hf
  refine ⟨Or.inl ⟨n,base,htop'⟩,hsound,?_⟩
  rintro q ⟨rfl⟩
  refine ⟨⟨n,base,htop'⟩,hsound,?_⟩
  change s'.active.logOpen=false ∧ s'.active.logSize=0 ∨ _
  rw [hactive]
  rcases hl.active with hdead|⟨f,fs,ht,hw⟩
  · exact Or.inl hdead
  · obtain ⟨rfl,rfl⟩ := top_unique ht.top htop
    refine Or.inr ⟨f,fs,⟨?_,?_,?_,?_,ht.complete,?_,?_,?_⟩,fun cp hc => ?_⟩
    · change s'.dir.Top s'.active.info.name s'.active.info.baseOffset
      rw [hactive]
      exact htop'
    · change s'.dir.logs.lookup s'.active.info.name=_
      rw [hactive]
      exact hlook.trans ht.file
    · change s'.active.logSize≤_
      rw [hactive]
      exact ht.sized
    · change f.data.take s'.active.logSize=_
      rw [hactive]
      exact ht.held
    · change endOffset s'.active.info.baseOffset fs=s'.highWater
      rw [hactive,hhigh]
      exact ht.ends
    · change fs≠[] → s'.active.info.baseOffset<s'.highWater
      rw [hactive,hhigh]
      exact ht.above
    · change -2^63≤ s'.highWater ∧ s'.highWater<2^63
      rw [hhigh]
      exact ht.ranged
    · have hin := hw cp (Or.inl (hheld cp hc))
      intro he
      change cp.segmentBase=s'.active.info.baseOffset at he
      change cp.bytePos≤(s'.active.logSize : Int)
      rw [hactive] at he ⊢
      exact hin he

theorem diskSound_delete (h : DiskSound crc s) (env : IoEnv) (target : Int) :
    DiskSound crc (deleteRecords env target s).1 := by
  unfold deleteRecords
  cases deleteTarget s.toPartitionInner target with
  | error e => exact h
  | ok start =>
    by_cases hlt : s.logStart< start
    · obtain ⟨n,base,htop,hclosed⟩ := h.closed
      obtain ⟨d,hd⟩ : ∃d,d=(if env.remove then
        (dropBelow s start).foldl (fun d p => d.removeSegment p.1.name) s.dir else s.dir) := ⟨_,rfl⟩
      have hne : ∀p∈dropBelow s start,p.1.name≠n := by
        intro p hp heq
        obtain ⟨b,e,hb,hlt⟩ := hclosed p.1 (List.of_mem_zip (List.mem_of_mem_filter hp)).1
        obtain ⟨_,e',he',_⟩ := htop
        rw [heq,he'] at hb
        cases hb
        exact lt_irrefl _ hlt
      have hdir : d.Top n base ∧ d.logs.lookup n=s.dir.logs.lookup n ∧ s.dir.SegmentsOnly d := by
        rw [hd]
        split_ifs
        · obtain ⟨h1,h2⟩ := removeSegments_top _ s.dir n base htop hne
          exact ⟨h1,h2,removeSegments_segmentsOnly _ _⟩
        · exact ⟨htop,rfl,.refl _⟩
      obtain ⟨htop',hlook,hrest⟩ := hdir
      simp only [hlt,if_true,← hd]
      refine ⟨h.unlink n base htop htop' hlook hrest rfl rfl,⟨n,base,htop',?_⟩,?_⟩
      · intro m hm
        obtain ⟨p,hp,rfl⟩ := List.mem_map.mp hm
        exact hclosed p.1 (List.of_mem_zip (List.mem_of_mem_filter hp)).1
      · exact h.manifest.congr hrest.manifest rfl
    · simp only [hlt,if_false]
      exact h

theorem listSegments_dropLast_below {n : SegmentName} {base : Int} (htop : d.Top n base) :
    ∀m∈(listSegments d).dropLast,∃b e,m.name.parse=some (b,e) ∧ b<base := by
  intro m hm
  obtain ⟨f,hl⟩ := Dir.lookup_of_mem htop.1
  obtain ⟨e,_,hlast⟩ := listSegments_getLast htop hl
  have hne : listSegments d≠[] := List.ne_nil_of_mem (List.dropLast_subset _ hm)
  rw [List.getLast?_eq_some_getLast hne] at hlast
  have hsorted := listSegments_sorted d
  rw [← List.dropLast_append_getLast hne,Option.some.inj hlast] at hsorted
  have hlt := (List.pairwise_append.mp hsorted).2.2 m hm _ (List.mem_singleton.mpr rfl)
  obtain ⟨⟨g,hg⟩,_⟩ := (mem_listSegments d m).mp (List.dropLast_subset _ hm)
  exact ⟨m.baseOffset,m.epoch,(present_parse hg).2.1,hlt⟩

theorem diskSound_reopen {p : Partition} (h : DiskSound crc s)
    {closing opening : IoEnv} (hlog : s.active.logOpen=true)
    (hsize : (s.dir.logData s.active.info.name).length=s.active.logSize)
    (hclose : closePartition closing s=(s',.ok ()))
    (hopen : openPartition crc opening s'.dir=(d,.ok p)) :
    DiskSound crc ⟨p,d⟩ ∧ WindowsRestored s p ∧ p.highWater=s.highWater := by
  obtain ⟨hhigh,hnode,hclosed,n,base,htop,htop',htop''⟩ :=
    reopen_log h.node hlog hsize hclose hopen
  obtain ⟨hwindows,hmanifest⟩ := reopen_windows h.manifest hclose hopen htop
  refine ⟨⟨hnode,⟨n,base,htop'',?_⟩,hmanifest⟩,hwindows,hhigh⟩
  change ∀m∈p.closed,_
  rw [hclosed]
  exact listSegments_dropLast_below htop'

def TxnStep (crc : Crc32c) (t : TxnLog) (op : TxnOp) (u : TxnLog) : Prop := t.exec crc op=some u

structure TxnLogSound (crc : Crc32c) (t : TxnLog) : Prop where
  disk : DiskSound crc t.store
  txns : TxnsSound t.store.toPartitionInner t.history

theorem storedEntries_advance {s1 : Store} (hl : s.SameLedger s1) (cfg : PartitionConfig)
    (accepted : Bool) (batch : Bytes) (d : Dir) (a : ActiveSegment) :
    storedEntries batch (.ok (advance cfg accepted batch {s1 with active := a,dir := d}).2)=
      [⟨s.highWater,rewriteBase batch s.highWater⟩] := by
  change [LogEntry.mk s1.highWater (rewriteBase batch s1.highWater)]=_
  rw [hl.highWater]

theorem TxnStep.commit_cases {u : TxnLog} (hs : TxnStep crc t (.commit env) u) :
    u=t ∨ ∃s seq cp,commitLocked env t.store=(s,.ok (seq,cp)) ∧ u={t with store := writeDue env s cp} := by
  unfold TxnStep TxnLog.exec at hs
  dsimp only at hs
  rcases hc : commitLocked env t.store with ⟨s,e|⟨seq,cp⟩⟩
  · rw [hc] at hs
    cases hs
    rw [commitLocked_error hc]
    exact .inl rfl
  · rw [hc] at hs
    cases hs
    exact .inr ⟨s,seq,cp,rfl,rfl⟩

theorem txnLogSound_append (h : TxnLogSound crc t) (hok : TxnOk crc t (.append c))
    (call : appendLocked c.cfg c.env c.epoch c.batch t.store=some (s,r)) :
    TxnLogSound crc ⟨s,t.history++storedEntries c.batch r⟩ := by
  refine ⟨diskSound_append h.disk (fun accepted ha => ?_) call,?_⟩
  · obtain ⟨hw,_,hu⟩ := hok accepted ha
    exact ⟨⟨hw.toCompleteBatch,hw.counted⟩,hu⟩
  · have hsame (s1 : Store) (hl : t.store.SameLedger s1) (d : Dir) :
        TxnsSound {s1 with dir := d}.toPartitionInner (t.history++[]) := by
      rw [List.append_nil]
      exact h.txns.congr (fun pid => by rw [hl.openTxns]) hl.logStart hl.highWater
    cases appendLocked_step call with
    | refused e _ | known base _ => exact (List.append_nil t.history).symm ▸ h.txns
    | rollFailed accepted s1 e _ roll => exact hsame s (rollIfDue_ledger roll) s.dir
    | failed accepted s1 d e _ roll _ _ => exact hsame s1 (rollIfDue_ledger roll) d
    | stored accepted s1 d a ha roll long write =>
      obtain ⟨hw,hc,hu⟩ := hok accepted ha
      have hl := rollIfDue_ledger roll
      have h0 := h.txns.start
      have hfields := rewriteBase_fields c.batch t.store.highWater
      have hcount := rewriteBase_recordCount c.batch t.store.highWater
      have hstored : TxnsSound
        (advance c.cfg accepted c.batch {s1 with active := a,dir := d}).1.toPartitionInner
          (t.history++[⟨t.store.highWater,rewriteBase c.batch t.store.highWater⟩]) := h.txns.stored
        (rewriteBase c.batch t.store.highWater) t.store.abortedTxns
        (by rw [hfields.2.2.2.1]; exact hw.counted) (hc.rewritten _)
        (by rw [← hl.openTxns,← hl.abortedTxns,← hl.highWater]; rfl) hl.logStart
        (by
          rw [hcount,← hl.highWater]
          exact advance_highWater_eq c.cfg accepted c.batch s1 a d
            (by rw [hl.highWater]; omega) hw.counted (by rw [hl.highWater]; exact hu))
      rw [storedEntries_advance hl]
      exact hstored

theorem txnLogSound_step {u : TxnLog} {op : TxnOp} (h : TxnLogSound crc t)
    (hok : TxnOk crc t op) (hs : TxnStep crc t op u) : TxnLogSound crc u := by
  cases op with
  | append c =>
    obtain ⟨⟨s,r⟩,call,rfl⟩ := Option.map_eq_some_iff.mp hs
    exact txnLogSound_append h hok call
  | commit env =>
    obtain rfl|⟨s,seq,cp,hc,rfl⟩ := hs.commit_cases
    · exact h
    · obtain ⟨_,_,hs,_⟩ := commitLocked_ok hc
      refine ⟨diskSound_commit h.disk hc,?_⟩
      have hkept : TxnsSound s.toPartitionInner t.history :=
        h.txns.congr (fun _ => by rw [hs]) (by rw [hs]) (by rw [hs])
      unfold writeDue
      cases cp with
      | none => exact hkept
      | some c =>
        dsimp only
        split_ifs <;> exact hkept
  | deleteRecords env target =>
    cases hs
    refine ⟨diskSound_delete h.disk env target,?_⟩
    unfold deleteRecords
    cases ht : deleteTarget t.store.toPartitionInner target with
    | error e => exact h.txns
    | ok start =>
      dsimp only
      by_cases hlt : t.store.logStart< start
      · rw [if_pos hlt]
        have hle := hok start ht hlt
        exact h.txns.delete start hlt hle (hle.trans h.txns.bounds.2) rfl rfl rfl
      · rw [if_neg hlt]
        exact h.txns
  | reopen closing opening =>
    unfold TxnStep TxnLog.exec at hs
    dsimp only at hs
    rcases hc : closePartition closing t.store with ⟨s,e|⟨⟩⟩
    · rw [hc] at hs
      cases hs
    · rw [hc] at hs
      dsimp only at hs
      rcases ho : openPartition crc opening s.dir with ⟨d,e|p⟩
      · rw [ho] at hs
        cases hs
      · rw [ho] at hs
        cases hs
        obtain ⟨hdisk,hw,hhigh⟩ := diskSound_reopen h.disk hok.1 hok.2 hc ho
        exact ⟨hdisk,h.txns.congr hw.openTxns hw.logStart hhigh⟩

theorem firstStore_diskSound (crc : Crc32c) : DiskSound crc firstStore := by
  have hnode : NodeSound crc firstStore.toNode := nodeSound_reached (firstNode_reached crc)
  obtain ⟨n,base,htop⟩ := (hnode.live _ rfl).rooted
  refine ⟨hnode,⟨n,base,htop,fun m hm => ?_⟩,⟨0,0,0⟩,rfl,le_refl _⟩
  cases hm

/-- In every run that deletes no records of an open transaction and closes its logs whole, the
index of open transactions is the fold over the retained log, and the last stable offset lies
between the log start and the high watermark. -/
theorem open_txns_match_log (crc : Crc32c) (t : TxnLog)
    (run : Reaches (TxnStep crc) (TxnOk crc) ⟨firstStore,[]⟩ t) :
    (∀pid,t.store.openTxns.lookup pid=openAt pid (retainedFrom t.store.logStart t.history)) ∧
    t.store.logStart≤lastStableOffset t.store.toPartitionInner ∧
    lastStableOffset t.store.toPartitionInner≤t.store.highWater := by
  have h0 : TxnLogSound crc ⟨firstStore,[]⟩ := by
    refine ⟨firstStore_diskSound crc,⟨List.Pairwise.nil,by simp,fun _ => rfl,fun pid o ho => ?_,by decide⟩⟩
    cases ho
  have h := run.invariant h0 (fun _ _ _ h hok hs => txnLogSound_step h hok hs)
  exact ⟨h.txns.index,h.txns.bounds⟩

def txnData : AppendCall where
  batch := txnBatch 7 0

theorem reopened_txn_matches_log :
    ∃t,runAll (TxnLog.exec castagnoli) [.append txnData,.reopen {} {}] ⟨firstStore,[]⟩=some t ∧
      t.store.openTxns.lookup 7=some 0 ∧ openAt 7 (retainedFrom t.store.logStart t.history)=some 0 := by
  have happend : TxnOk castagnoli ⟨firstStore,[]⟩ (.append txnData) := by
    intro accepted _
    decide +kernel
  obtain ⟨t1,h1,t,h2,hopen,hclose⟩ : ∃t∈TxnLog.exec castagnoli ⟨firstStore,[]⟩ (.append txnData),
      ∃u∈TxnLog.exec castagnoli t (.reopen {} {}),u.store.openTxns.lookup 7=some 0 ∧
        t.store.active.logOpen=true ∧
        (t.store.dir.logData t.store.active.info.name).length=t.store.active.logSize := by decide +kernel
  have ht : runAll (TxnLog.exec castagnoli) [.append txnData,.reopen {} {}] ⟨firstStore,[]⟩=some t :=
    runAll_cons.mpr ⟨t1,h1,runAll_cons.mpr ⟨t,h2,rfl⟩⟩
  have hreach : Reaches (TxnStep castagnoli) (TxnOk castagnoli) ⟨firstStore,[]⟩ t :=
    .next (.reopen {} {}) (.next _ .start happend h1) hclose h2
  refine ⟨t,ht,hopen,?_⟩
  rw [← (open_txns_match_log castagnoli t hreach).1 7,hopen]

/-- Deleting the records of an open transaction leaves it in the index: the transaction of the one
deleted batch stays open at offset 0, below the new log start. -/
theorem deleted_txn_stays_open :
    WellFormed castagnoli txnData.batch ∧ MarkedTransactional txnData.batch ∧
    ∃t,runAll (TxnLog.exec castagnoli) [.append txnData,.deleteRecords {} 1] ⟨firstStore,[]⟩=some t ∧
      t.store.openTxns.lookup 7=some 0 ∧ openAt 7 (retainedFrom t.store.logStart t.history)=none ∧
      lastStableOffset t.store.toPartitionInner=0 ∧ t.store.logStart=1 :=
  ⟨by decide +kernel,by decide +kernel,exists_outcome (by decide +kernel)⟩

end Kaas
