import Kaas.Storage.Recovery

namespace Kaas

def Storable (crc : Crc32c) (batch : Bytes) : Prop := CompleteBatch crc batch ∧ 0≤lastOffsetDelta batch

instance (crc : Crc32c) (batch : Bytes) : Decidable (Storable crc batch) :=
  inferInstanceAs (Decidable (CompleteBatch crc batch ∧ 0≤lastOffsetDelta batch))

/-- What is admitted of the call can be recovered from the log, and the offsets stay within 64 bits. -/
def AppendCall.Keepable (crc : Crc32c) (c : AppendCall) (s : Store) : Prop :=
  ∀accepted,admission s.toPartitionInner c.epoch c.batch=.admitted accepted →
    Storable crc c.batch ∧ s.highWater+recordCount c.batch<2^63

/-- The log at the top of the directory of an open partition holds, up to the accounted size,
complete batches that end at the high watermark. -/
structure Tracks (crc : Crc32c) (s : Store) (f : LogFile) (fs : List Bytes) : Prop where
  top : s.dir.Top s.active.info.name s.active.info.baseOffset
  file : s.dir.logs.lookup s.active.info.name=some f
  sized : s.active.logSize≤f.data.length
  held : f.data.take s.active.logSize=fs.flatten
  complete : ∀x∈fs,CompleteBatch crc x
  ends : endOffset s.active.info.baseOffset fs=s.highWater
  above : fs≠[] → s.active.info.baseOffset<s.highWater
  ranged : -2^63≤ s.highWater ∧ s.highWater<2^63

theorem Tracks.run {crc : Crc32c} {s : Store} {f : LogFile} {fs : List Bytes} (h : Tracks crc s f fs)
    (hsize : f.data.length=s.active.logSize) : completeRun crc f.data=fs ∧ tornTail crc f.data=[] := by
  have hdata : f.data=fs.flatten := by rw [← h.held,← hsize,List.take_length]
  rw [hdata]
  exact completeRun_flatten crc fs h.complete

theorem segmentName_parse {base : Int} (epoch : Int) (h : -2^63≤base ∧ base<2^63) :
    (segmentName base epoch).parse=some (base,epoch%2^32) := by
  have he : (((epoch%2^32).toNat : Nat) : Int)=epoch%2^32 := by omega
  simp only [segmentName,SegmentName.parse,he]
  rw [if_pos ⟨by omega,h.1,h.2⟩]

variable {b : Int} {batch : Bytes} {cfg : PartitionConfig} {env : IoEnv} {cps : RecoveryCheckpoint → Prop}

theorem segmentName_base {n : SegmentName} {epoch c e : Int} (hr : -2^63≤b ∧ b<2^63)
    (hn : n=segmentName b epoch) (hp : n.parse=some (c,e)) : c=b := by
  rw [hn,segmentName_parse epoch hr] at hp
  exact (Prod.mk.inj (Option.some.inj hp)).1.symm

theorem mem_of_created {d : Dir} {n m : SegmentName} (hm : m∈(ActiveSegment.created d n).logs)
    (hne : m≠n) : m∈d.logs :=
  ((ActiveSegment.mem_created d n m).mp hm).resolve_left hne

theorem apart_created {d : Dir} {ends : SegmentName → Int} (epoch : Int) (hr : -2^63≤b ∧ b<2^63)
    (hends : ∀n∈d.logs,ends n≤b) (hbelow : ∀n∈d.logs,∀b' e',n.parse=some (b',e') → b'≤b)
    (hapart : ∀n∈d.logs,∀n'∈d.logs,∀c e c' e',n.parse=some (c,e) → n'.parse=some (c',e') → c<c' → ends n≤c') :
    ∀n∈(ActiveSegment.created d (segmentName b epoch)).logs,
      ∀n'∈(ActiveSegment.created d (segmentName b epoch)).logs,∀c e c' e',n.parse=some (c,e) →
      n'.parse=some (c',e') → c<c' → Function.update ends (segmentName b epoch) b n≤c' := by
  intro n hn n' hn' c e c' e' hp hp' hlt
  by_cases h1 : n=segmentName b epoch
  · -- nothing lies above the new segment
    have hc := segmentName_base hr h1 hp
    by_cases h2 : n'=segmentName b epoch
    · have := segmentName_base hr h2 hp'
      omega
    · have := hbelow n' (mem_of_created hn' h2) c' e' hp'
      omega
  · rw [Function.update_of_ne h1]
    by_cases h2 : n'=segmentName b epoch
    · rw [segmentName_base hr h2 hp']
      exact hends n (mem_of_created hn h1)
    · exact hapart n (mem_of_created hn h1) n' (mem_of_created hn' h2) c e c' e' hp hp' hlt

theorem top_created {d : Dir} {n : SegmentName} {base : Int} (h : d.Top n base) (epoch : Int)
    (hb : base<b) (hr : -2^63≤b ∧ b<2^63) :
    (ActiveSegment.created d (segmentName b epoch)).Top (segmentName b epoch) b := by
  obtain ⟨_,e,_,hall⟩ := h
  refine ⟨(ActiveSegment.mem_created _ _ _).mpr (Or.inl rfl),epoch%2^32,segmentName_parse epoch hr,?_⟩
  intro n' hn' b' e' hp
  rcases (ActiveSegment.mem_created _ _ _).mp hn' with rfl|hn'
  · rw [segmentName_parse epoch hr] at hp
    cases hp
    exact Or.inr ⟨rfl,le_refl _⟩
  · have := hall n' hn' b' e' hp
    omega

theorem not_mem_above {d : Dir} {n : SegmentName} {base : Int} (h : d.Top n base) (epoch : Int)
    (hb : base<b) (hr : -2^63≤b ∧ b<2^63) : segmentName b epoch∉d.logs := by
  intro hm
  obtain ⟨_,e,_,hall⟩ := h
  have := hall _ hm _ _ (segmentName_parse epoch hr)
  omega

namespace Tracks

variable {crc : Crc32c} {s : Store} {f : LogFile} {fs : List Bytes}

theorem size_eq (h : Tracks crc s f fs) : s.active.logSize=fs.flatten.length := by
  have hl := congrArg List.length h.held
  rw [List.length_take] at hl
  have := h.sized
  omega

theorem ne_nil (h : Tracks crc s f fs) (hp : 0<s.active.logSize) : fs≠[] := by
  rintro rfl
  have := h.size_eq
  simp at this
  omega

theorem boundary (h : Tracks crc s f fs) :
    Boundary crc s.active.info.baseOffset f.data s.active.logSize s.highWater :=
  ⟨fs,h.complete,h.held,h.size_eq.symm,h.ends⟩

end Tracks

/-! What a step leaves of the checkpoints and of the segments they name. -/

/-- Over a step the top of a directory stays or rises, and the synced batches in front of a
checkpoint stay where they are. -/
structure Keeps (crc : Crc32c) (cp : RecoveryCheckpoint) (d d' : Dir) : Prop where
  rises : ∀n base,d.Top n base → ∃n' base',d'.Top n' base' ∧ (base<base' ∨ (n'=n ∧ base'=base))
  files : ∀n e f,n.parse=some (cp.segmentBase,e) → d.logs.lookup n=some f → 0≤ cp.bytePos →
    Boundary crc cp.segmentBase f.data cp.bytePos.toNat cp.highWatermark → cp.bytePos.toNat≤f.synced →
    ∃f',d'.logs.lookup n=some f' ∧ f'.data.take cp.bytePos.toNat=f.data.take cp.bytePos.toNat ∧
      cp.bytePos.toNat≤f'.synced

/-- The segment a checkpoint names is on disk, with a synced batch boundary where it points. -/
def CheckpointNamed (crc : Crc32c) (d : Dir) (cp : RecoveryCheckpoint) : Prop :=
  ∃n e f,n.parse=some (cp.segmentBase,e) ∧ d.logs.lookup n=some f ∧ 0≤ cp.bytePos ∧
    Boundary crc cp.segmentBase f.data cp.bytePos.toNat cp.highWatermark ∧ cp.bytePos.toNat≤f.synced

namespace Keeps

variable {crc : Crc32c} {cp : RecoveryCheckpoint} {d d' d'' : Dir}

theorem of_logs (h : d'.logs=d.logs) : Keeps crc cp d d' where
  rises := fun n base ht => ⟨n,base,ht.congr (fun k => by rw [h]),Or.inr ⟨rfl,rfl⟩⟩
  files := fun n e f _ hl _ _ hs => ⟨f,by rw [h]; exact hl,rfl,hs⟩

theorem trans (h : Keeps crc cp d d') (h' : Keeps crc cp d' d'') : Keeps crc cp d d'' where
  rises := by
    intro n base ht
    obtain ⟨n1,b1,ht1,hr1⟩ := h.rises n base ht
    obtain ⟨n2,b2,ht2,hr2⟩ := h'.rises n1 b1 ht1
    refine ⟨n2,b2,ht2,?_⟩
    rcases hr1 with hlt|⟨rfl,rfl⟩
    · exact Or.inl (by omega)
    · exact hr2
  files := by
    intro n e f hp hl h0 hb hs
    obtain ⟨f1,hl1,he1,hs1⟩ := h.files n e f hp hl h0 hb hs
    obtain ⟨f2,hl2,he2,hs2⟩ := h'.files n e f1 hp hl1 h0 (boundary_congr _ hb he1) hs1
    exact ⟨f2,hl2,he2.trans he1,hs2⟩

theorem onLog (m : SegmentName) (g : LogFile → LogFile)
    (hg : ∀e f,m.parse=some (cp.segmentBase,e) → d.logs.lookup m=some f → 0≤ cp.bytePos →
      Boundary crc cp.segmentBase f.data cp.bytePos.toNat cp.highWatermark → cp.bytePos.toNat≤f.synced →
      (g f).data.take cp.bytePos.toNat=f.data.take cp.bytePos.toNat ∧ cp.bytePos.toNat≤(g f).synced) :
    Keeps crc cp d (d.onLog m g) where
  rises := fun n base ht => ⟨n,base,ht.congr (d.mem_onLog m g),Or.inr ⟨rfl,rfl⟩⟩
  files := by
    intro n e f hp hl h0 hb hs
    rw [Dir.onLog_lookup]
    split_ifs with hn
    · subst hn
      exact ⟨g f,by rw [hl]; rfl,hg e f hp hl h0 hb hs⟩
    · exact ⟨f,hl,rfl,hs⟩

theorem sync (m : SegmentName) : Keeps crc cp d (d.onLog m LogFile.syncAll) :=
  onLog m _ (fun _ _ _ _ _ hb _ => ⟨rfl,boundary_le _ hb⟩)

theorem syncedDir (a : ActiveSegment) : Keeps crc cp d (a.syncedDir d) := by
  unfold ActiveSegment.syncedDir
  split_ifs
  · exact sync _
  · exact of_logs rfl

theorem created {n : SegmentName} {base epoch : Int} (ht : d.Top n base) (hb : base<b)
    (hr : -2^63≤b ∧ b<2^63) : Keeps crc cp d (ActiveSegment.created d (segmentName b epoch)) where
  rises := by
    intro n' base' ht'
    obtain ⟨rfl,rfl⟩ := top_unique ht ht'
    exact ⟨_,b,top_created ht epoch hb hr,Or.inl hb⟩
  files := by
    intro m e f _ hl _ _ hs
    have hne : m≠segmentName b epoch := by
      rintro rfl
      exact not_mem_above ht epoch hb hr (Dir.mem_of_lookup hl)
    exact ⟨f,by rw [ActiveSegment.created_lookup,if_neg hne]; exact hl,rfl,hs⟩

theorem eraseLog {m : SegmentName} (hm : m∉d.logs) : Keeps crc cp d (d.eraseLog m) := by
  have hne (n : SegmentName) (hn : n∈d.logs) : n≠m := fun he => hm (he ▸ hn)
  refine ⟨fun n base ht => ⟨n,base,ht.congr (fun k => ?_),Or.inr ⟨rfl,rfl⟩⟩,?_⟩
  · rw [Dir.mem_eraseLog]
    exact ⟨fun hk => hk.2,fun hk => ⟨hne k hk,hk⟩⟩
  · intro n e f _ hl _ _ hs
    have hn : n∈d.logs := Dir.mem_of_lookup hl
    exact ⟨f,by rw [Dir.eraseLog_lookup_ne _ _ _ (hne n hn)]; exact hl,rfl,hs⟩

theorem crash (h : d.CrashImage d') : Keeps crc cp d d' where
  rises := fun n base ht => ⟨n,base,ht.congr h.names,Or.inr ⟨rfl,rfl⟩⟩
  files := by
    intro n e f _ hl _ hb hs
    have hn : n∈d'.logs := (h.names n).mpr (Dir.mem_of_lookup hl)
    obtain ⟨g,hg⟩ := Dir.lookup_of_mem hn
    have hi := h.logs n f g hl hg
    have hlen := boundary_le _ hb
    have hlong := hi.long
    exact ⟨g,hg,hi.take_eq _ hs,by rw [hi.durable]; omega⟩

theorem sound (h : Keeps crc cp d d') (hs : CheckpointSound crc d cp) : CheckpointSound crc d' cp := by
  obtain ⟨n,base,ht,hle,hb⟩ := hs
  obtain ⟨n',base',ht',hr⟩ := h.rises n base ht
  refine ⟨n',base',ht',by omega,fun f' hl' he h0 => ?_⟩
  rcases hr with hlt|⟨rfl,rfl⟩
  · omega
  · obtain ⟨f,hl⟩ := Dir.lookup_of_mem ht.1
    obtain ⟨hbound,hsync⟩ := hb f hl he h0
    obtain ⟨_,e,hp,_⟩ := ht
    rw [← he] at hbound hp
    obtain ⟨f1,hl1,htake,hsync1⟩ := h.files _ e f hp hl h0 hbound hsync
    rw [hl'] at hl1
    cases hl1
    rw [← he]
    exact ⟨boundary_congr _ hbound htake,hsync1⟩

theorem named (h : Keeps crc cp d d') (hn : CheckpointNamed crc d cp) : CheckpointNamed crc d' cp := by
  obtain ⟨n,e,f,hp,hl,h0,hb,hs⟩ := hn
  obtain ⟨f',hl',he,hs'⟩ := h.files n e f hp hl h0 hb hs
  exact ⟨n,e,f',hp,hl',h0,boundary_congr _ hb he,hs'⟩

end Keeps

def CheckpointsWithin (s : Store) (cp : RecoveryCheckpoint) : Prop :=
  cp.segmentBase=s.active.info.baseOffset → cp.bytePos≤ s.active.logSize

theorem keeps_write {crc : Crc32c} {s : Store} {f : LogFile} {fs : List Bytes} (ht : Tracks crc s f fs)
    {cp : RecoveryCheckpoint} (hw : CheckpointsWithin s cp) (buf : Bytes) :
    Keeps crc cp s.dir (s.dir.onLog s.active.info.name (fun f => f.writeAt buf s.active.logSize)) := by
  refine Keeps.onLog _ _ (fun e g hp hl h0 _ hsync => ?_)
  obtain ⟨_,e',hp',_⟩ := ht.top
  rw [hp] at hp'
  have hle := hw (Prod.mk.inj (Option.some.inj hp')).1
  have hfile := ht.file
  rw [hl] at hfile
  cases hfile
  have hn : cp.bytePos.toNat≤ s.active.logSize := by omega
  exact ⟨LogFile.writeAt_take _ buf _ _ ht.sized hn,by simp only [LogFile.writeAt]; omega⟩

theorem tracks_rolled {crc : Crc32c} {s : Store} {f : LogFile} {fs : List Bytes}
    (ht : Tracks crc s f fs) (hp : 0<s.active.logSize) : Tracks crc (rolled s) {} [] := by
  have hlt := ht.above (ht.ne_nil hp)
  have htop : (s.active.syncedDir s.dir).Top s.active.info.name s.active.info.baseOffset :=
    ht.top.congr (s.active.mem_syncedDir s.dir)
  exact {
    top := top_created htop s.epoch hlt ht.ranged
    file := by
      change (ActiveSegment.created _ _).logs.lookup (segmentName s.highWater s.epoch)=_
      rw [ActiveSegment.created_lookup,if_pos rfl]
    sized := le_refl _
    held := rfl
    complete := by simp
    ends := rfl
    above := fun h => absurd rfl h
    ranged := ht.ranged}

theorem keeps_rolled {crc : Crc32c} {s : Store} {f : LogFile} {fs : List Bytes} (ht : Tracks crc s f fs)
    (hp : 0<s.active.logSize) (cp : RecoveryCheckpoint) : Keeps crc cp s.dir (rolled s).dir :=
  (Keeps.syncedDir s.active).trans
    (Keeps.created (ht.top.congr (s.active.mem_syncedDir s.dir)) (ht.above (ht.ne_nil hp)) ht.ranged)

theorem within_rolled {crc : Crc32c} {s : Store} {f : LogFile} {fs : List Bytes} (ht : Tracks crc s f fs)
    (hp : 0<s.active.logSize) {cp : RecoveryCheckpoint} (h : CheckpointSound crc s.dir cp) :
    CheckpointsWithin (rolled s) cp := by
  have hlt := ht.above (ht.ne_nil hp)
  intro he
  obtain ⟨n,base,htop,hle,_⟩ := h
  obtain ⟨-,rfl⟩ := top_unique htop ht.top
  change cp.segmentBase=s.highWater at he
  omega

theorem nextOffset_rewriteBase {o : Int} (h : -2^63≤o) (hd : 0≤lastOffsetDelta batch)
    (hu : o+recordCount batch<2^63) : nextOffset (rewriteBase batch o)=o+recordCount batch := by
  unfold recordCount at hu ⊢
  rw [nextOffset,rewriteBase_baseOffset,rewriteBase_lastOffsetDelta,
    wrapI64_of_range o h (by omega),wrapI64_of_range _ (by omega) (by omega)]
  omega

theorem tracks_stored {crc : Crc32c} {s : Store} {f : LogFile} {fs : List Bytes}
    (ht : Tracks crc s f fs) (accepted : Bool) {d : Dir} {a : ActiveSegment}
    (hs : Storable crc batch) (hu : s.highWater+recordCount batch<2^63)
    (write : s.active.appendBatch env s.dir (rewriteBase batch s.highWater) cfg.indexIntervalBytes=(d,.ok a)) :
    Tracks crc (advance cfg accepted batch {s with active := a,dir := d}).1
      (f.writeAt (rewriteBase batch s.highWater) s.active.logSize) (fs++[rewriteBase batch s.highWater]) := by
  obtain ⟨_,hlogs,_,hname,hbase,_,hsize,_⟩ := ActiveSegment.appendBatch_wrote _ _ _ _ _ _ _ write
  have hnext := nextOffset_rewriteBase ht.ranged.1 hs.2 hu
  have hlt : s.highWater<s.highWater+recordCount batch := by
    have := hs.2
    unfold recordCount
    omega
  have hhw := advance_highWater_eq cfg accepted batch s a d ht.ranged.1 hs.2 hu
  have hlook (n : SegmentName) : d.logs.lookup n=
      (s.dir.onLog s.active.info.name
        (fun f => f.writeAt (rewriteBase batch s.highWater) s.active.logSize)).logs.lookup n := by
    rw [hlogs]
  have hmem (n : SegmentName) : n∈d.logs ↔ n∈s.dir.logs := by
    rw [hlogs]
    exact s.dir.mem_onLog _ _ n
  exact {
    top := by
      change d.Top a.info.name a.info.baseOffset
      rw [hname,hbase]
      exact ht.top.congr hmem
    file := by
      change d.logs.lookup a.info.name=_
      rw [hname,hlook,Dir.onLog_lookup,if_pos rfl,ht.file]
      rfl
    sized := by
      change a.logSize≤_
      rw [hsize]
      exact LogFile.writeAt_length f _ _ ht.sized
    held := by
      change List.take a.logSize _=_
      rw [hsize,LogFile.writeAt_take_end f _ _ ht.sized,ht.held,List.flatten_append]
      simp
    complete := by
      intro x hx
      rcases List.mem_append.mp hx with hx|hx
      · exact ht.complete x hx
      · rw [List.mem_singleton.mp hx]
        exact rewriteBase_complete _ hs.1
    ends := by
      rw [endOffset_concat,hhw,hnext]
    above := by
      intro _
      change a.info.baseOffset<_
      rw [hhw,hbase]
      by_cases hnil : fs=[]
      · have he := ht.ends
        rw [hnil] at he
        change s.active.info.baseOffset=s.highWater at he
        omega
      · have := ht.above hnil
        omega
    ranged := by
      rw [hhw]
      have := ht.ranged
      omega}

theorem tracks_onLog {crc : Crc32c} {s : Store} {f : LogFile} {fs : List Bytes}
    (ht : Tracks crc s f fs) (g : LogFile → LogFile) (hsized : s.active.logSize≤(g f).data.length)
    (hheld : (g f).data.take s.active.logSize=f.data.take s.active.logSize) :
    Tracks crc {s with dir := s.dir.onLog s.active.info.name g} (g f) fs where
  top := ht.top.congr (s.dir.mem_onLog _ _)
  file := by
    change (s.dir.onLog _ _).logs.lookup s.active.info.name=_
    rw [Dir.onLog_lookup,if_pos rfl,ht.file]
    rfl
  sized := hsized
  held := hheld.trans ht.held
  complete := ht.complete
  ends := ht.ends
  above := ht.above
  ranged := ht.ranged

theorem tracks_failed {crc : Crc32c} {s : Store} {f : LogFile} {fs : List Bytes}
    (ht : Tracks crc s f fs) (buf : Bytes) :
    Tracks crc {s with dir := s.dir.onLog s.active.info.name (fun f => f.writeAt buf s.active.logSize)}
      (f.writeAt buf s.active.logSize) fs := by
  have hlen := LogFile.writeAt_length f buf _ ht.sized
  exact tracks_onLog ht _ (by omega) (LogFile.writeAt_take f buf _ _ ht.sized (le_refl _))

/-- An open partition next to the checkpoints that may come to be read: each is sound, and the
active segment is tracked unless a failed roll has left the placeholder in its place. -/
structure StoreSound (crc : Crc32c) (s : Store) (cps : RecoveryCheckpoint → Prop) : Prop where
  rooted : ∃n base,s.dir.Top n base
  checkpoints : ∀cp,cps cp → CheckpointSound crc s.dir cp
  active : (s.active.logOpen=false ∧ s.active.logSize=0) ∨
    ∃f fs,Tracks crc s f fs ∧ ∀cp,cps cp → CheckpointsWithin s cp

theorem keeps_rollIfDue {crc : Crc32c} {s s1 : Store} (h : StoreSound crc s cps)
    {r : Except StorageError Unit} (roll : rollIfDue cfg env batch s=(s1,r)) (cp : RecoveryCheckpoint) :
    Keeps crc cp s.dir s1.dir := by
  rcases rollIfDue_cases cfg env batch s with hr|⟨hp,hr⟩|⟨hp,d,e,hr,hd⟩
  · obtain ⟨rfl,_⟩ := Prod.mk.inj (hr.symm.trans roll)
    exact .of_logs rfl
  all_goals
    obtain ⟨rfl,_⟩ := Prod.mk.inj (hr.symm.trans roll)
    rcases h.active with ⟨_,h0⟩|⟨f,fs,ht,_⟩
    · omega
  · exact keeps_rolled ht hp cp
  · rcases hd with rfl|rfl|rfl
    · exact .of_logs rfl
    · exact .syncedDir _
    · exact (Keeps.syncedDir s.active).trans (.eraseLog (not_mem_above
        (ht.top.congr (s.active.mem_syncedDir s.dir)) _ (ht.above (ht.ne_nil hp)) ht.ranged))

theorem storeSound_rollIfDue {crc : Crc32c} {s s1 : Store} (h : StoreSound crc s cps)
    {r : Except StorageError Unit} (roll : rollIfDue cfg env batch s=(s1,r)) : StoreSound crc s1 cps := by
  have hk := keeps_rollIfDue h roll
  obtain ⟨n,base,htop⟩ := h.rooted
  obtain ⟨n',base',htop',_⟩ := (hk ⟨base,0,0⟩).rises n base htop
  refine ⟨⟨n',base',htop'⟩,fun cp hc => (hk cp).sound (h.checkpoints cp hc),?_⟩
  rcases rollIfDue_cases cfg env batch s with hr|⟨hp,hr⟩|⟨hp,d,e,hr,hd⟩
  · obtain ⟨rfl,_⟩ := Prod.mk.inj (hr.symm.trans roll)
    exact h.active
  · obtain ⟨rfl,_⟩ := Prod.mk.inj (hr.symm.trans roll)
    rcases h.active with ⟨_,h0⟩|⟨f,fs,ht,_⟩
    · omega
    · exact Or.inr ⟨{},[],tracks_rolled ht hp,fun cp hc => within_rolled ht hp (h.checkpoints cp hc)⟩
  · obtain ⟨rfl,_⟩ := Prod.mk.inj (hr.symm.trans roll)
    exact Or.inl ⟨rfl,rfl⟩

theorem storeSound_append {crc : Crc32c} {s s' : Store}
    (h : StoreSound crc s cps) {c : AppendCall} {r : Except StorageError Appended}
    (hc : c.Keepable crc s) (call : appendLocked c.cfg c.env c.epoch c.batch s=some (s',r)) :
    StoreSound crc s' cps ∧ ∀cp,cps cp → Keeps crc cp s.dir s'.dir := by
  cases appendLocked_step call with
  | refused e _ | known base _ => exact ⟨h,fun _ _ => .of_logs rfl⟩
  | rollFailed accepted s1 e _ roll =>
    exact ⟨storeSound_rollIfDue h roll,fun cp _ => keeps_rollIfDue h roll cp⟩
  | failed accepted s1 d e _ roll _ hd =>
    have h1 := storeSound_rollIfDue h roll
    have hk := keeps_rollIfDue h roll
    rcases hd with rfl|⟨hopen,buf,rfl⟩
    · exact ⟨h1,fun cp _ => hk cp⟩
    · rcases h1.active with ⟨hclosed,_⟩|⟨f,fs,ht,hw⟩
      · rw [hopen] at hclosed; cases hclosed
      · have ht' := tracks_failed ht buf
        exact ⟨⟨⟨_,_,ht'.top⟩,fun cp hcp => (keeps_write ht (hw cp hcp) buf).sound (h1.checkpoints cp hcp),
          Or.inr ⟨_,fs,ht',hw⟩⟩,fun cp hcp => (hk cp).trans (keeps_write ht (hw cp hcp) buf)⟩
  | stored accepted s1 d a admitted roll long write =>
    have h1 := storeSound_rollIfDue h roll
    have hk := keeps_rollIfDue h roll
    obtain ⟨hs,hu⟩ := hc accepted admitted
    rw [← (rollIfDue_ledger roll).highWater] at hu
    obtain ⟨hopen,hlogs,_,_,hbase,_,hsize,_⟩ := ActiveSegment.appendBatch_wrote _ _ _ _ _ _ _ write
    rcases h1.active with ⟨hclosed,_⟩|⟨f,fs,ht,hw⟩
    · rw [hopen] at hclosed; cases hclosed
    · have ht' := tracks_stored ht accepted hs hu write
      have hkd (cp : RecoveryCheckpoint) (hcp : cps cp) : Keeps crc cp s1.dir d :=
        (keeps_write ht (hw cp hcp) (rewriteBase c.batch s1.highWater)).trans (.of_logs hlogs)
      refine ⟨⟨⟨_,_,ht'.top⟩,fun cp hcp => (hkd cp hcp).sound (h1.checkpoints cp hcp),
        Or.inr ⟨_,_,ht',fun cp hcp he => ?_⟩⟩,fun cp hcp => (hk cp).trans (hkd cp hcp)⟩
      change cp.bytePos≤(a.logSize : Int)
      change cp.segmentBase=a.info.baseOffset at he
      have := hw cp hcp (by rw [he,hbase])
      rw [hsize]
      push_cast
      omega

theorem tracks_synced {crc : Crc32c} {s : Store} {f : LogFile} {fs : List Bytes} (ht : Tracks crc s f fs) :
    Tracks crc {s with dir := s.dir.onLog s.active.info.name LogFile.syncAll} f.syncAll fs :=
  tracks_onLog ht LogFile.syncAll ht.sized rfl

theorem closeCheckpoint_sound {crc : Crc32c} {s : Store} {f : LogFile} {fs : List Bytes}
    (ht : Tracks crc s f fs) :
    CheckpointSound crc (s.dir.onLog s.active.info.name LogFile.syncAll) (closeCheckpoint s) ∧
    CheckpointNamed crc (s.dir.onLog s.active.info.name LogFile.syncAll) (closeCheckpoint s) := by
  have hs := tracks_synced ht
  have hb := hs.boundary
  refine ⟨⟨_,_,hs.top,le_refl _,fun g hg _ _ => ?_⟩,?_⟩
  · have hfile := hs.file
    rw [hg] at hfile
    cases hfile
    exact ⟨by simpa [closeCheckpoint] using hb,by simpa [closeCheckpoint,LogFile.syncAll] using ht.sized⟩
  · obtain ⟨_,e,hp,_⟩ := hs.top
    exact ⟨_,e,_,hp,hs.file,by simp [closeCheckpoint],by simpa [closeCheckpoint] using hb,
      by simpa [closeCheckpoint,LogFile.syncAll] using ht.sized⟩

theorem Tracks.congr {crc : Crc32c} {s s' : Store} {f : LogFile} {fs : List Bytes} (h : Tracks crc s f fs)
    (hd : s'.dir.logs=s.dir.logs) (ha : s'.active=s.active) (hh : s'.highWater=s.highWater) :
    Tracks crc s' f fs where
  top := by rw [ha]; exact h.top.congr (fun n => by rw [hd])
  file := by rw [ha,hd]; exact h.file
  sized := by rw [ha]; exact h.sized
  held := by rw [ha]; exact h.held
  complete := h.complete
  ends := by rw [ha,hh]; exact h.ends
  above := by rw [ha,hh]; exact h.above
  ranged := by rw [hh]; exact h.ranged

/-- The bytes behind the last complete batch of the top log, if there are any, fill a batch
header. -/
def NoFragment (crc : Crc32c) (d : Dir) : Prop :=
  ∀n base f,d.Top n base → d.logs.lookup n=some f →
    tornTail crc f.data=[] ∨ 12≤(tornTail crc f.data).length

def EndsAbove (crc : Crc32c) (d : Dir) : Prop :=
  ∀n base f,d.Top n base → d.logs.lookup n=some f → completeRun crc f.data≠[] →
    base<endOffset base (completeRun crc f.data)

theorem endOffset_range {base : Int} (h : -2^63≤base ∧ base<2^63) (fs : List Bytes) :
    -2^63≤endOffset base fs ∧ endOffset base fs<2^63 := by
  rcases List.eq_nil_or_concat fs with rfl|⟨gs,x,rfl⟩
  · exact h
  · rw [List.concat_eq_append,endOffset_concat]
    exact wrapI64_range _

theorem parse_range {n : SegmentName} {base e : Int} (h : n.parse=some (base,e)) :
    -2^63≤base ∧ base<2^63 := by
  cases n with
  | stem epoch b =>
    simp only [SegmentName.parse] at h
    split_ifs at h with hr
    cases h
    exact hr.2
  | placeholder => cases h

theorem repairedFile_data {crc : Crc32c} {f : LogFile}
    (h : tornTail crc f.data=[] ∨ 12≤(tornTail crc f.data).length) :
    (repairedFile crc f).data=(completeRun crc f.data).flatten := by
  have hd := log_eq_run crc f.data
  unfold repairedFile
  rcases h with h|h
  · rw [h,List.append_nil] at hd
    rw [h,if_pos (by simp)]
    exact hd
  · rw [if_neg (by omega)]
    have ht : ((completeRun crc f.data).flatten++tornTail crc f.data).take
        (completeRun crc f.data).flatten.length=(completeRun crc f.data).flatten := List.take_left
    rw [← hd] at ht
    exact ht

namespace Adopted

variable {crc : Crc32c} {d d' : Dir} {p : Partition} {n : SegmentName} {base : Int} {f : LogFile}

theorem mem (h : Adopted crc d d' p n base f) (hn : n∈d.logs) (k : SegmentName) : k∈d'.logs ↔ k∈d.logs := by
  by_cases hk : k=n
  · subst hk
    exact ⟨fun _ => hn,fun _ => Dir.mem_of_lookup h.file⟩
  · rw [← AList.lookup_isSome,← AList.lookup_isSome,h.others k hk]

theorem tracks (h : Adopted crc d d' p n base f) (htop : d.Top n base) (hl : d.logs.lookup n=some f)
    (hn : NoFragment crc d) (ha : EndsAbove crc d) :
    Tracks crc ⟨p,d'⟩ (repairedFile crc f) (completeRun crc f.data) := by
  have hdata := repairedFile_data (hn n base f htop hl)
  obtain ⟨e,hp,_⟩ := htop.2
  exact {
    top := by
      change d'.Top p.active.info.name p.active.info.baseOffset
      rw [h.named,h.based]
      exact htop.congr (h.mem htop.1)
    file := by
      change d'.logs.lookup p.active.info.name=_
      rw [h.named]
      exact h.file
    sized := le_of_eq h.logSize
    held := by
      change (repairedFile crc f).data.take p.active.logSize=_
      rw [h.logSize,List.take_length,hdata]
    complete := completeRun_complete crc f.data
    ends := by
      change endOffset p.active.info.baseOffset _=p.highWater
      rw [h.based,h.highWater]
    above := by
      intro hne
      change p.active.info.baseOffset<p.highWater
      rw [h.based,h.highWater]
      exact ha n base f htop hl hne
    ranged := by
      change -2^63≤p.highWater ∧ p.highWater<2^63
      rw [h.highWater]
      exact endOffset_range (parse_range hp) _}

theorem keeps (h : Adopted crc d d' p n base f) (htop : d.Top n base) (hl : d.logs.lookup n=some f)
    (cp : RecoveryCheckpoint) : Keeps crc cp d d' where
  rises := fun m b ht => ⟨m,b,ht.congr (h.mem htop.1),Or.inr ⟨rfl,rfl⟩⟩
  files := by
    intro m e g hp hg _ hb hs
    by_cases hm : m=n
    · subst hm
      rw [hl] at hg
      cases hg
      refine ⟨_,h.file,?_⟩
      have hle := boundary_le_run _ hb
      unfold repairedFile
      split_ifs
      · exact ⟨rfl,hs⟩
      · exact ⟨by simp only [LogFile.truncate,List.take_take,Nat.min_eq_left hle],
          by simp only [LogFile.truncate]; omega⟩
    · exact ⟨g,by rw [h.others m hm]; exact hg,rfl,hs⟩

theorem within (h : Adopted crc d d' p n base f) (htop : d.Top n base) (hl : d.logs.lookup n=some f)
    (hn : NoFragment crc d) (cp : RecoveryCheckpoint) (hs : CheckpointSound crc d cp) :
    CheckpointsWithin ⟨p,d'⟩ cp := by
  intro he
  change cp.segmentBase=p.active.info.baseOffset at he
  change cp.bytePos≤(p.active.logSize : Int)
  obtain ⟨m,b,ht,_,hb⟩ := hs
  obtain ⟨rfl,rfl⟩ := top_unique ht htop
  rw [h.logSize,repairedFile_data (hn m b f htop hl)]
  by_cases h0 : 0≤ cp.bytePos
  · have := boundary_le_run _ (hb f hl (by rw [he,h.based]) h0).1
    omega
  · omega

end Adopted

theorem top_or_nil (d : Dir) : (∃n base,d.Top n base) ∨ listSegments d=[] := by
  cases h : (listSegments d).getLast? with
  | none => exact Or.inr (List.getLast?_eq_none_iff.mp h)
  | some m => exact Or.inl ⟨m.name,m.baseOffset,(top_of_getLast h).1⟩

theorem recoveryScan_created (crc : Crc32c) {d : Dir} (base epoch : Int) (hcp : ∀cp,d.checkpoint≠.present cp) :
    recoveryScan crc (ActiveSegment.created d (segmentName base epoch))
      (ActiveSegment.fresh base epoch)= ⟨base,0,.eof⟩ := by
  have hlook : (ActiveSegment.created d (segmentName base epoch)).logs.lookup
    (segmentName base epoch)=some {} := by
    rw [ActiveSegment.created_lookup,if_pos rfl]
  have hstart : recoveryStart (ActiveSegment.created d (segmentName base epoch))
      (ActiveSegment.fresh base epoch)=(0,base) := by
    unfold recoveryStart
    split
    · rename_i cp hc
      exact absurd hc (hcp cp)
    · rfl
  rw [recoveryScan,hstart]
  change scanHighWatermarkFrom crc (Dir.logData _ (segmentName base epoch)) 0 _=_
  rw [Dir.logData_of_lookup _ _ _ hlook]
  exact scan_complete crc [] (by simp) _

theorem openPartition_starts {crc : Crc32c} {d d' : Dir} {p : Partition}
    (h : openPartition crc env d=(d',.ok p)) (hn : listSegments d=[])
    (hcp : ∀cp,d.checkpoint≠.present cp) (ht : d.manifest.Typed) :
    Tracks crc ⟨p,d'⟩ {} [] ∧ d'.checkpoint=d.checkpoint := by
  obtain ⟨m,d1,closed,a,ho⟩ := openPartition_ok h
  have hrange := ht m ho.read
  have hadopt := ho.adopted
  unfold openActive at hadopt
  rw [hn] at hadopt
  rcases ActiveSegment.create_cases env d m.values.2.1 m.values.1 with hc|⟨e,hc⟩|⟨e,hc⟩
  · simp only [List.getLast?_nil,hc] at hadopt
    obtain ⟨rfl,hr⟩ := Prod.mk.inj hadopt
    obtain ⟨rfl,rfl⟩ := Prod.mk.inj (Except.ok.inj hr)
    have hlook : (ActiveSegment.created d (segmentName m.values.2.1 m.values.1)).logs.lookup
        (segmentName m.values.2.1 m.values.1)=some {} := by
      rw [ActiveSegment.created_lookup,if_pos rfl]
    have hscan := recoveryScan_created crc m.values.2.1 m.values.1 hcp
    have hrepair : repairTail crc (ActiveSegment.created d (segmentName m.values.2.1 m.values.1))
        (ActiveSegment.fresh m.values.2.1 m.values.1)=
          (ActiveSegment.created d (segmentName m.values.2.1 m.values.1),
            ActiveSegment.fresh m.values.2.1 m.values.1) := by
      rw [repairTail,hscan,if_pos rfl]
    have hactive := ho.active
    have hdir := ho.dir
    have hhw := ho.highWater
    rw [hrepair] at hactive hdir
    rw [hscan] at hhw
    have hmem (k : SegmentName) : k∈d'.logs ↔ k=segmentName m.values.2.1 m.values.1 ∨ k∈d.logs := by
      rw [hdir]
      exact ActiveSegment.mem_created d _ k
    refine ⟨{
      top := ?_
      file := ?_
      sized := ?_
      held := by simp
      complete := by simp
      ends := ?_
      above := fun h => absurd rfl h
      ranged := ?_},by rw [hdir]; rfl⟩
    · change d'.Top p.active.info.name p.active.info.baseOffset
      rw [hactive]
      refine ⟨(hmem _).mpr (Or.inl rfl),_,segmentName_parse _ hrange,fun k hk b e hp => ?_⟩
      rcases (hmem k).mp hk with rfl|hk
      · rw [segmentName_parse _ hrange] at hp
        cases hp
        exact Or.inr ⟨rfl,le_refl _⟩
      · rw [listSegments_eq_nil hn hk] at hp
        cases hp
    · change d'.logs.lookup p.active.info.name=_
      rw [hactive,hdir]
      exact hlook
    · change p.active.logSize≤_
      rw [hactive]
      exact le_refl _
    · change p.active.info.baseOffset=p.highWater
      rw [hactive,hhw]
      rfl
    · change -2^63≤p.highWater ∧ p.highWater<2^63
      rw [hhw]
      exact hrange
  · simp only [List.getLast?_nil,hc] at hadopt
    cases (Prod.mk.inj hadopt).2
  · simp only [List.getLast?_nil,hc] at hadopt
    cases (Prod.mk.inj hadopt).2

theorem not_top_of_nil {d : Dir} (h : listSegments d=[]) {n : SegmentName} {base : Int} : ¬d.Top n base := by
  rintro ⟨hn,e,hp,_⟩
  rw [listSegments_eq_nil h hn] at hp
  cases hp

theorem openPartition_tracks {crc : Crc32c} {d d' : Dir} {p : Partition}
    (h : openPartition crc env d=(d',.ok p)) (hroot : (∃n base,d.Top n base) ∨ d.manifest.Typed)
    (hcp : ∀cp,d.checkpoint=.present cp → CheckpointSound crc d cp) (hn : NoFragment crc d)
    (ha : EndsAbove crc d) :
    (∃f fs,Tracks crc ⟨p,d'⟩ f fs ∧ f.data.length=p.active.logSize) ∧ d'.checkpoint=d.checkpoint ∧
    ∀cp,CheckpointSound crc d cp → Keeps crc cp d d' ∧ CheckpointsWithin ⟨p,d'⟩ cp := by
  rcases top_or_nil d with ⟨n,base,htop⟩|hnil
  · obtain ⟨f,hl⟩ := Dir.lookup_of_mem htop.1
    have had := openPartition_adopts h htop hl hcp
    exact ⟨⟨_,_,had.tracks htop hl hn ha,had.logSize.symm⟩,had.checkpoint,
      fun cp hs => ⟨had.keeps htop hl cp,had.within htop hl hn cp hs⟩⟩
  · have hnone (cp : RecoveryCheckpoint) (hs : CheckpointSound crc d cp) : False := by
      obtain ⟨n,base,ht,_⟩ := hs
      exact not_top_of_nil hnil ht
    have htyped : d.manifest.Typed := by
      rcases hroot with ⟨n,base,ht⟩|ht
      · exact absurd ht (not_top_of_nil hnil)
      · exact ht
    obtain ⟨ht,hcheck⟩ := openPartition_starts h hnil
      (fun cp hc => hnone cp (hcp cp hc)) htyped
    exact ⟨⟨{},[],ht,ht.size_eq.symm⟩,hcheck,fun cp hs => absurd hs (hnone cp)⟩

end Kaas
