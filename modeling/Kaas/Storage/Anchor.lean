import Kaas.Storage.Shelf
import Kaas.Storage.Retention

namespace Kaas

/-! A take-over on disk. -/

variable {epoch : Int} {env : IoEnv}

section Takeovers

variable {crc : Crc32c} {s t : Store} {f : LogFile} {fs : List Bytes}

theorem DiskSound.tracks (h : DiskSound crc s) (hopen : s.active.logOpen=true) :
    ∃f fs,Tracks crc s f fs ∧ ∀cp,s.dir.checkpoint=.present cp → CheckpointsWithin s cp := by
  rcases (h.node.live _ rfl).active with ⟨hdead,_⟩|⟨f,fs,ht,hw⟩
  · exact absurd hopen (by rw [hdead]; decide)
  · exact ⟨f,fs,ht,fun cp hc => hw cp (Or.inl hc)⟩

theorem checkpoint_at_end (ht : Tracks crc s f fs) {cp : RecoveryCheckpoint}
    (hs : CheckpointSound crc s.dir cp) (hw : CheckpointsWithin s cp) :
    cp.segmentBase≤ s.highWater ∧ (cp.segmentBase=s.highWater → cp.bytePos≤0 ∧
      (0≤ cp.bytePos → cp.highWatermark=s.highWater)) := by
  obtain ⟨n,base,htop,hle,hb⟩ := hs
  obtain ⟨rfl,rfl⟩ := top_unique htop ht.top
  obtain ⟨_,e,hp,_⟩ := ht.top
  have hbase := ht.bases_le _ htop.1 _ e hp
  refine ⟨by omega,fun heq => ?_⟩
  have hsame : s.active.info.baseOffset=s.highWater := by omega
  have hnil : fs=[] := by
    by_contra hne
    have := ht.above hne
    omega
  have hzero : s.active.logSize=0 := by rw [ht.size_eq,hnil]; rfl
  have hpos := hw (by omega)
  rw [hzero] at hpos
  refine ⟨by simpa using hpos,fun h0 => ?_⟩
  obtain ⟨gs,hc,_,hlen,hend⟩ := (hb f ht.file (by omega) h0).1
  have hgs : gs=[] := by
    have := length_le_flatten (fun b hb hnil => by
      have := (hc b hb).long
      rw [hnil] at this
      simp at this)
    have hbyte : cp.bytePos.toNat=0 := by
      simp only [Nat.cast_zero] at hpos
      omega
    exact List.length_eq_zero_iff.mp (by omega)
  rw [hgs] at hend
  exact hend.symm.trans hsame

theorem toNode_holds {cp : RecoveryCheckpoint} (h : t.toNode.Holds cp) : t.dir.checkpoint=.present cp :=
  h.resolve_right nofun

theorem nodeSound_started (h : DiskSound crc s) (ht : Tracks crc s f fs)
    (hw : ∀cp,s.dir.checkpoint=.present cp → CheckpointsWithin s cp)
    (htop : t.dir.Top (segmentName s.highWater epoch) s.highWater)
    (hfile : t.dir.logs.lookup (segmentName s.highWater epoch)=some {})
    (hcheck : t.dir.checkpoint=s.dir.checkpoint)
    (hactive : t.active=ActiveSegment.fresh s.highWater epoch) (hhigh : t.highWater=s.highWater) :
    NodeSound crc t.toNode := by
  have hheld (cp : RecoveryCheckpoint) (hc : t.toNode.Holds cp) : s.dir.checkpoint=.present cp :=
    hcheck.symm.trans (toNode_holds hc)
  have hend (cp : RecoveryCheckpoint) (hc : t.toNode.Holds cp) :=
    checkpoint_at_end ht (h.node.checkpoints cp (Or.inl (hheld cp hc))) (hw cp (hheld cp hc))
  have hsound (cp : RecoveryCheckpoint) (hc : t.toNode.Holds cp) : CheckpointSound crc t.dir cp := by
    refine ⟨_,_,htop,(hend cp hc).1,fun g hg heq h0 => ?_⟩
    rw [hfile] at hg
    cases hg
    obtain ⟨h1,h2⟩ := (hend cp hc).2 heq
    have hbyte : cp.bytePos.toNat=0 := by omega
    rw [hbyte,h2 h0]
    exact ⟨boundary_zero crc _ _,le_refl _⟩
  refine ⟨Or.inl ⟨_,_,htop⟩,hsound,?_⟩
  rintro q ⟨rfl⟩
  refine ⟨⟨_,_,htop⟩,hsound,Or.inr
    ⟨{},[],⟨?_,?_,?_,by simp,by simp,?_,fun hne => absurd rfl hne,?_⟩,fun cp hc heq => ?_⟩⟩
  · change t.dir.Top t.active.info.name t.active.info.baseOffset
    rw [hactive]
    exact htop
  · change t.dir.logs.lookup t.active.info.name=_
    rw [hactive]
    exact hfile
  · change t.active.logSize≤0
    rw [hactive]
    exact le_refl _
  · change t.active.info.baseOffset=t.highWater
    rw [hactive,hhigh]
    rfl
  · change -2^63≤t.highWater ∧ t.highWater<2^63
    rw [hhigh]
    exact ht.ranged
  · change cp.segmentBase=t.active.info.baseOffset at heq
    change cp.bytePos≤(t.active.logSize : Int)
    rw [hactive] at heq ⊢
    exact ((hend cp hc).2 heq).1

theorem nodeSound_kept (h : DiskSound crc s) (hopen : s.active.logOpen=true)
    (hkeeps : ∀cp,Keeps crc cp s.dir t.dir) (hcheck : t.dir.checkpoint=s.dir.checkpoint)
    (ht : Tracks crc t f fs) (hactive : t.active=s.active) : NodeSound crc t.toNode := by
  obtain ⟨_,_,_,hw⟩ := h.tracks hopen
  have hheld (cp : RecoveryCheckpoint) (hc : t.toNode.Holds cp) : s.dir.checkpoint=.present cp :=
    hcheck.symm.trans (toNode_holds hc)
  have hsound (cp : RecoveryCheckpoint) (hc : t.toNode.Holds cp) : CheckpointSound crc t.dir cp :=
    (hkeeps cp).sound (h.node.checkpoints cp (Or.inl (hheld cp hc)))
  refine ⟨Or.inl ⟨_,_,ht.top⟩,hsound,?_⟩
  rintro q ⟨rfl⟩
  refine ⟨⟨_,_,ht.top⟩,hsound,Or.inr ⟨f,fs,ht,fun cp hc => ?_⟩⟩
  have := hw cp (hheld cp hc)
  unfold CheckpointsWithin at this ⊢
  rw [← hactive] at this
  exact this

theorem Tracks.sameData (h : Tracks crc s f fs) (hsame : s.dir.SameData t.dir)
    (hactive : t.active=s.active) (hhigh : t.highWater=s.highWater) : ∃g,Tracks crc t g fs := by
  obtain ⟨g,hg⟩ := Dir.lookup_of_mem ((hsame.mem _).mpr (Dir.mem_of_lookup h.file))
  have hd := hsame.data_eq h.file hg
  refine ⟨g,⟨?_,?_,?_,?_,h.complete,?_,?_,?_⟩⟩
  · rw [hactive]
    exact h.top.congr hsame.mem
  · rw [hactive]
    exact hg
  · rw [hactive,hd]
    exact h.sized
  · rw [hactive,hd]
    exact h.held
  · rw [hactive,hhigh]
    exact h.ends
  · rw [hactive,hhigh]
    exact h.above
  · rw [hhigh]
    exact h.ranged

theorem DiskSound.congr (h : DiskSound crc s) (hopen : s.active.logOpen=true) (hsame : s.dir.SameData t.dir)
    (hkeeps : ∀cp,Keeps crc cp s.dir t.dir) (hcheck : t.dir.checkpoint=s.dir.checkpoint)
    (hactive : t.active=s.active) (hclosed : t.closed=s.closed) (hhigh : t.highWater=s.highWater)
    (hmanifest : Unfenced t) : DiskSound crc t := by
  obtain ⟨f,fs,ht,_⟩ := h.tracks hopen
  obtain ⟨g,ht'⟩ := ht.sameData hsame hactive hhigh
  exact ⟨nodeSound_kept h hopen hkeeps hcheck ht' hactive,hclosed ▸ h.closed.congr hsame.mem,hmanifest⟩

theorem not_mem_segment (ht : Tracks crc s f fs)
    (hnamed : s.active.info.name.parse=some (s.active.info.baseOffset,s.active.info.epoch))
    (he : 0≤epoch ∧ epoch<2^32) (hle : s.active.info.epoch≤epoch)
    (hne : ¬(s.active.info.epoch=epoch ∧ s.active.info.baseOffset=s.highWater)) :
    segmentName s.highWater epoch∉s.dir.logs ∧
    ∀n∈s.dir.logs,∀b e,n.parse=some (b,e) → b<s.highWater ∨ (b=s.highWater ∧ e≤epoch) := by
  obtain ⟨_,e0,hp0,hall⟩ := ht.top
  rw [hnamed] at hp0
  obtain ⟨_,rfl⟩ := Prod.mk.inj (Option.some.inj hp0)
  have hbase := ht.bases_le _ (Dir.mem_of_lookup ht.file) _ _ hnamed
  constructor
  · intro hm
    have hp := segmentName_parse epoch ht.ranged
    rw [Int.emod_eq_of_lt he.1 he.2] at hp
    have := hall _ hm _ _ hp
    omega
  · intro n hn b e hp
    have := hall n hn b e hp
    omega

theorem outgoingDir_segmentsOnly (s : Store) : s.dir.SegmentsOnly (outgoingDir s) := by
  unfold outgoingDir
  split_ifs
  · exact s.dir.onLog_segmentsOnly _ _
  · exact .refl _

theorem outgoingDir_rest (crc : Crc32c) (s : Store)
    : s.dir.SameData (outgoingDir s) ∧ s.dir.SegmentsOnly (outgoingDir s) ∧
    ∀cp,Keeps crc cp s.dir (outgoingDir s) := by
  refine ⟨?_,outgoingDir_segmentsOnly s,?_⟩
  all_goals
    unfold outgoingDir
    split_ifs
  · exact .sync _ _
  · exact .of_logs rfl
  · exact fun _ => .sync _
  · exact fun _ => .of_logs rfl

theorem persistStateLocked_manifest (hu : Unfenced s) {g : PartitionInner}
    (hle : s.epoch≤epoch) {d : Dir} {r : Except StorageError Bool}
    (h : persistStateLocked env g s.dir epoch=(d,r)) :
    (∃b m,r=.ok b ∧ d.manifest.manifestJson=.present m ∧ m.epoch=epoch) ∨
    (∃e,r=.error e ∧ d.manifest=s.dir.manifest) := by
  have hfree : superseded s.dir epoch=false := hu.not_superseded epoch hle
  unfold persistStateLocked at h
  rw [hfree] at h
  simp only [Bool.false_eq_true,if_false] at h
  have hkept := persistWindows_manifest env g s.dir
  rcases hw : persistWindows env g s.dir with ⟨d1,e|_⟩
  · rw [hw] at h hkept
    obtain ⟨rfl,rfl⟩ := Prod.mk.inj h
    exact Or.inr ⟨e,rfl,hkept⟩
  · rw [hw] at h hkept
    dsimp only at h hkept
    split_ifs at h
    · obtain ⟨rfl,rfl⟩ := Prod.mk.inj h
      left
      rcases ManifestFiles.writeUnlessSuperseded_cases d1.manifest ⟨epoch,g.highWater,g.logStart⟩ with
        ⟨m,hp,hlt,_⟩|⟨hwritten,_,_⟩
      · obtain ⟨m',hm',hme⟩ := hu
        rw [hkept,hm'] at hp
        cases hp
        change epoch< m.epoch at hlt
        omega
      · exact ⟨_,_,rfl,hwritten,rfl⟩
    · obtain ⟨rfl,rfl⟩ := Prod.mk.inj h
      exact Or.inr ⟨_,rfl,hkept⟩

end Takeovers

inductive PartitionOp
  | append (c : AppendCall)
  | commit (env : IoEnv)
  | takeOver (env : IoEnv) (epoch : UInt32)
  | deleteRecords (env : IoEnv) (target : Int)
  | retention (env : IoEnv) (policy : RetentionPolicy) (now : Int) (mtime : SegmentName → Option Int)
  | fenceProducer (pid newEpoch : Int)
  | reopen (closing opening : IoEnv)

def Store.exec (crc : Crc32c) (s : Store) : PartitionOp → Option Store
  | .append c => (appendLocked c.cfg c.env c.epoch c.batch s).map Prod.fst
  | .commit env => match commitLocked env s with
    | (s,.error _) => some s
    | (s,.ok (_,cp)) => some (writeDue env s cp)
  | .takeOver env epoch => some (takeOver env epoch s).1
  | .deleteRecords env target => some (deleteRecords env target s).1
  | .retention env policy now mtime => some (enforceRetention env policy now mtime s)
  | .fenceProducer pid newEpoch => some {s with producerStates := fenceProducer s.producerStates pid newEpoch}
  | .reopen closing opening => match closePartition closing s with
    | (_,.error _) => none
    | (s,.ok _) => match openPartition crc opening s.dir with
      | (_,.error _) => none
      | (d,.ok p) => some ⟨p,d⟩

def PartitionStep (crc : Crc32c) (s : Store) (op : PartitionOp) (t : Store) : Prop := s.exec crc op=some t

/-- What reaches the log can be recovered from it, no roll fails, no take-over comes with an epoch
below that of a segment an earlier one has left, and a partition is closed with no bytes of a failed
append behind its log. -/
def AnchorOk (crc : Crc32c) (s : Store) : PartitionOp → Prop
  | .append c => ∀accepted,admission s.toPartitionInner c.epoch c.batch=.admitted accepted →
    Storable crc c.batch ∧ s.highWater+recordCount c.batch<2^63 ∧
      (rollDue c.cfg c.env s.active c.batch=true →
        c.env.sync=true ∧ c.env.createLog=true ∧ c.env.createIndex=true)
  | .takeOver _ epoch => s.epoch<(epoch.toNat : Int) → s.active.info.epoch≤(epoch.toNat : Int)
  | .reopen _ _ => WholeLog s
  | _ => True

instance (crc : Crc32c) (s : Store) : (op : PartitionOp) → Decidable (AnchorOk crc s op)
  | .append c => inferInstanceAs (Decidable
      (∀accepted,admission s.toPartitionInner c.epoch c.batch=.admitted accepted →
        Storable crc c.batch ∧ s.highWater+recordCount c.batch<2^63 ∧
          (rollDue c.cfg c.env s.active c.batch=true →
            c.env.sync=true ∧ c.env.createLog=true ∧ c.env.createIndex=true)))
  | .takeOver _ epoch => inferInstanceAs (Decidable
      (s.epoch<(epoch.toNat : Int) → s.active.info.epoch≤(epoch.toNat : Int)))
  | .reopen _ _ => inferInstanceAs (Decidable (WholeLog s))
  | .commit _ | .deleteRecords _ _ | .retention _ _ _ _ | .fenceProducer _ _ => .isTrue trivial

/-- An open partition with a log to write to, which can be recovered from its directory. -/
structure Anchored (crc : Crc32c) (s : Store) : Prop where
  disk : DiskSound crc s
  opened : s.active.logOpen=true
  named : s.active.info.name.parse=some (s.active.info.baseOffset,s.active.info.epoch)
  epochs : 0≤ s.epoch ∧ s.epoch<2^32

section Steps

variable {crc : Crc32c} {s t : Store} {f : LogFile} {fs : List Bytes}

theorem Anchored.tracks (h : Anchored crc s) : ∃f fs,Tracks crc s f fs :=
  let ⟨f,fs,ht,_⟩ := h.disk.tracks h.opened
  ⟨f,fs,ht⟩

theorem top_started (h : Anchored crc s) (ht : Tracks crc s f fs) (he : 0≤epoch ∧ epoch<2^32)
    (hle : s.active.info.epoch≤epoch)
    (hne : ¬(s.active.info.epoch=epoch ∧ s.active.info.baseOffset=s.highWater)) :
    (ActiveSegment.created (outgoingDir s) (segmentName s.highWater epoch)).Top
      (segmentName s.highWater epoch) s.highWater ∧ s.active.info.name≠segmentName s.highWater epoch := by
  obtain ⟨hsame,_,_⟩ := outgoingDir_rest crc s
  obtain ⟨hnew,hall⟩ := not_mem_segment ht h.named he hle hne
  have hparse := segmentName_parse epoch ht.ranged
  rw [Int.emod_eq_of_lt he.1 he.2] at hparse
  refine ⟨⟨(ActiveSegment.mem_created _ _ _).mpr (Or.inl rfl),epoch,hparse,fun n hn b e hp => ?_⟩,fun heq => ?_⟩
  · rcases (ActiveSegment.mem_created _ _ _).mp hn with rfl|hn
    · rw [hparse] at hp
      cases hp
      exact Or.inr ⟨rfl,le_refl _⟩
    · exact hall n ((hsame.mem n).mp hn) b e hp
  · rw [← heq] at hnew
    exact hnew (Dir.mem_of_lookup ht.file)

theorem Anchored.started (h : Anchored crc s) (epoch : Int) (he : 0≤epoch ∧ epoch<2^32)
    (htop : t.dir.Top (segmentName s.highWater epoch) s.highWater)
    (hfile : t.dir.logs.lookup (segmentName s.highWater epoch)=some {})
    (hrest : s.dir.SegmentsOnly t.dir) (hactive : t.active=ActiveSegment.fresh s.highWater epoch)
    (hhigh : t.highWater=s.highWater) (hepoch : t.epoch=s.epoch)
    (hclosed : t.closed=s.closed ∨ (0<s.active.logSize ∧ t.closed=s.closed++[s.active.closedMeta])) :
    Anchored crc t := by
  obtain ⟨f,fs,ht,hw⟩ := h.disk.tracks h.opened
  have hparse := segmentName_parse epoch ht.ranged
  rw [Int.emod_eq_of_lt he.1 he.2] at hparse
  have hbase := ht.bases_le _ (Dir.mem_of_lookup ht.file) _ _ h.named
  have hold (m : SegmentMeta) (hm : m∈s.closed) : ∃b e,m.name.parse=some (b,e) ∧ b<s.highWater := by
    obtain ⟨n,base,htop,hc⟩ := h.disk.closed
    obtain ⟨_,rfl⟩ := top_unique htop ht.top
    obtain ⟨b,e,hp,hlt⟩ := hc m hm
    exact ⟨b,e,hp,by omega⟩
  refine ⟨⟨nodeSound_started h.disk ht hw htop hfile hrest.checkpoint hactive hhigh,
    ⟨_,_,htop,fun m hm => ?_⟩,h.disk.manifest.congr hrest.manifest hepoch⟩,by rw [hactive]; rfl,
    by rw [hactive]; exact hparse,by rw [hepoch]; exact h.epochs⟩
  rcases hclosed with hc|⟨hpos,hc⟩
  · exact hold m (hc ▸ hm)
  · rw [hc] at hm
    rcases List.mem_append.mp hm with hm|hm
    · exact hold m hm
    · rw [List.mem_singleton.mp hm]
      exact ⟨_,_,h.named,ht.above (ht.ne_nil hpos)⟩

theorem Anchored.congr (h : Anchored crc s) (hsame : s.dir.SameData t.dir)
    (hkeeps : ∀cp,Keeps crc cp s.dir t.dir) (hcheck : t.dir.checkpoint=s.dir.checkpoint)
    (hactive : t.active=s.active) (hclosed : t.closed=s.closed) (hhigh : t.highWater=s.highWater)
    (hmanifest : Unfenced t) (he : 0≤t.epoch ∧ t.epoch<2^32) : Anchored crc t :=
  ⟨h.disk.congr h.opened hsame hkeeps hcheck hactive hclosed hhigh hmanifest,by rw [hactive]; exact h.opened,
    by rw [hactive]; exact h.named,he⟩

theorem anchored_retired (h : Anchored crc s) (env : IoEnv)
    (he : 0≤epoch ∧ epoch<2^32) (hle : s.active.info.epoch≤epoch)
    (hne : ¬(s.active.info.epoch=epoch ∧ s.active.info.baseOffset=s.highWater)) :
    Anchored crc (retireActive env
      {s with dir := ActiveSegment.created (outgoingDir s) (segmentName s.highWater epoch)}
      (ActiveSegment.fresh s.highWater epoch)) := by
  obtain ⟨f,fs,ht⟩ := h.tracks
  obtain ⟨_,hrest,_⟩ := outgoingDir_rest crc s
  obtain ⟨htop,hother⟩ := top_started h ht he hle hne
  have hfile : (ActiveSegment.created (outgoingDir s) (segmentName s.highWater epoch)).logs.lookup
      (segmentName s.highWater epoch)=some {} := by rw [ActiveSegment.created_lookup,if_pos rfl]
  have hrest' : s.dir.SegmentsOnly (ActiveSegment.created (outgoingDir s) (segmentName s.highWater epoch)) :=
    hrest.trans ⟨rfl,rfl,rfl,rfl⟩
  unfold retireActive
  by_cases hpos : 0<s.active.logSize
  · rw [if_pos hpos]
    exact h.started epoch he htop hfile hrest' rfl rfl rfl (Or.inr ⟨hpos,rfl⟩)
  · rw [if_neg hpos]
    dsimp only
    cases env.remove with
    | false => exact h.started epoch he htop hfile hrest' rfl rfl rfl (Or.inl rfl)
    | true =>
      obtain ⟨htop',hlook⟩ := removeSegments_top [(s.active.info,0)] _ _ _ htop (by simpa using hother)
      have hgone := removeSegments_segmentsOnly [(s.active.info,0)]
        (ActiveSegment.created (outgoingDir s) (segmentName s.highWater epoch))
      exact h.started epoch he htop' (hlook.trans hfile) (hrest'.trans hgone) rfl rfl rfl (Or.inl rfl)

theorem rollForEpoch_ends (h : Anchored crc s) (env : IoEnv) (he : 0≤epoch ∧ epoch<2^32)
    (hle : s.active.info.epoch≤epoch) :
    (¬(s.active.info.epoch=epoch ∧ s.active.info.baseOffset=s.highWater) ∧
      (rollForEpochLocked env s epoch).1=retireActive env
        {s with dir := ActiveSegment.created (outgoingDir s) (segmentName s.highWater epoch)}
        (ActiveSegment.fresh s.highWater epoch)) ∨
    ∃d,(rollForEpochLocked env s epoch).1={s with dir := d} ∧ s.dir.SameData d ∧
      (∀cp,Keeps crc cp s.dir d) ∧ s.dir.SegmentsOnly d := by
  obtain ⟨f,fs,ht⟩ := h.tracks
  obtain ⟨hsame,hrest,hkeeps⟩ := outgoingDir_rest crc s
  have hstays : ∃d,s={s with dir := d} ∧ s.dir.SameData d ∧ (∀cp,Keeps crc cp s.dir d) ∧ s.dir.SegmentsOnly d :=
    ⟨s.dir,rfl,.of_logs rfl,fun _ => .of_logs rfl,.refl _⟩
  by_cases hdone : s.active.info.epoch=epoch ∧ s.active.info.baseOffset=s.highWater
  · rw [rollForEpochLocked,if_pos hdone]
    exact Or.inr hstays
  · rcases rollForEpochLocked_cases env s epoch with ⟨h1,h2,_⟩|⟨_,_,hr⟩|⟨d,e,hr,hd⟩
    · exact absurd ⟨h1,h2⟩ hdone
    · rw [hr]
      exact Or.inl ⟨hdone,rfl⟩
    · rw [hr]
      right
      obtain ⟨hnew,_⟩ := not_mem_segment ht h.named he hle hdone
      have hnew' : segmentName s.highWater epoch∉(outgoingDir s).logs := fun hm => hnew ((hsame.mem _).mp hm)
      rcases hd with rfl|rfl|rfl
      · exact hstays
      · exact ⟨_,rfl,hsame,hkeeps,hrest⟩
      · exact ⟨_,rfl,hsame.trans (.eraseLog hnew'),fun cp => (hkeeps cp).trans (.eraseLog hnew'),
          hrest.trans ⟨rfl,rfl,rfl,rfl⟩⟩

theorem anchored_rollForEpoch (h : Anchored crc s) (env : IoEnv) (he : 0≤epoch ∧ epoch<2^32)
    (hle : s.active.info.epoch≤epoch) : Anchored crc (rollForEpochLocked env s epoch).1 := by
  rcases rollForEpoch_ends h env he hle with ⟨hne,hr⟩|⟨d,hr,hsame,hkeeps,hrest⟩
  · rw [hr]
    exact anchored_retired h env he hle hne
  · rw [hr]
    exact h.congr hsame hkeeps hrest.checkpoint rfl rfl rfl (h.disk.manifest.congr hrest.manifest rfl) h.epochs

theorem rollForEpochLocked_ledger (env : IoEnv) (s : Store) (epoch : Int) :
    s.SameLedger (rollForEpochLocked env s epoch).1 ∧
    s.dir.SegmentsOnly (rollForEpochLocked env s epoch).1.dir := by
  have hout := outgoingDir_segmentsOnly s
  rcases rollForEpochLocked_cases env s epoch with ⟨_,_,hr⟩|⟨_,_,hr⟩|⟨d,e,hr,rfl|rfl|rfl⟩
  all_goals rw [hr]
  · exact ⟨⟨rfl,rfl,rfl,rfl,rfl,rfl,rfl,rfl,rfl⟩,.refl _⟩
  · unfold retireActive
    by_cases hpos : 0<s.active.logSize
    · rw [if_pos hpos]
      exact ⟨⟨rfl,rfl,rfl,rfl,rfl,rfl,rfl,rfl,rfl⟩,hout.trans ⟨rfl,rfl,rfl,rfl⟩⟩
    · rw [if_neg hpos]
      refine ⟨⟨rfl,rfl,rfl,rfl,rfl,rfl,rfl,rfl,rfl⟩,hout.trans ?_⟩
      dsimp only
      cases env.remove <;> exact ⟨rfl,rfl,rfl,rfl⟩
  · exact ⟨⟨rfl,rfl,rfl,rfl,rfl,rfl,rfl,rfl,rfl⟩,.refl _⟩
  · exact ⟨⟨rfl,rfl,rfl,rfl,rfl,rfl,rfl,rfl,rfl⟩,hout⟩
  · exact ⟨⟨rfl,rfl,rfl,rfl,rfl,rfl,rfl,rfl,rfl⟩,hout.trans ⟨rfl,rfl,rfl,rfl⟩⟩

theorem takeOver_ends (h : Anchored crc s) (env : IoEnv) {epoch : UInt32}
    (hlt : s.epoch<(epoch.toNat : Int)) (hle : s.active.info.epoch≤(epoch.toNat : Int)) :
    (rollForEpochLocked env s epoch.toNat).1.dir.WindowsOnly (takeOver env epoch s).1.dir ∧
    (takeOver env epoch s).1.active=(rollForEpochLocked env s epoch.toNat).1.active ∧
    (takeOver env epoch s).1.closed=(rollForEpochLocked env s epoch.toNat).1.closed ∧
    (takeOver env epoch s).1.highWater=(rollForEpochLocked env s epoch.toNat).1.highWater ∧
    Unfenced (takeOver env epoch s).1 ∧
    0≤(takeOver env epoch s).1.epoch ∧ (takeOver env epoch s).1.epoch<2^32 := by
  have he : 0≤(epoch.toNat : Int) ∧ (epoch.toNat : Int)<2^32 := by
    have := epoch.toNat_lt
    omega
  have h1 := anchored_rollForEpoch h env he hle
  have hepoch := (rollForEpochLocked_ledger env s epoch.toNat).1.epoch
  unfold takeOver
  rw [if_neg (by omega)]
  rcases hr : rollForEpochLocked env s epoch.toNat with ⟨s1,e|_⟩
  · rw [hr] at h1
    exact ⟨⟨rfl,rfl,rfl⟩,rfl,rfl,rfl,h1.disk.manifest,h1.epochs⟩
  · rw [hr] at h1 hepoch
    dsimp only at h1 hepoch ⊢
    have hw := persistStateLocked_windowsOnly env s1.toPartitionInner s1.dir epoch.toNat
    rcases hp : persistStateLocked env s1.toPartitionInner s1.dir epoch.toNat with ⟨d,e|b⟩
    · rw [hp] at hw
      refine ⟨hw,rfl,rfl,rfl,?_,h1.epochs⟩
      rcases persistStateLocked_manifest h1.disk.manifest (by omega) hp with
        ⟨_,_,hb,_⟩|⟨_,_,hsame⟩
      · cases hb
      · exact h1.disk.manifest.congr hsame rfl
    · rw [hp] at hw
      refine ⟨hw,rfl,rfl,rfl,?_,he⟩
      rcases persistStateLocked_manifest h1.disk.manifest (by omega) hp with
        ⟨_,m,_,hm,hme⟩|⟨_,he,_⟩
      · exact ⟨m,hm,le_of_eq hme⟩
      · cases he

theorem takeOver_early (env : IoEnv) {epoch : UInt32} (h : (epoch.toNat : Int)≤ s.epoch) :
    (takeOver env epoch s).1=s := by
  rw [takeOver,if_pos h]

theorem anchored_takeOver (h : Anchored crc s) {epoch : UInt32}
    (hok : AnchorOk crc s (.takeOver env epoch)) : Anchored crc (takeOver env epoch s).1 := by
  by_cases hlt : s.epoch<(epoch.toNat : Int)
  · have he : 0≤(epoch.toNat : Int) ∧ (epoch.toNat : Int)<2^32 := by
      have := epoch.toNat_lt
      omega
    obtain ⟨hw,hactive,hclosed,hhigh,hmanifest,hepochs⟩ := takeOver_ends h env hlt (hok hlt)
    exact (anchored_rollForEpoch h env he (hok hlt)).congr (.of_logs hw.logs)
      (fun _ => .of_logs hw.logs) hw.checkpoint hactive hclosed hhigh hmanifest hepochs
  · rw [takeOver_early env (by omega)]
    exact h

theorem rollIfDue_succeeds (hopen : s.active.logOpen=true) {cfg : PartitionConfig} {batch : Bytes}
    (hdue : rollDue cfg env s.active batch=true)
    (henv : env.sync=true ∧ env.createLog=true ∧ env.createIndex=true) :
    rollIfDue cfg env batch s=(rolled s,.ok ()) := by
  obtain ⟨h1,h2,h3⟩ := henv
  simp only [rollIfDue,hdue,if_true,ActiveSegment.rollFast,hopen,ActiveSegment.syncLog,h1,
    ActiveSegment.create,h2,h3,rolled,ActiveSegment.syncedDir]
  rfl

theorem rollIfDue_ends (h : Anchored crc s) {cfg : PartitionConfig} {batch : Bytes}
    (hroll : rollDue cfg env s.active batch=true →
      env.sync=true ∧ env.createLog=true ∧ env.createIndex=true) :
    ∃s1,rollIfDue cfg env batch s=(s1,.ok ()) ∧ (s1=s ∨
      (rollDue cfg env s.active batch=true ∧ 0<s.active.logSize ∧ s1=rolled s)) := by
  by_cases hdue : rollDue cfg env s.active batch=true
  · have hpos := hdue
    simp only [rollDue,Bool.and_eq_true,decide_eq_true_eq] at hpos
    exact ⟨rolled s,rollIfDue_succeeds h.opened hdue (hroll hdue),Or.inr ⟨hdue,hpos.2,rfl⟩⟩
  · exact ⟨s,if_neg hdue,Or.inl rfl⟩

theorem anchored_append (h : Anchored crc s) {c : AppendCall} (hok : AnchorOk crc s (.append c))
    {r : Except StorageError Appended} (call : appendLocked c.cfg c.env c.epoch c.batch s=some (t,r)) :
    Anchored crc t := by
  obtain ⟨f,fs,ht⟩ := h.tracks
  have hdisk := diskSound_append h.disk (fun accepted ha => ⟨(hok accepted ha).1,(hok accepted ha).2.1⟩) call
  have hepochs : 0≤t.epoch ∧ t.epoch<2^32 := by
    rw [(appendLocked_kept call).1]
    exact h.epochs
  have hroll (accepted : Bool)
    (ha : admission s.toPartitionInner c.epoch c.batch=.admitted accepted) (s1 : Store)
      (r1 : Except StorageError Unit) (roll : rollIfDue c.cfg c.env c.batch s=(s1,r1)) :
      r1=.ok () ∧ s1.active.logOpen=true ∧
      s1.active.info.name.parse=some (s1.active.info.baseOffset,s1.active.info.epoch) := by
    obtain ⟨s2,hr,hs⟩ := rollIfDue_ends h (hok accepted ha).2.2
    rw [hr] at roll
    obtain ⟨rfl,rfl⟩ := Prod.mk.inj roll
    rcases hs with rfl|⟨_,_,rfl⟩
    · exact ⟨rfl,h.opened,h.named⟩
    · have hparse := segmentName_parse s.epoch ht.ranged
      rw [Int.emod_eq_of_lt h.epochs.1 h.epochs.2] at hparse
      exact ⟨rfl,rfl,hparse⟩
  cases appendLocked_step call with
  | refused e _ => exact h
  | known base _ => exact h
  | rollFailed accepted s1 e ha roll => cases (hroll accepted ha _ _ roll).1
  | failed accepted s1 d e ha roll _ _ =>
    obtain ⟨_,hopen,hname⟩ := hroll accepted ha _ _ roll
    exact ⟨hdisk,hopen,hname,hepochs⟩
  | stored accepted s1 d a ha roll _ write =>
    obtain ⟨_,_,hname⟩ := hroll accepted ha _ _ roll
    have hw := ActiveSegment.appendBatch_wrote _ _ _ _ _ _ _ write
    refine ⟨hdisk,hw.stays,?_,hepochs⟩
    change a.info.name.parse=some (a.info.baseOffset,a.info.epoch)
    rw [hw.named,hw.based,hw.epoch]
    exact hname

theorem commit_ends {seq : Nat} {cp : Option RecoveryCheckpoint}
    (call : commitLocked env s=(t,.ok (seq,cp))) :
    (writeDue env t cp).toPartitionInner={s.toPartitionInner with
      lastCheckpointByte := (writeDue env t cp).lastCheckpointByte} ∧
    (writeDue env t cp).dir.logs=(s.dir.onLog s.active.info.name LogFile.syncAll).logs ∧
    (writeDue env t cp).dir.manifest=s.dir.manifest ∧ (writeDue env t cp).dir.txns=s.dir.txns := by
  obtain ⟨_,_,hs,_⟩ := commitLocked_ok call
  have hrest := s.dir.onLog_segmentsOnly s.active.info.name LogFile.syncAll
  rw [hs]
  unfold writeDue
  cases cp with
  | none => exact ⟨rfl,rfl,hrest.manifest,hrest.txns⟩
  | some c =>
    dsimp only
    split_ifs <;> exact ⟨rfl,rfl,hrest.manifest,hrest.txns⟩

theorem anchored_commit (h : Anchored crc s) {seq : Nat} {cp : Option RecoveryCheckpoint}
    (call : commitLocked env s=(t,.ok (seq,cp))) : Anchored crc (writeDue env t cp) := by
  obtain ⟨hinner,_⟩ := commit_ends call
  refine ⟨diskSound_commit h.disk call,?_,?_,?_⟩
  · rw [hinner]
    exact h.opened
  · rw [hinner]
    exact h.named
  · rw [hinner]
    exact h.epochs

theorem anchored_delete (h : Anchored crc s) (env : IoEnv) (target : Int) :
    Anchored crc (deleteRecords env target s).1 := by
  have hdisk := diskSound_delete h.disk env target
  rcases deleteRecords_cases env target s with hr|⟨low,_,_,hr⟩
  · rw [hr]
    exact h
  · rw [hr] at hdisk ⊢
    exact ⟨hdisk,h.opened,h.named,h.epochs⟩

theorem anchored_reopen (h : Anchored crc s) (hwhole : WholeLog s) {closing opening : IoEnv}
    {s' : Store} {d : Dir}
    {p : Partition} (hclose : closePartition closing s=(s',.ok ()))
    (hopen : openPartition crc opening s'.dir=(d,.ok p)) : Anchored crc ⟨p,d⟩ := by
  obtain ⟨f,fs,ht⟩ := h.tracks
  obtain ⟨hdisk,hwindows,_⟩ := diskSound_reopen h.disk h.opened hwhole hclose hopen
  obtain ⟨g,_,_,_,_,had⟩ := reopen_adopts h.disk.node ht
    (hwhole.length ht.file) hclose hopen
  refine ⟨hdisk,had.opened,?_,?_⟩
  · change p.active.info.name.parse=some (p.active.info.baseOffset,p.active.info.epoch)
    rw [had.named,had.based]
    exact had.parsed
  · change 0≤p.epoch ∧ p.epoch<2^32
    rw [hwindows.epoch]
    exact h.epochs

theorem partitionStep_cases {op : PartitionOp} {P : Store → Prop} (hs : PartitionStep crc s op t)
    (append : ∀c r s1,op=.append c → appendLocked c.cfg c.env c.epoch c.batch s=some (s1,r) → P s1)
    (stays : P s)
    (commit : ∀env s1 seq cp,op=.commit env → commitLocked env s=(s1,.ok (seq,cp)) → P (writeDue env s1 cp))
    (takes : ∀env epoch,op=.takeOver env epoch → P (takeOver env epoch s).1)
    (delete : ∀env target,P (deleteRecords env target s).1)
    (fence : ∀pid newEpoch,P {s with producerStates := fenceProducer s.producerStates pid newEpoch})
    (reopen : ∀closing opening s1 d p,op=.reopen closing opening → closePartition closing s=(s1,.ok ()) →
      openPartition crc opening s1.dir=(d,.ok p) → P ⟨p,d⟩) : P t := by
  unfold PartitionStep Store.exec at hs
  cases op with
  | append c =>
    obtain ⟨⟨s1,r⟩,call,rfl⟩ := Option.map_eq_some_iff.mp hs
    exact append c r s1 rfl call
  | commit env =>
    dsimp only at hs
    rcases hc : commitLocked env s with ⟨s1,e|⟨seq,cp⟩⟩
    · rw [hc] at hs
      cases hs
      rw [commitLocked_error hc]
      exact stays
    · rw [hc] at hs
      cases hs
      exact commit env s1 seq cp rfl hc
  | takeOver env epoch =>
    cases hs
    exact takes env epoch rfl
  | deleteRecords env target =>
    cases hs
    exact delete env target
  | retention env policy now mtime =>
    cases hs
    rcases enforceRetention_cases env policy now mtime s with hr|⟨target,hr⟩
    · rw [hr]
      exact stays
    · rw [hr]
      exact delete env target
  | fenceProducer pid newEpoch =>
    cases hs
    exact fence pid newEpoch
  | reopen closing opening =>
    dsimp only at hs
    rcases hc : closePartition closing s with ⟨s1,e|⟨⟩⟩
    · rw [hc] at hs
      cases hs
    · rw [hc] at hs
      dsimp only at hs
      rcases ho : openPartition crc opening s1.dir with ⟨d,e|p⟩
      · rw [ho] at hs
        cases hs
      · rw [ho] at hs
        cases hs
        exact reopen closing opening s1 d p rfl hc ho

theorem anchored_step {op : PartitionOp} (h : Anchored crc s) (hok : AnchorOk crc s op)
    (hs : PartitionStep crc s op t) : Anchored crc t := by
  refine partitionStep_cases hs ?_ h ?_ ?_ (anchored_delete h) ?_ ?_
  · rintro c r s1 rfl call
    exact anchored_append h hok call
  · rintro env s1 seq cp rfl call
    exact anchored_commit h call
  · rintro env epoch rfl
    exact anchored_takeOver h hok
  · intro pid newEpoch
    exact h.congr (.of_logs rfl) (fun _ => .of_logs rfl) rfl rfl rfl rfl h.disk.manifest h.epochs
  · rintro closing opening s1 d p rfl hclose hopen
    exact anchored_reopen h hok hclose hopen

theorem firstStore_anchored (crc : Crc32c) : Anchored crc firstStore :=
  ⟨firstStore_diskSound crc,rfl,by decide,by decide⟩

end Steps

end Kaas
