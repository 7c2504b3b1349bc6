import Kaas.Storage.Tracking

namespace Kaas

/-- A broker process over one partition directory: the open partition, the checkpoints its committer
has yet to write, and the batches stored since the open. -/
structure Node where
  dir : Dir := {}
  live : Option Partition := none
  pending : List RecoveryCheckpoint := []
  appended : List Bytes := []

inductive NodeOp
  | append (c : AppendCall)
  | commit (env : IoEnv)
  | writeCheckpoint (cp : RecoveryCheckpoint)
  | close (env : IoEnv)
  | crash (image : Dir)
  | start (env : IoEnv)

def storedBatches (batch : Bytes) : Except StorageError Appended → List Bytes
  | .ok (.stored _ _ _) => [batch]
  | _ => []

inductive NodeStep (crc : Crc32c) : Node → NodeOp → Node → Prop
  | append {n : Node} {p : Partition} {c : AppendCall} {s : Store} {r : Except StorageError Appended}
      (up : n.live=some p)
      (call : appendLocked c.cfg c.env c.epoch c.batch ⟨p,n.dir⟩=some (s,r)) :
      NodeStep crc n (.append c) {n with
        dir := s.dir
        live := some s.toPartition
        appended := n.appended++storedBatches c.batch r}
  | commit {n : Node} {p : Partition} {env : IoEnv} {s : Store} {seq : Nat} {cp : Option RecoveryCheckpoint}
      (up : n.live=some p) (call : commitLocked env ⟨p,n.dir⟩=(s,.ok (seq,cp))) :
      NodeStep crc n (.commit env) {n with
        dir := s.dir
        live := some s.toPartition
        pending := n.pending++cp.toList}
  | commitFailed {n : Node} {p : Partition} {env : IoEnv} {s : Store} {e : IoError}
      (up : n.live=some p) (call : commitLocked env ⟨p,n.dir⟩=(s,.error e)) :
      NodeStep crc n (.commit env) {n with dir := s.dir,live := some s.toPartition}
  | writeCheckpoint {n : Node} {cp : RecoveryCheckpoint} (due : cp∈n.pending) :
      NodeStep crc n (.writeCheckpoint cp) {n with
        dir := {n.dir with checkpoint := .present cp}
        pending := n.pending.erase cp}
  | close {n : Node} {p : Partition} {env : IoEnv} {s : Store} (up : n.live=some p)
      (call : closePartition env ⟨p,n.dir⟩=(s,.ok ())) :
      NodeStep crc n (.close env) {n with dir := s.dir,live := none}
  | closeFailed {n : Node} {p : Partition} {env : IoEnv} {s : Store} {e : StorageError}
      (up : n.live=some p) (call : closePartition env ⟨p,n.dir⟩=(s,.error e)) :
      NodeStep crc n (.close env) {n with dir := s.dir,live := some s.toPartition}
  | crash {n : Node} {d : Dir} (image : n.dir.CrashImage d) :
      NodeStep crc n (.crash d) {n with dir := d,live := none,pending := []}
  | start {n : Node} {env : IoEnv} {d : Dir} {p : Partition} (down : n.live=none)
      (call : openPartition crc env n.dir=(d,.ok p)) :
      NodeStep crc n (.start env) {n with dir := d,live := some p,appended := []}

def Node.exec (crc : Crc32c) (n : Node) (op : NodeOp) : Option Node :=
  match op,n.live with
  | .append c,some p => (appendLocked c.cfg c.env c.epoch c.batch ⟨p,n.dir⟩).map (fun q => {n with
      dir := q.1.dir
      live := some q.1.toPartition
      appended := n.appended++storedBatches c.batch q.2})
  | .commit env,some p => match commitLocked env ⟨p,n.dir⟩ with
    | (s,.ok (_,cp)) => some {n with
        dir := s.dir
        live := some s.toPartition
        pending := n.pending++cp.toList}
    | (s,.error _) => some {n with dir := s.dir,live := some s.toPartition}
  | .writeCheckpoint cp,_ => if cp∈n.pending then some {n with
        dir := {n.dir with checkpoint := .present cp}
        pending := n.pending.erase cp}
      else none
  | .close env,some p => match closePartition env ⟨p,n.dir⟩ with
    | (s,.ok _) => some {n with dir := s.dir,live := none}
    | (s,.error _) => some {n with dir := s.dir,live := some s.toPartition}
  | .start env,none => match openPartition crc env n.dir with
    | (d,.ok p) => some {n with dir := d,live := some p,appended := []}
    | (_,.error _) => none
  | _,_ => none

theorem Node.exec_step (crc : Crc32c) (n : Node) (op : NodeOp) (n' : Node)
    (h : n.exec crc op=some n') : NodeStep crc n op n' := by
  unfold Node.exec at h
  split at h
  · rename_i c p up
    obtain ⟨⟨s,r⟩,hc,rfl⟩ := Option.map_eq_some_iff.mp h
    exact .append up hc
  · rename_i env p up
    split at h
    · rename_i s seq cp hc
      cases h
      exact .commit up hc
    · rename_i s e hc
      cases h
      exact .commitFailed up hc
  · split_ifs at h with due
    cases h
    exact .writeCheckpoint due
  · rename_i env p up
    split at h
    · rename_i s u hc
      cases h
      exact .close up hc
    · rename_i s e hc
      cases h
      exact .closeFailed up hc
  · rename_i env down
    split at h
    · rename_i d p hc
      cases h
      exact .start down hc
    · cases h
  · cases h

/-- The condition on a step: what is let through to the log can be recovered from it, and a
directory is opened without a fragment of a header at its end. -/
def NodeOk (crc : Crc32c) (n : Node) : NodeOp → Prop
  | .append c => ∀p accepted,n.live=some p → admission p.toPartitionInner c.epoch c.batch=.admitted accepted →
      Storable crc c.batch ∧ p.highWater+recordCount c.batch<2^63
  | .start _ => NoFragment crc n.dir ∧ EndsAbove crc n.dir
  | _ => True

def Node.Holds (n : Node) (cp : RecoveryCheckpoint) : Prop :=
  n.dir.checkpoint=.present cp ∨ cp∈n.pending

/-- What every admissible step keeps: there is a segment unless the manifest alone says where the
first one starts, every checkpoint is sound, and so is the open partition. -/
structure NodeSound (crc : Crc32c) (n : Node) : Prop where
  rooted : (∃m base,n.dir.Top m base) ∨ n.dir.manifest.Typed
  checkpoints : ∀cp,n.Holds cp → CheckpointSound crc n.dir cp
  live : ∀p,n.live=some p → StoreSound crc ⟨p,n.dir⟩ n.Holds

/-- What a step owes the checkpoints: the old ones are kept, a new one names a boundary. -/
def KeepsHeld (crc : Crc32c) (n n' : Node) : Prop :=
  ∀cp,n'.Holds cp → (n.Holds cp ∧ Keeps crc cp n.dir n'.dir) ∨ CheckpointNamed crc n'.dir cp

variable {crc : Crc32c} {n : Node} {p : Partition} {s : Store} {env : IoEnv} {d : Dir}

theorem NodeSound.down (hlive : n.live=none)
    (rooted : (∃m base,n.dir.Top m base) ∨ n.dir.manifest.Typed)
    (checkpoints : ∀cp,n.Holds cp → CheckpointSound crc n.dir cp) : NodeSound crc n :=
  ⟨rooted,checkpoints,fun p up => by rw [hlive] at up; cases up⟩

theorem NodeSound.next (s : Store) (appended : List Bytes)
    (hs : StoreSound crc s n.Holds) (hcp : s.dir.checkpoint=n.dir.checkpoint)
    (hk : ∀cp,n.Holds cp → Keeps crc cp n.dir s.dir) :
    NodeSound crc ⟨s.dir,some s.toPartition,n.pending,appended⟩ ∧
    KeepsHeld crc n ⟨s.dir,some s.toPartition,n.pending,appended⟩ := by
  have hheld : Node.Holds ⟨s.dir,some s.toPartition,n.pending,appended⟩=n.Holds := by
    funext cp
    simp only [Node.Holds,hcp]
  refine ⟨⟨Or.inl hs.rooted,by rw [hheld]; exact hs.checkpoints,?_⟩,fun cp hc => ?_⟩
  · rintro q ⟨rfl⟩
    rw [hheld]
    exact hs
  · rw [hheld] at hc
    exact Or.inl ⟨hc,hk cp hc⟩

theorem nodeSound_append (h : NodeSound crc n)
    (up : n.live=some p) {c : AppendCall} (hc : NodeOk crc n (.append c))
    {r : Except StorageError Appended}
    (call : appendLocked c.cfg c.env c.epoch c.batch ⟨p,n.dir⟩=some (s,r)) (appended : List Bytes) :
    NodeSound crc ⟨s.dir,some s.toPartition,n.pending,appended⟩ ∧
    KeepsHeld crc n ⟨s.dir,some s.toPartition,n.pending,appended⟩ := by
  obtain ⟨hs,hk⟩ := storeSound_append (h.live p up) (fun accepted ha => hc p accepted up ha) call
  exact NodeSound.next s appended hs (appendLocked_segmentsOnly call).checkpoint hk

theorem synced_held {f : LogFile} {fs : List Bytes}
    (h : NodeSound crc n) (ht : Tracks crc ⟨p,n.dir⟩ f fs) (d : Dir)
    (hd : d.logs=(n.dir.onLog p.active.info.name LogFile.syncAll).logs) (cp : RecoveryCheckpoint)
    (hc : n.Holds cp ∨ cp=closeCheckpoint ⟨p,n.dir⟩) :
    CheckpointSound crc d cp ∧ ((n.Holds cp ∧ Keeps crc cp n.dir d) ∨ CheckpointNamed crc d cp) := by
  rcases hc with hc|rfl
  · have hk : Keeps crc cp n.dir d := (Keeps.sync p.active.info.name).trans (.of_logs hd)
    exact ⟨hk.sound (h.checkpoints cp hc),Or.inl ⟨hc,hk⟩⟩
  · obtain ⟨hs,hn⟩ := closeCheckpoint_sound ht
    exact ⟨(Keeps.of_logs hd).sound hs,Or.inr ((Keeps.of_logs hd).named hn)⟩

theorem nodeSound_commit (h : NodeSound crc n)
    (up : n.live=some p) {seq : Nat} {cp : Option RecoveryCheckpoint}
    (call : commitLocked env ⟨p,n.dir⟩=(s,.ok (seq,cp))) :
    NodeSound crc {n with dir := s.dir,live := some s.toPartition,pending := n.pending++cp.toList} ∧
    KeepsHeld crc n {n with dir := s.dir,live := some s.toPartition,pending := n.pending++cp.toList} := by
  obtain ⟨ho,_,hs,hcp⟩ := commitLocked_ok call
  have hdir : s.dir=n.dir.onLog p.active.info.name LogFile.syncAll := by rw [hs]
  have hactive : s.active=p.active := by rw [hs]
  have hhw : s.highWater=p.highWater := by rw [hs]
  rcases (h.live p up).active with ⟨hclosed,_⟩|⟨f,fs,ht,hw⟩
  · rw [ho] at hclosed
    cases hclosed
  · have ht' : Tracks crc s f.syncAll fs := (tracks_synced ht).congr (by rw [hdir]) hactive hhw
    have hheld (c : RecoveryCheckpoint) (hc : Node.Holds {n with
        dir := s.dir,live := some s.toPartition,pending := n.pending++cp.toList} c) :
        n.Holds c ∨ c=closeCheckpoint ⟨p,n.dir⟩ := by
      rcases hc with hc|hc
      · exact Or.inl (Or.inl (by rw [← hc,hdir]; exact (Dir.onLog_rest _ _ _).2.2.2.2.symm))
      · rcases List.mem_append.mp hc with hc|hc
        · exact Or.inl (Or.inr hc)
        · rcases hcp with rfl|rfl
          · simp at hc
          · simp only [Option.toList_some,List.mem_singleton] at hc
            exact Or.inr hc
    have hsound := fun c hc => synced_held h ht s.dir (by rw [hdir]) c (hheld c hc)
    refine ⟨⟨Or.inl ⟨_,_,ht'.top⟩,fun c hc => (hsound c hc).1,?_⟩,fun c hc => (hsound c hc).2⟩
    rintro q ⟨rfl⟩
    refine ⟨⟨_,_,ht'.top⟩,fun c hc => (hsound c hc).1,Or.inr ⟨_,fs,ht',fun c hc he => ?_⟩⟩
    change c.segmentBase=s.active.info.baseOffset at he
    change c.bytePos≤(s.active.logSize : Int)
    rw [hactive] at he ⊢
    rcases hheld c hc with hc|rfl
    · exact hw c hc he
    · exact le_refl _

theorem nodeSound_close (h : NodeSound crc n)
    (up : n.live=some p) (call : closePartition env ⟨p,n.dir⟩=(s,.ok ())) :
    NodeSound crc {n with dir := s.dir,live := none} ∧
    KeepsHeld crc n {n with dir := s.dir,live := none} := by
  have hl := h.live p up
  obtain ⟨d,hw,hd⟩ := closePartition_ok call
  have hsync : (d.onLog p.active.info.name LogFile.syncAll).logs=
      (n.dir.onLog p.active.info.name LogFile.syncAll).logs := Dir.onLog_logs_congr hw.logs _ _
  have hcheck : (d.onLog p.active.info.name LogFile.syncAll).checkpoint=n.dir.checkpoint :=
    (Dir.onLog_rest _ _ _).2.2.2.2.trans hw.checkpoint
  have hroot (hm : ∀k,k∈s.dir.logs ↔ k∈n.dir.logs) : ∃m base,s.dir.Top m base := by
    obtain ⟨m,base,ht⟩ := hl.rooted
    exact ⟨m,base,ht.congr hm⟩
  rcases hd with hd|⟨ho,hd⟩
  · have hk (cp : RecoveryCheckpoint) : Keeps crc cp n.dir s.dir := .of_logs (by rw [hd,hw.logs])
    have hheld (cp : RecoveryCheckpoint) (hc : Node.Holds {n with dir := s.dir,live := none} cp) :
        n.Holds cp := by
      rcases hc with hc|hc
      · exact Or.inl (by rw [← hc,hd,hw.checkpoint])
      · exact Or.inr hc
    exact ⟨.down rfl (Or.inl (hroot (fun k => by rw [hd,hw.logs])))
      (fun cp hc => (hk cp).sound (h.checkpoints cp (hheld cp hc))),
      fun cp hc => Or.inl ⟨hheld cp hc,hk cp⟩⟩
  · rcases hl.active with ⟨hclosed,_⟩|⟨f,fs,ht,_⟩
    · rw [ho] at hclosed
      cases hclosed
    · have hlogs : s.dir.logs=(n.dir.onLog p.active.info.name LogFile.syncAll).logs := by
        rcases hd with hd|hd <;> rw [hd] <;> exact hsync
      have hheld (cp : RecoveryCheckpoint) (hc : Node.Holds {n with dir := s.dir,live := none} cp) :
          n.Holds cp ∨ cp=closeCheckpoint ⟨p,n.dir⟩ := by
        rcases hc with hc|hc
        · change s.dir.checkpoint=_ at hc
          rcases hd with hd|hd
          · rw [hd] at hc
            exact Or.inl (Or.inl (hcheck.symm.trans hc))
          · rw [hd] at hc
            exact Or.inr (JsonFile.present.inj hc).symm
        · exact Or.inl (Or.inr hc)
      have hsound := fun cp hc => synced_held h ht s.dir hlogs cp (hheld cp hc)
      exact ⟨.down rfl (Or.inl (hroot (fun k => by rw [hlogs]; exact n.dir.mem_onLog _ _ k)))
        (fun cp hc => (hsound cp hc).1),fun cp hc => (hsound cp hc).2⟩

theorem nodeSound_crash (h : NodeSound crc n) (d : Dir) (image : n.dir.CrashImage d) :
    NodeSound crc {n with dir := d,live := none,pending := []} ∧
    KeepsHeld crc n {n with dir := d,live := none,pending := []} := by
  have hk (cp : RecoveryCheckpoint) : Keeps crc cp n.dir d := .crash image
  have hheld (cp : RecoveryCheckpoint)
      (hc : Node.Holds {n with dir := d,live := none,pending := []} cp) : n.Holds cp := by
    rcases hc with hc|hc
    · exact Or.inl (by rw [← image.checkpoint]; exact hc)
    · cases hc
  refine ⟨.down rfl ?_ (fun cp hc => (hk cp).sound (h.checkpoints cp (hheld cp hc))),
    fun cp hc => Or.inl ⟨hheld cp hc,hk cp⟩⟩
  rcases h.rooted with ⟨m,base,ht⟩|ht
  · exact Or.inl ⟨m,base,ht.congr image.names⟩
  · refine Or.inr ?_
    change d.manifest.Typed
    rw [image.manifest]
    exact ht

theorem nodeSound_start (h : NodeSound crc n) (call : openPartition crc env n.dir=(d,.ok p))
    (hn : NoFragment crc n.dir) (ha : EndsAbove crc n.dir) :
    NodeSound crc ⟨d,some p,n.pending,[]⟩ ∧ KeepsHeld crc n ⟨d,some p,n.pending,[]⟩ := by
  obtain ⟨⟨f,fs,ht,_⟩,hcheck,hk⟩ := openPartition_tracks call h.rooted
    (fun cp hc => h.checkpoints cp (Or.inl hc)) hn ha
  exact NodeSound.next ⟨p,d⟩ []
    ⟨⟨_,_,ht.top⟩,fun cp hc => (hk cp (h.checkpoints cp hc)).1.sound (h.checkpoints cp hc),
    Or.inr ⟨f,fs,ht,fun cp hc => (hk cp (h.checkpoints cp hc)).2⟩⟩ hcheck
    (fun cp hc => (hk cp (h.checkpoints cp hc)).1)

theorem nodeStep_sound {n' : Node} {op : NodeOp} (h : NodeSound crc n)
    (hok : NodeOk crc n op) (hs : NodeStep crc n op n') : NodeSound crc n' ∧ KeepsHeld crc n n' := by
  cases hs with
  | append up call => exact nodeSound_append h up hok call _
  | commit up call => exact nodeSound_commit h up call
  | @commitFailed p env s e up call =>
    have hs := commitLocked_error call
    subst hs
    exact NodeSound.next ⟨p,n.dir⟩ n.appended (h.live p up) rfl (fun cp _ => .of_logs rfl)
  | @writeCheckpoint cp due =>
    have hheld (c : RecoveryCheckpoint) (hc : Node.Holds {n with
        dir := {n.dir with checkpoint := .present cp},pending := n.pending.erase cp} c) : n.Holds c := by
      rcases hc with hc|hc
      · cases hc
        exact Or.inr due
      · exact Or.inr (List.mem_of_mem_erase hc)
    have hk (c : RecoveryCheckpoint) :
        Keeps crc c n.dir {n.dir with checkpoint := .present cp} := .of_logs rfl
    refine ⟨⟨h.rooted,fun c hc => (hk c).sound (h.checkpoints c (hheld c hc)),fun p up => ?_⟩,
      fun c hc => Or.inl ⟨hheld c hc,hk c⟩⟩
    have hl := h.live p up
    refine ⟨hl.rooted,fun c hc => (hk c).sound (h.checkpoints c (hheld c hc)),?_⟩
    rcases hl.active with hdead|⟨f,fs,ht,hw⟩
    · exact Or.inl hdead
    · exact Or.inr ⟨f,fs,ht.congr rfl rfl rfl,fun c hc => hw c (hheld c hc)⟩
  | close up call => exact nodeSound_close h up call
  | @closeFailed p env s e up call =>
    obtain ⟨d,hw,rfl⟩ := closePartition_error call
    have hl := h.live p up
    have hk (c : RecoveryCheckpoint) : Keeps crc c n.dir d := .of_logs hw.logs
    refine NodeSound.next ⟨p,d⟩ n.appended ⟨?_,fun c hc => (hk c).sound (h.checkpoints c hc),?_⟩
      hw.checkpoint (fun c _ => hk c)
    · obtain ⟨m,base,ht⟩ := hl.rooted
      exact ⟨m,base,ht.congr (fun k => by rw [hw.logs])⟩
    · rcases hl.active with hdead|⟨f,fs,ht,hwi⟩
      · exact Or.inl hdead
      · exact Or.inr ⟨f,fs,ht.congr hw.logs rfl rfl,hwi⟩
  | crash image => exact nodeSound_crash h _ image
  | start down call => exact nodeSound_start h call hok.1 hok.2

def checkpointByte (d : Dir) : Nat :=
  match d.checkpoint with
  | .present cp => cp.bytePos.toNat
  | _ => 0

def Dir.withTail (d : Dir) (n : SegmentName) (tail : Bytes) : Dir :=
  d.onLog n (fun f => ⟨f.data.take (checkpointByte d)++tail,f.synced⟩)

theorem recoveryScan_withTail {n : SegmentName} {base : Int} (tail : Bytes)
    {a : ActiveSegment} (htop : d.Top n base) (hn : a.info.name=n) (hb : a.info.baseOffset=base)
    (hcp : ∀cp,d.checkpoint=.present cp → CheckpointSound crc d cp) :
    recoveryScan crc (d.withTail n tail) a=
      scanHighWatermarkFrom crc ((d.withTail n tail).logData n) 0 base := by
  obtain ⟨f,hl⟩ := Dir.lookup_of_mem htop.1
  have hdata : (d.withTail n tail).logData n=f.data.take (checkpointByte d)++tail := by
    refine Dir.logData_of_lookup _ _ ⟨f.data.take (checkpointByte d)++tail,f.synced⟩ ?_
    rw [Dir.withTail,Dir.onLog_lookup,if_pos rfl,hl]
    rfl
  have hcheck : (d.withTail n tail).checkpoint=d.checkpoint := (d.onLog_rest _ _).2.2.2.2
  rw [recoveryScan,hn,hdata]
  apply boundary_scan
  unfold recoveryStart
  rw [hcheck]
  split
  · rename_i cp hc
    split_ifs with huse
    · obtain ⟨m,b,ht,_,hs⟩ := hcp cp hc
      obtain ⟨rfl,rfl⟩ := top_unique ht htop
      have hbound := (hs f hl (huse.1.trans hb) huse.2.1).1
      have hle := boundary_le _ hbound
      have hpos : checkpointByte d=cp.bytePos.toNat := by rw [checkpointByte,hc]
      refine boundary_congr _ hbound ?_
      rw [hpos,List.take_left' (by simp [hle])]
    · rw [hb]
      exact boundary_zero crc _ _
  · rw [hb]
    exact boundary_zero crc _ _

theorem nodeSound_reached (run : Reaches (NodeStep crc) (NodeOk crc) {} n) : NodeSound crc n := by
  have h0 : NodeSound crc {} := by
    refine .down rfl (Or.inr ?_) ?_
    · rintro m ⟨⟩
      exact ⟨by decide,by decide⟩
    · rintro cp (hc|hc) <;> cases hc
  exact run.invariant h0 (fun _ _ _ h hok hs => (nodeStep_sound h hok hs).1)

theorem named_reached (run : Reaches (NodeStep crc) (NodeOk crc) {} n) :
    ∀cp,n.Holds cp → CheckpointNamed crc n.dir cp := by
  induction run with
  | start => rintro cp (hc|hc) <;> cases hc
  | next op run hok hs ih =>
    intro cp hc
    rcases (nodeStep_sound (nodeSound_reached run) hok hs).2 cp hc with ⟨hold,hkeep⟩|hnamed
    · exact hkeep.named (ih cp hold)
    · exact hnamed

/-- In every run whose appends can be recovered and whose opens find no fragment of a header, every
checkpoint, written or due, names a batch boundary with its high watermark, and recovery from it
gives what a scan of the whole segment gives. -/
theorem checkpoint_recovery_exact (crc : Crc32c) (n : Node)
    (run : Reaches (NodeStep crc) (NodeOk crc) {} n) :
    (∀cp,n.Holds cp → CheckpointNamed crc n.dir cp) ∧
    ∀m base tail a,n.dir.Top m base → a.info.name=m → a.info.baseOffset=base →
      recoveryScan crc (n.dir.withTail m tail) a=
        scanHighWatermarkFrom crc ((n.dir.withTail m tail).logData m) 0 base := by
  exact ⟨named_reached run,fun m base tail a htop hn hb => recoveryScan_withTail tail
    htop hn hb (fun cp hc => (nodeSound_reached run).checkpoints cp (Or.inl hc))⟩

def firstNode : Node := {dir := firstStore.dir,live := some firstStore.toPartition}

def oneRecord : AppendCall := {batch := plainBatch}

theorem oneRecord_storable : Storable castagnoli oneRecord.batch := by
  decide +kernel

theorem firstNode_reached (crc : Crc32c) : Reaches (NodeStep crc) (NodeOk crc) {} firstNode := by
  have hempty : ∀n base,¬Dir.Top {} n base := fun n base ht => by cases ht.1
  refine .next (.start {}) .start ⟨?_,?_⟩ (.start rfl (openPartition_empty crc))
  · exact fun n base f ht => absurd ht (hempty n base)
  · exact fun n base f ht => absurd ht (hempty n base)

theorem close_checkpoint_exact :
    ∃n,runAll (Node.exec castagnoli) [.append oneRecord,.close {}] firstNode=some n ∧
      n.dir.checkpoint=.present ⟨0,61,1⟩ ∧ CheckpointNamed castagnoli n.dir ⟨0,61,1⟩ := by
  have hok : NodeOk castagnoli firstNode (.append oneRecord) := by
    rintro p accepted ⟨rfl⟩ _
    exact ⟨oneRecord_storable,by decide +kernel⟩
  obtain ⟨n,hn,hcp⟩ : ∃n∈runAll (Node.exec castagnoli) [.append oneRecord,.close {}] firstNode,
      n.dir.checkpoint=.present ⟨0,61,1⟩ := by decide +kernel
  obtain ⟨n1,h1,h2⟩ := runAll_cons.mp hn
  obtain ⟨n2,h2,⟨⟩⟩ := runAll_cons.mp h2
  have hreach : Reaches (NodeStep castagnoli) (NodeOk castagnoli) {} n :=
    .next (.close {}) (.next _ (firstNode_reached castagnoli) hok (Node.exec_step _ _ _ _ h1)) trivial
      (Node.exec_step _ _ _ _ h2)
  exact ⟨n,hn,hcp,(checkpoint_recovery_exact castagnoli n hreach).1 _ (Or.inl hcp)⟩

def Dir.cutTo (d : Dir) (n : SegmentName) (k : Nat) : Dir :=
  d.onLog n (fun f => ⟨f.data.take k,(f.data.take k).length⟩)

theorem crashImage_cutTo {n : SegmentName} {k j : Nat} (hone : d.logs.keys=[n])
    (hsynced : (d.logs.lookup n).map LogFile.synced=some j) (hj : j≤k) : d.CrashImage (d.cutTo n k) := by
  obtain ⟨h1,h2,h3,h4,h5⟩ := d.onLog_rest n (fun f => ⟨f.data.take k,(f.data.take k).length⟩)
  refine ⟨d.mem_onLog n _,?_,fun m => ?_,h2,h3,h4,h5⟩
  · intro m f g hf hg
    have hm := Dir.mem_of_lookup hf
    rw [AList.mem_keys,hone] at hm
    obtain rfl := List.mem_singleton.mp hm
    rw [Dir.cutTo,Dir.onLog_lookup,if_pos rfl,hf] at hg
    cases hg
    rw [hf] at hsynced
    have hk : f.synced=j := Option.some.inj hsynced
    exact ⟨by rw [List.take_take,Nat.min_eq_left (by omega)],by simp only [List.length_take]; omega,
      by simp,rfl⟩
  · rw [Dir.indexData,Dir.cutTo,h1]
    exact List.prefix_refl _

/-- A tail shorter than a header is kept, and the next clean close puts its checkpoint behind it:
recovery from there ends at byte 66, the scan of the whole segment at byte 61. -/
theorem fragment_checkpoint_diverges : ∃n,Reaches (NodeStep castagnoli) (fun _ _ => True) {} n ∧
      n.dir.checkpoint=.present ⟨0,66,1⟩ ∧
      recoveryScan castagnoli n.dir
        (ActiveSegment.openMetaOnly ⟨0,0,66,segmentName 0 0,unknownMaxTimestamp⟩)= ⟨1,66,.eof⟩ ∧
      scanHighWatermarkFrom castagnoli (n.dir.logData (segmentName 0 0)) 0 0=⟨1,61,.eof⟩ := by
  let crashed : Node → Node := fun n =>
    {n with dir := n.dir.cutTo (segmentName 0 0) 66,live := none,pending := []}
  obtain ⟨n,hn,n',hn',hkeys,hsynced,hends⟩ :
      ∃n∈runAll (Node.exec castagnoli) [.append oneRecord,.commit {},.append oneRecord] firstNode,
      ∃n'∈runAll (Node.exec castagnoli) [.start {},.close {}] (crashed n),n.dir.logs.keys=[segmentName 0 0] ∧
        (n.dir.logs.lookup (segmentName 0 0)).map LogFile.synced=some 61 ∧ n'.dir.checkpoint=.present ⟨0,66,1⟩ ∧
        recoveryScan castagnoli n'.dir
          (ActiveSegment.openMetaOnly ⟨0,0,66,segmentName 0 0,unknownMaxTimestamp⟩)= ⟨1,66,.eof⟩ ∧
        scanHighWatermarkFrom castagnoli (n'.dir.logData (segmentName 0 0)) 0 0=⟨1,61,.eof⟩ := by decide +kernel
  have hreach := runAll_reaches (Node.exec_step castagnoli) _ (fun _ _ _ => trivial) {} firstNode n
    ((firstNode_reached castagnoli).mono (fun _ _ _ => trivial)) hn
  have himage : n.dir.CrashImage (n.dir.cutTo (segmentName 0 0) 66) :=
    crashImage_cutTo hkeys hsynced (by decide)
  exact ⟨n',runAll_reaches (Node.exec_step castagnoli) _ (fun _ _ _ => trivial) {} (crashed n) n'
    (.next _ hreach trivial (.crash himage)) hn',hends⟩

end Kaas
