import Kaas.Storage.Anchor

namespace Kaas

/-- The condition under which a partition can be recovered, and no segment is left by a roll or a
take-over with bytes of a failed append behind it. -/
def LayoutOk (crc : Crc32c) (s : Store) (op : PartitionOp) : Prop :=
  AnchorOk crc s op ∧ match op with
    | .append c => ∀accepted,admission s.toPartitionInner c.epoch c.batch=.admitted accepted →
      rollDue c.cfg c.env s.active c.batch=true → WholeLog s
    | .takeOver _ epoch => s.epoch<(epoch.toNat : Int) → WholeLog s
    | _ => True

structure Shelved (crc : Crc32c) (s : Store) : Prop extends Anchored crc s, Racked crc s

section Steps

variable {crc : Crc32c} {s t : Store} {f : LogFile} {fs : List Bytes}

theorem racked_retired (h : Shelved crc s) (hwhole : WholeLog s) (env : IoEnv) {epoch : Int}
    (he : 0≤epoch ∧ epoch<2^32) (hle : s.active.info.epoch≤epoch)
    (hne : ¬(s.active.info.epoch=epoch ∧ s.active.info.baseOffset=s.highWater)) :
    Racked crc (retireActive env
      {s with dir := ActiveSegment.created (outgoingDir s) (segmentName s.highWater epoch)}
      (ActiveSegment.fresh s.highWater epoch)) := by
  obtain ⟨f,fs,ht⟩ := h.toAnchored.tracks
  obtain ⟨hsame,_,_⟩ := outgoingDir_rest crc s
  obtain ⟨hnew,_⟩ := not_mem_segment ht h.named he hle hne
  unfold retireActive
  by_cases hpos : 0<s.active.logSize
  · rw [if_pos hpos]
    exact h.toRacked.started ht hwhole (outgoingDir s) hsame epoch he hnew rfl rfl rfl (Or.inl ⟨hpos,rfl⟩)
  · rw [if_neg hpos]
    have hracked : Racked crc {s with
        active := ActiveSegment.fresh s.highWater epoch
        lastCheckpointByte := 0
        dir := ActiveSegment.created (outgoingDir s) (segmentName s.highWater epoch)} :=
      h.toRacked.started ht hwhole (outgoingDir s) hsame epoch he hnew rfl rfl rfl (Or.inr rfl)
    dsimp only
    cases env.remove with
    | false => exact hracked
    | true =>
      refine hracked.trimmed (fun n g hg => ?_) (List.suffix_refl _) (fun m hm => ?_) rfl rfl
      · exact ⟨g,removeSegments_sub [(s.active.info,0)] _ n g hg,rfl⟩
      · obtain ⟨g,_,hg,_⟩ := hracked.listed m hm
        exact AList.mem_erase.mpr ⟨h.closed_ne m hm,Dir.mem_of_lookup hg⟩

theorem racked_takeOver (h : Shelved crc s) {env : IoEnv} {epoch : UInt32}
    (hok : LayoutOk crc s (.takeOver env epoch)) : Racked crc (takeOver env epoch s).1 := by
  by_cases hlt : s.epoch<(epoch.toNat : Int)
  · have he : 0≤(epoch.toNat : Int) ∧ (epoch.toNat : Int)<2^32 := by
      have := epoch.toNat_lt
      omega
    have hle : s.active.info.epoch≤(epoch.toNat : Int) := hok.1 hlt
    obtain ⟨hw,hactive,hclosed,hhigh,_⟩ := takeOver_ends h.toAnchored env hlt hle
    have hroll : Racked crc (rollForEpochLocked env s epoch.toNat).1 := by
      rcases rollForEpoch_ends h.toAnchored env he hle with ⟨hne,hr⟩|⟨d,hr,hsame,_⟩
      · rw [hr]
        exact racked_retired h (hok.2 hlt) env he hle hne
      · rw [hr]
        exact h.toRacked.congr hsame rfl rfl rfl
    exact hroll.congr (.of_logs hw.logs) hclosed hactive hhigh
  · rw [takeOver_early env (by omega)]
    exact h.toRacked

theorem racked_roll (h : Shelved crc s) (ht : Tracks crc s f fs) {cfg : PartitionConfig} {env : IoEnv}
    {batch : Bytes} (hdue : rollDue cfg env s.active batch=true → WholeLog s) {s1 : Store}
    (hs : s1=s ∨ (rollDue cfg env s.active batch=true ∧ 0<s.active.logSize ∧ s1=rolled s)) :
    Racked crc s1 ∧ ∃f1 fs1,Tracks crc s1 f1 fs1 := by
  rcases hs with rfl|⟨hd,hpos,rfl⟩
  · exact ⟨h.toRacked,f,fs,ht⟩
  · refine ⟨?_,{},[],tracks_rolled ht hpos⟩
    refine h.toRacked.started ht (hdue hd) (s.active.syncedDir s.dir) ?_ s.epoch h.epochs
      (not_mem_above ht.top _ (ht.above (ht.ne_nil hpos)) ht.ranged) rfl rfl rfl (Or.inl ⟨hpos,rfl⟩)
    rw [ActiveSegment.syncedDir,if_pos h.opened]
    exact .sync _ _

theorem racked_append (h : Shelved crc s) {c : AppendCall} (hok : LayoutOk crc s (.append c))
    {r : Except StorageError Appended} (call : appendLocked c.cfg c.env c.epoch c.batch s=some (t,r)) :
    Racked crc t := by
  obtain ⟨f,fs,ht⟩ := h.toAnchored.tracks
  have hroll (accepted : Bool)
    (ha : admission s.toPartitionInner c.epoch c.batch=.admitted accepted) (s1 : Store)
      (r1 : Except StorageError Unit) (roll : rollIfDue c.cfg c.env c.batch s=(s1,r1)) :
      r1=.ok () ∧ Racked crc s1 ∧ ∃f1 fs1,Tracks crc s1 f1 fs1 := by
    obtain ⟨s2,hr,hs⟩ := rollIfDue_ends h.toAnchored (hok.1 accepted ha).2.2
    rw [hr] at roll
    obtain ⟨rfl,rfl⟩ := Prod.mk.inj roll
    exact ⟨rfl,racked_roll h ht (hok.2 accepted ha) hs⟩
  cases appendLocked_step call with
  | refused e _ => exact h.toRacked
  | known base _ => exact h.toRacked
  | rollFailed accepted s1 e ha roll => cases (hroll accepted ha _ _ roll).1
  | failed accepted s1 d e ha roll _ hd =>
    obtain ⟨_,h1,_,_,ht1⟩ := hroll accepted ha _ _ roll
    rcases hd with rfl|⟨_,buf,rfl⟩
    · exact h1
    · exact h1.write ht1 buf
  | stored accepted s1 d a ha roll _ write =>
    obtain ⟨_,h1,_,_,ht1⟩ := hroll accepted ha _ _ roll
    obtain ⟨hs,hu,_⟩ := hok.1 accepted ha
    rw [← (rollIfDue_ledger roll).highWater] at hu
    exact h1.stored ht1 c.cfg c.env accepted c.batch d a hs hu write

theorem racked_delete (h : Racked crc s) (env : IoEnv) (target : Int) :
    Racked crc (deleteRecords env target s).1 := by
  rcases deleteRecords_cases env target s with hr|⟨low,_,_,hr⟩
  · rw [hr]
    exact h
  · rw [hr]
    have hkept := (upperBounds_kept h.sorted low (keepAbove s low) rfl).1
    refine h.trimmed (fun n g hg => ?_) hkept (fun m hm => ?_) rfl rfl
    · simp only [Store.publish] at hg
      split_ifs at hg
      · exact ⟨g,removeSegments_sub _ _ n g hg,rfl⟩
      · exact ⟨g,hg,rfl⟩
    · obtain ⟨g,_,hg,_⟩ := h.listed m (hkept.subset hm)
      have hstays := (removeSegments_lookup (dropBelow s low) s.dir m.name
        (dropBelow_ne h.sorted h.parsed low m (List.mem_append_left _ hm))).1
      simp only [Store.publish]
      split_ifs
      · exact Dir.mem_of_lookup (hstays.trans hg)
      · exact Dir.mem_of_lookup hg

theorem racked_reopen (h : Shelved crc s) (hwhole : WholeLog s) {closing opening : IoEnv}
    {s' : Store} {d : Dir} {p : Partition} (hclose : closePartition closing s=(s',.ok ()))
    (hopen : openPartition crc opening s'.dir=(d,.ok p)) : Racked crc ⟨p,d⟩ := by
  obtain ⟨f,fs,ht⟩ := h.toAnchored.tracks
  obtain ⟨_,_,hhigh⟩ := diskSound_reopen h.disk h.opened hwhole hclose hopen
  obtain ⟨g,hg,hgdata,_,htail,had⟩ := reopen_adopts h.disk.node ht
    (hwhole.length ht.file) hclose hopen
  have hsame : s'.dir.SameData d := had.sameData hg htail
  have hboth := (closed_logs hclose).trans hsame
  have hsize : p.active.logSize=s.active.logSize := by
    rw [had.logSize,repairedFile_clean htail,hgdata]
    exact hwhole.length ht.file
  have htop' : s'.dir.Top s.active.info.name s.active.info.baseOffset :=
    ht.top.congr (closed_logs hclose).mem
  obtain ⟨rows,ends,hs,ha⟩ := h.rows
  refine ⟨had.opened,(anchored_reopen h.toAnchored hwhole hclose hopen).named,⟨rows,ends,?_,?_⟩,?_,?_⟩
  · exact hs.congr (fun n => (hboth.mem n).mp) (fun n k k' hk hk' => by rw [hboth.data_eq hk hk'])
  · refine ⟨?_,?_,fun n hn => ?_,fun n k hne hk => ?_⟩
    · change (rows p.active.info.name).flatten.length=p.active.logSize
      rw [had.named,hsize]
      exact ha.size
    · change ends p.active.info.name=p.highWater
      rw [had.named,hhigh]
      exact ha.last
    · change ends n≤p.highWater
      rw [hhigh]
      exact ha.under n ((hboth.mem n).mp hn)
    · change n≠p.active.info.name at hne
      rw [had.named] at hne
      obtain ⟨k0,hk0⟩ := Dir.lookup_of_mem ((hboth.mem n).mp (Dir.mem_of_lookup hk))
      rw [hboth.data_eq hk0 hk]
      exact ha.whole n k0 hne hk0
  · change (p.closed.map SegmentMeta.baseOffset++[p.active.info.baseOffset]).Pairwise (· < ·)
    obtain ⟨e,_,hlast⟩ := listSegments_getLast htop' hg
    have hne : listSegments s'.dir≠[] := fun hnil => by rw [hnil] at hlast; cases hlast
    rw [List.getLast?_eq_some_getLast hne] at hlast
    have hsorted := listSegments_sorted s'.dir
    rw [← List.dropLast_append_getLast hne,Option.some.inj hlast] at hsorted
    have hmap := hsorted.map SegmentMeta.baseOffset (fun a b hab => hab)
    rw [List.map_append] at hmap
    rw [had.closed,had.based]
    exact hmap
  · intro m hm
    change m∈p.closed at hm
    rw [had.closed] at hm
    obtain ⟨⟨k,hk⟩,_⟩ := (mem_listSegments s'.dir m).mp (List.dropLast_subset _ hm)
    obtain ⟨hmem,hparse,hmeta⟩ := present_parse hk
    obtain ⟨k',hk'⟩ := Dir.lookup_of_mem ((hsame.mem m.name).mpr hmem)
    refine ⟨k',m.epoch,hk',hparse,?_⟩
    rw [hsame.data_eq hk.1 hk',hmeta]

theorem shelved_step {op : PartitionOp} (h : Shelved crc s) (hok : LayoutOk crc s op)
    (hs : PartitionStep crc s op t) : Shelved crc t := by
  suffices hr : Racked crc t from ⟨anchored_step h.toAnchored hok.1 hs,hr.rows,hr.sorted,hr.listed⟩
  refine partitionStep_cases hs ?_ h.toRacked ?_ ?_ (racked_delete h.toRacked) ?_ ?_
  · rintro c r s1 rfl call
    exact racked_append h hok call
  · rintro env s1 seq cp rfl call
    obtain ⟨hinner,hlogs,_⟩ := commit_ends call
    exact h.toRacked.congr ((Dir.SameData.sync _ _).trans (.of_logs hlogs)) (by rw [hinner]) (by rw [hinner])
      (by rw [hinner])
  · rintro env epoch rfl
    exact racked_takeOver h hok
  · intro pid newEpoch
    exact h.toRacked.congr (.of_logs rfl) rfl rfl rfl
  · rintro closing opening s1 d p rfl hclose hopen
    exact racked_reopen h hok.1 hclose hopen

end Steps

/-- The segments divide the offsets up to the high watermark among them, and what is accounted to a
segment is a row of complete batches from its own share. -/
structure OffsetsDivided (crc : Crc32c) (s : Store) : Prop where
  sorted : (s.closed.map SegmentMeta.baseOffset).Pairwise (· < ·)
  below : ∀m∈s.closed,m.baseOffset<s.active.info.baseOffset
  active : s.active.info.baseOffset≤ s.highWater
  held : ∀p∈s.spans,∃bs : List Bytes,(s.dir.logData p.1.name).take p.1.size=bs.flatten ∧
    bs.flatten.length=p.1.size ∧
    ∀b∈bs,CompleteBatch crc b ∧ p.1.baseOffset≤baseOffset b ∧ lastOffset b<p.2

theorem Shelved.divided {crc : Crc32c} {s : Store} (h : Shelved crc s) : OffsetsDivided crc s := by
  obtain ⟨f,fs,ht⟩ := h.toAnchored.tracks
  obtain ⟨rows,ends,hs,ha⟩ := h.rows
  have hrow (m : SegmentMeta) (g : LogFile) (hi : Int) (hg : s.dir.logs.lookup m.name=some g)
      (hp : ∃e,m.name.parse=some (m.baseOffset,e)) (hsize : m.size=(rows m.name).flatten.length)
      (hle : ends m.name≤hi) :
      ∃bs : List Bytes,(s.dir.logData m.name).take m.size=bs.flatten ∧ bs.flatten.length=m.size ∧
        ∀b∈bs,CompleteBatch crc b ∧ m.baseOffset≤baseOffset b ∧ lastOffset b<hi := by
    obtain ⟨base,e,hparse,hr⟩ := hs.filled m.name g hg
    obtain ⟨e',hp⟩ := hp
    rw [hp] at hparse
    obtain ⟨rfl,_⟩ := Prod.mk.inj (Option.some.inj hparse)
    refine ⟨rows m.name,?_,hsize.symm,fun b hb => ?_⟩
    · rw [Dir.logData_of_lookup _ _ g hg,hsize]
      exact hr.held
    · have := hr.chained.bounds.2 b hb
      exact ⟨hr.complete b hb,this.1,by omega⟩
  refine ⟨(List.pairwise_append.mp h.sorted).1,h.below,ht.bases_le _ (Dir.mem_of_lookup ht.file) _ _ h.named,?_⟩
  intro p hp
  rcases List.mem_append.mp hp with hp|hp
  · have hm := (List.of_mem_zip hp).1
    obtain ⟨g,e,hg,hparse,hlen⟩ := h.listed p.1 hm
    obtain ⟨hlt,hup,_⟩ := upperBounds_mem h.sorted p hp
    refine hrow p.1 g p.2 hg ⟨e,hparse⟩ ?_ ?_
    · rw [← hlen]
      exact ha.whole _ g (h.closed_ne p.1 hm) hg
    · rcases hup with hup|⟨c,hc,hup⟩
      · exact hs.apart _ (Dir.mem_of_lookup hg) _ (Dir.mem_of_lookup ht.file) _ _ _ _ hparse
          (hup ▸ h.named) hlt
      · obtain ⟨k,e',hk,hpc,_⟩ := h.listed c hc
        exact hs.apart _ (Dir.mem_of_lookup hg) _ (Dir.mem_of_lookup hk) _ _ _ _ hparse (hup ▸ hpc) hlt
  · rw [List.mem_singleton.mp hp]
    exact hrow s.active.closedMeta f s.highWater ht.file ⟨_,h.named⟩ ha.size.symm (le_of_eq ha.last)

theorem firstStore_shelved (crc : Crc32c) : Shelved crc firstStore := by
  have hnone (n : SegmentName) (f : LogFile) : ({} : Dir).logs.lookup n≠some f := by
    rw [show ({} : Dir).logs.lookup n=none from AList.lookup_empty n]
    simp
  have hempty : Shelf crc {} (fun _ => []) (fun _ => 0) :=
    ⟨fun n f hf => absurd hf (hnone n f),fun n hn => absurd hn (AList.notMem_empty n)⟩
  have hshelf := hempty.created 0 0 (by decide) (fun n hn => absurd hn (AList.notMem_empty n))
    (fun n hn => absurd hn (AList.notMem_empty n))
  have hends (n : SegmentName) : Function.update (fun _ => (0 : Int)) (segmentName 0 0) 0 n=0 := by
    simp [Function.update_apply]
  have hrows (n : SegmentName) : Function.update (fun _ => ([] : List Bytes)) (segmentName 0 0) [] n=[] := by
    simp [Function.update_apply]
  refine ⟨firstStore_anchored crc,⟨_,_,hshelf.congr (fun n hn => hn) (fun n f f' hf hf' => ?_),?_⟩,by decide,?_⟩
  · rw [hrows]
    rfl
  · refine ⟨by rw [hrows]; rfl,by rw [hends]; rfl,fun n _ => by rw [hends]; exact le_refl _,fun n f hne hf => ?_⟩
    change (ActiveSegment.created {} (segmentName 0 0)).logs.lookup n=some f at hf
    change n≠segmentName 0 0 at hne
    rw [ActiveSegment.created_lookup,if_neg hne] at hf
    exact absurd hf (hnone n f)
  · intro m hm
    cases hm

/-- In every run whose segments are left whole they divide the offsets among them, and deleting
records leaves the readers everything above the new log start. -/
theorem segments_divide_offsets (crc : Crc32c) (s : Store)
    (run : Reaches (PartitionStep crc) (LayoutOk crc) firstStore s) :
    OffsetsDivided crc s ∧ ∀env target,DeletesBelow s (deleteRecords env target s).1 := by
  have h := run.invariant (firstStore_shelved crc) (fun _ _ _ h hok hs => shelved_step h hok hs)
  exact ⟨h.divided,fun env target => deleteRecords_below h.sorted h.toRacked.parsed env target⟩

instance (crc : Crc32c) (s : Store) : (op : PartitionOp) → Decidable (LayoutOk crc s op)
  | .append c => inferInstanceAs (Decidable (AnchorOk crc s (.append c) ∧
      ∀accepted,admission s.toPartitionInner c.epoch c.batch=.admitted accepted →
        rollDue c.cfg c.env s.active c.batch=true → WholeLog s))
  | .takeOver env epoch => inferInstanceAs (Decidable (AnchorOk crc s (.takeOver env epoch) ∧
      (s.epoch<(epoch.toNat : Int) → WholeLog s)))
  | .reopen closing opening => inferInstanceAs (Decidable (AnchorOk crc s (.reopen closing opening) ∧ True))
  | .commit _ | .deleteRecords _ _ | .retention _ _ _ _ | .fenceProducer _ _ => .isTrue ⟨trivial,trivial⟩

def appendPlain (n : Nat) (env : IoEnv) (epoch : UInt32) : PartitionOp :=
  .append ⟨{segmentBytes := n},env,epoch,plainBatch⟩

theorem rolled_segments_divide_offsets : ∃s,runChecked (Store.exec castagnoli) (LayoutOk castagnoli)
        [appendPlain 100 {} 0,appendPlain 100 {} 0,.takeOver {} 3,appendPlain 100 {} 3,
          .reopen {} {},.deleteRecords {} 1] firstStore=some s ∧
      s.closed.map SegmentMeta.baseOffset=[1] ∧ s.active.info.baseOffset=2 ∧ s.highWater=3 ∧
      OffsetsDivided castagnoli s ∧ DeletesBelow s (deleteRecords {} 2 s).1 := by
  refine runChecked_outcome
    (p := fun s => s.closed.map SegmentMeta.baseOffset=[1] ∧ s.active.info.baseOffset=2 ∧
    s.highWater=3) (fun _ _ _ h => h) (by decide +kernel) fun s hreach ⟨hclosed,hactive,hhigh⟩ => ?_
  obtain ⟨h1,h2⟩ := segments_divide_offsets castagnoli s hreach
  exact ⟨hclosed,hactive,hhigh,h1,h2 {} 2⟩

/-- A roll that fails leaves the placeholder as the active segment, with base 0: deleting the
records below offset 1 then unlinks the segment that holds the one at offset 1. -/
theorem failed_roll_loses_batch : WellFormed castagnoli plainBatch ∧
    ∃s,runAll (Store.exec castagnoli) [appendPlain 200 {} 0,appendPlain 200 {} 0,
        appendPlain 100 {} 0,appendPlain 100 {createLog := false} 0] firstStore=some s ∧
      ¬OffsetsDivided castagnoli s ∧
      readSnapshot s.dir s.snapshot 1 100=(rewriteBase plainBatch 1++rewriteBase plainBatch 2).take 100 ∧
      (deleteRecords {} 1 s).1.logStart=1 ∧
      readSnapshot (deleteRecords {} 1 s).1.dir (deleteRecords {} 1 s).1.snapshot 1 100=[] := by
  refine ⟨by decide +kernel,exists_outcome_of (p := fun s => (¬∀m∈s.closed,m.baseOffset<s.active.info.baseOffset) ∧
    readSnapshot s.dir s.snapshot 1 100=(rewriteBase plainBatch 1++rewriteBase plainBatch 2).take 100 ∧
    (deleteRecords {} 1 s).1.logStart=1 ∧
    readSnapshot (deleteRecords {} 1 s).1.dir (deleteRecords {} 1 s).1.snapshot 1 100=[])
    (by decide +kernel) fun s ⟨h1,h2⟩ => ?_⟩
  exact ⟨fun hd => h1 hd.below,h2⟩

end Kaas
