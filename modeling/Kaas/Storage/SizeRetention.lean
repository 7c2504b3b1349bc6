import Kaas.Storage.Layout

namespace Kaas

/-- The first `k` sizes do not exceed the surplus, and no longer run of them does so. -/
structure LongestWithin (sizes : List Nat) (surplus k : Nat) : Prop where
  bounded : k≤ sizes.length
  within : (sizes.take k).sum≤ surplus
  longest : ∀j≤ sizes.length,(sizes.take j).sum≤ surplus → j≤k

/-- No run shorter than `k` uses the surplus up. -/
abbrev Unspent (sizes : List Nat) (surplus k : Nat) : Prop := ∀i<k,(sizes.take i).sum< surplus

def Store.sizes (s : Store) : List Nat := s.closed.map SegmentMeta.size

def ReadSnapshot.totalSize (snap : ReadSnapshot) : Nat :=
  (snap.closed.map SegmentMeta.size).sum+snap.activeMeta.size

def ReadSnapshot.boundary (snap : ReadSnapshot) (k : Nat) : Int :=
  boundaryAt snap.closed snap.activeMeta.baseOffset k

/-- A partition a sweep finds: it has published what it holds, unless a failed roll has taken its
active segment, and the sizes add up within 64 bits. -/
structure Sweepable (s : Store) : Prop where
  published : s.snapshot={snapshotOf s.toPartitionInner with activeMeta := s.snapshot.activeMeta}
  sorted : (s.closed.map SegmentMeta.baseOffset++[s.snapshot.activeMeta.baseOffset]).Pairwise (· < ·)
  named : ∀m∈s.closed++[s.snapshot.activeMeta],∃e,m.name.parse=some (m.baseOffset,e)
  started : 0≤ s.logStart
  high : s.snapshot.activeMeta.baseOffset≤ s.highWater
  counted : s.snapshot.totalSize<2^64

/-- What a sweep that is to give up the first `k` closed segments has to leave. -/
structure SizeTrimmed (env : IoEnv) (bytes : Nat) (s s' : Store) (k : Nat) : Prop where
  closed : s'.closed=s.closed.drop k
  unlinked : env.remove=true → ∀c∈s.closed.take k,c.name∉s'.dir.logs
  active : s'.active=s.active ∧ s'.snapshot.activeMeta=s.snapshot.activeMeta
  activeLog : s'.dir.logData s.snapshot.activeMeta.name=s.dir.logData s.snapshot.activeMeta.name
  reads : ∀start maxBytes,readSnapshot s'.dir s'.snapshot start maxBytes=
    readSnapshot s.dir s.snapshot (max start s'.logStart) maxBytes
  settled : ∀env' now' mtime',enforceRetention env' {retentionBytes := some bytes} now' mtime' s'=s'

variable {sizes : List Nat} {k surplus : Nat}

theorem longestWithin_zero {size : Nat} (h : surplus< size) :
    LongestWithin (size::sizes) surplus 0 := by
  refine ⟨by omega,by simp,fun j _ hj => ?_⟩
  cases j with
  | zero => omega
  | succ j =>
    rw [List.take_succ_cons,List.sum_cons] at hj
    omega

theorem longestWithin_succ {size : Nat} (hle : size≤ surplus)
    (h : LongestWithin sizes (surplus-size) k) : LongestWithin (size::sizes) surplus (k+1) := by
  have hw := h.within
  refine ⟨by simpa using h.bounded,by rw [List.take_succ_cons,List.sum_cons]; omega,fun j hj hs => ?_⟩
  cases j with
  | zero => omega
  | succ j =>
    rw [List.take_succ_cons,List.sum_cons] at hs
    have := h.longest j (by simpa using hj) (by omega)
    omega

theorem exists_longestWithin (sizes : List Nat) (surplus : Nat) : ∃k,LongestWithin sizes surplus k := by
  induction sizes generalizing surplus with
  | nil => exact ⟨0,le_refl 0,by simp,fun j hj _ => by simpa using hj⟩
  | cons size sizes ih =>
    by_cases h : surplus< size
    · exact ⟨0,longestWithin_zero h⟩
    · obtain ⟨k,hk⟩ := ih (surplus-size)
      exact ⟨k+1,longestWithin_succ (by omega) hk⟩

theorem unspent_succ {size : Nat} :
    Unspent (size::sizes) surplus (k+1) ↔ 0< surplus ∧ Unspent sizes (surplus-size) k := by
  rw [Unspent,Nat.forall_lt_succ_left]
  simp only [List.take_zero,List.sum_nil,List.take_succ_cons,List.sum_cons]
  exact and_congr_right fun _ => forall₂_congr fun i _ => by omega

theorem unspent_none : Unspent sizes 0 k ↔ k=0 := by
  refine ⟨fun h => ?_,fun h i hi => by omega⟩
  by_contra hne
  exact absurd (h 0 (by omega)) (by simp)

theorem LongestWithin.rest {j : Nat} (h : LongestWithin sizes surplus k)
    (hj : LongestWithin (sizes.drop k) (surplus-(sizes.take k).sum) j) : j=0 := by
  have hw := h.within
  have hb := h.bounded
  have hjb := hj.bounded
  have hjw := hj.within
  rw [List.length_drop] at hjb
  have hsum : (sizes.take (k+j)).sum=(sizes.take k).sum+((sizes.drop k).take j).sum := by
    rw [List.take_add,List.sum_append]
  have := h.longest (k+j) (by omega) (by omega)
  omega

/-- The walk stops at the first run that uses the surplus up, which is the longest one within it
unless empty segments follow. -/
theorem sizeWalk_longest (activeBase : Int) (closed : List SegmentMeta) (hpos : 0< surplus) :
    ∃k j,LongestWithin (closed.map SegmentMeta.size) surplus k ∧ j≤k ∧
      (j=k ↔ Unspent (closed.map SegmentMeta.size) surplus k) ∧
      sizeWalk activeBase (closed.zip (upperBounds closed activeBase)) surplus=boundaryAt closed
        activeBase j := by
  induction closed generalizing surplus with
  | nil =>
    exact ⟨0,0,⟨by simp,by simp,fun j hj _ => by simpa using hj⟩,le_refl 0,by simp [Unspent],by simp [sizeWalk]⟩
  | cons c closed ih =>
    rw [zip_upperBounds,List.map_cons,sizeWalk]
    by_cases hover : surplus<c.size
    · rw [if_pos hover]
      exact ⟨0,0,longestWithin_zero hover,le_refl 0,by simp [Unspent],rfl⟩
    · rw [if_neg hover]
      by_cases hz : surplus-c.size=0
      · obtain ⟨m,hm⟩ := exists_longestWithin (closed.map SegmentMeta.size) (surplus-c.size)
        rw [if_pos hz]
        refine ⟨m+1,1,longestWithin_succ (by omega) hm,by omega,?_,rfl⟩
        rw [unspent_succ,hz,unspent_none]
        omega
      · obtain ⟨k,j,hk,hj,hiff,he⟩ := ih (Nat.pos_of_ne_zero hz)
        rw [if_neg hz,he]
        refine ⟨k+1,j+1,longestWithin_succ (by omega) hk,by omega,?_,rfl⟩
        rw [Nat.add_right_cancel_iff,hiff,unspent_succ,and_iff_right hpos]

section Sweep

variable {s : Store}

theorem totalSize_eq (h : s.snapshot.closed=s.closed) :
    s.snapshot.totalSize=s.sizes.sum+s.snapshot.activeMeta.size := by
  unfold ReadSnapshot.totalSize Store.sizes
  rw [h]

theorem sizeSweep_cases (hclosed : s.snapshot.closed=s.closed) (hlog : s.snapshot.logStart=s.logStart)
    (hcount : s.snapshot.totalSize<2^64) (bytes : Nat) :
    ∃k j,LongestWithin s.sizes (s.snapshot.totalSize-bytes) k ∧ j≤k ∧
      (j=k ↔ Unspent s.sizes (s.snapshot.totalSize-bytes) k) ∧
      ∀env now mtime,enforceRetention env {retentionBytes := some bytes} now mtime s=
        if s.snapshot.totalSize≤bytes ∨ s.snapshot.boundary j≤ s.logStart then s
        else (deleteRecords env (s.snapshot.boundary j) s).1 := by
  have htotal : min (2^64-1) ((s.snapshot.closed.map SegmentMeta.size).sum%2^64+s.snapshot.activeMeta.size)=
      s.snapshot.totalSize := by
    unfold ReadSnapshot.totalSize at hcount ⊢
    rw [Nat.mod_eq_of_lt (by omega)]
    omega
  have hsize : cleanupTargetForSizeBytes s.snapshot bytes=if s.snapshot.totalSize≤bytes then none else
      some (sizeWalk s.snapshot.activeMeta.baseOffset
        (s.closed.zip (upperBounds s.closed s.snapshot.activeMeta.baseOffset)) (s.snapshot.totalSize-bytes)) := by
    unfold cleanupTargetForSizeBytes
    dsimp only
    rw [htotal,hclosed]
  unfold enforceRetention
  simp only [Option.bind_some,Option.bind_none,hsize,hlog]
  by_cases hle : s.snapshot.totalSize≤bytes
  · -- without a surplus only empty segments fit it
    obtain ⟨k,hk⟩ := exists_longestWithin s.sizes (s.snapshot.totalSize-bytes)
    refine ⟨k,0,hk,Nat.zero_le k,?_,fun env now mtime => ?_⟩
    · rw [Nat.sub_eq_zero_of_le hle,unspent_none]
      exact eq_comm
    · rw [if_pos hle,if_pos (Or.inl hle)]
      rfl
  · obtain ⟨k,j,hk,hj,hiff,hwalk⟩ := sizeWalk_longest s.snapshot.activeMeta.baseOffset s.closed
      (Nat.sub_pos_of_lt (not_le.mp hle))
    refine ⟨k,j,hk,hj,hiff,fun env now mtime => ?_⟩
    rw [if_neg hle,hwalk,ReadSnapshot.boundary,hclosed]
    change (if _ then _ else _)=_
    simp only [hle,false_or]

namespace Sweepable

theorem closed (h : Sweepable s) : s.snapshot.closed=s.closed := by rw [h.published]; rfl

theorem logStart (h : Sweepable s) : s.snapshot.logStart=s.logStart := by rw [h.published]; rfl

theorem ordered (h : Sweepable s) (hown : s.snapshot.activeMeta=s.active.info) : s.Ordered :=
  ⟨hown ▸ h.sorted,hown ▸ h.named,h.started,hown ▸ h.high⟩

theorem own (h : Sweepable s) (hown : s.snapshot.activeMeta=s.active.info) :
    s.snapshot=snapshotOf s.toPartitionInner := by
  rw [h.published,hown]
  rfl

/-- What is deleted is published with the active segment the partition has. -/
theorem republished (h : Sweepable s) (env : IoEnv) (hlt : s.logStart<s.snapshot.boundary k) :
    (deleteRecords env (s.snapshot.boundary k) s).1.snapshot.activeMeta=s.active.info := by
  have hbound : s.snapshot.boundary k≤ s.snapshot.activeMeta.baseOffset :=
    (boundaryAt_last (h.closed ▸ h.sorted) k).2
  have hstart := h.started
  have hhigh := h.high
  unfold deleteRecords deleteTarget
  rw [if_neg (by omega),if_neg (by omega)]
  dsimp only
  rw [if_pos hlt]
  rfl

end Sweepable

theorem removeSegments_gone {ps : List (SegmentMeta × Int)} (d : Dir) {p : SegmentMeta × Int}
    (hp : p∈ps) : p.1.name∉(ps.foldl (fun d p => d.removeSegment p.1.name) d).logs := by
  induction ps generalizing d with
  | nil => cases hp
  | cons q ps ih =>
    rcases List.mem_cons.mp hp with rfl|hp
    · intro hm
      obtain ⟨f,hf⟩ := Dir.lookup_of_mem hm
      have hd := removeSegments_sub ps (d.removeSegment p.1.name) p.1.name f hf
      exact (AList.mem_erase.mp (Dir.mem_of_lookup hd)).1 rfl
    · exact ih _ hp

theorem deleteRecords_unlinks (h : s.Ordered) (env : IoEnv) (hr : env.remove=true) (k : Nat)
    (hlt : s.logStart<boundaryAt s.closed s.active.info.baseOffset k) (c : SegmentMeta)
    (hc : c∈s.closed.take k) :
    c.name∉(deleteRecords env (boundaryAt s.closed s.active.info.baseOffset k) s).1.dir.logs := by
  have htake : ((s.closed.zip (upperBounds s.closed s.active.info.baseOffset)).take k).map Prod.fst=
      s.closed.take k := by rw [List.map_take,map_fst_upperBounds]
  rw [← htake] at hc
  obtain ⟨p,hp,rfl⟩ := List.mem_map.mp hc
  rw [deleteRecords_boundary h env hlt]
  simp only [Store.publish,hr,if_true]
  exact removeSegments_gone s.dir hp

theorem deleteRecords_activeLog (h : s.Ordered) (env : IoEnv) (target : Int) :
    (deleteRecords env target s).1.dir.logData s.active.info.name=s.dir.logData s.active.info.name := by
  rcases deleteRecords_cases env target s with hsame|⟨low,_,_,hd⟩
  · rw [hsame]
  · have hkept := (removeSegments_kept h.sorted h.named env.remove low s.active.info (by simp)).1
    rw [hd]
    simp only [Store.publish,Dir.logData,hkept]

theorem readSnapshot_clamp (d : Dir) (snap : ReadSnapshot) (start : Int) (maxBytes : Nat) :
    readSnapshot d snap (max start snap.logStart) maxBytes=readSnapshot d snap start maxBytes := by
  have hclamp : max (max start snap.logStart) snap.logStart=max start snap.logStart := by omega
  unfold readSnapshot
  rw [hclamp]

theorem GivesUp.settled (h : Sweepable s) (hown : s.snapshot.activeMeta=s.active.info) {s' : Store}
    {bytes : Nat} (hg : GivesUp s s' k)
    (hk : LongestWithin s.sizes (s.snapshot.totalSize-bytes) k)
    (env : IoEnv) (now : Int)
    (mtime : SegmentName → Option Int) :
      enforceRetention env {retentionBytes := some bytes} now mtime s'=s' := by
  have hw := hk.within
  have hsplit : s.sizes.sum=(s.sizes.take k).sum+(s.sizes.drop k).sum := by
    rw [← List.sum_append,List.take_append_drop]
  have hsizes : s'.sizes=s.sizes.drop k := by
    unfold Store.sizes
    rw [hg.closed,List.map_drop]
  have hpub : s'.snapshot.closed=s'.closed ∧ s'.snapshot.logStart=s'.logStart ∧
    s'.snapshot.activeMeta=s'.active.info := by
    rw [hg.published]
    exact ⟨rfl,rfl,rfl⟩
  have htotal : s.snapshot.totalSize=(s.sizes.take k).sum+s'.snapshot.totalSize := by
    rw [totalSize_eq h.closed,totalSize_eq hpub.1,hsizes,hpub.2.2,hg.active,hown,hsplit]
    omega
  have hcount := h.counted
  obtain ⟨m,j,hm,hj,_,hsweep⟩ := sizeSweep_cases hpub.1 hpub.2.1 (by omega) bytes
  have hrest : s'.snapshot.totalSize-bytes=
      s.snapshot.totalSize-bytes-(s.sizes.take k).sum := by omega
  rw [hsizes,hrest] at hm
  have hzero : j=0 := by
    have := hk.rest hm
    omega
  have hbound : s'.snapshot.boundary j= s'.logStart := by
    unfold ReadSnapshot.boundary
    rw [hpub.1,hpub.2.2,hzero,hg.logStart,hg.closed,hg.active]
    simp [boundaryAt]
  rw [hsweep,if_pos (Or.inr (le_of_eq hbound))]

theorem Sweepable.trimmed (h : Sweepable s) (hown : s.snapshot.activeMeta=s.active.info) {bytes : Nat}
    (hk : LongestWithin s.sizes (s.snapshot.totalSize-bytes) k) (env : IoEnv)
    (hlt : s.logStart<boundaryAt s.closed s.active.info.baseOffset k) :
    SizeTrimmed env bytes s (deleteRecords env (boundaryAt s.closed s.active.info.baseOffset k) s).1 k := by
  have hord := h.ordered hown
  have hg := deleteRecords_givesUp hord env hlt
  refine ⟨hg.closed,fun hr => deleteRecords_unlinks hord env hr k hlt,⟨hg.active,?_⟩,?_,
    fun start maxBytes => ?_,hg.settled h hown hk⟩
  · rw [hg.published,hown]
    exact congrArg ActiveSegment.info hg.active
  · rw [hown]
    exact deleteRecords_activeLog hord env _
  · rw [hg.published,h.own hown]
    exact deleteRecords_reads hord.sorted hord.named env _ start maxBytes

end Sweep

/-- With `k` the length of the longest run of closed segments within the surplus, a sweep does what
it has to exactly where it has nothing to give up, or where no shorter run uses the surplus up, those
segments end above the log start, and the partition still holds the active segment it has published. -/
theorem size_retention_exact (s : Store) (h : Sweepable s) (bytes : Nat) (env : IoEnv) (now : Int)
    (mtime : SegmentName → Option Int) :
    ∃k,LongestWithin s.sizes (s.snapshot.totalSize-bytes) k ∧
      (SizeTrimmed env bytes s (enforceRetention env {retentionBytes := some bytes} now mtime s) k ↔
        k=0 ∧ (s.snapshot.totalSize≤bytes ∨ s.snapshot.boundary 0≤ s.logStart) ∨
        Unspent s.sizes (s.snapshot.totalSize-bytes) k ∧ s.logStart< s.snapshot.boundary k ∧
          s.snapshot.activeMeta=s.active.info) := by
  obtain ⟨k,j,hk,hjk,hiff,hsweep⟩ := sizeSweep_cases h.closed h.logStart h.counted bytes
  have hkb : k≤ s.closed.length := by simpa [Store.sizes] using hk.bounded
  -- a sweep that finds no target above the log start leaves the partition as it is
  have hidle (hzero : k=0) (hc : s.snapshot.totalSize≤bytes ∨ s.snapshot.boundary j≤ s.logStart) :
      SizeTrimmed env bytes s s k := by
    have hclamp (start : Int) (maxBytes : Nat) := readSnapshot_clamp s.dir s.snapshot start maxBytes
    rw [h.logStart] at hclamp
    refine ⟨by rw [hzero]; rfl,fun _ c hcm => ?_,⟨rfl,rfl⟩,rfl,
      fun start maxBytes => (hclamp start maxBytes).symm,fun env' now' mtime' => by rw [hsweep,if_pos hc]⟩
    rw [hzero] at hcm
    cases hcm
  refine ⟨k,hk,?_⟩
  rw [hsweep,← hiff]
  by_cases hc : s.snapshot.totalSize≤bytes ∨ s.snapshot.boundary j≤ s.logStart
  · rw [if_pos hc]
    refine ⟨fun ht => Or.inl ?_,fun hcond => hidle ?_ hc⟩
    · have hlen := congrArg List.length ht.closed
      rw [List.length_drop] at hlen
      have hzero : k=0 := by omega
      have hstop : j=0 := by omega
      exact ⟨hzero,hstop ▸ hc⟩
    · rcases hcond with ⟨hzero,_⟩|⟨rfl,hlt,_⟩
      · exact hzero
      · have hle := hc.resolve_right (not_le.mpr hlt)
        by_contra hne
        have := hiff.mp rfl 0 (by omega)
        omega
  · rw [if_neg hc]
    have hlt := not_le.mp (not_or.mp hc).2
    have hat (hown : s.snapshot.activeMeta=s.active.info) :
        s.snapshot.boundary j=boundaryAt s.closed s.active.info.baseOffset j := by
      unfold ReadSnapshot.boundary
      rw [h.closed,hown]
    refine ⟨fun ht => Or.inr ?_,fun hcond => ?_⟩
    · have hown : s.snapshot.activeMeta=s.active.info :=
        ht.active.2.symm.trans (h.republished env hlt)
      have hstop : j=k := by
        have hg := deleteRecords_givesUp (h.ordered hown) env (hat hown ▸ hlt)
        rw [← hat hown] at hg
        have hlen := congrArg List.length (hg.closed.symm.trans ht.closed)
        rw [List.length_drop,List.length_drop] at hlen
        omega
      exact ⟨hstop,hstop ▸ hlt,hown⟩
    · obtain ⟨rfl,_,hown⟩ := hcond.resolve_left (by
        rintro ⟨hzero,hnone⟩
        have hstop : j=0 := by omega
        exact hc (hstop ▸ hnone))
      rw [hat hown] at hlt ⊢
      exact h.trimmed hown hk env hlt

def threeSegments : List PartitionOp := [appendPlain 61 {} 0,appendPlain 61 {} 0,appendPlain 61 {} 0]

/-- Three segments, the first of which lies below the log start since it could not be unlinked: two
are given up. -/
theorem size_retention_three : ∃s,runChecked (Store.exec castagnoli) (LayoutOk castagnoli)
        (threeSegments++[.deleteRecords {remove := false} 1,.reopen {} {}]) firstStore=some s ∧ Sweepable s ∧
      s.closed.map SegmentMeta.baseOffset=[0,1] ∧ s.logStart=1 ∧
      SizeTrimmed {} 61 s (enforceRetention {} {retentionBytes := some 61} 0 (fun _ => none) s) 2 := by
  refine runChecked_outcome
    (p := fun s => s.closed.map SegmentMeta.baseOffset=[0,1] ∧ s.active.info.baseOffset=2 ∧
    s.highWater=3 ∧ s.snapshot=snapshotOf s.toPartitionInner ∧ s.sizes=[61,61] ∧
    s.active.info.size=61 ∧ s.logStart=1) (fun _ _ _ h => h)
    (by decide +kernel) fun s hreaches ⟨hbases,hactive,hhigh,hpub,hsizes,hsize,hstart⟩ => ?_
  have hshelf := hreaches.invariant (firstStore_shelved castagnoli)
    (fun _ _ _ h hok hs => shelved_step h hok hs)
  have hown : s.snapshot.activeMeta=s.active.info := by rw [hpub]; rfl
  have hclosed : s.snapshot.closed=s.closed := by rw [hpub]; rfl
  have htotal : s.snapshot.totalSize=183 := by
    rw [totalSize_eq hclosed,hown,hsizes,hsize]
    rfl
  have hsw : Sweepable s :=
    ⟨by rw [hown]; exact hpub,hown ▸ hshelf.sorted,hown ▸ hshelf.toRacked.parsed,by omega,
    by rw [hown]; omega,by omega⟩
  obtain ⟨k,hk,htrimmed⟩ := size_retention_exact s hsw 61 {} 0 (fun _ => none)
  have htwo : k=2 := by
    rw [hsizes,htotal] at hk
    exact le_antisymm hk.bounded (hk.longest 2 (by decide) (by decide))
  have hlen : s.closed.length=2 := by rw [← List.length_map (f := SegmentMeta.baseOffset),hbases]; rfl
  have hbound : s.snapshot.boundary 2=2 := by
    unfold ReadSnapshot.boundary boundaryAt
    rw [hclosed,List.drop_of_length_le hlen.le,hown]
    exact hactive
  subst htwo
  refine ⟨hsw,hbases,hstart,htrimmed.mpr (Or.inr ⟨?_,by omega,hown⟩)⟩
  rw [hsizes,htotal]
  decide

/-- After a failed roll a sweep that has to give up the first of two closed segments unlinks both.
After a failed unlink and a restart it gives up nothing, although the first fits the surplus. -/
theorem size_retention_diverges : WellFormed castagnoli plainBatch ∧
    (∃s,runAll (Store.exec castagnoli) (threeSegments++[appendPlain 61 {createLog := false} 0])
      firstStore=some s ∧
      s.snapshot.closed=s.closed ∧ s.closed.map SegmentMeta.size=[61,61] ∧ s.snapshot.activeMeta.size=61 ∧
      readSnapshot s.dir s.snapshot 1 61=rewriteBase plainBatch 1 ∧
      (enforceRetention {} {retentionBytes := some 122} 0 (fun _ => none) s).closed=[] ∧
      (enforceRetention {} {retentionBytes := some 122} 0 (fun _ => none) s).logStart=1 ∧
      readSnapshot (enforceRetention {} {retentionBytes := some 122} 0 (fun _ => none) s).dir
        (enforceRetention {} {retentionBytes := some 122} 0 (fun _ => none) s).snapshot 1 61=[]) ∧
    (∃s,runAll (Store.exec castagnoli) [appendPlain 61 {} 0,appendPlain 61 {} 0,
        .deleteRecords {remove := false} 1,.reopen {} {}] firstStore=some s ∧
      s.closed.map SegmentMeta.size=[61] ∧ s.active.info.size=61 ∧
      enforceRetention {} {retentionBytes := some 61} 0 (fun _ => none) s=s) := by
  have hstale : ∃s∈runAll (Store.exec castagnoli) [appendPlain 61 {} 0,appendPlain 61 {} 0,
      .deleteRecords {remove := false} 1,.reopen {} {}] firstStore,
      s.closed.map SegmentMeta.size=[61] ∧ s.active.info.size=61 ∧
        cleanupTargetForSizeBytes s.snapshot 61=some 1 ∧ s.snapshot.logStart=1 := by
    decide +kernel
  obtain ⟨u,hu,h1,h2,h3,h4⟩ := hstale
  -- the sweep of a store is compared with the store itself, which has no decidable equality
  refine ⟨by decide +kernel,exists_outcome (by decide +kernel),u,hu,h1,h2,?_⟩
  unfold enforceRetention
  simp only [Option.bind_some,Option.bind_none,h3]
  exact if_pos (le_of_eq h4.symm)

end Kaas
