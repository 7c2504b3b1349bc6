import Kaas.Storage.ReadSpec

namespace Kaas

/-- A segment's largest timestamp: the one it was closed with, else the time its file was
changed. -/
def largestTimestamp (mtime : SegmentName → Option Int) (m : SegmentMeta) : Option Int :=
  if 0≤ m.maxTimestamp then some m.maxTimestamp else mtime m.name

/-- The walk of `cleanup_target_for_time`, oldest segment first, up to one that is not old
enough. -/
def timeWalk (mtime : SegmentName → Option Int) (cutoff : Int) :
    List (SegmentMeta × Int) → Option Int → Option Int
  | [],target => target
  | (m,upper)::rest,target => match largestTimestamp mtime m with
    | none => target
    | some largest => if cutoff≤largest then target else timeWalk mtime cutoff rest (some upper)

def cleanupTargetForTime (snap : ReadSnapshot) (mtime : SegmentName → Option Int) (cutoff : Int) :
    Option Int :=
  timeWalk mtime cutoff (snap.closed.zip (upperBounds snap.closed snap.activeMeta.baseOffset)) none

/-- The walk of `cleanup_target_for_size_bytes`: segments are given up while they fit the
surplus. -/
def sizeWalk (activeBase : Int) : List (SegmentMeta × Int) → Nat → Int
  | [],_ => activeBase
  | (m,upper)::rest,surplus =>
    if surplus< m.size then m.baseOffset
    else if surplus-m.size=0 then upper
    else sizeWalk activeBase rest (surplus-m.size)

def cleanupTargetForSizeBytes (snap : ReadSnapshot) (retentionBytes : Nat) : Option Int :=
  let total := min (2^64-1) ((snap.closed.map SegmentMeta.size).sum%2^64+snap.activeMeta.size)
  if total≤ retentionBytes then none
  else some (sizeWalk snap.activeMeta.baseOffset
    (snap.closed.zip (upperBounds snap.closed snap.activeMeta.baseOffset)) (total-retentionBytes))

structure RetentionPolicy where
  retentionBytes : Option Nat := none
  retentionMs : Option Nat := none
  deriving DecidableEq, Repr

def retentionCutoff (now : Int) (ms : Nat) : Int := max (-2^63) (now-min (ms : Int) (2^63-1))

/-- What a sweep of the cleaner does to one partition: of the two targets the higher one counts. -/
def enforceRetention (env : IoEnv) (policy : RetentionPolicy) (now : Int)
    (mtime : SegmentName → Option Int) (s : Store) : Store :=
  match max (policy.retentionBytes.bind (cleanupTargetForSizeBytes s.snapshot))
      (policy.retentionMs.bind (fun ms => cleanupTargetForTime s.snapshot mtime (retentionCutoff now ms))) with
  | none => s
  | some target => if target≤ s.snapshot.logStart then s else (deleteRecords env target s).1

theorem enforceRetention_cases (env : IoEnv) (policy : RetentionPolicy) (now : Int)
    (mtime : SegmentName → Option Int) (s : Store) :
    enforceRetention env policy now mtime s=s ∨
    ∃target,enforceRetention env policy now mtime s=(deleteRecords env target s).1 := by
  unfold enforceRetention
  split
  · exact Or.inl rfl
  · rename_i target _
    split_ifs
    · exact Or.inl rfl
    · exact Or.inr ⟨target,rfl⟩

theorem deleteTarget_le {g : PartitionInner} {target low : Int}
    (h : deleteTarget g target=.ok low) : low≤ g.highWater := by
  unfold deleteTarget at h
  split_ifs at h
  · cases h
    exact le_refl _
  · cases h
    omega

theorem deleteRecords_cases (env : IoEnv) (target : Int) (s : Store) :
    (deleteRecords env target s).1=s ∨ ∃start,deleteTarget s.toPartitionInner target=.ok start ∧
      s.logStart< start ∧ (deleteRecords env target s).1={s with
        logStart := start
        closed := (keepAbove s start).map Prod.fst
        abortedTxns := s.abortedTxns.evictBelow start
        dir := if env.remove then (dropBelow s start).foldl (fun d p => d.removeSegment p.1.name)
          s.dir else s.dir : Store}.publish := by
  unfold deleteRecords
  cases ht : deleteTarget s.toPartitionInner target with
  | error e => exact Or.inl rfl
  | ok start =>
    dsimp only
    by_cases hlt : s.logStart< start
    · rw [if_pos hlt]
      exact Or.inr ⟨start,rfl,hlt,rfl⟩
    · rw [if_neg hlt]
      exact Or.inl rfl

theorem removeSegments_lookup (ps : List (SegmentMeta × Int)) (d : Dir) (n : SegmentName)
    (h : ∀p∈ps,p.1.name≠n) :
    (ps.foldl (fun d p => d.removeSegment p.1.name) d).logs.lookup n=d.logs.lookup n ∧
    (ps.foldl (fun d p => d.removeSegment p.1.name) d).indexes.lookup n=d.indexes.lookup n := by
  induction ps generalizing d with
  | nil => exact ⟨rfl,rfl⟩
  | cons p ps ih =>
    have hp := Ne.symm (h p (List.mem_cons_self ..))
    obtain ⟨h1,h2⟩ := ih (d.removeSegment p.1.name) (fun q hq => h q (List.mem_cons_of_mem _ hq))
    exact ⟨h1.trans (AList.lookup_erase_ne hp),h2.trans (AList.lookup_erase_ne hp)⟩

theorem removeSegments_sub (ps : List (SegmentMeta × Int)) (d : Dir) (n : SegmentName) (f : LogFile)
    (h : (ps.foldl (fun d p => d.removeSegment p.1.name) d).logs.lookup n=some f) :
    d.logs.lookup n=some f := by
  induction ps generalizing d with
  | nil => exact h
  | cons p ps ih =>
    have hd := ih _ h
    have hne : n≠p.1.name := (AList.mem_erase.mp (Dir.mem_of_lookup hd)).1
    exact (AList.lookup_erase_ne hne).symm.trans hd

theorem map_fst_upperBounds (closed : List SegmentMeta) (activeBase : Int) :
    (closed.zip (upperBounds closed activeBase)).map Prod.fst=closed :=
  List.map_fst_zip (by simp [upperBounds]; omega)

section Bounds

variable {closed : List SegmentMeta} {activeBase : Int}

theorem upperBounds_mem (hsorted : (closed.map SegmentMeta.baseOffset++[activeBase]).Pairwise (· < ·)) :
    ∀p∈closed.zip (upperBounds closed activeBase),p.1.baseOffset<p.2 ∧
      (p.2=activeBase ∨ ∃m∈closed,m.baseOffset=p.2) ∧
      (closed.head?.map SegmentMeta.baseOffset).getD activeBase<p.2 := by
  induction closed with
  | nil => simp
  | cons c closed ih =>
    rw [List.map_cons,List.cons_append,List.pairwise_cons] at hsorted
    obtain ⟨hc,hrest⟩ := hsorted
    have hnext : c.baseOffset<(closed.head?.map SegmentMeta.baseOffset).getD activeBase := by
      cases closed with
      | nil | cons x closed => exact hc _ (by simp)
    intro p hp
    rw [zip_upperBounds] at hp
    rcases List.mem_cons.mp hp with rfl|hp
    · refine ⟨hnext,?_,hnext⟩
      cases closed with
      | nil => exact Or.inl rfl
      | cons x closed => exact Or.inr ⟨x,by simp,rfl⟩
    · obtain ⟨h1,h2,h3⟩ := ih hrest p hp
      refine ⟨h1,?_,hnext.trans h3⟩
      rcases h2 with h2|⟨m,hm,h2⟩
      · exact Or.inl h2
      · exact Or.inr ⟨m,List.mem_cons_of_mem _ hm,h2⟩

theorem upperBounds_least (hsorted : (closed.map SegmentMeta.baseOffset++[activeBase]).Pairwise (· < ·)) :
    ∀p∈closed.zip (upperBounds closed activeBase),p.2≤activeBase ∧
      ∀m∈closed,p.1.baseOffset< m.baseOffset → p.2≤ m.baseOffset := by
  induction closed with
  | nil => simp
  | cons c closed ih =>
    rw [List.map_cons,List.cons_append,List.pairwise_cons] at hsorted
    obtain ⟨hc,hrest⟩ := hsorted
    have hfirst : ∀b∈closed.map SegmentMeta.baseOffset++[activeBase],
        (closed.head?.map SegmentMeta.baseOffset).getD activeBase≤b := by
      cases closed with
      | nil => simp
      | cons x closed =>
        intro b hb
        rcases List.mem_cons.mp hb with rfl|hb
        · exact le_refl _
        · exact le_of_lt ((List.pairwise_cons.mp hrest).1 b hb)
    intro p hp
    rw [zip_upperBounds] at hp
    rcases List.mem_cons.mp hp with rfl|hrow
    · refine ⟨hfirst _ (by simp),fun m hm hlt => ?_⟩
      rcases List.mem_cons.mp hm with rfl|hm
      · exact absurd hlt (lt_irrefl _)
      · exact hfirst _ (List.mem_append_left _ (List.mem_map_of_mem hm))
    · obtain ⟨h1,h2⟩ := ih hrest p hrow
      refine ⟨h1,fun m hm hlt => ?_⟩
      rcases List.mem_cons.mp hm with rfl|hm
      · have := hc _ (List.mem_append_left _ (List.mem_map_of_mem (List.of_mem_zip hrow).1))
        omega
      · exact h2 m hm hlt

theorem upperBounds_kept (hsorted : (closed.map SegmentMeta.baseOffset++[activeBase]).Pairwise (· < ·))
    (start : Int) (kept : List (SegmentMeta × Int))
    (hkept : kept=(closed.zip (upperBounds closed activeBase)).filter (fun p => !decide (p.2≤ start))) :
    kept.map Prod.fst <:+ closed ∧
    (kept.map Prod.fst).zip (upperBounds (kept.map Prod.fst) activeBase)=kept := by
  induction closed with
  | nil =>
    rw [hkept]
    exact ⟨List.suffix_refl _,rfl⟩
  | cons c closed ih =>
    have hrest := (List.pairwise_cons.mp hsorted).2
    rw [zip_upperBounds] at hkept
    by_cases hle : (closed.head?.map SegmentMeta.baseOffset).getD activeBase≤ start
    · rw [List.filter_cons_of_neg (by simpa using hle)] at hkept
      obtain ⟨h1,h2⟩ := ih hrest hkept
      exact ⟨h1.trans (List.suffix_cons _ _),h2⟩
    · have hall : (closed.zip (upperBounds closed activeBase)).filter
          (fun p => !decide (p.2≤ start))= closed.zip (upperBounds closed activeBase) := by
        refine List.filter_eq_self.mpr (fun p hp => ?_)
        have := (upperBounds_mem hrest p hp).2.2
        simp only [Bool.not_eq_true',decide_eq_false_iff_not]
        omega
      rw [List.filter_cons_of_pos (by simpa using hle),hall] at hkept
      have hfst : kept.map Prod.fst=c::closed := by
        rw [hkept,List.map_cons,map_fst_upperBounds]
      rw [hfst,zip_upperBounds,hkept]
      exact ⟨List.suffix_refl _,rfl⟩

end Bounds

theorem readClosed_full (d : Dir) (start : Int) {maxBytes : Nat} (l : List (SegmentMeta × Int))
    {out : Bytes} (h : maxBytes≤out.length) : readClosed d start maxBytes l out=out := by
  cases l with
  | nil => rfl
  | cons p l => simp only [readClosed,if_pos h]

theorem readClosed_kept (d d' : Dir) (low start : Int) (maxBytes : Nat)
    (l : List (SegmentMeta × Int)) (out : Bytes)
    (hle : low≤ start)
    (hsame : ∀p∈l,low<p.2 → ∀k,readSegment d' p.1 start k=readSegment d p.1 start k) :
    readClosed d' start maxBytes (l.filter (fun p => !decide (p.2≤low))) out=
      readClosed d start maxBytes l out := by
  induction l generalizing out with
  | nil => rfl
  | cons p l ih =>
    have hl := fun out => ih out (fun q hq => hsame q (List.mem_cons_of_mem _ hq))
    by_cases hfull : maxBytes≤out.length
    · rw [readClosed_full _ _ _ hfull,readClosed_full _ _ _ hfull]
    · by_cases hp : p.2≤low
      · rw [List.filter_cons_of_neg (by simpa using hp),hl]
        simp only [readClosed,if_neg hfull]
        rw [if_pos (by omega)]
      · rw [List.filter_cons_of_pos (by simpa using hp)]
        simp only [readClosed,if_neg hfull,hl]
        rw [hsame p (List.mem_cons_self ..) (by omega)]

theorem readSnapshot_kept {d d' : Dir} {snap snap' : ReadSnapshot} (start : Int) (maxBytes : Nat)
    (hlow : snap.logStart≤ snap'.logStart) (hactive : snap'.activeMeta=snap.activeMeta)
    (hclosed : snap'.closed.zip (upperBounds snap'.closed snap'.activeMeta.baseOffset)=
      (snap.closed.zip (upperBounds snap.closed snap.activeMeta.baseOffset)).filter
        (fun p => !decide (p.2≤ snap'.logStart)))
    (hsame : ∀p∈snap.closed.zip (upperBounds snap.closed snap.activeMeta.baseOffset),snap'.logStart<p.2 →
      ∀o k,readSegment d' p.1 o k=readSegment d p.1 o k)
    (hlast : ∀o k,readSegment d' snap.activeMeta o k=readSegment d snap.activeMeta o k) :
    readSnapshot d' snap' start maxBytes=readSnapshot d snap (max start snap'.logStart) maxBytes := by
  have hstart : max (max start snap'.logStart) snap.logStart=max start snap'.logStart := by omega
  have hread := readClosed_kept d d' snap'.logStart (max start snap'.logStart) maxBytes _ []
    (le_max_right _ _) (fun p hp hlt k => hsame p hp hlt _ k)
  unfold readSnapshot
  dsimp only
  rw [hstart,hclosed,hread,hactive]
  simp only [hlast]

section Deleting

variable {s : Store}
  (hsorted : (s.closed.map SegmentMeta.baseOffset++[s.active.info.baseOffset]).Pairwise (· < ·))
  (hnamed : ∀m∈s.closed++[s.active.info],∃e,m.name.parse=some (m.baseOffset,e))

include hsorted hnamed in
theorem dropBelow_ne (low : Int) (m : SegmentMeta) (hm : m∈(keepAbove s low).map Prod.fst++[s.active.info]) :
    ∀p∈dropBelow s low,p.1.name≠m.name := by
  intro q hq heq
  obtain ⟨hq,hle⟩ := List.mem_filter.mp hq
  have hc := (List.of_mem_zip hq).1
  have hbase : m∈s.closed++[s.active.info] → m.baseOffset=q.1.baseOffset := by
    intro hm
    obtain ⟨e,he⟩ := hnamed m hm
    obtain ⟨e',he'⟩ := hnamed q.1 (List.mem_append_left _ hc)
    rw [heq,he] at he'
    exact (Prod.mk.inj (Option.some.inj he')).1
  simp only [decide_eq_true_eq] at hle
  rcases List.mem_append.mp hm with hm|hm
  · obtain ⟨p,hp,rfl⟩ := List.mem_map.mp hm
    obtain ⟨hp,hlt⟩ := List.mem_filter.mp hp
    have hb := hbase (List.mem_append_left _ (List.of_mem_zip hp).1)
    obtain ⟨hqlt,hqup,_⟩ := upperBounds_mem hsorted q hq
    obtain ⟨h1,h2⟩ := upperBounds_least hsorted p hp
    simp only [Bool.not_eq_true',decide_eq_false_iff_not] at hlt
    rcases hqup with hqup|⟨c,hc,hqup⟩
    · omega
    · have := h2 c hc (by omega)
      omega
  · have hb := hbase (List.mem_append_right _ hm)
    rw [List.mem_singleton.mp hm] at hb
    have := (List.pairwise_append.mp hsorted).2.2 _ (List.mem_map_of_mem hc) _ (List.mem_singleton.mpr rfl)
    omega

include hsorted hnamed in
theorem removeSegments_kept (removed : Bool) (low : Int) (m : SegmentMeta)
    (hm : m∈(keepAbove s low).map Prod.fst++[s.active.info]) :
    (if removed then (dropBelow s low).foldl (fun d p => d.removeSegment p.1.name) s.dir else s.dir).logs.lookup
      m.name=s.dir.logs.lookup m.name ∧
    (if removed then (dropBelow s low).foldl (fun d p => d.removeSegment p.1.name)
      s.dir else s.dir).indexes.lookup
      m.name=s.dir.indexes.lookup m.name := by
  split_ifs
  · exact removeSegments_lookup (dropBelow s low) s.dir m.name (dropBelow_ne hsorted hnamed low m hm)
  · exact ⟨rfl,rfl⟩

include hsorted hnamed in
theorem deleteRecords_reads (env : IoEnv) (target start : Int) (maxBytes : Nat) :
    readSnapshot (deleteRecords env target s).1.dir
        (snapshotOf (deleteRecords env target s).1.toPartitionInner) start maxBytes=
      readSnapshot s.dir (snapshotOf s.toPartitionInner)
        (max start (deleteRecords env target s).1.logStart) maxBytes := by
  rcases deleteRecords_cases env target s with h|⟨low,_,hlt,h⟩
  · have hclamp : max (max start s.logStart) s.logStart=max start s.logStart := by omega
    rw [h]
    unfold readSnapshot
    rw [show (snapshotOf s.toPartitionInner).logStart=s.logStart from rfl,hclamp]
  · have hother (m : SegmentMeta) (hm : m∈(keepAbove s low).map Prod.fst++[s.active.info]) (o : Int) (k : Nat) :
        readSegment (deleteRecords env target s).1.dir m o k=readSegment s.dir m o k := by
      obtain ⟨h1,h2⟩ := removeSegments_kept hsorted hnamed env.remove low m hm
      rw [h]
      simp only [readSegment,Store.publish,Dir.logData,Dir.indexData,h1,h2]
    have hlow : (deleteRecords env target s).1.logStart=low := by rw [h]; rfl
    have hsnap : snapshotOf (deleteRecords env target s).1.toPartitionInner=
        {snapshotOf s.toPartitionInner with logStart := low,closed := (keepAbove s low).map Prod.fst} := by
      rw [h]
      rfl
    rw [hlow,hsnap]
    refine readSnapshot_kept start maxBytes (le_of_lt hlt) rfl
      (upperBounds_kept hsorted low (keepAbove s low) rfl).2 (fun p hp hlt o k => hother p.1 ?_ o k)
      (fun o k => hother s.active.info (by simp) o k)
    refine List.mem_append_left _ (List.mem_map_of_mem (List.mem_filter.mpr ⟨hp,?_⟩))
    change low<p.2 at hlt
    simp only [Bool.not_eq_true',decide_eq_false_iff_not]
    omega

def Store.spans (s : Store) : List (SegmentMeta × Int) :=
  s.closed.zip (upperBounds s.closed s.active.info.baseOffset)++[(s.active.closedMeta,s.highWater)]

/-- What a deletion owes the readers: the segments that reach above the new log start are listed as
before, with their bytes, and every read returns what it would have returned from there. -/
structure DeletesBelow (s s' : Store) : Prop where
  published : s'=s ∨ s'.snapshot=snapshotOf s'.toPartitionInner
  kept : ∀p∈s.spans,s'.logStart<p.2 → p∈s'.spans ∧ s'.dir.logData p.1.name=s.dir.logData p.1.name
  reads : ∀start maxBytes,readSnapshot s'.dir (snapshotOf s'.toPartitionInner) start maxBytes=
    readSnapshot s.dir (snapshotOf s.toPartitionInner) (max start s'.logStart) maxBytes

include hsorted hnamed in
theorem deleteRecords_below (env : IoEnv) (target : Int) : DeletesBelow s (deleteRecords env target s).1 := by
  refine ⟨?_,?_,deleteRecords_reads hsorted hnamed env target⟩
  · rcases deleteRecords_cases env target s with h|⟨low,_,_,h⟩
    · exact Or.inl h
    · rw [h]
      exact Or.inr rfl
  · rcases deleteRecords_cases env target s with h|⟨low,_,_,h⟩
    · rw [h]
      exact fun p hp _ => ⟨hp,rfl⟩
    · rw [h]
      intro p hp hlt
      have hzip := (upperBounds_kept hsorted low (keepAbove s low) rfl).2
      have hspans (q : SegmentMeta × Int) (hq : q∈keepAbove s low++[(s.active.closedMeta,s.highWater)]) :
          q∈((keepAbove s low).map Prod.fst).zip (upperBounds ((keepAbove s low).map Prod.fst)
            s.active.info.baseOffset)++[(s.active.closedMeta,s.highWater)] := by
        rw [hzip]
        exact hq
      have hdata (m : SegmentMeta) (hm : m∈(keepAbove s low).map Prod.fst++[s.active.info]) :=
        (removeSegments_lookup (dropBelow s low) s.dir m.name (dropBelow_ne hsorted hnamed low m hm)).1
      simp only [Store.publish,Dir.logData]
      rcases List.mem_append.mp hp with hp|hp
      · have hkeep : p∈keepAbove s low := by
          refine List.mem_filter.mpr ⟨hp,?_⟩
          change low<p.2 at hlt
          simp only [Bool.not_eq_true',decide_eq_false_iff_not]
          omega
        refine ⟨hspans p (List.mem_append_left _ hkeep),?_⟩
        split_ifs
        · rw [hdata p.1 (List.mem_append_left _ (List.mem_map_of_mem hkeep))]
        · rfl
      · refine ⟨hspans p (List.mem_append_right _ hp),?_⟩
        rw [List.mem_singleton.mp hp]
        split_ifs
        · rw [show s.active.closedMeta.name=s.active.info.name from rfl,hdata s.active.info (by simp)]
        · rfl

end Deleting

def boundaryAt (closed : List SegmentMeta) (activeBase : Int) (k : Nat) : Int :=
  ((closed.drop k).head?.map SegmentMeta.baseOffset).getD activeBase

@[simp] theorem boundaryAt_nil (activeBase : Int) (k : Nat) : boundaryAt [] activeBase k=activeBase := by
  simp [boundaryAt]

@[simp] theorem boundaryAt_succ (c : SegmentMeta) (closed : List SegmentMeta) (activeBase : Int)
    (k : Nat) : boundaryAt (c::closed) activeBase (k+1)=boundaryAt closed activeBase k := rfl

theorem boundaryAt_mem (closed : List SegmentMeta) (activeBase : Int) (k : Nat) :
    boundaryAt closed activeBase k∈closed.map SegmentMeta.baseOffset++[activeBase] := by
  unfold boundaryAt
  cases h : (closed.drop k).head? with
  | none => simp
  | some c =>
    have hc : c∈closed := List.mem_of_mem_drop (List.mem_of_mem_head? h)
    exact List.mem_append_left _ (List.mem_map_of_mem hc)

theorem boundaryAt_last {closed : List SegmentMeta} {activeBase : Int}
    (hsorted : (closed.map SegmentMeta.baseOffset++[activeBase]).Pairwise (· < ·)) (k : Nat) :
    (closed.head?.map SegmentMeta.baseOffset).getD activeBase≤boundaryAt closed activeBase k ∧
    boundaryAt closed activeBase k≤activeBase := by
  have hm := boundaryAt_mem closed activeBase k
  constructor
  · cases closed with
    | nil => simp
    | cons c closed =>
      rw [List.map_cons,List.cons_append] at hm
      rcases List.mem_cons.mp hm with he|hm
      · exact le_of_eq he.symm
      · exact le_of_lt ((List.pairwise_cons.mp hsorted).1 _ hm)
  · rcases List.mem_append.mp hm with hm|hm
    · exact le_of_lt ((List.pairwise_append.mp hsorted).2.2 _ hm _ (List.mem_singleton.mpr rfl))
    · exact le_of_eq (List.mem_singleton.mp hm)

theorem filter_boundaryAt {closed : List SegmentMeta} {activeBase : Int}
    (hsorted : (closed.map SegmentMeta.baseOffset++[activeBase]).Pairwise (· < ·)) (k : Nat) :
    (closed.zip (upperBounds closed activeBase)).filter
        (fun p => decide (p.2≤boundaryAt closed activeBase k))=
      (closed.zip (upperBounds closed activeBase)).take k ∧
    (closed.zip (upperBounds closed activeBase)).filter
        (fun p => !decide (p.2≤boundaryAt closed activeBase k))=
      (closed.zip (upperBounds closed activeBase)).drop k := by
  induction closed generalizing k with
  | nil => simp
  | cons c closed ih =>
    cases k with
    | zero =>
      have habove (p : SegmentMeta × Int) (hp : p∈(c::closed).zip (upperBounds (c::closed) activeBase)) :
          ¬p.2≤boundaryAt (c::closed) activeBase 0 := by
        have := (upperBounds_mem hsorted p hp).2.2
        change c.baseOffset<p.2 at this
        simp only [boundaryAt,List.drop_zero,List.head?_cons,Option.map_some,Option.getD_some]
        omega
      exact ⟨List.filter_eq_nil_iff.mpr (fun p hp => by simpa using habove p hp),
        List.filter_eq_self.mpr (fun p hp => by simpa using habove p hp)⟩
    | succ k =>
      have hrest := (List.pairwise_cons.mp hsorted).2
      have hle := (boundaryAt_last hrest k).1
      obtain ⟨htake,hdrop⟩ := ih hrest k
      rw [zip_upperBounds,boundaryAt_succ,List.filter_cons_of_pos (by simpa using hle),
        List.filter_cons_of_neg (by simpa using hle),htake,hdrop,List.take_succ_cons,List.drop_succ_cons]
      exact ⟨rfl,rfl⟩

structure Store.Ordered (s : Store) : Prop where
  sorted : (s.closed.map SegmentMeta.baseOffset++[s.active.info.baseOffset]).Pairwise (· < ·)
  named : ∀m∈s.closed++[s.active.info],∃e,m.name.parse=some (m.baseOffset,e)
  started : 0≤ s.logStart
  high : s.active.info.baseOffset≤ s.highWater

/-- What is left when the first `k` closed segments are given up. -/
structure GivesUp (s s' : Store) (k : Nat) : Prop where
  closed : s'.closed=s.closed.drop k
  active : s'.active=s.active
  logStart : s'.logStart=boundaryAt s.closed s.active.info.baseOffset k
  published : s'.snapshot=snapshotOf s'.toPartitionInner

theorem deleteRecords_boundary {s : Store} (h : s.Ordered) (env : IoEnv) {k : Nat}
    (hlt : s.logStart<boundaryAt s.closed s.active.info.baseOffset k) :
    (deleteRecords env (boundaryAt s.closed s.active.info.baseOffset k) s).1={s with
      logStart := boundaryAt s.closed s.active.info.baseOffset k
      closed := s.closed.drop k
      abortedTxns := s.abortedTxns.evictBelow (boundaryAt s.closed s.active.info.baseOffset k)
      dir := if env.remove then ((s.closed.zip (upperBounds s.closed s.active.info.baseOffset)).take k).foldl
          (fun d p => d.removeSegment p.1.name) s.dir else s.dir : Store}.publish := by
  have hstart := h.started
  have hhigh := (boundaryAt_last h.sorted k).2
  have hle := h.high
  have htarget : deleteTarget s.toPartitionInner (boundaryAt s.closed s.active.info.baseOffset k)=
      .ok (boundaryAt s.closed s.active.info.baseOffset k) := by
    rw [deleteTarget,if_neg (by omega),if_neg (by omega)]
  obtain ⟨htake,hdrop⟩ := filter_boundaryAt h.sorted k
  have hkeep : (keepAbove s (boundaryAt s.closed s.active.info.baseOffset k)).map Prod.fst=s.closed.drop k := by
    rw [keepAbove,hdrop,List.map_drop,map_fst_upperBounds]
  unfold deleteRecords
  rw [htarget]
  dsimp only
  rw [if_pos hlt,hkeep,dropBelow,htake]

theorem deleteRecords_givesUp {s : Store} (h : s.Ordered) (env : IoEnv) {k : Nat}
    (hlt : s.logStart<boundaryAt s.closed s.active.info.baseOffset k) :
    GivesUp s (deleteRecords env (boundaryAt s.closed s.active.info.baseOffset k) s).1 k := by
  rw [deleteRecords_boundary h env hlt]
  exact ⟨rfl,rfl,rfl,rfl⟩

end Kaas
