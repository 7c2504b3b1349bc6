import Mathlib.Data.List.TakeWhile
import Kaas.Broker.ControlBatch
import Kaas.Storage.Anchor

namespace Kaas

/-! The order of the aborted transactions. -/

namespace AbortedTxnIndex

variable {idx : AbortedTxnIndex} {e : AbortedTxn}

def Ordered (idx : AbortedTxnIndex) : Prop := idx.Pairwise (fun a b => a.firstOffset<b.firstOffset)

theorem record_last (h : ∀x∈idx,x.firstOffset<e.firstOffset) : idx.record e=idx++[e] := by
  have hp : ∀x∈idx,decide (x.firstOffset<e.firstOffset)=true := fun x hx => decide_eq_true (h x hx)
  have hd : idx.dropWhile (fun x => decide (x.firstOffset<e.firstOffset))=[] := by
    rw [List.dropWhile_eq_nil_iff]
    exact hp
  rw [record,hd,List.takeWhile_eq_self_iff.mpr hp]

theorem restore_ordered (h : Ordered idx) : restore idx=idx := by
  have hfold (l acc : List AbortedTxn) (hl : (acc++l).Pairwise (fun a b => a.firstOffset<b.firstOffset)) :
      l.foldl record acc=acc++l := by
    induction l generalizing acc with
    | nil => simp
    | cons x l ih =>
      have hx : ∀y∈acc,y.firstOffset<x.firstOffset := fun y hy =>
        (List.pairwise_append.mp hl).2.2 y hy x (List.mem_cons_self ..)
      rw [List.foldl_cons,record_last hx,ih (acc++[x]) (by simpa using hl)]
      simp
  exact hfold idx [] h

theorem mem_record (x : AbortedTxn) : x∈idx.record e ↔ x=e ∨ x∈idx := by
  have hsplit := List.takeWhile_append_dropWhile
    (p := fun x : AbortedTxn => decide (x.firstOffset<e.firstOffset)) (l := idx)
  conv_rhs => rw [← hsplit]
  simp only [record,List.mem_append,List.mem_cons]
  tauto

theorem record_ordered (h : Ordered idx) (hne : ∀x∈idx,x.firstOffset≠e.firstOffset) :
    Ordered (idx.record e) := by
  have hsplit := List.takeWhile_append_dropWhile
    (p := fun x : AbortedTxn => decide (x.firstOffset<e.firstOffset)) (l := idx)
  have hfront : ∀x∈idx.takeWhile (fun x => decide (x.firstOffset<e.firstOffset)),x.firstOffset<e.firstOffset :=
    fun x hx => by simpa using List.mem_takeWhile_imp hx
  have hback : ∀x∈idx.dropWhile (fun x => decide (x.firstOffset<e.firstOffset)),
    e.firstOffset<x.firstOffset := by
    clear hsplit hfront
    induction idx with
    | nil => simp
    | cons y idx ih =>
      obtain ⟨hy,hrest⟩ := List.pairwise_cons.mp h
      by_cases hlt : y.firstOffset<e.firstOffset
      · rw [List.dropWhile_cons_of_pos (by simpa using hlt)]
        exact ih hrest (fun x hx => hne x (List.mem_cons_of_mem _ hx))
      · rw [List.dropWhile_cons_of_neg (by simpa using hlt)]
        have hge := hne y (List.mem_cons_self ..)
        intro x hx
        rcases List.mem_cons.mp hx with rfl|hx
        · omega
        · have := hy x hx
          omega
  unfold Ordered at h ⊢
  rw [← hsplit] at h
  obtain ⟨h1,h2,_⟩ := List.pairwise_append.mp h
  refine List.pairwise_append.mpr ⟨h1,List.pairwise_cons.mpr ⟨hback,h2⟩,fun x hx y hy => ?_⟩
  have := hfront x hx
  rcases List.mem_cons.mp hy with rfl|hy
  · exact this
  · have := hback y hy
    omega

theorem record_head : (idx.record e).head?=some e ∨ (idx.record e).head?=idx.head? := by
  cases idx with
  | nil => exact Or.inl rfl
  | cons y idx =>
    by_cases hlt : y.firstOffset<e.firstOffset
    · right
      simp [record,hlt]
    · left
      simp [record,hlt]

theorem evictBelow_of_front (start : Int) (h : ∀x∈idx.head?,start≤x.lastOffset) : idx.evictBelow start=idx := by
  cases idx with
  | nil => rfl
  | cons y idx =>
    have := h y rfl
    exact List.dropWhile_cons_of_neg (by simp; omega)

theorem evictBelow_front (idx : AbortedTxnIndex) (start : Int) :
    ∀x∈(idx.evictBelow start).head?,start≤x.lastOffset := by
  induction idx with
  | nil => simp [evictBelow]
  | cons y idx ih =>
    unfold evictBelow at ih ⊢
    by_cases hlt : y.lastOffset< start
    · rw [List.dropWhile_cons_of_pos (by simpa using hlt)]
      exact ih
    · rw [List.dropWhile_cons_of_neg (by simpa using hlt)]
      rintro x ⟨rfl⟩
      omega

theorem evictBelow_sublist (idx : AbortedTxnIndex) (start : Int) : (idx.evictBelow start).Sublist idx :=
  (List.dropWhile_suffix _).sublist

end AbortedTxnIndex

/-- No two transactions, open or aborted, start at the same offset. -/
structure TxnsApart (opened : OpenTxnIndex) (aborted : AbortedTxnIndex) : Prop where
  injective : ∀pid pid' o,opened.lookup pid=some o → opened.lookup pid'=some o → pid=pid'
  disjoint : ∀e∈aborted,∀pid,opened.lookup pid≠some e.firstOffset
  ordered : aborted.Ordered

/-- The transactions an open partition knows of started in its log, and those it still lists as
aborted reach into what is retained of it. -/
structure TxnsPlaced (g : PartitionInner) : Prop extends TxnsApart g.openTxns g.abortedTxns where
  opens : ∀pid o,g.openTxns.lookup pid=some o → o<g.highWater
  aborts : ∀e∈g.abortedTxns,e.firstOffset<g.highWater
  start : g.logStart≤g.highWater
  front : ∀e∈g.abortedTxns.head?,g.logStart≤e.lastOffset

theorem recordTxn_cases (opened : OpenTxnIndex) (aborted : AbortedTxnIndex) (raw : Bytes)
    (assigned : Int) : recordTxn opened aborted raw assigned=(opened,aborted) ∨
    (∃pid,opened.lookup pid=none ∧ recordTxn opened aborted raw assigned=(opened.insert pid assigned,aborted)) ∨
    ∃pid,recordTxn opened aborted raw assigned=(opened.erase pid,aborted) ∨
      ∃first,opened.lookup pid=some first ∧
        recordTxn opened aborted raw assigned=(opened.erase pid,aborted.record ⟨pid,first,assigned⟩) := by
  unfold recordTxn
  cases parseBatchTxnInfo raw with
  | none => exact Or.inl rfl
  | some info =>
    dsimp only
    by_cases ht : info.isTransactional=true
    · rw [if_pos ht]
      by_cases hc : info.isControl=true
      · rw [if_pos hc]
        right; right
        refine ⟨info.producerId,?_⟩
        unfold OpenTxnIndex.close
        cases hl : opened.lookup info.producerId with
        | none => exact Or.inl rfl
        | some first =>
          dsimp only
          split_ifs
          · exact Or.inr ⟨first,rfl,rfl⟩
          · exact Or.inl rfl
      · rw [if_neg hc]
        unfold OpenTxnIndex.recordDataBatch
        cases hl : opened.lookup info.producerId with
        | none => exact Or.inr (Or.inl ⟨_,hl,rfl⟩)
        | some first => exact Or.inl rfl
    · rw [if_neg ht]
      exact Or.inl rfl

variable {opened : OpenTxnIndex} {p : Partition} {aborted : AbortedTxnIndex} {d d' : Dir}
  {env closing : IoEnv} {n : SegmentName} {base : Int} {s' : Store}

section Windows

variable {g g' : PartitionInner}

theorem TxnsPlaced.congr (h : TxnsPlaced g) (hopen : ∀pid,g'.openTxns.lookup pid=g.openTxns.lookup pid)
    (hab : g'.abortedTxns=g.abortedTxns) (hs : g'.logStart=g.logStart) (hw : g'.highWater=g.highWater) :
    TxnsPlaced g' := by
  refine ⟨⟨fun pid pid' o => ?_,fun e he pid => ?_,hab ▸ h.ordered⟩,fun pid o => ?_,fun e he => ?_,
    ?_,fun e he => ?_⟩
  · rw [hopen,hopen]
    exact h.injective pid pid' o
  · rw [hopen]
    exact h.disjoint e (hab ▸ he) pid
  · rw [hopen,hw]
    exact h.opens pid o
  · rw [hw]
    exact h.aborts e (hab ▸ he)
  · rw [hs,hw]
    exact h.start
  · rw [hs]
    exact h.front e (hab ▸ he)

theorem lookup_erased {pid p o : Int} (h : (opened.erase pid).lookup p=some o) :
    p≠pid ∧ opened.lookup p=some o := by
  by_cases hp : p=pid
  · rw [hp,AList.lookup_erase] at h
    cases h
  · exact ⟨hp,(AList.lookup_erase_ne hp).symm.trans h⟩

theorem TxnsApart.inserted (h : TxnsApart opened aborted)
    (pid o : Int) (hopens : ∀p x,opened.lookup p=some x → x<o) (haborts : ∀e∈aborted,e.firstOffset<o) :
    TxnsApart (opened.insert pid o) aborted where
  injective := by
    intro p p' x hp hp'
    by_cases h1 : p=pid
    · by_cases h2 : p'=pid
      · rw [h1,h2]
      · rw [h1,AList.lookup_insert] at hp
        rw [AList.lookup_insert_ne h2] at hp'
        cases hp
        exact absurd (hopens p' o hp') (lt_irrefl _)
    · rw [AList.lookup_insert_ne h1] at hp
      by_cases h2 : p'=pid
      · rw [h2,AList.lookup_insert] at hp'
        cases hp'
        exact absurd (hopens p o hp) (lt_irrefl _)
      · rw [AList.lookup_insert_ne h2] at hp'
        exact h.injective p p' x hp hp'
  disjoint := by
    intro e he p hp
    by_cases h1 : p=pid
    · rw [h1,AList.lookup_insert] at hp
      have := haborts e he
      have := Option.some.inj hp
      omega
    · rw [AList.lookup_insert_ne h1] at hp
      exact h.disjoint e he p hp
  ordered := h.ordered

theorem TxnsApart.erased (h : TxnsApart opened aborted)
    (pid : Int) : TxnsApart (opened.erase pid) aborted where
  injective := fun p p' o hp hp' =>
    h.injective p p' o (lookup_erased hp).2 (lookup_erased hp').2
  disjoint := fun e he p hp => h.disjoint e he p (lookup_erased hp).2
  ordered := h.ordered

theorem TxnsApart.recorded (h : TxnsApart opened aborted)
    (pid first last : Int) (hp : opened.lookup pid=some first) :
    TxnsApart (opened.erase pid) (aborted.record ⟨pid,first,last⟩) where
  injective := (h.erased pid).injective
  disjoint := by
    intro e he p hl
    obtain ⟨hne,hl⟩ := lookup_erased hl
    rcases (AbortedTxnIndex.mem_record e).mp he with rfl|he
    · exact hne (h.injective p pid first hl hp)
    · exact h.disjoint e he p hl
  ordered := AbortedTxnIndex.record_ordered h.ordered (fun x hx heq => h.disjoint x hx pid (by rw [hp,heq]))

theorem TxnsPlaced.stored (h : TxnsPlaced g) (raw : Bytes)
    (htxns : recordTxn g.openTxns g.abortedTxns raw g.highWater=(g'.openTxns,g'.abortedTxns))
    (hs : g'.logStart=g.logStart) (hw : g.highWater<g'.highWater) : TxnsPlaced g' := by
  have hstart := h.start
  have hopens (pid o : Int) (ho : g.openTxns.lookup pid=some o) : o<g'.highWater := (h.opens pid o ho).trans hw
  have haborts (e : AbortedTxn) (he : e∈g.abortedTxns) : e.firstOffset<g'.highWater := (h.aborts e he).trans hw
  have hfront (e : AbortedTxn) (he : e∈g.abortedTxns.head?) : g'.logStart≤e.lastOffset := hs ▸ h.front e he
  have hless : g'.logStart≤g'.highWater := by omega
  have build (o : OpenTxnIndex) (a : AbortedTxnIndex)
    (hr : recordTxn g.openTxns g.abortedTxns raw g.highWater=(o,a))
      (happart : TxnsApart o a) (ho : ∀pid x,o.lookup pid=some x → x<g'.highWater)
      (ha : ∀e∈a,e.firstOffset<g'.highWater) (hf : ∀e∈a.head?,g'.logStart≤e.lastOffset) : TxnsPlaced g' := by
    obtain ⟨rfl,rfl⟩ := Prod.mk.inj (hr.symm.trans htxns)
    exact ⟨happart,ho,ha,hless,hf⟩
  rcases recordTxn_cases g.openTxns g.abortedTxns raw g.highWater with hr|⟨pid,_,hr⟩|⟨pid,hr|⟨first,hp,hr⟩⟩
  · exact build _ _ hr h.toTxnsApart hopens haborts hfront
  · refine build _ _ hr (h.inserted pid _ h.opens h.aborts) (fun p x hx => ?_) haborts hfront
    by_cases hpid : p=pid
    · rw [hpid,AList.lookup_insert] at hx
      cases hx
      exact hw
    · rw [AList.lookup_insert_ne hpid] at hx
      exact hopens p x hx
  · exact build _ _ hr (h.erased pid) (fun p x hx => hopens p x (lookup_erased hx).2) haborts hfront
  · refine build _ _ hr (h.recorded pid first _ hp) (fun p x hx => hopens p x (lookup_erased hx).2)
      (fun e he => ?_) (fun e he => ?_)
    · rcases (AbortedTxnIndex.mem_record e).mp he with rfl|he
      · exact hopens pid first hp
      · exact haborts e he
    · rcases AbortedTxnIndex.record_head with hh|hh
      · rw [hh] at he
        cases he
        rw [hs]
        exact hstart
      · rw [hh] at he
        exact hfront e he

theorem TxnsPlaced.delete (h : TxnsPlaced g) (start : Int) (hle : start≤g.highWater)
    (hopen : g'.openTxns=g.openTxns) (hab : g'.abortedTxns=g.abortedTxns.evictBelow start)
    (hs : g'.logStart=start) (hw : g'.highWater=g.highWater) : TxnsPlaced g' := by
  have hsub := AbortedTxnIndex.evictBelow_sublist g.abortedTxns start
  rw [← hab] at hsub
  refine ⟨⟨?_,fun e he => ?_,h.ordered.sublist hsub⟩,?_,fun e he => ?_,by rw [hs,hw]; exact hle,?_⟩
  · rw [hopen]
    exact h.injective
  · rw [hopen]
    exact h.disjoint e (hsub.subset he)
  · rw [hopen,hw]
    exact h.opens
  · rw [hw]
    exact h.aborts e (hsub.subset he)
  · rw [hab,hs]
    exact AbortedTxnIndex.evictBelow_front _ start

end Windows

/-- The snapshot of the transactions was taken of indexes in order, and the manifest's epoch is
one. -/
structure Saved (d : Dir) : Prop where
  txns : ∀opened aborted,d.txns=.present (opened,aborted) →
    ∃idx : OpenTxnIndex,opened=idx.toEntries ∧ TxnsApart idx aborted
  epoch : ∀m,d.manifest.manifestJson=.present m → 0≤ m.epoch

theorem Saved.congr (h : Saved d) (ht : d'.txns=d.txns) (hm : d'.manifest=d.manifest) : Saved d' :=
  ⟨by rw [ht]; exact h.txns,by rw [hm]; exact h.epoch⟩

theorem saved_persist (h : Saved d) (env : IoEnv) {g : PartitionInner}
    (hg : TxnsApart g.openTxns g.abortedTxns) {epoch : Int} (he : 0≤epoch) :
    Saved (persistStateLocked env g d epoch).1 := by
  have htxns (opened : List (Int × Int)) (aborted : List AbortedTxn)
      (hp : JsonFile.present (g.openTxns.toEntries,g.abortedTxns)=.present (opened,aborted)) :
      ∃idx : OpenTxnIndex,opened=idx.toEntries ∧ TxnsApart idx aborted := by
    cases hp
    exact ⟨g.openTxns,rfl,hg⟩
  have hmanifest : ∀m,(d.manifest.writeUnlessSuperseded ⟨epoch,g.highWater,
      g.logStart⟩).1.manifestJson= .present m → 0≤ m.epoch := by
    intro m hm
    rcases ManifestFiles.writeUnlessSuperseded_cases d.manifest ⟨epoch,g.highWater,g.logStart⟩ with
      ⟨disk,_,_,hw⟩|⟨hw,_,_⟩
    · rw [hw] at hm
      exact h.epoch m hm
    · rw [hw] at hm
      cases hm
      exact he
  unfold persistStateLocked persistWindows
  split_ifs
  · exact h
  · exact ⟨htxns,hmanifest⟩
  · exact ⟨htxns,h.epoch⟩
  all_goals exact ⟨h.txns,h.epoch⟩

theorem openPartition_txns {crc : Crc32c}
    (h : openPartition crc env d=(d',.ok p)) (htop : d.Top n base) :
    d'.txns=d.txns := by
  obtain ⟨m,d1,closed,a,ho⟩ := openPartition_ok h
  obtain ⟨f,hl⟩ := Dir.lookup_of_mem htop.1
  obtain ⟨d2,a2,h2,_,_,_,_,htx,_⟩ := openActive_top env m.values.2.1 m.values.1 htop hl
  rw [ho.adopted] at h2
  obtain ⟨rfl,_⟩ := Prod.mk.inj h2
  rw [ho.dir]
  exact (repairTail_segmentsOnly crc d1 a).txns.trans htx

theorem openPartition_restoresTxns {crc : Crc32c}
    (h : openPartition crc env d=(d',.ok p)) (htop : d.Top n base) :
    restoreTxns d p.logStart=.ok (p.openTxns,p.abortedTxns) := by
  obtain ⟨m,d1,closed,a,ho⟩ := openPartition_ok h
  have htxns := openPartition_txns h htop
  rw [ho.dir] at htxns
  have hr := ho.txns
  rw [← ho.logStart] at hr
  unfold restoreTxns at hr ⊢
  rw [← htxns]
  exact hr

theorem placed_restored {g : PartitionInner} (hs : Saved d)
    (hr : restoreTxns d g.logStart=.ok (g.openTxns,g.abortedTxns)) (hstart : g.logStart≤g.highWater)
    (hfit : ∀opened aborted,d.txns=.present (opened,aborted) →
      (∀p∈opened,p.2<g.highWater) ∧ ∀e∈aborted,e.firstOffset<g.highWater) : TxnsPlaced g := by
  unfold restoreTxns at hr
  cases ht : d.txns with
  | absent =>
    rw [ht] at hr
    obtain ⟨h1,h2⟩ := Prod.mk.inj (Except.ok.inj hr)
    have hnone (pid : Int) : g.openTxns.lookup pid=none := by
      rw [← h1]
      exact AList.lookup_empty pid
    refine ⟨⟨fun pid _ o ho => ?_,by simp [← h2],by rw [← h2]; exact List.Pairwise.nil⟩,fun pid o ho => ?_,
      by simp [← h2],hstart,by simp [← h2]⟩
    · rw [hnone] at ho
      cases ho
    · rw [hnone] at ho
      cases ho
  | corrupt =>
    rw [ht] at hr
    cases hr
  | present p =>
    obtain ⟨opened,aborted⟩ := p
    rw [ht] at hr
    obtain ⟨h1,h2⟩ := Prod.mk.inj (Except.ok.inj hr)
    obtain ⟨idx,rfl,hidx⟩ := hs.txns opened aborted ht
    obtain ⟨hf1,hf2⟩ := hfit _ _ ht
    have hlook (pid : Int) : g.openTxns.lookup pid=idx.lookup pid := by
      rw [← h1]
      exact lookup_collected idx pid
    rw [AbortedTxnIndex.restore_ordered hidx.ordered] at h2
    have hsub := AbortedTxnIndex.evictBelow_sublist aborted g.logStart
    rw [h2] at hsub
    refine ⟨⟨fun pid pid' o => ?_,fun e he pid => ?_,hidx.ordered.sublist hsub⟩,fun pid o ho => ?_,
      fun e he => hf2 e (hsub.subset he),hstart,?_⟩
    · rw [hlook,hlook]
      exact hidx.injective pid pid' o
    · rw [hlook]
      exact hidx.disjoint e (hsub.subset he) pid
    · rw [hlook] at ho
      exact hf1 (pid,o) (List.mem_map.mpr ⟨⟨pid,o⟩,AList.mem_lookup_iff.mp ho,rfl⟩)
    · rw [← h2]
      exact AbortedTxnIndex.evictBelow_front aborted g.logStart

theorem saved_open {crc : Crc32c} (hs : Saved d)
    (h : openPartition crc env d=(d',.ok p)) (htop : d.Top n base)
    (he : 0≤p.epoch) : Saved d' := by
  refine ⟨by rw [openPartition_txns h htop]; exact hs.txns,fun m hm => ?_⟩
  obtain ⟨m',hm',hep⟩ := openPartition_unfenced h
  rw [hm] at hm'
  cases hm'
  omega

theorem takeOver_windows (env : IoEnv) (epoch : UInt32) (s : Store) :
    (takeOver env epoch s).1.highWater=s.highWater ∧ (takeOver env epoch s).1.logStart=s.logStart ∧
    (takeOver env epoch s).1.openTxns=s.openTxns ∧ (takeOver env epoch s).1.abortedTxns=s.abortedTxns ∧
    (s.dir.SegmentsOnly (takeOver env epoch s).1.dir ∨
      ∃d g,s.dir.SegmentsOnly d ∧ g.openTxns=s.openTxns ∧ g.abortedTxns=s.abortedTxns ∧
        (takeOver env epoch s).1.dir=(persistStateLocked env g d epoch.toNat).1) := by
  obtain ⟨hl,hrest⟩ := rollForEpochLocked_ledger env s epoch.toNat
  unfold takeOver
  by_cases hle : (epoch.toNat : Int)≤ s.epoch
  · rw [if_pos hle]
    exact ⟨rfl,rfl,rfl,rfl,Or.inl (.refl _)⟩
  · rw [if_neg hle]
    rcases hr : rollForEpochLocked env s epoch.toNat with ⟨s1,e|_⟩
    · rw [hr] at hl hrest
      exact ⟨hl.highWater,hl.logStart,hl.openTxns,hl.abortedTxns,Or.inl hrest⟩
    · rw [hr] at hl hrest
      dsimp only at hl hrest ⊢
      rcases hp : persistStateLocked env s1.toPartitionInner s1.dir epoch.toNat with ⟨d,e|b⟩
      all_goals
        refine ⟨hl.highWater,hl.logStart,hl.openTxns,hl.abortedTxns,
          Or.inr ⟨s1.dir,s1.toPartitionInner,hrest,hl.openTxns,hl.abortedTxns,?_⟩⟩
        simp only [hp,takeOverFinish,Store.publish]

inductive RestartOp
  | run (op : PartitionOp)
  | crash (image : Dir) (env : IoEnv)

/-- The partition's own operations, and crashes with the open that follows. -/
inductive RestartStep (crc : Crc32c) : Store → RestartOp → Store → Prop
  | run {s t : Store} {op : PartitionOp} (taken : PartitionStep crc s op t) : RestartStep crc s (.run op) t
  | crash {s : Store} {image d : Dir} {env : IoEnv} {p : Partition} (left : s.dir.CrashImage image)
      (call : openPartition crc env image=(d,.ok p)) : RestartStep crc s (.crash image env) ⟨p,d⟩

/-- The snapshots speak of nothing at or above the end of the log that is left, and the log start
does not lie above it. -/
def WindowsFit (crc : Crc32c) (d : Dir) : Prop :=
  ∀n base f,d.Top n base → d.logs.lookup n=some f →
    (∀opened aborted,d.txns=.present (opened,aborted) →
      (∀p∈opened,p.2<endOffset base (completeRun crc f.data)) ∧
      ∀e∈aborted,e.firstOffset<endOffset base (completeRun crc f.data)) ∧
    ∀m,d.manifest.manifestJson=.present m → m.logStartOffset≤endOffset base (completeRun crc f.data)

def RestartOk (crc : Crc32c) (s : Store) : RestartOp → Prop
  | .run op => AnchorOk crc s op
  | .crash image _ => NoFragment crc image ∧ EndsAbove crc image ∧ WindowsFit crc image

structure RestartSound (crc : Crc32c) (s : Store) : Prop extends Anchored crc s where
  placed : TxnsPlaced s.toPartitionInner
  saved : Saved s.dir

structure Restored (s : Store) (p : Partition) : Prop where
  highWater : p.highWater=s.highWater
  logStart : p.logStart=s.logStart
  epoch : p.epoch=s.epoch
  producers : ∀pid,p.producerStates.lookup pid=s.producerStates.lookup pid
  verdicts : ∀info,classify p.producerStates info=classify s.producerStates info
  openTxns : ∀pid,p.openTxns.lookup pid=s.openTxns.lookup pid
  abortedTxns : p.abortedTxns=s.abortedTxns

theorem classify_congr {a b : ProducerStates} (h : ∀pid,a.lookup pid=b.lookup pid)
    (info : BatchProducerInfo) : classify a info=classify b info := by
  unfold classify
  rw [h]

section Steps

variable {crc : Crc32c} {s t : Store}

theorem reopen_restored (h : RestartSound crc s) (hwhole : WholeLog s) {opening : IoEnv}
    (hclose : closePartition closing s=(s',.ok ()))
    (hopen : openPartition crc opening s'.dir=(d,.ok p)) : Restored s p := by
  obtain ⟨_,hw,hhigh⟩ := diskSound_reopen h.disk h.opened hwhole hclose hopen
  refine ⟨hhigh,hw.logStart,hw.epoch,hw.producers,classify_congr hw.producers,hw.openTxns,?_⟩
  rw [hw.abortedTxns,AbortedTxnIndex.restore_ordered h.placed.ordered]
  exact AbortedTxnIndex.evictBelow_of_front _ h.placed.front

theorem restored_placed (h : RestartSound crc s) (d : Dir) (hr : Restored s p) :
    TxnsPlaced (Store.mk p d).toPartitionInner :=
  h.placed.congr hr.openTxns hr.abortedTxns hr.logStart hr.highWater

theorem restartSound_append (h : RestartSound crc s) {c : AppendCall} (hok : AnchorOk crc s (.append c))
    {r : Except StorageError Appended} (call : appendLocked c.cfg c.env c.epoch c.batch s=some (t,r)) :
    RestartSound crc t := by
  obtain ⟨f,fs,ht⟩ := h.toAnchored.tracks
  have hrest := appendLocked_segmentsOnly call
  have hsame (s1 : Store) (hl : s.SameLedger s1) (d : Dir) : TxnsPlaced {s1 with dir := d}.toPartitionInner :=
    h.placed.congr (fun pid => by rw [hl.openTxns]) hl.abortedTxns hl.logStart hl.highWater
  refine ⟨anchored_append h.toAnchored hok call,?_,h.saved.congr hrest.txns hrest.manifest⟩
  cases appendLocked_step call with
  | refused e _ => exact h.placed
  | known base _ => exact h.placed
  | rollFailed accepted s1 e ha roll => exact hsame t (rollIfDue_ledger roll) t.dir
  | failed accepted s1 d e ha roll _ _ => exact hsame s1 (rollIfDue_ledger roll) d
  | stored accepted s1 d a ha roll _ write =>
    have hl := rollIfDue_ledger roll
    obtain ⟨hs,hu,_⟩ := hok accepted ha
    have hhw := advance_highWater_eq c.cfg accepted c.batch s1 a d
      (by rw [hl.highWater]; exact ht.ranged.1) hs.2 (by rw [hl.highWater]; exact hu)
    have hcount : 0< recordCount c.batch := by
      have := hs.2
      unfold recordCount
      omega
    refine TxnsPlaced.stored (hsame s1 hl s1.dir) (rewriteBase c.batch s1.highWater) rfl rfl ?_
    rw [hhw]
    change s1.highWater<s1.highWater+_
    omega

theorem restartSound_reopen (h : RestartSound crc s) (hwhole : WholeLog s) {opening : IoEnv}
    (hclose : closePartition closing s=(s',.ok ()))
    (hopen : openPartition crc opening s'.dir=(d,.ok p)) : RestartSound crc ⟨p,d⟩ := by
  obtain ⟨f,fs,ht⟩ := h.toAnchored.tracks
  have hr := reopen_restored h hwhole hclose hopen
  obtain ⟨_,htxns,_⟩ := closePartition_persisted hclose h.disk.manifest.superseded
  have hsaved : Saved s'.dir := by
    refine ⟨fun opened aborted hp => ?_,fun m hm => ?_⟩
    · rw [htxns] at hp
      cases hp
      exact ⟨s.openTxns,rfl,h.placed.toTxnsApart⟩
    · rw [closed_manifest h.disk.manifest hclose] at hm
      cases hm
      exact h.epochs.1
  exact ⟨anchored_reopen h.toAnchored hwhole hclose hopen,restored_placed h d hr,
    saved_open hsaved hopen (ht.top.congr (closed_logs hclose).mem)
      (by rw [hr.epoch]; exact h.epochs.1)⟩

theorem restartSound_crash (h : RestartSound crc s) {image : Dir}
    (hok : RestartOk crc s (.crash image env)) (left : s.dir.CrashImage image)
    (call : openPartition crc env image=(d,.ok p)) : RestartSound crc ⟨p,d⟩ := by
  obtain ⟨hno,habove,hfit⟩ := hok
  obtain ⟨f,fs,ht⟩ := h.toAnchored.tracks
  have htop : image.Top s.active.info.name s.active.info.baseOffset := ht.top.congr left.names
  obtain ⟨g,hg⟩ := Dir.lookup_of_mem htop.1
  have hdown := (nodeSound_crash h.disk.node image left).1
  have hup := (nodeSound_start hdown call hno habove).1
  have had := openPartition_adopts call htop hg
    (fun cp hc => hdown.checkpoints cp (Or.inl hc))
  obtain ⟨hfits,hstart⟩ := hfit _ _ g htop hg
  obtain ⟨m,hm,hle⟩ := h.disk.manifest
  have hm' : image.manifest.manifestJson=.present m := by rw [left.manifest]; exact hm
  have hepoch := openPartition_keepsEpoch call hm'
  have hnonneg := h.saved.epoch m hm
  have hsaved : Saved image := h.saved.congr left.txns left.manifest
  have hlow : p.logStart=m.logStartOffset :=
    openPartition_logStart call ((ManifestFiles.read_present _ _).mpr hm')
  refine ⟨⟨⟨hup,⟨_,_,htop.congr (had.mem htop.1),?_⟩,?_⟩,had.opened,?_,?_⟩,?_,
    saved_open hsaved call htop (by omega)⟩
  · change ∀m∈p.closed,_
    rw [had.closed]
    exact listSegments_dropLast_below htop
  · obtain ⟨m',hm',he⟩ := openPartition_unfenced call
    exact ⟨m',hm',le_of_eq he⟩
  · change p.active.info.name.parse=some (p.active.info.baseOffset,p.active.info.epoch)
    rw [had.named,had.based]
    exact had.parsed
  · change 0≤p.epoch ∧ p.epoch<2^32
    have := h.epochs
    omega
  · refine placed_restored hsaved (openPartition_restoresTxns call htop) ?_ ?_
    · change p.logStart≤p.highWater
      rw [hlow,had.highWater]
      exact hstart m hm'
    · intro opened aborted hp
      rw [show (Store.mk p d).highWater=p.highWater from rfl,had.highWater]
      exact hfits opened aborted hp

theorem restartSound_step {op : RestartOp} (h : RestartSound crc s) (hok : RestartOk crc s op)
    (hs : RestartStep crc s op t) : RestartSound crc t := by
  cases hs with
  | crash left call => exact restartSound_crash h hok left call
  | run taken =>
    have hanchored := anchored_step h.toAnchored hok taken
    suffices hrest : TxnsPlaced t.toPartitionInner ∧ Saved t.dir from ⟨hanchored,hrest.1,hrest.2⟩
    refine partitionStep_cases (P := fun t => TxnsPlaced t.toPartitionInner ∧ Saved t.dir) taken ?_
      ⟨h.placed,h.saved⟩ ?_ ?_ ?_
      (fun _ _ => ⟨h.placed.congr (fun _ => rfl) rfl rfl rfl,h.saved⟩) ?_
    · rintro c r s1 rfl call
      have h1 := restartSound_append h hok call
      exact ⟨h1.placed,h1.saved⟩
    · rintro env s1 seq cp rfl call
      obtain ⟨hinner,_,hmanifest,htxns⟩ := commit_ends call
      refine ⟨?_,h.saved.congr htxns hmanifest⟩
      rw [hinner]
      exact h.placed.congr (fun _ => rfl) rfl rfl rfl
    · rintro env epoch rfl
      obtain ⟨hhigh,hstart,hopen,hab,hdir⟩ := takeOver_windows env epoch s
      refine ⟨h.placed.congr (fun pid => by rw [hopen]) hab hstart hhigh,?_⟩
      rcases hdir with hrest|⟨d,g,hrest,ho,ha,hd⟩
      · exact h.saved.congr hrest.txns hrest.manifest
      · rw [hd]
        refine saved_persist (h.saved.congr hrest.txns hrest.manifest) env ?_ (Int.natCast_nonneg _)
        rw [ho,ha]
        exact h.placed.toTxnsApart
    · intro env target
      rcases deleteRecords_cases env target s with hr|⟨low,htarget,_,hr⟩
      · rw [hr]
        exact ⟨h.placed,h.saved⟩
      · rw [hr]
        refine ⟨h.placed.delete low (deleteTarget_le htarget) rfl rfl rfl rfl,?_⟩
        have hrest := removeSegments_segmentsOnly (dropBelow s low) s.dir
        simp only [Store.publish]
        split_ifs
        · exact h.saved.congr hrest.txns hrest.manifest
        · exact h.saved
    · rintro closing opening s1 d p rfl hclose hopen
      have h1 := restartSound_reopen h hok hclose hopen
      exact ⟨h1.placed,h1.saved⟩

theorem firstStore_restartSound (crc : Crc32c) : RestartSound crc firstStore := by
  refine ⟨firstStore_anchored crc,⟨⟨?_,?_,List.Pairwise.nil⟩,?_,?_,by decide,?_⟩,⟨?_,?_⟩⟩
  · rintro pid pid' o ⟨⟩
  · rintro e ⟨⟩
  · rintro pid o ⟨⟩
  · rintro e ⟨⟩
  · rintro e ⟨⟩
  · rintro opened aborted ⟨⟩
  · rintro m ⟨⟩
    decide

theorem reopen_succeeds (h : Anchored crc s) (opening : IoEnv)
    (hclose : closePartition closing s=(s',.ok ())) : ∃d p,openPartition crc opening s'.dir=(d,.ok p) := by
  obtain ⟨f,fs,ht⟩ := h.tracks
  obtain ⟨hproducers,htxns,_⟩ := closePartition_persisted hclose h.disk.manifest.superseded
  refine openPartition_total crc opening (ht.top.congr (closed_logs hclose).mem) ⟨?_,?_,?_⟩
  · exact ⟨_,(ManifestFiles.read_present _ _).mpr (closed_manifest h.disk.manifest hclose)⟩
  · rw [hproducers]
    simp
  · rw [htxns]
    simp

end Steps

/-- In every run, crashes included, a partition that is closed with its log whole is opened again,
and with the state it was closed with. -/
theorem restart_restores_state (crc : Crc32c) (s : Store)
    (run : Reaches (RestartStep crc) (RestartOk crc) firstStore s) (hwhole : WholeLog s)
    (closing opening : IoEnv) (s' : Store) (hclose : closePartition closing s=(s',.ok ())) :
    ∃d p,openPartition crc opening s'.dir=(d,.ok p) ∧ Restored s p := by
  have h := run.invariant (firstStore_restartSound crc) (fun _ _ _ h hok hs => restartSound_step h hok hs)
  obtain ⟨d,p,hopen⟩ := reopen_succeeds h.toAnchored opening hclose
  exact ⟨d,p,hopen,reopen_restored h hwhole hclose hopen⟩

theorem reaches_restart {crc : Crc32c} {s t : Store} (run : Reaches (PartitionStep crc) (AnchorOk crc) s t) :
    Reaches (RestartStep crc) (RestartOk crc) s t := by
  induction run with
  | start => exact .start
  | next op _ meets taken ih => exact .next (.run op) ih meets (.run taken)

def appendBatch (batch : Bytes) : PartitionOp := .append ⟨{},{},0,batch⟩

theorem restarted_txns_match : ∃s s' d p,runChecked (Store.exec castagnoli) (AnchorOk castagnoli)
        [appendBatch (txnBatch 7 0),appendBatch (txnBatch 8 0),
          appendBatch (buildControlBatch castagnoli 7 0 false 0),
          .takeOver {} 3] firstStore=some s ∧
      closePartition {} s=(s',.ok ()) ∧ openPartition castagnoli {} s'.dir=(d,.ok p) ∧
      s.abortedTxns=[⟨7,0,2⟩] ∧ s.openTxns.lookup 8=some 1 ∧ s.epoch=3 ∧ Restored s p := by
  obtain ⟨s,hs,h1,h2,h3,hwhole,hclose⟩ : ∃s∈runChecked (Store.exec castagnoli) (AnchorOk castagnoli)
      [appendBatch (txnBatch 7 0),appendBatch (txnBatch 8 0),
        appendBatch (buildControlBatch castagnoli 7 0 false 0),.takeOver {} 3] firstStore,
      s.abortedTxns=[⟨7,0,2⟩] ∧ s.openTxns.lookup 8=some 1 ∧ s.epoch=3 ∧ WholeLog s ∧
        (closePartition {} s).2.toOption=some () := by decide +kernel
  have hreach := reaches_restart (runChecked_reaches (fun _ _ _ h => h) _ firstStore firstStore s .start hs)
  have hok := eq_ok_of_toOption hclose
  obtain ⟨d,p,hopen,hr⟩ := restart_restores_state castagnoli s hreach hwhole {} {} _ hok
  exact ⟨s,_,d,p,hs,hok,hopen,h1,h2,h3,hr⟩

/-- An append that fails at the index has its batch in the log all the same: the partition is closed
at high watermark 1 and comes up at 2. -/
theorem failed_append_reappears : WellFormed castagnoli plainBatch ∧
    ∃s s' d p,runAll (Store.exec castagnoli) [appendBatch plainBatch,
        .append ⟨{indexIntervalBytes := 1},{indexWrite := false},0,plainBatch⟩] firstStore=some s ∧
      closePartition {} s=(s',.ok ()) ∧ openPartition castagnoli {} s'.dir=(d,.ok p) ∧
      s.highWater=1 ∧ p.highWater=2 := by
  obtain ⟨s,hs,p,hp,hclose,h⟩ : ∃s∈runAll (Store.exec castagnoli) [appendBatch plainBatch,
      .append ⟨{indexIntervalBytes := 1},{indexWrite := false},0,plainBatch⟩] firstStore,
      ∃p∈(openPartition castagnoli {} (closePartition {} s).1.dir).2.toOption,
        (closePartition {} s).2.toOption=some () ∧ s.highWater=1 ∧ p.highWater=2 := by decide +kernel
  exact ⟨by decide +kernel,s,_,_,p,hs,eq_ok_of_toOption hclose,eq_ok_of_toOption hp,h⟩

end Kaas
