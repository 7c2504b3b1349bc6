import Kaas.Txn.History

namespace Kaas

/-- One transaction of a reconcile pass: it is completed once its markers are dispatched. -/
def reconcileOne (dispatched : PendingMarkerDispatch → Bool) (io : String → SlotIo)
    (acc : TxnStore × Nat) (p : PendingMarkerDispatch) : TxnStore × Nat :=
  if dispatched p then
    match acc.1.completeEndTxn (io p.txnId) p.txnId p.pid p.epoch p.commit with
    | (s,.ok _) => (s,acc.2+1)
    | (s,.error _) => (s,acc.2)
  else acc

def reconcilePendingMarkers (s : TxnStore) (loads : Nat → Bool) (owns : OwnsTxn)
    (dispatched : PendingMarkerDispatch → Bool) (io : String → SlotIo) : TxnStore × Nat :=
  (s.pendingMarkerDispatches loads owns).foldl (reconcileOne dispatched io) (s,0)

def Fits (s : TxnStore) (d : PendingMarkerDispatch) : Prop :=
  d.txnId≠"" ∧ ∃e,s.entry d.txnId=some e ∧ e.pid=d.pid ∧ e.epoch=d.epoch ∧
    (e.state=wantPrepare d.commit ∨ e.state=wantComplete d.commit)

theorem wantComplete_inj {a b : Bool} (h : wantComplete a=wantComplete b) : a=b := by
  cases a <;> cases b <;> first | rfl | cases h

section Pass

variable {s : TxnStore} {d d' : PendingMarkerDispatch}

theorem completeEndTxn_fits (io : SlotIo) (hf : Fits s d) :
    ∃e,s.entry d.txnId=some e ∧ ∃e',e'.pid=d.pid ∧ e'.epoch=d.epoch ∧ e'.state=wantComplete d.commit ∧
      ∀id,(s.completeEndTxn io d.txnId d.pid d.epoch d.commit).1.entry id=
        if id=d.txnId ∧ io.load=true ∧ io.persist=true ∨ id=d.txnId ∧ e.state=wantComplete d.commit then some e'
        else s.entry id := by
  obtain ⟨hid,e,he,hpid,hepoch,hstate⟩ := hf
  have hvalid : TxnEntry.validate d.pid d.epoch (some e)=.ok e := by
    simp [TxnEntry.validate,hpid,hepoch]
  refine ⟨e,he,?_⟩
  by_cases hdone : e.state=wantComplete d.commit
  · have hcomp : TxnEntry.complete d.pid d.epoch d.commit (some e)=.ok (none,[]) := by
      simp [TxnEntry.complete,hvalid,hdone]
    refine ⟨e,hpid,hepoch,hdone,fun id => ?_⟩
    have hsame : (s.completeEndTxn io d.txnId d.pid d.epoch d.commit).1=s := by
      unfold TxnStore.completeEndTxn TxnStore.access
      rw [he,hcomp]
      split_ifs <;> rfl
    rw [hsame]
    by_cases hx : id=d.txnId
    · rw [if_pos (Or.inr ⟨hx,hdone⟩),hx,he]
    · rw [if_neg (fun h => hx (h.elim And.left And.left))]
  · have hready : e.state=wantPrepare d.commit := hstate.resolve_right hdone
    have hcomp : TxnEntry.complete d.pid d.epoch d.commit (some e)=
        .ok (some (e.completed d.commit),e.groups.map (fun g => ⟨g,d.pid,d.commit⟩)) := by
      simp [TxnEntry.complete,hvalid,hready,TxnEntry.completed,(wantComplete_ne_wantPrepare _ _).symm]
    refine ⟨e.completed d.commit,hpid,hepoch,rfl,fun id => ?_⟩
    by_cases hio : io.load=true ∧ io.persist=true
    · have hio' : io={} := by
        obtain ⟨l,p⟩ := io
        obtain ⟨rfl,rfl⟩ := hio
        rfl
      have hacc : s.completeEndTxn io d.txnId d.pid d.epoch d.commit=
          (s.insert d.txnId (e.completed d.commit),.ok (e.groups.map (fun g => ⟨g,d.pid,d.commit⟩))) := by
        rw [hio']
        apply access_succeeds hid
        rw [he]
        exact hcomp
      rw [hacc,insert_entry]
      by_cases hx : id=d.txnId
      · rw [if_pos hx,if_pos (Or.inl ⟨hx,hio⟩)]
      · rw [if_neg hx,if_neg (fun h => hx (h.elim And.left And.left))]
    · have hfail : (s.completeEndTxn io d.txnId d.pid d.epoch d.commit).1=s := by
        unfold TxnStore.completeEndTxn TxnStore.access
        rw [he,hcomp]
        by_cases hl : io.load=false
        · rw [if_neg hid,if_pos hl]
        · have hp : ¬io.persist=true := fun hp => hio ⟨by simpa using hl,hp⟩
          rw [if_neg hid,if_neg hl]
          dsimp only
          rw [if_neg hp]
      rw [hfail,if_neg]
      intro h
      rcases h with ⟨_,h⟩|⟨_,h⟩
      · exact hio h
      · exact hdone h

theorem fits_completeEndTxn (io : SlotIo) (hf : Fits s d) (hf' : Fits s d') :
    Fits (s.completeEndTxn io d.txnId d.pid d.epoch d.commit).1 d' := by
  obtain ⟨e,he,e',hpid,hepoch,hstate,hentry⟩ := completeEndTxn_fits io hf
  obtain ⟨hid,y,hy,hpid',hepoch',hstate'⟩ := hf'
  refine ⟨hid,?_⟩
  rw [hentry d'.txnId]
  split_ifs with hx
  · have hsame : d'.txnId=d.txnId := hx.elim And.left And.left
    rw [hsame,he] at hy
    cases hy
    obtain ⟨_,z,hz,hzpid,hzepoch,hzstate⟩ := hf
    rw [he] at hz
    cases hz
    have hcommit : d.commit=d'.commit := by
      rcases hzstate with h1|h1
      · rcases hstate' with h2|h2
        · exact wantPrepare_inj (h1.symm.trans h2)
        · exact absurd (h2.symm.trans h1) (wantComplete_ne_wantPrepare _ _)
      · rcases hstate' with h2|h2
        · exact absurd (h1.symm.trans h2) (wantComplete_ne_wantPrepare _ _)
        · exact wantComplete_inj (h1.symm.trans h2)
    exact ⟨e',rfl,hpid.trans (hzpid.symm.trans hpid'),hepoch.trans (hzepoch.symm.trans hepoch'),
      Or.inr (hcommit ▸ hstate)⟩
  · exact ⟨y,hy,hpid',hepoch',hstate'⟩

end Pass

theorem reconcile_foldl (dispatched : PendingMarkerDispatch → Bool) (io : String → SlotIo)
    (ds : List PendingMarkerDispatch) (hdone : ∀d∈ds,dispatched d=true) (acc : TxnStore × Nat)
    (hfits : ∀d∈ds,Fits acc.1 d) (id : String) :
    ((∃d∈ds,d.txnId=id ∧ (io id).load=true ∧ (io id).persist=true) ∨ (∃e,acc.1.entry id=some e ∧ ¬e.preparing) →
      ∃e,(ds.foldl (reconcileOne dispatched io) acc).1.entry id=some e ∧ ¬e.preparing) ∧
    ((∀d∈ds,d.txnId=id → ¬((io id).load=true ∧ (io id).persist=true)) →
      (∀e,acc.1.entry id=some e → e.preparing) →
      (ds.foldl (reconcileOne dispatched io) acc).1.entry id=acc.1.entry id) := by
  induction ds generalizing acc with
  | nil =>
    constructor
    · intro h
      rcases h with ⟨d,hd,_⟩|h
      · cases hd
      · exact h
    · intro _ _
      rfl
  | cons d ds ih =>
    have hfit := hfits d (List.mem_cons_self ..)
    have hstep : (reconcileOne dispatched io acc d).1=
        (acc.1.completeEndTxn (io d.txnId) d.txnId d.pid d.epoch d.commit).1 := by
      unfold reconcileOne
      rw [if_pos (hdone d (List.mem_cons_self ..))]
      split <;> rename_i heq <;> rw [heq]
    obtain ⟨e,he,e',_,_,hstate,hentry⟩ := completeEndTxn_fits (io d.txnId) hfit
    obtain ⟨ih1,ih2⟩ := ih (fun x hx => hdone x (List.mem_cons_of_mem _ hx)) (reconcileOne dispatched io acc d)
      (fun x hx => by rw [hstep]; exact fits_completeEndTxn _ hfit (hfits x (List.mem_cons_of_mem _ hx)))
    rw [List.foldl_cons]
    constructor
    · intro h
      apply ih1
      rw [hstep,hentry id]
      split_ifs with hx
      · exact Or.inr ⟨e',rfl,not_preparing_of_complete hstate⟩
      · rcases h with ⟨x,hmem,hid,hio⟩|h
        · rcases List.mem_cons.mp hmem with rfl|hmem
          · exact absurd (Or.inl ⟨hid.symm,by rw [hid]; exact hio⟩) hx
          · exact Or.inl ⟨x,hmem,hid,hio⟩
        · exact Or.inr h
    · intro hnone hprep
      have hsame : (reconcileOne dispatched io acc d).1.entry id=acc.1.entry id := by
        rw [hstep,hentry id]
        apply if_neg
        intro hx
        rcases hx with ⟨hid,hio⟩|⟨hid,hcomplete⟩
        · rw [← hid] at hio
          exact hnone d (List.mem_cons_self ..) hid.symm hio
        · rw [← hid] at he
          exact not_preparing_of_complete hcomplete (hprep e he)
      rw [← hsame]
      apply ih2
      · intro x hx
        exact hnone x (List.mem_cons_of_mem _ hx)
      · intro y hy
        rw [hsame] at hy
        exact hprep y hy

theorem fits_pending {s : TxnStore} (hp : Placed s) (loads : Nat → Bool) (owns : OwnsTxn)
    (d : PendingMarkerDispatch) (hd : d∈s.pendingMarkerDispatches loads owns) : Fits s d := by
  obtain ⟨_,e,he,hpend⟩ := (mem_pendingMarkerDispatches hp loads owns d).mp hd
  obtain ⟨hprep,_,_,heq⟩ := pendingOf_some.mp hpend
  refine ⟨(hp.2 _ _ (AList.lookup_isSome.mp
    (by rw [show (s.slots _).lookup _=some e from he]; rfl))).2,e,he,?_,?_,
    Or.inl ?_⟩
  · rw [heq]
  · rw [heq]
  · rw [heq]
    rcases hprep with hs|hs <;> rw [hs] <;> rfl

theorem pending_iff {s : TxnStore} (hp : Placed s) (loads : Nat → Bool) (owns : OwnsTxn)
    (id : String) : (∃d∈s.pendingMarkerDispatches loads owns,d.txnId=id) ↔
      loads (s.slotFor id)=true ∧ ∃e,s.entry id=some e ∧ e.preparing ∧ e.partitions≠[] ∧ owns.owns id=true := by
  constructor
  · intro ⟨d,hd,hid⟩
    obtain ⟨hload,e,he,hpend⟩ := (mem_pendingMarkerDispatches hp loads owns d).mp hd
    obtain ⟨hprep,hparts,hown,_⟩ := pendingOf_some.mp hpend
    rw [hid] at hload he hown
    exact ⟨hload,e,he,hprep,hparts,hown⟩
  · intro ⟨hload,e,he,hprep,hparts,hown⟩
    refine ⟨⟨id,e.pid,e.epoch,e.state=.prepareCommit,e.partitions⟩,?_,rfl⟩
    exact (mem_pendingMarkerDispatches hp loads owns _).mpr
      ⟨hload,e,he,pendingOf_some.mpr ⟨hprep,hparts,hown,rfl⟩⟩

theorem reconcile_entry {s : TxnStore} (hp : Placed s) {loads : Nat → Bool} {owns : OwnsTxn}
    {dispatched : PendingMarkerDispatch → Bool} {io : String → SlotIo}
    (hdone : ∀d∈s.pendingMarkerDispatches loads owns,dispatched d=true) {id : String} {e : TxnEntry}
    (he : s.entry id=some e) (hown : owns.owns id=true) (hprep : e.preparing) :
    (∀x,(reconcilePendingMarkers s loads owns dispatched io).1.entry id=some x → ¬x.preparing) ↔
      e.partitions≠[] ∧ loads (s.slotFor id)=true ∧ (io id).load=true ∧ (io id).persist=true := by
  obtain ⟨hclosed,hkept⟩ := reconcile_foldl dispatched io _ hdone (s,0) (fits_pending hp loads owns) id
  constructor
  · intro h
    by_contra hbad
    -- not taken up, or the slot fails: the entry is still the prepared one
    have hsame : (reconcilePendingMarkers s loads owns dispatched io).1.entry id=s.entry id := by
      apply hkept
      · intro d hd hid hio
        obtain ⟨hload,y,hy,_,hparts,_⟩ := (pending_iff hp loads owns id).mp ⟨d,hd,hid⟩
        rw [he] at hy
        cases hy
        exact hbad ⟨hparts,hload,hio⟩
      · intro y hy
        rw [he] at hy
        cases hy
        exact hprep
    exact h e (hsame.trans he) hprep
  · intro ⟨hparts,hload,hio⟩ x hx
    obtain ⟨d,hd,hid⟩ := (pending_iff hp loads owns id).mpr ⟨hload,e,he,hprep,hparts,hown⟩
    obtain ⟨y,hy,hidle⟩ := hclosed (Or.inl ⟨d,hd,hid,hio⟩)
    have hxy : x=y := Option.some.inj (hx.symm.trans hy)
    rw [hxy]
    exact hidle

theorem reconcile_idle {s : TxnStore} (hp : Placed s) {loads : Nat → Bool} {owns : OwnsTxn}
    {dispatched : PendingMarkerDispatch → Bool} {io : String → SlotIo}
    (hdone : ∀d∈s.pendingMarkerDispatches loads owns,dispatched d=true) {id : String}
    (hidle : ∀e,s.entry id=some e → ¬e.preparing) {x : TxnEntry}
    (hx : (reconcilePendingMarkers s loads owns dispatched io).1.entry id=some x) : ¬x.preparing := by
  obtain ⟨hclosed,hkept⟩ := reconcile_foldl dispatched io _ hdone (s,0) (fits_pending hp loads owns) id
  cases he : s.entry id with
  | none =>
    have hsame : (reconcilePendingMarkers s loads owns dispatched io).1.entry id=s.entry id := by
      apply hkept
      · intro d hd hid _
        obtain ⟨_,y,hy,_⟩ := (pending_iff hp loads owns id).mp ⟨d,hd,hid⟩
        rw [he] at hy
        cases hy
      · intro y hy
        exact absurd (hy.symm.trans he) nofun
    rw [hsame,he] at hx
    cases hx
  | some e =>
    obtain ⟨y,hy,hdone'⟩ := hclosed (Or.inr ⟨e,he,hidle e he⟩)
    have hxy : x=y := Option.some.inj (hx.symm.trans hy)
    rw [hxy]
    exact hdone'

/-- A pass whose markers are all written leaves no owned entry prepared exactly if each has a
partition and a slot that can be read and written, and is handed all exactly if each has a partition
and a readable slot. -/
theorem reconcile_completes_all {n : Nat} {w : TxnWorld}
    (run : Reaches TxnStoreStep (fun _ _ => True) (TxnWorld.start n) w) (loads : Nat → Bool)
    (owns : OwnsTxn) (dispatched : PendingMarkerDispatch → Bool) (io : String → SlotIo)
    (hdone : ∀d∈w.store.pendingMarkerDispatches loads owns,dispatched d=true) :
    ((∀id x,(reconcilePendingMarkers w.store loads owns dispatched io).1.entry id=some x →
        owns.owns id=true → ¬x.preparing) ↔
      ∀id e,w.store.entry id=some e → owns.owns id=true → e.preparing →
        e.partitions≠[] ∧ loads (w.store.slotFor id)=true ∧ (io id).load=true ∧ (io id).persist=true) ∧
    ((∀id e,w.store.entry id=some e → owns.owns id=true → e.preparing →
        ∃d∈w.store.pendingMarkerDispatches loads owns,d.txnId=id) ↔
      ∀id e,w.store.entry id=some e → owns.owns id=true → e.preparing →
        e.partitions≠[] ∧ loads (w.store.slotFor id)=true) := by
  have hp : Placed w.store :=
    (reaches_each (P := fun _ _ => True) (J :=
      fun _ => True) run trivial (fun _ _ _ _ _ _ => trivial) (fun _ _ _ _ _ _ => trivial)).1
  refine ⟨⟨?_,?_⟩,?_,?_⟩
  · intro h id e he hown hprep
    exact (reconcile_entry hp hdone he hown hprep).mp (fun x hx => h id x hx hown)
  · intro h id x hx hown
    by_cases hidle : ∀e,w.store.entry id=some e → ¬e.preparing
    · exact reconcile_idle hp hdone hidle hx
    · push Not at hidle
      obtain ⟨e,he,hprep⟩ := hidle
      exact (reconcile_entry hp hdone he hown hprep).mpr (h id e he hown hprep) x hx
  · intro h id e he hown hprep
    obtain ⟨hload,y,hy,_,hparts,_⟩ := (pending_iff hp loads owns id).mp (h id e he hown hprep)
    rw [he] at hy
    cases hy
    exact ⟨hparts,hload⟩
  · intro h id e he hown hprep
    obtain ⟨hparts,hload⟩ := h id e he hown hprep
    exact (pending_iff hp loads owns id).mpr ⟨hload,e,he,hprep,hparts,hown⟩

theorem reconcile_completes_all_swept :
    ∃w,Reaches TxnStoreStep (fun _ _ => True) (TxnWorld.start 1) w ∧
      (w.store.entry "tx").any (fun e => e.preparing)=true ∧
      ∀id x,(reconcilePendingMarkers w.store (fun _ => true) none (fun _ => true)
        (fun _ => {})).1.entry id=some x →
        ¬x.preparing := by
  obtain ⟨w,hreach,hslots,hprep,hparts⟩ : ∃w,Reaches TxnStoreStep (fun _ _ => True) (TxnWorld.start 1) w ∧
      w.store.numSlots=1 ∧ (w.store.entry "tx").any (fun e => e.preparing)=true ∧
      (w.store.slots 0).entries.all (fun x => x.2.partitions≠[])=true := by
    refine runChecked_finds (f := TxnWorld.exec) (fun _ _ => rfl) [.initProducerId {} "tx" 1000 7,
      .addPartitions {} "tx" 7 0 [⟨"t",[0]⟩] 10,.addOffsetsToTxn {} "tx" 7 0 "billing" 20,
      .abortOverdueOwned (fun _ => {}) 2000 none] ?_
    decide +kernel
  refine ⟨w,hreach,hprep,fun id x hx => ?_⟩
  refine (reconcile_completes_all hreach (fun _ => true) none (fun _ => true) (fun _ => {})
    (fun _ _ => rfl)).1.mpr
    ?_ id x hx rfl
  intro id' e he _ _
  have hzero : w.store.slotFor id'=0 := by rw [TxnStore.slotFor,hslots,Nat.mod_one]
  rw [TxnStore.entry,hzero] at he
  have hmem := List.all_eq_true.mp hparts ⟨id',e⟩ (AList.mem_lookup_iff.mp he)
  exact ⟨of_decide_eq_true hmem,rfl,rfl,rfl⟩

/-- A transaction that only joined a group stays prepared: no pass takes it up. -/
theorem reconcile_leaves_group_only :
    ¬∀(n : Nat) (w : TxnWorld),Reaches TxnStoreStep (fun _ _ => True) (TxnWorld.start n) w →
      ∀(owns : OwnsTxn) (dispatched : PendingMarkerDispatch → Bool),
        (∀d∈w.store.pendingMarkerDispatches (fun _ => true) owns,dispatched d=true) →
      ∀id x,(reconcilePendingMarkers w.store (fun _ => true) owns dispatched (fun _ => {})).1.entry
        id=some x → owns.owns id=true → ¬x.preparing := by
  intro hall
  obtain ⟨w,hreach,hfound⟩ : ∃w,Reaches TxnStoreStep (fun _ _ => True) (TxnWorld.start 1) w ∧
      ((reconcilePendingMarkers w.store (fun _ => true) none (fun _ => true)
      (fun _ => {})).1.entry "tx").any (fun e => e.preparing)=true := by
    refine runChecked_finds (f := TxnWorld.exec) (fun _ _ => rfl) [.initProducerId {} "tx" 1000 7,
      .addOffsetsToTxn {} "tx" 7 0 "billing" 10,.abortOverdueOwned (fun _ => {}) 2000 none] ?_
    decide +kernel
  obtain ⟨x,hx,hprep⟩ := (Option.any_eq_true _ _).mp hfound
  exact hall 1 w hreach none (fun _ => true) (fun _ _ => rfl) "tx" x hx rfl (of_decide_eq_true hprep)

end Kaas
