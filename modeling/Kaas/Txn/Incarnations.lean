import Kaas.Txn.Outcomes

namespace Kaas

/-! What a transaction still owes. -/

def TxnEntry.Unrecorded (e : TxnEntry) : Prop := ∀t∈e.partitions,t.partitions=[]

instance (e : TxnEntry) : Decidable e.Unrecorded :=
  inferInstanceAs (Decidable (∀t∈e.partitions,t.partitions=[]))

theorem TxnEntry.Unrecorded.not_records {e : TxnEntry} (h : e.Unrecorded) (topic : String)
    (p : Int) : ¬TxnEntry.Records e.partitions topic p := by
  intro ⟨t,ht,_,hp⟩
  rw [h t ht] at hp
  cases hp

def TxnHeld (x : Option TxnEntry) (h : TxnHistory) : Prop :=
  ∀e,x=some e → e.state=.ongoing ∨ e.preparing → ∀a∈h.added,TxnEntry.Records e.partitions a.2.1 a.2.2

variable {R : TxnEntry → Prop} {x' : Option TxnEntry}

namespace TxnHeld

variable {x : Option TxnEntry} {h h' : TxnHistory} {e e' : TxnEntry}

theorem opens (hh : TxnHeld (some e) h) (pid nowMs : Int) :
    ∀a∈(h.opens (some e) pid nowMs).added,TxnEntry.Records e.partitions a.2.1 a.2.2 := by
  intro a ha
  by_cases hs : e.state=.ongoing
  · rw [opens_ongoing hs] at ha
    exact hh e rfl (Or.inl hs) a ha
  · rw [opens_idle hs] at ha
    cases ha

theorem of_partitions (hh : TxnHeld (some e) h) (hs : e.state=.ongoing ∨ e.preparing)
    (hp : e'.partitions=e.partitions) (ha : h'.added=h.added) : TxnHeld (some e') h' := by
  intro y hy _ a hin
  cases hy
  rw [hp]
  rw [ha] at hin
  exact hh e rfl hs a hin

theorem mem_adds {epoch : Int} {additions : List TxnTopic} {a : Int × String × Int} :
    a∈(h.adds epoch additions).added ↔ a∈h.added ∨ (a.1=epoch ∧ TxnEntry.Records additions a.2.1 a.2.2) := by
  obtain ⟨ep,topic,p⟩ := a
  simp only [TxnHistory.adds,List.mem_append,List.mem_flatMap,List.mem_map,Prod.mk.injEq,TxnEntry.Records]
  constructor
  · intro hin
    rcases hin with hin|⟨t,ht,q,hq,rfl,rfl,rfl⟩
    · exact Or.inl hin
    · exact Or.inr ⟨rfl,t,ht,rfl,hq⟩
  · intro hin
    rcases hin with hin|⟨rfl,t,ht,rfl,hq⟩
    · exact Or.inl hin
    · exact Or.inr ⟨t,ht,p,hq,rfl,rfl,rfl⟩

theorem change {J : Option TxnEntry → Prop} (hh : TxnHeld x h)
    (hch : TxnChange J R x h x' h') : TxnHeld x' h' := by
  cases hch with
  | same => exact hh
  | joined _ _ timeoutMs alloc _ =>
    rcases rejoin_cases timeoutMs alloc x with ⟨_,_,_,hs,_⟩|⟨e,rfl,_,timeout,hnew⟩
    · intro y hy hact
      cases hy
      rw [TxnEntry.preparing,hs] at hact
      simp at hact
    · rw [hnew]
      intro y hy hact
      cases hy
      exact hh e rfl hact
  | added e _ additions nowMs _ =>
    intro y hy _ a ha
    cases hy
    rw [opened_partitions,mergePartitions_records]
    rcases mem_adds.mp ha with ha|⟨_,ha⟩
    · exact Or.inl (hh.opens e.pid nowMs a ha)
    · exact Or.inr ha
  | grouped e _ groupId nowMs _ =>
    intro y hy _ a ha
    cases hy
    rw [opened_partitions]
    exact hh.opens e.pid nowMs a ha
  | prepared e _ commit ho => exact hh.of_partitions (Or.inl ho) rfl rfl
  | redriven e _ commit n hr => exact hh.of_partitions (Or.inr (wantPrepare_preparing hr)) rfl rfl
  | completed e _ commit hr =>
    intro y hy hact
    cases hy
    rcases hact with hact|hact
    · exact absurd hact (wantComplete_ne_ongoing commit)
    · obtain ⟨c,hc⟩ := preparing_iff.mp hact
      exact absurd hc (wantComplete_ne_wantPrepare commit c)
  | reaped e _ ho _ => exact hh.of_partitions (Or.inl ho) rfl rfl

end TxnHeld

/-- `InitProducerId` finds no entry whose epochs are used up while it has anything on record. -/
def RotatesEmpty (w : TxnWorld) : TxnStoreOp → Prop
  | .initProducerId _ txnId _ _ =>
    ∀e∈w.store.entry txnId,e.epoch=i16Max → e.Unrecorded ∧ e.groups=[]
  | _ => True

instance (w : TxnWorld) : (op : TxnStoreOp) → Decidable (RotatesEmpty w op)
  | .initProducerId _ txnId _ _ =>
    inferInstanceAs (Decidable (∀e∈w.store.entry txnId,e.epoch=i16Max → e.Unrecorded ∧ e.groups=[]))
  | .addPartitions .. | .addOffsetsToTxn .. | .prepareEndTxn .. | .completeEndTxn ..
  | .pendingMarkerDispatches .. | .abortOverdueOwned .. => .isTrue trivial

def TxnSettled (x : Option TxnEntry) (h : TxnHistory) : Prop :=
  (∀e,x=some e → e.state≠.ongoing ∧ ¬e.preparing) → h.added=[] ∧ h.groups=[]

theorem TxnSettled.change {x : Option TxnEntry} {h h' : TxnHistory}
    (hs : TxnSettled x h) (hh : TxnHeld x h)
    (hk : TxnHooked x h)
    (hch : TxnChange (fun x => ∀e∈x,e.epoch=i16Max → e.Unrecorded ∧ e.groups=[]) R x h x' h')
    : TxnSettled x' h' := by
  cases hch with
  | same => exact hs
  | joined _ _ timeoutMs alloc hfound =>
    rcases rejoin_cases timeoutMs alloc x with ⟨hmax,_⟩|⟨e,rfl,_,timeout,hnew⟩
    · intro _
      by_cases hact : ∃e,x=some e ∧ (e.state=.ongoing ∨ e.preparing)
      · obtain ⟨e,rfl,hact⟩ := hact
        obtain ⟨hnone,hgroups⟩ := hfound e rfl (hmax e rfl)
        constructor
        · apply List.eq_nil_iff_forall_not_mem.mpr
          intro a ha
          exact hnone.not_records _ _ (hh e rfl hact a ha)
        · exact (hk.active e rfl hact).2.1.symm.trans hgroups
      · apply hs
        intro e he
        exact not_or.mp (fun h => hact ⟨e,he,h⟩)
    · rw [hnew]
      intro hidle
      apply hs
      intro y hy
      cases hy
      exact hidle {e with epoch := e.epoch+1,transactionTimeoutMs := timeout} rfl
  | added e _ additions nowMs _ | grouped e _ groupId nowMs _ =>
    intro hidle
    exact absurd (opened_state _ _) (hidle _ rfl).1
  | prepared e _ commit _ =>
    intro hidle
    exact absurd (wantPrepare_preparing (show _=wantPrepare commit from rfl)) (hidle _ rfl).2
  | redriven e _ commit n hr =>
    intro hidle
    exact absurd (wantPrepare_preparing hr) (hidle _ rfl).2
  | completed e _ commit hr =>
    intro _
    simp [TxnHistory.completes,isPreparing,wantPrepare_preparing hr]
  | reaped e _ _ _ =>
    intro hidle
    exact absurd (Or.inr rfl) (hidle _ rfl).2

/-- What has been added to a transaction stays on record until the transaction is completed, in
every run in which no rotation of a pid finds anything on record. -/
theorem additions_recorded {n : Nat} {w : TxnWorld}
    (run : Reaches TxnStoreStep RotatesEmpty (TxnWorld.start n) w)
    (id : String) :
    (∀a∈(w.history id).added,∃e,w.store.entry id=some e ∧ TxnEntry.Records e.partitions a.2.1 a.2.2) ∧
      ∀g∈(w.history id).groups,∃e,w.store.entry id=some e ∧ g∈e.groups := by
  have h := (reaches_each (J := fun x => ∀e∈x,e.epoch=i16Max → e.Unrecorded ∧ e.groups=[])
    (P := fun x h => TxnClean x h ∧ TxnHooked x h ∧ TxnHeld x h ∧ TxnSettled x h) run
    ⟨⟨nofun,nofun⟩,⟨rfl,List.nodup_nil,nofun,List.Pairwise.nil,nofun,nofun⟩,nofun,fun _ => ⟨rfl,rfl⟩⟩
    (fun _ _ _ _ hp hc => ⟨hp.1.change hc,hp.2.1.change hp.1 hc,hp.2.2.1.change hc,
      hp.2.2.2.change hp.2.2.1 hp.2.1 hc⟩) (fun _ _ _ _ _ hok => hok)).2 id
  obtain ⟨_,hhooked,hheld,hsettled⟩ := h
  by_cases hact : ∃e,w.store.entry id=some e ∧ (e.state=.ongoing ∨ e.preparing)
  · obtain ⟨e,he,hact⟩ := hact
    refine ⟨fun a ha => ⟨e,he,hheld e he hact a ha⟩,fun g hg => ⟨e,he,?_⟩⟩
    rw [(hhooked.active e he hact).2.1]
    exact hg
  · obtain ⟨hadded,hgroups⟩ := hsettled (fun e he => not_or.mp (fun h => hact ⟨e,he,h⟩))
    rw [hadded,hgroups]
    exact ⟨nofun,nofun⟩

theorem additions_recorded_rejoined :
    ∃w,Reaches TxnStoreStep RotatesEmpty (TxnWorld.start 1) w ∧ (w.history "tx").added=[(1,"t",0)] ∧
      (w.history "tx").groups=["billing"] ∧
      (∃e,w.store.entry "tx"=some e ∧ TxnEntry.Records e.partitions "t" 0) ∧
      ∃e,w.store.entry "tx"=some e ∧ "billing"∈e.groups := by
  obtain ⟨w,hreach,h1,h2⟩ : ∃w,Reaches TxnStoreStep RotatesEmpty (TxnWorld.start 1) w ∧
      (w.history "tx").added=[(1,"t",0)] ∧ (w.history "tx").groups=["billing"] := by
    refine runChecked_finds (f := TxnWorld.exec) (fun _ _ => rfl) [.initProducerId {} "tx" 1000 7,
      .initProducerId {} "tx" 1000 8,.addPartitions {} "tx" 7 1 [⟨"t",[0]⟩] 10,
      .addOffsetsToTxn {} "tx" 7 1 "billing" 20,.prepareEndTxn {} "tx" 7 1 true,
        .initProducerId {} "tx" 1000 8] ?_
    decide +kernel
  obtain ⟨hadded,hgroups⟩ := additions_recorded hreach "tx"
  exact ⟨w,hreach,h1,h2,hadded (1,"t",0) (by rw [h1]; simp),hgroups "billing" (by rw [h2]; simp)⟩

def AllocFresh (w : TxnWorld) : TxnStoreOp → Prop
  | .initProducerId io txnId _ alloc => w.Allocates io txnId → alloc∉w.allocated
  | _ => True

theorem initProducerId_exec {w : TxnWorld} {txnId : String} (hid : txnId≠"")
    (timeoutMs alloc : Int) : w.exec (.initProducerId {} txnId timeoutMs alloc)=
      {w with
        store := w.store.insert txnId (TxnEntry.rejoin timeoutMs alloc (w.store.entry txnId))
        handed := w.handed++[((TxnEntry.rejoin timeoutMs alloc (w.store.entry txnId)).pid,
          (TxnEntry.rejoin timeoutMs alloc (w.store.entry txnId)).epoch)]
        allocated := if w.Allocates {} txnId then w.allocated++[alloc] else w.allocated} := by
  have h : w.store.getOrAllocateWithTimeout {} txnId timeoutMs alloc=
      (w.store.insert txnId (TxnEntry.rejoin timeoutMs alloc (w.store.entry txnId)),
        .ok ((TxnEntry.rejoin timeoutMs alloc (w.store.entry txnId)).pid,
          (TxnEntry.rejoin timeoutMs alloc (w.store.entry txnId)).epoch)) := access_succeeds hid rfl
  simp only [TxnWorld.exec,h]
  rfl

theorem rejoins_reach {k : Nat} (hk : k≤32767) : ∃w,Reaches TxnStoreStep AllocFresh (TxnWorld.start 1) w ∧
    w.store.entry "tx"=some {pid := 7,epoch := k,transactionTimeoutMs := 1000} ∧ w.history "tx"={} ∧
    w.handed=(List.range (k+1)).map (fun i : Nat => (7,(i : Int))) ∧ w.allocated=[7] := by
  induction k with
  | zero =>
    refine ⟨_,.next (.initProducerId {} "tx" 1000 7) .start (fun _ => List.not_mem_nil) rfl,?_⟩
    rw [initProducerId_exec (by decide)]
    refine ⟨?_,rfl,?_,?_⟩
    · rw [insert_entry,if_pos rfl,start_entry]
      rfl
    · rw [start_entry]
      rfl
    · rw [if_pos ⟨by decide,rfl,by rw [start_entry]; rfl⟩]
      rfl
  | succ k ih =>
    obtain ⟨w,hw,he,hh,hhanded,halloc⟩ := ih (by omega)
    have hne : (k : Int)≠i16Max := by
      unfold i16Max
      omega
    have hnone : ¬w.Allocates {} "tx" := by
      intro ⟨_,_,hall⟩
      rw [he] at hall
      exact hne (of_decide_eq_true hall)
    have hrejoin : TxnEntry.rejoin 1000 7 (w.store.entry "tx")=
        {pid := 7,epoch := (k+1 : Nat),transactionTimeoutMs := 1000} := by
      rw [he]
      simp [TxnEntry.rejoin,hne]
    refine ⟨_,.next (.initProducerId {} "tx" 1000 7) hw (fun h => absurd h hnone) rfl,?_⟩
    rw [initProducerId_exec (by decide),hrejoin]
    refine ⟨?_,hh,?_,?_⟩
    · rw [insert_entry,if_pos rfl]
    · rw [hhanded,List.range_succ (n := k+1),List.map_append]
      rfl
    · rw [if_neg hnone]
      exact halloc

theorem opened_at_last_epoch : ∃w,Reaches TxnStoreStep AllocFresh (TxnWorld.start 1) w ∧
    w.store.entry "tx"=some ⟨7,32767,[⟨"t",[0]⟩],10,1000,.ongoing,[]⟩ ∧ (w.history "tx").added=[(32767,"t",0)] ∧
    w.handed=(List.range 32768).map (fun i : Nat => (7,(i : Int))) ∧ w.allocated=[7] := by
  obtain ⟨w,hw,he,hh,hhanded,halloc⟩ := rejoins_reach (le_refl _)
  have hadd : w.store.addPartitions {} "tx" 7 32767 [⟨"t",[0]⟩] 10=
      (w.store.insert "tx" ⟨7,32767,[⟨"t",[0]⟩],10,1000,.ongoing,[]⟩,.ok ()) := by
    apply access_succeeds (by decide)
    rw [he]
    rfl
  have hexec : w.exec (.addPartitions {} "tx" 7 32767 [⟨"t",[0]⟩] 10)=
      {w with store := w.store.insert "tx" ⟨7,32767,[⟨"t",[0]⟩],10,1000,.ongoing,[]⟩}.note "tx"
        (fun h => (h.opens (w.store.entry "tx") 7 10).adds 32767 [⟨"t",[0]⟩]) := by
    simp only [TxnWorld.exec,hadd]
  refine ⟨_,.next (.addPartitions {} "tx" 7 32767 [⟨"t",[0]⟩] 10) hw trivial rfl,?_⟩
  rw [hexec]
  refine ⟨?_,?_,hhanded,halloc⟩
  · exact (insert_entry _ _ _ _).trans (if_pos rfl)
  · rw [note_history,if_pos rfl]
    change ((w.history "tx").opens (w.store.entry "tx") 7 10 |>.adds 32767 [⟨"t",[0]⟩]).added=_
    rw [hh,he]
    rfl

/-- The rotation to a new pid drops the partitions of a transaction in progress. -/
theorem rotation_drops_partitions :
    ¬∀(n : Nat) (w : TxnWorld),Reaches TxnStoreStep (fun _ _ => True) (TxnWorld.start n) w → ∀id,
      (∀a∈(w.history id).added,∃e,w.store.entry id=some e ∧ TxnEntry.Records e.partitions a.2.1 a.2.2) ∧
        ∀g∈(w.history id).groups,∃e,w.store.entry id=some e ∧ g∈e.groups := by
  intro hall
  obtain ⟨w,hw,he,hadded,_⟩ := opened_at_last_epoch
  have hrun : Reaches TxnStoreStep (fun _ _ => True) (TxnWorld.start 1)
    (w.exec (.initProducerId {} "tx" 1000 8)) :=
    .next _ (hw.mono (fun _ _ _ => trivial)) trivial rfl
  have h := (hall 1 _ hrun "tx").1 (32767,"t",0)
  rw [initProducerId_exec (by decide)] at h
  obtain ⟨e,hnew,hrec⟩ := h (by rw [hadded]; simp)
  rw [insert_entry,if_pos rfl,he] at hnew
  cases hnew
  revert hrec
  decide

/-- `InitProducerId` fences no incarnation that has a partition in a transaction which is not
prepared. -/
def FencesEmpty (w : TxnWorld) : TxnStoreOp → Prop
  | .initProducerId _ txnId _ _ =>
    ∀e∈w.store.entry txnId,e.epoch=i16Max ∨ e.state≠.ongoing ∨ e.Unrecorded
  | _ => True

instance (w : TxnWorld) : (op : TxnStoreOp) → Decidable (FencesEmpty w op)
  | .initProducerId _ txnId _ _ =>
    inferInstanceAs (Decidable (∀e∈w.store.entry txnId,e.epoch=i16Max ∨ e.state≠.ongoing ∨ e.Unrecorded))
  | .addPartitions .. | .addOffsetsToTxn .. | .prepareEndTxn .. | .completeEndTxn ..
  | .pendingMarkerDispatches .. | .abortOverdueOwned .. => .isTrue trivial

/-- Everything in a transaction comes from one incarnation: the current one, or the one that
prepared its commit. -/
structure TxnOwn (x : Option TxnEntry) (h : TxnHistory) : Prop where
  ongoing : ∀e,x=some e → e.state=.ongoing → ∀a∈h.added,a.1=e.epoch
  ready : ∀e,x=some e → e.state=.prepareCommit → ∃p,h.prepared=some p ∧ ∀a∈h.added,a.1=p.epoch

namespace TxnOwn

variable {x : Option TxnEntry} {h h' : TxnHistory} {e e' : TxnEntry}

theorem idle (ho : e'.state≠.ongoing) (hr : e'.state≠.prepareCommit) : TxnOwn (some e') h := by
  constructor
  · intro y hy hs
    cases hy
    exact absurd hs ho
  · intro y hy hs
    cases hy
    exact absurd hs hr

theorem opens (hown : TxnOwn (some e) h) (pid nowMs : Int) :
    ∀a∈(h.opens (some e) pid nowMs).added,a.1=e.epoch := by
  intro a ha
  by_cases hs : e.state=.ongoing
  · rw [opens_ongoing hs] at ha
    exact hown.ongoing e rfl hs a ha
  · rw [opens_idle hs] at ha
    cases ha

theorem of_ongoing (hs : e'.state=.ongoing) (ha : ∀a∈h.added,a.1=e'.epoch) : TxnOwn (some e') h := by
  constructor
  · intro y hy _
    cases hy
    exact ha
  · intro y hy hr
    cases hy
    rw [hs] at hr
    cases hr

theorem change (hown : TxnOwn x h) (hheld : TxnHeld x h)
    (hch : TxnChange (fun x => ∀e∈x,e.epoch=i16Max ∨ e.state≠.ongoing ∨ e.Unrecorded) R x h x' h') :
    TxnOwn x' h' := by
  cases hch with
  | same => exact hown
  | joined _ _ timeoutMs alloc hfound =>
    rcases rejoin_cases timeoutMs alloc x with ⟨_,_,_,hs,_⟩|⟨e,rfl,hmax,timeout,hnew⟩
    · apply idle
      · rw [hs]
        decide
      · rw [hs]
        decide
    · rw [hnew]
      constructor
      · intro y hy hs a ha
        cases hy
        rcases hfound e rfl with hx|hx|hx
        · exact absurd hx hmax
        · exact absurd hs hx
        · exact absurd (hheld e rfl (Or.inl hs) a ha) (hx.not_records _ _)
      · intro y hy hs
        cases hy
        exact hown.ready e rfl hs
  | added e _ additions nowMs _ =>
    apply of_ongoing (opened_state _ _)
    intro a ha
    rw [opened_epoch]
    rcases TxnHeld.mem_adds.mp ha with ha|⟨ha,_⟩
    · exact hown.opens e.pid nowMs a ha
    · exact ha
  | grouped e _ groupId nowMs _ =>
    apply of_ongoing (opened_state _ _)
    intro a ha
    rw [opened_epoch]
    exact hown.opens e.pid nowMs a ha
  | prepared e _ commit ho =>
    constructor
    · intro y hy hs
      cases hy
      exact absurd hs (wantPrepare_ne_ongoing commit)
    · intro y hy _
      cases hy
      exact ⟨_,rfl,hown.ongoing e rfl ho⟩
  | redriven e _ commit n hr => exact ⟨hown.ongoing,hown.ready⟩
  | completed e _ commit _ =>
    apply idle
    · exact wantComplete_ne_ongoing commit
    · exact wantComplete_ne_wantPrepare commit true
  | reaped e _ _ _ =>
    apply idle
    · exact nofun
    · exact nofun

end TxnOwn

/-- A partition of an incarnation with a lower epoch is dispatched for a COMMIT only if that
incarnation's EndTxn was prepared, in every run in which no rejoin fences an unprepared transaction
with partitions. -/
theorem fenced_partitions_not_committed {n : Nat} {w : TxnWorld}
    (run : Reaches TxnStoreStep FencesEmpty (TxnWorld.start n) w) :
    (∀io id pid epoch out,(w.store.prepareEndTxn io id pid epoch true).2=.ok out →
      ∀a∈(w.history id).added,a.1<epoch → TxnEntry.Records out.partitions a.2.1 a.2.2 →
        ∃p,(w.history id).prepared=some p ∧ p.epoch=a.1) ∧
    ∀loads owns,∀d∈w.store.pendingMarkerDispatches loads owns,d.commit=true →
      ∀a∈(w.history d.txnId).added,a.1<d.epoch → TxnEntry.Records d.partitions a.2.1 a.2.2 →
        ∃p,(w.history d.txnId).prepared=some p ∧ p.epoch=a.1 := by
  obtain ⟨hplaced,hall⟩ := reaches_each (J := fun x => ∀e∈x,e.epoch=i16Max ∨ e.state≠.ongoing ∨
    e.Unrecorded) (P := fun x h => TxnHeld x h ∧ TxnOwn x h) run ⟨nofun,nofun,nofun⟩
    (fun _ _ _ _ hp hc => ⟨hp.1.change hc,hp.2.change hp.1 hc⟩) (fun _ _ _ _ _ hok => hok)
  constructor
  · intro io id pid epoch out hout a ha hlt hrec
    have hown := (hall id).2
    rcases access_cases w.store io id (TxnEntry.prepare pid epoch true) with ⟨err,herr⟩|⟨o,b,_,hf,hres,_⟩
    · have hbad : (w.store.prepareEndTxn io id pid epoch true).2=.error err := congrArg Prod.snd herr
      rw [hbad] at hout
      cases hout
    · have hok : (w.store.prepareEndTxn io id pid epoch true).2=.ok b := hres
      rw [hok] at hout
      cases hout
      obtain ⟨e,he,_,rfl,⟨hs,_,_⟩|⟨hs,_,_⟩|⟨_,_,rfl⟩⟩ := prepare_ok hf
      · have := hown.ongoing e he hs a ha
        omega
      · obtain ⟨p,hp,hepoch⟩ := hown.ready e he hs
        exact ⟨p,hp,(hepoch a ha).symm⟩
      · obtain ⟨t,ht,_⟩ := hrec
        cases ht
  · intro loads owns d hd hcommit a ha _ _
    obtain ⟨_,e,he,hpend⟩ := (mem_pendingMarkerDispatches hplaced loads owns d).mp hd
    obtain ⟨_,_,_,heq⟩ := pendingOf_some.mp hpend
    have hs : e.state=.prepareCommit := by
      rw [heq] at hcommit
      exact of_decide_eq_true hcommit
    obtain ⟨p,hp,hepoch⟩ := (hall d.txnId).2.ready e he hs
    exact ⟨p,hp,(hepoch a ha).symm⟩

theorem fenced_partitions_prepared : ∃w out,Reaches TxnStoreStep FencesEmpty (TxnWorld.start 1) w ∧
      (w.store.prepareEndTxn {} "tx" 7 1 true).2=.ok out ∧ (w.history "tx").added=[(0,"t",0)] ∧
      TxnEntry.Records out.partitions "t" 0 ∧ ∃p,(w.history "tx").prepared=some p ∧ p.epoch=0 := by
  obtain ⟨w,hreach,h1,h2⟩ : ∃w,Reaches TxnStoreStep FencesEmpty (TxnWorld.start 1) w ∧
      (w.store.prepareEndTxn {} "tx" 7 1 true).2.toOption=
      some ⟨[⟨"t",[0]⟩],[],true⟩ ∧ (w.history "tx").added=[(0,"t",0)] := by
    refine runChecked_finds (f := TxnWorld.exec) (fun _ _ => rfl) [.initProducerId {} "tx" 1000 7,
      .addPartitions {} "tx" 7 0 [⟨"t",[0]⟩] 10,.prepareEndTxn {} "tx" 7 0 true,
        .initProducerId {} "tx" 1000 8] ?_
    decide +kernel
  have hout : (w.store.prepareEndTxn {} "tx" 7 1 true).2=.ok ⟨[⟨"t",[0]⟩],[],true⟩ :=
    congrArg Prod.snd (eq_ok_of_toOption h1)
  have hrec : TxnEntry.Records [⟨"t",[0]⟩] "t" 0 := by decide
  exact ⟨w,_,hreach,hout,h2,hrec,
    (fenced_partitions_not_committed hreach).1 {} "tx" 7 1 _ hout (0,"t",0) (by rw [h2]; simp) (by decide) hrec⟩

/-- A rejoin that finds a transaction `Ongoing` leaves it to the new incarnation, which can commit
it. -/
theorem fenced_partitions_committed :
    ¬∀(n : Nat) (w : TxnWorld),Reaches TxnStoreStep (fun _ _ => True) (TxnWorld.start n) w →
      ∀io id pid epoch out,(w.store.prepareEndTxn io id pid epoch true).2=.ok out →
      ∀a∈(w.history id).added,a.1<epoch → TxnEntry.Records out.partitions a.2.1 a.2.2 →
        ∃p,(w.history id).prepared=some p ∧ p.epoch=a.1 := by
  intro hall
  obtain ⟨w,hreach,h1,h2,h3⟩ : ∃w,Reaches TxnStoreStep (fun _ _ => True) (TxnWorld.start 1) w ∧
      (w.store.prepareEndTxn {} "tx" 7 1 true).2.toOption=
      some ⟨[⟨"t",[0]⟩],[],true⟩ ∧ (w.history "tx").added=[(0,"t",0)] ∧ (w.history "tx").prepared=none := by
    refine runChecked_finds (f := TxnWorld.exec) (fun _ _ => rfl) [.initProducerId {} "tx" 1000 7,
      .addPartitions {} "tx" 7 0 [⟨"t",[0]⟩] 10,.initProducerId {} "tx" 1000 8] ?_
    decide +kernel
  obtain ⟨p,hp,_⟩ := hall 1 w hreach {} "tx" 7 1 _ (congrArg Prod.snd (eq_ok_of_toOption h1))
    (0,"t",0) (by rw [h2]; simp) (by decide) (by decide)
  rw [h3] at hp
  cases hp

def SweepsBelowMax (w : TxnWorld) : TxnStoreOp → Prop
  | .abortOverdueOwned io nowMs owns =>
    ∀slot∈List.range w.store.numSlots,Swept w.store io slot →
      ∀x∈(w.store.slots slot).entries,x.2.overdue nowMs → owns.owns x.1=true → x.2.epoch≠i16Max
  | _ => True

instance (w : TxnWorld) : (op : TxnStoreOp) → Decidable (AllocFresh w op ∧ SweepsBelowMax w op)
  | .initProducerId io txnId _ alloc =>
    inferInstanceAs (Decidable ((w.Allocates io txnId → alloc∉w.allocated) ∧ True))
  | .abortOverdueOwned io nowMs owns =>
    inferInstanceAs (Decidable (True ∧ ∀slot∈List.range w.store.numSlots,Swept w.store io slot →
      ∀x∈(w.store.slots slot).entries,x.2.overdue nowMs → owns.owns x.1=true → x.2.epoch≠i16Max))
  | .addPartitions .. | .addOffsetsToTxn .. | .prepareEndTxn .. | .completeEndTxn ..
  | .pendingMarkerDispatches .. => .isTrue ⟨trivial,trivial⟩

/-- Entries have different pids, all of them from the allocator; their epochs are the highest handed
out for them, and the pairs of one pid went up. -/
structure HandedSound (w : TxnWorld) : Prop where
  placed : Placed w.store
  known : ∀id e,w.store.entry id=some e → e.pid∈w.allocated
  distinct : ∀id id' e e',w.store.entry id=some e → w.store.entry id'=some e' → e.pid=e'.pid → id=id'
  below : ∀id e,w.store.entry id=some e → ∀p∈w.handed,p.1=e.pid → p.2≤e.epoch
  handed : ∀p∈w.handed,p.1∈w.allocated
  order : w.handed.Pairwise (fun p q => p.1=q.1 → p.2<q.2)

section Handed

variable {w w' : TxnWorld}

theorem HandedSound.same (h : HandedSound w) (hp : Placed w'.store)
    (hentry : ∀id,(w'.store.entry id).map (fun e => (e.pid,e.epoch))=(w.store.entry id).map
      (fun e => (e.pid,e.epoch)))
    (hhanded : w'.handed=w.handed) (halloc : w'.allocated=w.allocated) : HandedSound w' := by
  have hold (id : String) (e : TxnEntry) (he : w'.store.entry id=some e) :
      ∃e0,w.store.entry id=some e0 ∧ e0.pid=e.pid ∧ e0.epoch=e.epoch := by
    have hx := hentry id
    rw [he,Option.map_some,eq_comm,Option.map_eq_some_iff] at hx
    obtain ⟨e0,he0,heq⟩ := hx
    obtain ⟨h1,h2⟩ := Prod.mk.inj heq
    exact ⟨e0,he0,h1,h2⟩
  refine ⟨hp,?_,?_,?_,?_,?_⟩
  · intro id e he
    obtain ⟨e0,he0,h1,_⟩ := hold id e he
    rw [halloc,← h1]
    exact h.known id e0 he0
  · intro id id' e e' he he' heq
    obtain ⟨e0,he0,h1,_⟩ := hold id e he
    obtain ⟨e1,he1,h2,_⟩ := hold id' e' he'
    exact h.distinct id id' e0 e1 he0 he1 (h1.trans (heq.trans h2.symm))
  · intro id e he p hp heq
    obtain ⟨e0,he0,h1,h2⟩ := hold id e he
    rw [hhanded] at hp
    rw [← h2]
    exact h.below id e0 he0 p hp (heq.trans h1.symm)
  · rw [hhanded,halloc]
    exact h.handed
  · rw [hhanded]
    exact h.order

theorem change_same_incarnation {x : Option TxnEntry} {h h' : TxnHistory}
    (hc : TxnChange (fun _ => False) (fun _ => False) x h x' h') :
    x'.map (fun e => (e.pid,e.epoch))=x.map (fun e => (e.pid,e.epoch)) := by
  cases hc with
  | same => rfl
  | joined _ _ _ _ hfound => exact absurd hfound id
  | added e _ additions nowMs _ => simp
  | grouped e _ groupId nowMs _ => simp
  | prepared e _ commit _ => rfl
  | redriven e _ commit _ _ => rfl
  | completed e _ commit _ => rfl
  | reaped e _ _ hfound => exact absurd hfound id

theorem exec_handed {op : TxnStoreOp} (hinit : ∀io id timeoutMs alloc,op≠.initProducerId io id timeoutMs alloc)
    (hsweep : ∀io nowMs owns,op≠.abortOverdueOwned io nowMs owns) :
    (w.exec op).handed=w.handed ∧ (w.exec op).allocated=w.allocated := by
  cases op with
  | initProducerId io txnId timeoutMs alloc => exact absurd rfl (hinit io txnId timeoutMs alloc)
  | abortOverdueOwned io nowMs owns => exact absurd rfl (hsweep io nowMs owns)
  | addPartitions io txnId pid epoch additions nowMs | addOffsetsToTxn io txnId pid epoch groupId nowMs
  | prepareEndTxn io txnId pid epoch commit | completeEndTxn io txnId pid epoch commit =>
    simp only [TxnWorld.exec]
    split <;> exact ⟨rfl,rfl⟩
  | pendingMarkerDispatches loads owns => exact ⟨rfl,rfl⟩

theorem HandedSound.quiet (h : HandedSound w) (op : TxnStoreOp)
    (hinit : ∀io id timeoutMs alloc,op≠.initProducerId io id timeoutMs alloc)
    (hsweep : ∀io nowMs owns,op≠.abortOverdueOwned io nowMs owns) : HandedSound (w.exec op) := by
  obtain ⟨hhanded,halloc⟩ := exec_handed (w := w) hinit hsweep
  apply h.same (exec_placed h.placed op) _ hhanded halloc
  intro id
  refine change_same_incarnation (exec_change h.placed op ?_ ?_)
  · intro io timeoutMs alloc hop
    exact absurd hop (hinit io id timeoutMs alloc)
  · intro io nowMs owns hop
    exact absurd hop (hsweep io nowMs owns)

theorem HandedSound.allocates (h : HandedSound w) (l : List Int)
    : HandedSound {w with allocated := w.allocated++l} :=
  ⟨h.placed,fun id e he => List.mem_append_left _ (h.known id e he),h.distinct,h.below,
    fun p hp => List.mem_append_left _ (h.handed p hp),h.order⟩

theorem HandedSound.installs (h : HandedSound w) (hp : Placed w'.store) {txnId : String}
    {e : TxnEntry} (hentry : ∀id,w'.store.entry id=if id=txnId then some e else w.store.entry id)
    (hhanded : w'.handed=w.handed++[(e.pid,e.epoch)]) (halloc : ∀x∈w.allocated,x∈w'.allocated)
    (hknown : e.pid∈w'.allocated) (hother : ∀id e',id≠txnId → w.store.entry id=some e' →
    e'.pid≠e.pid) (habove : ∀p∈w.handed,p.1=e.pid → p.2<e.epoch) : HandedSound w' := by
  have hcases (id : String) (y : TxnEntry) (hy : w'.store.entry id=some y) :
      id=txnId ∧ y=e ∨ id≠txnId ∧ w.store.entry id=some y := by
    rw [hentry id] at hy
    by_cases hid : id=txnId
    · rw [if_pos hid] at hy
      cases hy
      exact Or.inl ⟨hid,rfl⟩
    · rw [if_neg hid] at hy
      exact Or.inr ⟨hid,hy⟩
  refine ⟨hp,?_,?_,?_,?_,?_⟩
  · intro id y hy
    rcases hcases id y hy with ⟨_,rfl⟩|⟨_,hy⟩
    · exact hknown
    · exact halloc _ (h.known id y hy)
  · intro id id' y y' hy hy' heq
    rcases hcases id y hy with ⟨rfl,rfl⟩|⟨hne,hy⟩
    · rcases hcases id' y' hy' with ⟨rfl,_⟩|⟨hne',hy'⟩
      · rfl
      · exact absurd heq.symm (hother id' y' hne' hy')
    · rcases hcases id' y' hy' with ⟨rfl,rfl⟩|⟨_,hy'⟩
      · exact absurd heq (hother id y hne hy)
      · exact h.distinct id id' y y' hy hy' heq
  · intro id y hy p hp heq
    rw [hhanded] at hp
    rcases List.mem_append.mp hp with hold|hlast
    · rcases hcases id y hy with ⟨_,rfl⟩|⟨_,hy⟩
      · exact le_of_lt (habove p hold heq)
      · exact h.below id y hy p hold heq
    · rw [List.mem_singleton.mp hlast] at heq ⊢
      rcases hcases id y hy with ⟨_,rfl⟩|⟨hne,hy⟩
      · exact le_refl _
      · exact absurd heq.symm (hother id y hne hy)
  · intro p hp
    rw [hhanded] at hp
    rcases List.mem_append.mp hp with hp|hp
    · exact halloc _ (h.handed p hp)
    · rw [List.mem_singleton.mp hp]
      exact hknown
  · rw [hhanded,List.pairwise_append]
    refine ⟨h.order,List.pairwise_singleton _ _,?_⟩
    intro p hp q hq heq
    rw [List.mem_singleton.mp hq] at heq ⊢
    exact habove p hp heq

theorem HandedSound.initProducerId (h : HandedSound w) (io : SlotIo) (txnId : String)
    (timeoutMs alloc : Int) (hfresh : w.Allocates io txnId → alloc∉w.allocated) :
    HandedSound (w.exec (.initProducerId io txnId timeoutMs alloc)) := by
  have hplaced := exec_placed h.placed (.initProducerId io txnId timeoutMs alloc)
  by_cases hok : txnId≠"" ∧ io.load=true ∧ io.persist=true
  · obtain ⟨hid,hload,hpersist⟩ := hok
    have hio : io={} := by
      obtain ⟨l,p⟩ := io
      cases hload
      cases hpersist
      rfl
    subst hio
    rw [initProducerId_exec hid] at hplaced ⊢
    have hsub : ∀x∈w.allocated,x∈(if w.Allocates {} txnId then w.allocated++[alloc] else w.allocated) := by
      intro x hx
      split_ifs
      · exact List.mem_append_left _ hx
      · exact hx
    rcases rejoin_cases timeoutMs alloc (w.store.entry txnId) with ⟨hmax,hpid,hepoch,_⟩|⟨e,he,hne,timeout,hnew⟩
    · have hall : w.Allocates {} txnId := by
        refine ⟨hid,rfl,?_⟩
        cases he : w.store.entry txnId with
        | none => rfl
        | some e => exact decide_eq_true (hmax e he)
      have hnot := hfresh hall
      refine h.installs hplaced (fun id => insert_entry _ _ _ _) rfl hsub ?_ ?_ ?_
      · rw [hpid]
        dsimp only
        rw [if_pos hall]
        simp
      · intro id e' _ he' heq
        rw [hpid] at heq
        exact hnot (heq ▸ h.known id e' he')
      · intro p hp heq
        rw [hpid] at heq
        exact absurd (heq ▸ h.handed p hp) hnot
    · refine h.installs hplaced (fun id => insert_entry _ _ _ _) rfl hsub ?_ ?_ ?_
      · rw [hnew]
        exact hsub _ (h.known txnId e he)
      · intro id e' hne' he' heq
        rw [hnew] at heq
        exact hne' (h.distinct id txnId e' e he' he heq)
      · intro p hp heq
        rw [hnew] at heq ⊢
        have := h.below txnId e he p hp heq
        dsimp only
        omega
  · have hfail : ∃err,w.store.getOrAllocateWithTimeout io txnId timeoutMs alloc=(w.store,.error err) := by
      unfold TxnStore.getOrAllocateWithTimeout TxnStore.access
      by_cases hid : txnId=""
      · exact ⟨_,if_pos hid⟩
      by_cases hload : io.load=false
      · rw [if_neg hid,if_pos hload]
        exact ⟨_,rfl⟩
      · have hpersist : ¬io.persist=true := fun hp => hok ⟨hid,by simpa using hload,hp⟩
        rw [if_neg hid,if_neg hload]
        exact ⟨_,if_neg hpersist⟩
    obtain ⟨err,herr⟩ := hfail
    have hexec : w.exec (.initProducerId io txnId timeoutMs alloc)=
        {w with allocated := w.allocated++(if w.Allocates io txnId then [alloc] else [])} := by
      simp only [TxnWorld.exec,herr]
      split_ifs <;> simp [Except.toOption]
    rw [hexec]
    exact h.allocates _

def sweptRecords (s : TxnStore) (io : Nat → SlotIo) (nowMs : Int) (owns : OwnsTxn) : List TxnAbortRecord :=
  (List.range s.numSlots).flatMap (fun slot =>
    if Swept s io slot then (TxnStore.reapSlot nowMs owns (s.slots slot)).2 else [])

theorem installed_eq (s : TxnStore) (io : Nat → SlotIo) (nowMs : Int) (owns : OwnsTxn) :
    TxnWorld.installed s io nowMs owns=(sweptRecords s io nowMs owns).map (fun r => (r.pid,r.newEpoch)) := by
  unfold TxnWorld.installed sweptRecords
  rw [List.map_flatMap]
  apply List.flatMap_congr
  intro slot hslot
  have hiff : Swept s io slot ↔ ((io slot).load=true ∧ (io slot).persist=true) :=
    ⟨fun h => h.2,fun h => ⟨List.mem_range.mp hslot,h⟩⟩
  by_cases h : Swept s io slot
  · rw [if_pos h,if_pos (hiff.mp h)]
  · rw [if_neg h,if_neg (fun hx => h (hiff.mpr hx))]
    rfl

theorem mem_sweptRecords {s : TxnStore} (hp : Placed s) {io : Nat → SlotIo} {nowMs : Int}
    {owns : OwnsTxn} {r : TxnAbortRecord} (hr : r∈sweptRecords s io nowMs owns) :
    ∃e,s.entry r.txnId=some e ∧ Swept s io (s.slotFor r.txnId) ∧ e.overdue nowMs ∧
      owns.owns r.txnId=true ∧ r=⟨r.txnId,e.pid,e.epoch,e.reaped.epoch,e.groups⟩ := by
  obtain ⟨slot,_,hin⟩ := List.mem_flatMap.mp hr
  split_ifs at hin with hswept
  · rw [reapSlot_records] at hin
    obtain ⟨id,_,hbind⟩ := List.mem_filterMap.mp hin
    obtain ⟨e,hl,hrec⟩ := Option.bind_eq_some_iff.mp hbind
    unfold abortRecord at hrec
    split_ifs at hrec with hdue
    cases hrec
    have hslot := (hp.2 slot id (AList.lookup_isSome.mp (by rw [hl]; rfl))).1
    refine ⟨e,?_,?_,hdue.1,hdue.2,rfl⟩
    · rw [TxnStore.entry,hslot]
      exact hl
    · rw [hslot]
      exact hswept
  · cases hin

theorem reaps_installed {io : Nat → SlotIo} {nowMs : Int} {owns : OwnsTxn} {id : String}
    {e : TxnEntry} (he : w.store.entry id=some e) (hr : w.Reaps io nowMs owns id e) :
    (e.pid,e.reaped.epoch)∈TxnWorld.installed w.store io nowMs owns := by
  rw [installed_eq]
  refine List.mem_map.mpr ⟨⟨id,e.pid,e.epoch,e.reaped.epoch,e.groups⟩,?_,rfl⟩
  refine List.mem_flatMap.mpr ⟨w.store.slotFor id,List.mem_range.mpr hr.1.1,?_⟩
  rw [if_pos hr.1,reapSlot_records]
  have hl : (w.store.slots (w.store.slotFor id)).lookup id=some e := he
  refine List.mem_filterMap.mpr ⟨id,AList.mem_keys.mp (AList.lookup_isSome.mp (by rw [hl]; rfl)),?_⟩
  rw [hl]
  exact if_pos hr.2

theorem sweptRecords_nodup {s : TxnStore} (hp : Placed s) (io : Nat → SlotIo) (nowMs : Int)
    (owns : OwnsTxn) : ((sweptRecords s io nowMs owns).map (·.txnId)).Nodup := by
  have hids (slot : Nat) :
    ((if Swept s io slot then (TxnStore.reapSlot nowMs owns (s.slots slot)).2 else []).map
      (·.txnId)).Sublist (s.slots slot).keys := by
    split_ifs
    · rw [reapSlot_records,List.map_filterMap]
      have hsome (id : String) (r : String)
        (hr : (((s.slots slot).lookup id).bind (abortRecord nowMs owns id)).map
          (·.txnId)=some r) : r=id := by
        obtain ⟨rec,hrec,rfl⟩ := Option.map_eq_some_iff.mp hr
        obtain ⟨e,_,habort⟩ := Option.bind_eq_some_iff.mp hrec
        unfold abortRecord at habort
        split_ifs at habort
        cases habort
        rfl
      induction (s.slots slot).keys with
      | nil => exact List.Sublist.slnil
      | cons k l ih =>
        rw [List.filterMap_cons]
        cases hk : (((s.slots slot).lookup k).bind (abortRecord nowMs owns k)).map (·.txnId) with
        | none => exact ih.cons k
        | some r =>
          rw [hsome k r hk]
          exact ih.cons_cons k
    · exact List.nil_sublist _
  rw [sweptRecords,List.map_flatMap,List.nodup_flatMap]
  constructor
  · intro slot _
    exact (s.slots slot).keys_nodup.sublist (hids slot)
  · apply List.nodup_range.imp
    intro a b hab id ha hb
    have h1 := (hp.2 a id (AList.mem_keys.mpr ((hids a).subset ha))).1
    have h2 := (hp.2 b id (AList.mem_keys.mpr ((hids b).subset hb))).1
    exact hab (h1.symm.trans h2)

theorem HandedSound.sweeps (h : HandedSound w) (io : Nat → SlotIo) (nowMs : Int) (owns : OwnsTxn)
    (hbelow : SweepsBelowMax w (.abortOverdueOwned io nowMs owns)) :
    HandedSound (w.exec (.abortOverdueOwned io nowMs owns)) := by
  have hmax (id : String) (e : TxnEntry) (he : w.store.entry id=some e)
      (hr : w.Reaps io nowMs owns id e) : e.reaped.epoch=e.epoch+1 := by
    have hne := hbelow (w.store.slotFor id) (List.mem_range.mpr hr.1.1) hr.1 ⟨id,e⟩
      (AList.mem_lookup_iff.mp he) hr.2.1 hr.2.2
    exact if_neg hne
  have hnew (id : String) (y : TxnEntry)
      (hy : (w.exec (.abortOverdueOwned io nowMs owns)).store.entry id=some y) :
      ∃e,w.store.entry id=some e ∧ y.pid=e.pid ∧ e.epoch≤y.epoch ∧
        (w.Reaps io nowMs owns id e → y.epoch=e.reaped.epoch) := by
    have hentry := abortOverdueOwned_entry w.store io nowMs owns id
    rw [show (w.store.abortOverdueOwned io nowMs owns).1.entry id=some y from hy] at hentry
    split_ifs at hentry with hswept
    · obtain ⟨e,he,rfl⟩ := Option.map_eq_some_iff.mp hentry.symm
      refine ⟨e,he,?_⟩
      unfold TxnEntry.swept
      split_ifs with hdue
      · refine ⟨rfl,?_,fun _ => rfl⟩
        rw [hmax id e he ⟨hswept,hdue⟩]
        omega
      · exact ⟨rfl,le_refl _,fun hr => absurd hr.2 hdue⟩
    · exact ⟨y,hentry.symm,rfl,le_refl _,fun hr => absurd hr.1 hswept⟩
  have hrec (p : Int × Int) (hp : p∈TxnWorld.installed w.store io nowMs owns) :
      ∃id e,w.store.entry id=some e ∧ w.Reaps io nowMs owns id e ∧ p=(e.pid,e.reaped.epoch) := by
    rw [installed_eq] at hp
    obtain ⟨r,hr,rfl⟩ := List.mem_map.mp hp
    obtain ⟨e,he,hswept,hdue,howns,heq⟩ := mem_sweptRecords h.placed hr
    exact ⟨r.txnId,e,he,⟨hswept,hdue,howns⟩,by rw [heq]⟩
  refine ⟨exec_placed h.placed (.abortOverdueOwned io nowMs owns),?_,?_,?_,?_,?_⟩
  · intro id y hy
    obtain ⟨e,he,hpid,_⟩ := hnew id y hy
    rw [hpid]
    exact h.known id e he
  · intro id id' y y' hy hy' heq
    obtain ⟨e,he,hpid,_⟩ := hnew id y hy
    obtain ⟨e',he',hpid',_⟩ := hnew id' y' hy'
    exact h.distinct id id' e e' he he' (hpid.symm.trans (heq.trans hpid'))
  · intro id y hy p hp heq
    obtain ⟨e,he,hpid,hle,hreap⟩ := hnew id y hy
    rcases List.mem_append.mp hp with hold|hlast
    · exact (h.below id e he p hold (heq.trans hpid)).trans hle
    · obtain ⟨id',e',he',hr,rfl⟩ := hrec p hlast
      obtain rfl := h.distinct id' id e' e he' he (heq.trans hpid)
      rw [he] at he'
      cases he'
      exact le_of_eq (hreap hr).symm
  · intro p hp
    rcases List.mem_append.mp hp with hold|hlast
    · exact h.handed p hold
    · obtain ⟨id,e,he,_,rfl⟩ := hrec p hlast
      exact h.known id e he
  · change (w.handed++TxnWorld.installed w.store io nowMs owns).Pairwise _
    rw [List.pairwise_append]
    refine ⟨h.order,?_,?_⟩
    · rw [installed_eq,List.pairwise_map]
      have hnd : (sweptRecords w.store io nowMs owns).Pairwise (fun r r' => r.txnId≠r'.txnId) :=
        List.pairwise_map.mp (sweptRecords_nodup h.placed io nowMs owns)
      apply List.Pairwise.imp_of_mem _ hnd
      intro r r' hr hr' hne heq
      obtain ⟨e,he,_,_,_,hx⟩ := mem_sweptRecords h.placed hr
      obtain ⟨e',he',_,_,_,hx'⟩ := mem_sweptRecords h.placed hr'
      rw [hx,hx'] at heq
      exact absurd (h.distinct _ _ e e' he he' heq) hne
    · intro p hp q hq heq
      obtain ⟨id,e,he,hr,rfl⟩ := hrec q hq
      have := h.below id e he p hp heq
      dsimp only
      rw [hmax id e he hr]
      omega

theorem HandedSound.step (h : HandedSound w) (op : TxnStoreOp) (hfresh : AllocFresh w op)
    (hbelow : SweepsBelowMax w op) : HandedSound (w.exec op) := by
  cases op with
  | initProducerId io txnId timeoutMs alloc => exact h.initProducerId io txnId timeoutMs alloc hfresh
  | abortOverdueOwned io nowMs owns => exact h.sweeps io nowMs owns hbelow
  | addPartitions io txnId pid epoch additions nowMs | addOffsetsToTxn io txnId pid epoch groupId nowMs
  | prepareEndTxn io txnId pid epoch commit | completeEndTxn io txnId pid epoch commit
  | pendingMarkerDispatches loads owns => exact h.quiet _ (by simp) (by simp)

end Handed

/-- The pairs handed to producers and installed by sweeps are all different, and those of one pid go
up, where the allocator repeats no pid and no sweep aborts a transaction at the last epoch. -/
theorem handed_pairs_increase {n : Nat} {w : TxnWorld}
    (run : Reaches TxnStoreStep (fun w op => AllocFresh w op ∧ SweepsBelowMax w op) (TxnWorld.start n) w) :
    w.handed.Pairwise (fun p q => p≠q ∧ (p.1=q.1 → p.2<q.2)) := by
  have h : HandedSound w := by
    refine run.invariant ?_ ?_
    · refine ⟨placed_open n,?_,?_,?_,nofun,List.Pairwise.nil⟩
      · intro id e he
        rw [start_entry] at he
        cases he
      · intro id id' e e' he
        rw [start_entry] at he
        cases he
      · intro id e he
        rw [start_entry] at he
        cases he
    · intro v op v' hv hok hstep
      cases hstep
      exact hv.step op hok.1 hok.2
  apply h.order.imp
  intro p q hlt
  refine ⟨fun heq => ?_,hlt⟩
  have := hlt (congrArg Prod.fst heq)
  rw [heq] at this
  exact lt_irrefl _ this

theorem handed_pairs_increase_swept :
    ∃w,Reaches TxnStoreStep (fun w op => AllocFresh w op ∧ SweepsBelowMax w op) (TxnWorld.start 2) w ∧
      w.handed=[(7,0),(9,0),(7,1),(7,2)] ∧ w.handed.Pairwise (fun p q => p≠q ∧ (p.1=q.1 → p.2<q.2)) := by
  refine runChecked_finds_and (f := TxnWorld.exec) (fun _ _ => rfl) [
    .initProducerId {} "tx" 1000 7,.initProducerId {} "ty" 1000 9,.addPartitions {} "tx" 7 0 [⟨"t",[0]⟩] 10,
    .abortOverdueOwned (fun _ => {}) 2000 none,.initProducerId {} "tx" 1000 11] (by decide +kernel)
    fun _ hreach _ => handed_pairs_increase hreach

/-- A sweep at the last epoch installs the first pair of the pid again. -/
theorem sweep_repeats_pair :
    ¬∀(n : Nat) (w : TxnWorld),Reaches TxnStoreStep AllocFresh (TxnWorld.start n) w →
      w.handed.Pairwise (fun p q => p≠q ∧ (p.1=q.1 → p.2<q.2)) := by
  intro hall
  obtain ⟨w,hw,he,_,hhanded,_⟩ := opened_at_last_epoch
  have hplaced : Placed w.store := (reaches_each (J := fun _ => True) (P :=
    fun _ _ => True) hw trivial (fun _ _ _ _ _ _ => trivial) (fun _ _ _ _ _ _ => trivial)).1
  have hreaps : w.Reaps (fun _ => {}) 2000 none "tx" ⟨7,32767,[⟨"t",[0]⟩],10,1000,.ongoing,[]⟩ :=
    ⟨⟨Nat.mod_lt _ hplaced.1,rfl,rfl⟩,by decide,rfl⟩
  have hnext := hall 1 (w.exec (.abortOverdueOwned (fun _ => {}) 2000 none))
    (.next (.abortOverdueOwned (fun _ => {}) 2000 none) hw trivial rfl)
  have happ : (w.exec (.abortOverdueOwned (fun _ => {}) 2000 none)).handed=
      w.handed++TxnWorld.installed w.store (fun _ => {}) 2000 none := rfl
  rw [happ,List.pairwise_append] at hnext
  have hfirst : (7,0)∈w.handed := by
    rw [hhanded]
    exact List.mem_map.mpr ⟨0,List.mem_range.mpr (by decide),rfl⟩
  exact (hnext.2.2 _ hfirst _ (reaps_installed he hreaps)).1 rfl

end Kaas
