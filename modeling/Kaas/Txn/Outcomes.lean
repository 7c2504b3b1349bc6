import Kaas.Txn.History

namespace Kaas

section Opens

variable {e : TxnEntry} {h : TxnHistory} {pid nowMs : Int}

theorem opens_ongoing (hs : e.state=.ongoing) : h.opens (some e) pid nowMs=h := by
  simp [TxnHistory.opens,isOngoing,hs]

theorem opens_idle (hs : e.state≠.ongoing) : h.opens (some e) pid nowMs=
    {h with number := h.number+1,pid := pid,openedAt := nowMs,added := [],groups := [],prepared := none} := by
  simp [TxnHistory.opens,isOngoing,hs]

end Opens

/-- The dispatches of one transaction agree, with each other and with its prepare; there are none
before that. -/
structure TxnAgreed (x : Option TxnEntry) (h : TxnHistory) : Prop where
  upto : ∀d∈h.dispatches,d.number≤h.number
  fresh : ∀e,x=some e → e.state=.ongoing → ∀d∈h.dispatches,d.number<h.number
  ready : ∀e commit,x=some e → e.state=wantPrepare commit → ∃epoch,h.prepared=some ⟨epoch,commit,e.partitions⟩
  first : ∀p,h.prepared=some p → ∀d∈h.dispatches,d.number=h.number → d.commit=p.commit ∧
    d.partitions=p.partitions
  agree : ∀d∈h.dispatches,∀d'∈h.dispatches,d.number=d'.number → d.commit=d'.commit ∧ d.partitions=d'.partitions

variable {J : Option TxnEntry → Prop} {R : TxnEntry → Prop} {x' : Option TxnEntry}

namespace TxnAgreed

variable {x : Option TxnEntry} {h h' : TxnHistory} {e e' : TxnEntry} {commit : Bool}

theorem congr (ha : TxnAgreed (some e) h) (hs : e'.state=e.state)
    (hp : e'.partitions=e.partitions) : TxnAgreed (some e') h := by
  refine ⟨ha.upto,?_,?_,ha.first,ha.agree⟩
  · intro y hy ho
    cases hy
    exact ha.fresh e rfl (hs ▸ ho)
  · intro y commit hy hr
    cases hy
    rw [hp]
    exact ha.ready e commit rfl (hs ▸ hr)

theorem idle (ha : TxnAgreed x h) (ho : e'.state≠.ongoing)
    (hr : ∀commit,e'.state≠wantPrepare commit) : TxnAgreed (some e') h := by
  refine ⟨ha.upto,?_,?_,ha.first,ha.agree⟩
  · intro y hy hs
    cases hy
    exact absurd hs ho
  · intro y commit hy hs
    cases hy
    exact absurd hs (hr commit)

theorem opens (ha : TxnAgreed (some e) h) (pid nowMs : Int) (ho : e'.state=.ongoing) :
    TxnAgreed (some e') (h.opens (some e) pid nowMs) := by
  by_cases hs : e.state=.ongoing
  · rw [opens_ongoing hs]
    refine ⟨ha.upto,?_,?_,ha.first,ha.agree⟩
    · intro y hy _
      exact ha.fresh e rfl hs
    · intro y commit hy hr
      cases hy
      rw [ho] at hr
      exact absurd hr.symm (wantPrepare_ne_ongoing commit)
  · rw [opens_idle hs]
    refine ⟨?_,?_,?_,?_,ha.agree⟩
    · intro d hd
      exact Nat.le_succ_of_le (ha.upto d hd)
    · intro y hy _ d hd
      exact Nat.lt_succ_of_le (ha.upto d hd)
    · intro y commit hy hr
      cases hy
      rw [ho] at hr
      exact absurd hr.symm (wantPrepare_ne_ongoing commit)
    · intro p hp
      cases hp

theorem redriven (ha : TxnAgreed (some e) h) (hr : e.state=wantPrepare commit) (ds : List TxnDispatch)
    (hds : ∀d∈ds,d.number=h.number ∧ d.commit=commit ∧ d.partitions=e.partitions) :
    TxnAgreed (some e) {h with dispatches := h.dispatches++ds} := by
  obtain ⟨epoch,hprep⟩ := ha.ready e commit rfl hr
  have hfirst : ∀d∈h.dispatches++ds,d.number=h.number → d.commit=commit ∧ d.partitions=e.partitions := by
    intro d hd hn
    rcases List.mem_append.mp hd with hd|hd
    · exact ha.first _ hprep d hd hn
    · exact (hds d hd).2
  refine ⟨?_,?_,ha.ready,?_,?_⟩
  · intro d hd
    rcases List.mem_append.mp hd with hd|hd
    · exact ha.upto d hd
    · exact le_of_eq (hds d hd).1
  · intro y hy ho
    cases hy
    rw [hr] at ho
    exact absurd ho (wantPrepare_ne_ongoing commit)
  · intro p hp d hd hn
    rw [hprep] at hp
    cases hp
    exact hfirst d hd hn
  · intro d hd d' hd' hn
    by_cases hcur : d.number=h.number
    · obtain ⟨h1,h2⟩ := hfirst d hd hcur
      obtain ⟨h3,h4⟩ := hfirst d' hd' (hn ▸ hcur)
      exact ⟨h1.trans h3.symm,h2.trans h4.symm⟩
    · have hold : d∈h.dispatches := by
        rcases List.mem_append.mp hd with hd|hd
        · exact hd
        · exact absurd (hds d hd).1 hcur
      have hold' : d'∈h.dispatches := by
        rcases List.mem_append.mp hd' with hd'|hd'
        · exact hd'
        · exact absurd (hn.trans (hds d' hd').1) hcur
      exact ha.agree d hold d' hold' hn

theorem prepares (ha : TxnAgreed (some e) h) (ho : e.state=.ongoing)
    (hr : e'.state=wantPrepare commit) (hp : e'.partitions=e.partitions) (epoch : Int) :
    TxnAgreed (some e') {h with prepared := some ⟨epoch,commit,e.partitions⟩} := by
  have hnone := ha.fresh e rfl ho
  refine ⟨ha.upto,?_,?_,?_,ha.agree⟩
  · intro y hy hs
    cases hy
    rw [hr] at hs
    exact absurd hs (wantPrepare_ne_ongoing commit)
  · intro y c hy hs
    cases hy
    rw [hr] at hs
    rw [wantPrepare_inj hs,hp]
    exact ⟨epoch,rfl⟩
  · intro p _ d hd hn
    exact absurd hn (Nat.ne_of_lt (hnone d hd))

theorem change (ha : TxnAgreed x h) (hc : TxnChange J R x h x' h') : TxnAgreed x' h' := by
  cases hc with
  | same => exact ha
  | joined _ _ timeoutMs alloc _ =>
    rcases rejoin_cases timeoutMs alloc x with ⟨_,_,_,hs,_⟩|⟨e,rfl,_,timeout,hnew⟩
    · apply ha.idle
      · rw [hs]
        decide
      · intro commit
        rw [hs]
        exact (wantPrepare_ne_empty commit).symm
    · rw [hnew]
      exact ha.congr rfl rfl
  | added e _ additions nowMs _ =>
    have hopen := ha.opens e.pid nowMs
      (opened_state nowMs {e with partitions := (mergePartitions e.partitions additions).1})
    exact ⟨hopen.upto,hopen.fresh,hopen.ready,hopen.first,hopen.agree⟩
  | grouped e _ groupId nowMs _ =>
    have hopen := ha.opens e.pid nowMs (opened_state nowMs
      {e with groups := if groupId∈e.groups then e.groups else e.groups++[groupId]})
    exact ⟨hopen.upto,hopen.fresh,hopen.ready,hopen.first,hopen.agree⟩
  | prepared e _ commit ho =>
    have hready : ({e with state := wantPrepare commit} : TxnEntry).state=wantPrepare commit := rfl
    have hprep := ha.prepares ho hready rfl e.epoch
    refine hprep.redriven rfl [⟨h.number,e.epoch,commit,e.partitions⟩] ?_
    intro d hd
    rw [List.mem_singleton.mp hd]
    exact ⟨rfl,rfl,rfl⟩
  | redriven e _ commit n hr =>
    apply ha.redriven hr
    intro d hd
    rw [List.eq_of_mem_replicate hd]
    exact ⟨rfl,rfl,rfl⟩
  | completed e _ commit hr =>
    have hdone : TxnAgreed (some (e.completed commit)) h := ha.idle (wantComplete_ne_ongoing commit)
      (fun c => wantComplete_ne_wantPrepare commit c)
    unfold TxnHistory.completes
    dsimp only
    split_ifs
    · exact ⟨hdone.upto,hdone.fresh,hdone.ready,hdone.first,hdone.agree⟩
    · exact ⟨hdone.upto,hdone.fresh,hdone.ready,hdone.first,hdone.agree⟩
  | reaped e _ ho _ => exact ha.prepares ho (show e.reaped.state=wantPrepare false from rfl) rfl e.reaped.epoch

end TxnAgreed

/-- The dispatches of one transaction have one outcome and one set of partitions, that of its
prepare. -/
theorem dispatches_agreed {n : Nat} {w : TxnWorld}
    (run : Reaches TxnStoreStep (fun _ _ => True) (TxnWorld.start n) w) (id : String) :
    (∀d∈(w.history id).dispatches,∀d'∈(w.history id).dispatches,d.number=d'.number →
      d.commit=d'.commit ∧ d.partitions=d'.partitions) ∧
    ∀p,(w.history id).prepared=some p → ∀d∈(w.history id).dispatches,
      d.number=(w.history id).number → d.commit=p.commit ∧ d.partitions=p.partitions := by
  have h := (reaches_each (J := fun _ => True) (P := TxnAgreed) run
    ⟨nofun,nofun,nofun,nofun,nofun⟩ (fun _ _ _ _ ha hc => ha.change hc) (fun _ _ _ _ _ _ => trivial)).2 id
  exact ⟨h.agree,h.first⟩

theorem dispatches_agreed_redriven :
    ∃w,Reaches TxnStoreStep (fun _ _ => True) (TxnWorld.start 1) w ∧
      (w.history "tx").dispatches.length=3 ∧ (w.history "tx").completed.length=1 ∧
      ∀d∈(w.history "tx").dispatches,∀d'∈(w.history "tx").dispatches,d.number=d'.number →
        d.commit=d'.commit ∧ d.partitions=d'.partitions := by
  refine runChecked_finds_of (f := TxnWorld.exec) (P := fun _ => _ ∧ _) (fun _ _ => rfl)
    [.initProducerId {} "tx" 1000 7,
    .addPartitions {} "tx" 7 0 [⟨"t",[0,1]⟩] 10,.prepareEndTxn {} "tx" 7 0 true,.initProducerId {} "tx" 1000 8,
    .prepareEndTxn {} "tx" 7 1 true,.pendingMarkerDispatches (fun _ => true) none,
    .completeEndTxn {} "tx" 7 1 true] (by decide +kernel)
    fun _ hreach h => ⟨h.1,h.2,(dispatches_agreed hreach "tx").1⟩

/-- An entry outside a transaction has nothing on record; an `Ongoing` one knows when it was
opened. -/
structure TxnClean (x : Option TxnEntry) (h : TxnHistory) : Prop where
  idle : ∀e,x=some e → e.state≠.ongoing → ¬e.preparing → e.partitions=[] ∧ e.groups=[] ∧ e.ongoingSinceMs=0
  since : ∀e,x=some e → e.state=.ongoing → e.ongoingSinceMs=h.openedAt

namespace TxnClean

variable {x : Option TxnEntry} {h h' : TxnHistory} {e e' : TxnEntry}

theorem ready (hr : e'.preparing) : TxnClean (some e') h := by
  constructor
  · intro y hy _ hn
    cases hy
    exact absurd hr hn
  · intro y hy ho
    cases hy
    rcases hr with hr|hr
    · rw [hr] at ho
      cases ho
    · rw [hr] at ho
      cases ho

theorem opens (hc : TxnClean (some e) h) (pid nowMs : Int) (ho : e'.state=.ongoing)
    (hsince : e'.ongoingSinceMs=if e.state=.ongoing then e.ongoingSinceMs else nowMs)
    (hat : h'.openedAt=(h.opens (some e) pid nowMs).openedAt) : TxnClean (some e') h' := by
  constructor
  · intro y hy hn
    cases hy
    exact absurd ho hn
  · intro y hy _
    cases hy
    rw [hsince,hat]
    by_cases hs : e.state=.ongoing
    · rw [if_pos hs,opens_ongoing hs]
      exact hc.since e rfl hs
    · rw [if_neg hs,opens_idle hs]

theorem change (hc : TxnClean x h) (hch : TxnChange J R x h x' h') : TxnClean x' h' := by
  cases hch with
  | same => exact hc
  | joined _ _ timeoutMs alloc _ =>
    rcases rejoin_cases timeoutMs alloc x with ⟨_,_,_,hs,hp,hg,hz⟩|⟨e,rfl,_,timeout,hnew⟩
    · constructor
      · intro y hy _ _
        cases hy
        exact ⟨hp,hg,hz⟩
      · intro y hy ho
        cases hy
        rw [hs] at ho
        cases ho
    · rw [hnew]
      constructor
      · intro y hy
        cases hy
        exact hc.idle e rfl
      · intro y hy
        cases hy
        exact hc.since e rfl
  | added e _ additions nowMs _ | grouped e _ groupId nowMs _ =>
    exact hc.opens e.pid nowMs (opened_state _ _) (opened_since _ _) rfl
  | prepared e _ commit _ => exact ready (wantPrepare_preparing (show _=wantPrepare commit from rfl))
  | redriven e _ commit _ hr => exact ready (wantPrepare_preparing hr)
  | completed e _ commit _ =>
    constructor
    · intro y hy _ _
      cases hy
      exact ⟨rfl,rfl,rfl⟩
    · intro y hy ho
      cases hy
      exact absurd ho (wantComplete_ne_ongoing commit)
  | reaped e _ _ _ => exact ready (Or.inr rfl)

end TxnClean

def CompletedTxn.calls (c : CompletedTxn) : List HookCall := c.groups.map (fun g => ⟨g,c.pid,c.commit⟩)

/-- The hook has been called for the completed transactions, in their order and for nothing else;
the entry of a transaction in progress has the pid and the groups of its history. -/
structure TxnHooked (x : Option TxnEntry) (h : TxnHistory) : Prop where
  calls : h.hooked=h.completed.flatMap CompletedTxn.calls
  nodup : h.groups.Nodup
  each : ∀c∈h.completed,c.groups.Nodup ∧ c.number≤h.number
  order : h.completed.Pairwise (fun c c' => c.number<c'.number)
  active : ∀e,x=some e → e.state=.ongoing ∨ e.preparing →
    e.pid=h.pid ∧ e.groups=h.groups ∧ ∀c∈h.completed,c.number<h.number
  outcome : ∀e commit,x=some e → e.state=wantPrepare commit → ∃p,h.prepared=some p ∧ p.commit=commit

namespace TxnHooked

variable {x : Option TxnEntry} {h h' : TxnHistory} {e e' : TxnEntry} {commit : Bool}

theorem idle (hh : TxnHooked x h) (ho : e'.state≠.ongoing) (hr : ¬e'.preparing) : TxnHooked (some e') h := by
  refine ⟨hh.calls,hh.nodup,hh.each,hh.order,?_,?_⟩
  · intro y hy hs
    cases hy
    exact absurd hs (not_or.mpr ⟨ho,hr⟩)
  · intro y c hy hs
    cases hy
    exact absurd (wantPrepare_preparing hs) hr

theorem opens (hh : TxnHooked (some e) h) (nowMs : Int) (hidle : e.state≠.ongoing → e.groups=[]) :
    let g := h.opens (some e) e.pid nowMs
    g.hooked=g.completed.flatMap CompletedTxn.calls ∧ g.groups.Nodup ∧
      (∀c∈g.completed,c.groups.Nodup ∧ c.number≤g.number) ∧
        g.completed.Pairwise (fun c c' => c.number<c'.number) ∧
      g.pid=e.pid ∧ g.groups=e.groups ∧ ∀c∈g.completed,c.number<g.number := by
  dsimp only
  by_cases hs : e.state=.ongoing
  · rw [opens_ongoing hs]
    obtain ⟨h1,h2,h3⟩ := hh.active e rfl (Or.inl hs)
    exact ⟨hh.calls,hh.nodup,hh.each,hh.order,h1.symm,h2.symm,h3⟩
  · rw [opens_idle hs]
    refine ⟨hh.calls,List.nodup_nil,?_,hh.order,rfl,(hidle hs).symm,?_⟩
    · intro c hc
      exact ⟨(hh.each c hc).1,Nat.le_succ_of_le (hh.each c hc).2⟩
    · intro c hc
      exact Nat.lt_succ_of_le (hh.each c hc).2

theorem prepares (hh : TxnHooked (some e) h) (ho : e.state=.ongoing) (hr : e'.state=wantPrepare commit)
    (hpid : e'.pid=e.pid) (hgroups : e'.groups=e.groups) (p : TxnPrepared) (hp : p.commit=commit) :
    TxnHooked (some e') {h with prepared := some p} := by
  refine ⟨hh.calls,hh.nodup,hh.each,hh.order,?_,?_⟩
  · intro y hy _
    cases hy
    rw [hpid,hgroups]
    exact hh.active e rfl (Or.inl ho)
  · intro y c hy hs
    cases hy
    rw [hr] at hs
    exact ⟨p,rfl,hp.trans (wantPrepare_inj hs)⟩

theorem completes (hh : TxnHooked (some e) h) (hr : e.state=wantPrepare commit) :
    TxnHooked (some (e.completed commit))
      (h.completes (some e) (e.groups.map (fun g => ⟨g,e.pid,commit⟩))) := by
  have hprep := wantPrepare_preparing hr
  obtain ⟨hpid,hgroups,hlt⟩ := hh.active e rfl (Or.inr hprep)
  obtain ⟨p,hp,hcommit⟩ := hh.outcome e commit rfl hr
  have hnote : h.completes (some e) (e.groups.map (fun g => ⟨g,e.pid,commit⟩))=
      {h with hooked := h.hooked++e.groups.map (fun g => ⟨g,e.pid,commit⟩)
              completed := h.completed++[⟨h.number,h.pid,commit,h.groups⟩],added := [],groups := []} := by
    simp [TxnHistory.completes,isPreparing,hprep,hp,hcommit]
  rw [hnote]
  have hdone : ¬(e.completed commit).preparing := not_preparing_of_complete rfl
  refine ⟨?_,List.nodup_nil,?_,?_,?_,?_⟩
  · simp only [hh.calls,List.flatMap_append,hpid,hgroups]
    simp [CompletedTxn.calls]
  · intro c hc
    rcases List.mem_append.mp hc with hc|hc
    · exact hh.each c hc
    · rw [List.mem_singleton.mp hc]
      exact ⟨hh.nodup,le_refl _⟩
  · rw [List.pairwise_append]
    refine ⟨hh.order,List.pairwise_singleton _ _,?_⟩
    intro c hc c' hc'
    rw [List.mem_singleton.mp hc']
    exact hlt c hc
  · intro y hy hs
    cases hy
    exact absurd hs (not_or.mpr ⟨wantComplete_ne_ongoing commit,hdone⟩)
  · intro y c hy hs
    cases hy
    exact absurd (wantPrepare_preparing hs) hdone

theorem change (hh : TxnHooked x h) (hclean : TxnClean x h)
    (hch : TxnChange J R x h x' h') : TxnHooked x' h' := by
  cases hch with
  | same => exact hh
  | joined _ _ timeoutMs alloc _ =>
    rcases rejoin_cases timeoutMs alloc x with ⟨_,_,_,hs,_⟩|⟨e,rfl,_,timeout,hnew⟩
    · apply hh.idle
      · rw [hs]
        decide
      · rw [TxnEntry.preparing,hs]
        decide
    · rw [hnew]
      refine ⟨hh.calls,hh.nodup,hh.each,hh.order,?_,?_⟩
      · intro y hy
        cases hy
        exact hh.active e rfl
      · intro y c hy
        cases hy
        exact hh.outcome e c rfl
  | added e _ additions nowMs hidle =>
    obtain ⟨h1,h2,h3,h4,h5,h6,h7⟩ := hh.opens nowMs (fun hs => (hclean.idle e rfl hs hidle).2.1)
    refine ⟨h1,h2,h3,h4,?_,?_⟩
    · intro y hy _
      cases hy
      rw [opened_pid,opened_groups]
      exact ⟨h5.symm,h6.symm,h7⟩
    · intro y c hy hs
      cases hy
      rw [opened_state] at hs
      exact absurd hs.symm (wantPrepare_ne_ongoing c)
  | grouped e _ groupId nowMs hidle =>
    obtain ⟨h1,h2,h3,h4,h5,h6,h7⟩ := hh.opens nowMs (fun hs => (hclean.idle e rfl hs hidle).2.1)
    refine ⟨h1,?_,h3,h4,?_,?_⟩
    · unfold TxnHistory.joins
      dsimp only
      split_ifs with hin
      · exact h2
      · simpa using List.Nodup.concat hin h2
    · intro y hy _
      cases hy
      rw [opened_pid,opened_groups]
      refine ⟨h5.symm,?_,h7⟩
      unfold TxnHistory.joins
      dsimp only
      rw [h6]
    · intro y c hy hs
      cases hy
      rw [opened_state] at hs
      exact absurd hs.symm (wantPrepare_ne_ongoing c)
  | prepared e _ commit ho =>
    have hready : ({e with state := wantPrepare commit} : TxnEntry).state=wantPrepare commit := rfl
    have hp := hh.prepares ho hready rfl rfl ⟨e.epoch,commit,e.partitions⟩ rfl
    exact ⟨hp.calls,hp.nodup,hp.each,hp.order,hp.active,hp.outcome⟩
  | redriven e _ commit n hr => exact ⟨hh.calls,hh.nodup,hh.each,hh.order,hh.active,hh.outcome⟩
  | completed e _ commit hr => exact hh.completes hr
  | reaped e _ ho _ =>
    exact hh.prepares ho (show e.reaped.state=wantPrepare false from rfl) rfl rfl
      ⟨e.reaped.epoch,false,e.partitions⟩ rfl

end TxnHooked

/-- Entries outside a transaction are clean, an `Ongoing` one carries the time of the call that
opened it, and the hook was called once for each group of each completed transaction, with its pid
and outcome. -/
theorem entries_clean_and_hooked {n : Nat} {w : TxnWorld}
    (run : Reaches TxnStoreStep (fun _ _ => True) (TxnWorld.start n) w) (id : String) :
    (∀e,w.store.entry id=some e → (e.state=.empty ∨ e.state=.completeCommit ∨
        e.state=.completeAbort → e.partitions=[] ∧ e.groups=[] ∧ e.ongoingSinceMs=0) ∧
      (e.state=.ongoing → e.ongoingSinceMs=(w.history id).openedAt)) ∧
    (w.history id).hooked=(w.history id).completed.flatMap CompletedTxn.calls ∧
    (∀c∈(w.history id).completed,c.groups.Nodup) ∧
    (w.history id).completed.Pairwise (fun c c' => c.number<c'.number) := by
  have h := (reaches_each (J := fun _ => True) (P := fun x h => TxnClean x h ∧ TxnHooked x h) run
    ⟨⟨nofun,nofun⟩,⟨rfl,List.nodup_nil,nofun,List.Pairwise.nil,nofun,nofun⟩⟩
    (fun _ _ _ _ hp hc => ⟨hp.1.change hc,hp.2.change hp.1 hc⟩) (fun _ _ _ _ _ _ => trivial)).2 id
  refine ⟨fun e he => ⟨fun hs => ?_,h.1.since e he⟩,h.2.calls,fun c hc => (h.2.each c hc).1,h.2.order⟩
  apply h.1.idle e he
  · intro ho
    rw [ho] at hs
    simp at hs
  · intro hp
    rcases hp with hp|hp
    · rw [hp] at hs
      simp at hs
    · rw [hp] at hs
      simp at hs

theorem entries_clean_and_hooked_overdue :
    ∃w,Reaches TxnStoreStep (fun _ _ => True) (TxnWorld.start 1) w ∧
      (∃e,w.store.entry "tx"=some e ∧ e.state=.ongoing ∧ e.ongoingSinceMs=5000 ∧
        e.ongoingSinceMs=(w.history "tx").openedAt) ∧
      (w.history "tx").hooked=[⟨"billing",7,false⟩,⟨"audit",7,false⟩] ∧
      (w.history "tx").hooked=(w.history "tx").completed.flatMap CompletedTxn.calls := by
  obtain ⟨w,hreach,h1,h2⟩ : ∃w,Reaches TxnStoreStep (fun _ _ => True) (TxnWorld.start 1) w ∧
      (w.store.entry "tx").any (fun e => e.state=.ongoing ∧ e.ongoingSinceMs=5000) ∧
      (w.history "tx").hooked=[⟨"billing",7,false⟩,⟨"audit",7,false⟩] := by
    refine runChecked_finds (f := TxnWorld.exec) (fun _ _ => rfl) [.initProducerId {} "tx" 1000 7,
      .addOffsetsToTxn {} "tx" 7 0 "billing" 10,.addOffsetsToTxn {} "tx" 7 0 "audit" 20,
      .addOffsetsToTxn {} "tx" 7 0 "billing" 30,.abortOverdueOwned (fun _ => {}) 2000 none,
      .completeEndTxn {} "tx" 7 1 false,.addPartitions {} "tx" 7 1 [⟨"t",[0]⟩] 5000] ?_
    decide +kernel
  obtain ⟨hentry,hcalls,_⟩ := entries_clean_and_hooked hreach "tx"
  obtain ⟨e,he,hstate⟩ := (Option.any_eq_true _ _).mp h1
  obtain ⟨ho,hsince⟩ := of_decide_eq_true hstate
  exact ⟨w,hreach,⟨e,he,ho,hsince,(hentry e he).2 ho⟩,h2,hcalls⟩

end Kaas
