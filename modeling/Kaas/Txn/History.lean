import Kaas.Framework.Run
import Kaas.Txn.Steps

namespace Kaas

/-! What happened to a transactional id. A transaction is the interval from one `Ongoing` transition
to the next; transactions are numbered in that order. -/

structure TxnDispatch where
  number : Nat
  epoch : Int
  commit : Bool
  partitions : List TxnTopic
  deriving DecidableEq, Repr

structure TxnPrepared where
  epoch : Int
  commit : Bool
  partitions : List TxnTopic
  deriving DecidableEq, Repr

structure CompletedTxn where
  number : Nat
  pid : Int
  commit : Bool
  groups : List String
  deriving DecidableEq, Repr

/-- The calls answered with success, seen from one id: how its current transaction began, what was
added to it and at which epoch, how it was prepared; and every dispatch, completion and hook
call. -/
structure TxnHistory where
  number : Nat := 0
  pid : Int := 0
  openedAt : Int := 0
  added : List (Int × String × Int) := []
  groups : List String := []
  prepared : Option TxnPrepared := none
  dispatches : List TxnDispatch := []
  completed : List CompletedTxn := []
  hooked : List HookCall := []
  deriving DecidableEq, Repr

def isOngoing (existing : Option TxnEntry) : Bool := existing.any (fun e => e.state=.ongoing)

def isPreparing (existing : Option TxnEntry) : Bool := existing.any (fun e => e.preparing)

namespace TxnHistory

/-- An Add call was accepted: unless the entry was `Ongoing` already, it opens a transaction. -/
def opens (existing : Option TxnEntry) (pid nowMs : Int) (h : TxnHistory) : TxnHistory :=
  if isOngoing existing then h
  else {h with number := h.number+1,pid := pid,openedAt := nowMs,added := [],groups := [],prepared := none}

def adds (epoch : Int) (additions : List TxnTopic) (h : TxnHistory) : TxnHistory :=
  {h with added := h.added++additions.flatMap (fun t => t.partitions.map (fun p => (epoch,t.topic,p)))}

def joins (groupId : String) (h : TxnHistory) : TxnHistory :=
  {h with groups := if groupId∈h.groups then h.groups else h.groups++[groupId]}

def dispatch (epoch : Int) (commit : Bool) (partitions : List TxnTopic) (h : TxnHistory) : TxnHistory :=
  {h with dispatches := h.dispatches++[⟨h.number,epoch,commit,partitions⟩]}

def prepares (existing : Option TxnEntry) (epoch : Int) (commit : Bool) (out : EndTxnOutcome)
    (h : TxnHistory) : TxnHistory :=
  let h := if isOngoing existing then {h with prepared := some ⟨epoch,commit,out.partitions⟩} else h
  if out.transitionFired then h.dispatch epoch commit out.partitions else h

def completes (existing : Option TxnEntry) (calls : List HookCall) (h : TxnHistory) : TxnHistory :=
  let h := {h with hooked := h.hooked++calls}
  if isPreparing existing then
    {h with completed := h.completed++[⟨h.number,h.pid,h.prepared.any (·.commit),h.groups⟩],added := [],groups := []}
  else h

def pending (txnId : String) (ds : List PendingMarkerDispatch) (h : TxnHistory) : TxnHistory :=
  (ds.filter (·.txnId=txnId)).foldl (fun h d => h.dispatch d.epoch d.commit d.partitions) h

/-- A sweep prepares the abort of the transactions it finds `Ongoing` and leaves otherwise. -/
def sweeps (before after : Option TxnEntry) (h : TxnHistory) : TxnHistory :=
  match after with
  | none => h
  | some e => if isOngoing before ∧ e.state≠.ongoing then {h with prepared := some ⟨e.epoch,false,e.partitions⟩} else h

end TxnHistory

inductive TxnStoreOp
  | initProducerId (io : SlotIo) (txnId : String) (timeoutMs alloc : Int)
  | addPartitions (io : SlotIo) (txnId : String) (pid epoch : Int) (additions : List TxnTopic) (nowMs : Int)
  | addOffsetsToTxn (io : SlotIo) (txnId : String) (pid epoch : Int) (groupId : String) (nowMs : Int)
  | prepareEndTxn (io : SlotIo) (txnId : String) (pid epoch : Int) (commit : Bool)
  | completeEndTxn (io : SlotIo) (txnId : String) (pid epoch : Int) (commit : Bool)
  | pendingMarkerDispatches (loads : Nat → Bool) (owns : OwnsTxn)
  | abortOverdueOwned (io : Nat → SlotIo) (nowMs : Int) (owns : OwnsTxn)

/-- The store, the histories, the pairs handed to producers or installed by a sweep, and the pids
the allocator has returned. -/
structure TxnWorld where
  store : TxnStore
  history : String → TxnHistory := fun _ => {}
  handed : List (Int × Int) := []
  allocated : List Int := []

namespace TxnWorld

def start (numSlots : Nat) : TxnWorld := {store := TxnStore.openStore numSlots}

def Allocates (w : TxnWorld) (io : SlotIo) (txnId : String) : Prop :=
  txnId≠"" ∧ io.load=true ∧ (w.store.entry txnId).all (fun e => e.epoch=i16Max)=true

instance (w : TxnWorld) (io : SlotIo) (txnId : String) : Decidable (w.Allocates io txnId) :=
  inferInstanceAs (Decidable (_ ∧ _ ∧ _))

def installed (s : TxnStore) (io : Nat → SlotIo) (nowMs : Int) (owns : OwnsTxn) : List (Int × Int) :=
  (List.range s.numSlots).flatMap (fun slot =>
    if (io slot).load ∧ (io slot).persist then
      (TxnStore.reapSlot nowMs owns (s.slots slot)).2.map (fun r => (r.pid,r.newEpoch))
    else [])

def note (w : TxnWorld) (txnId : String) (f : TxnHistory → TxnHistory) : TxnWorld :=
  {w with history := Function.update w.history txnId (f (w.history txnId))}

def exec (w : TxnWorld) : TxnStoreOp → TxnWorld
  | .initProducerId io txnId timeoutMs alloc =>
    let r := w.store.getOrAllocateWithTimeout io txnId timeoutMs alloc
    {w with
      store := r.1
      handed := w.handed++r.2.toOption.toList
      allocated := if w.Allocates io txnId then w.allocated++[alloc] else w.allocated}
  | .addPartitions io txnId pid epoch additions nowMs =>
    match w.store.addPartitions io txnId pid epoch additions nowMs with
    | (s,.error _) => {w with store := s}
    | (s,.ok _) => {w with store := s}.note txnId
        (fun h => (h.opens (w.store.entry txnId) pid nowMs).adds epoch additions)
  | .addOffsetsToTxn io txnId pid epoch groupId nowMs =>
    match w.store.addOffsetsToTxn io txnId pid epoch groupId nowMs with
    | (s,.error _) => {w with store := s}
    | (s,.ok _) => {w with store := s}.note txnId
        (fun h => (h.opens (w.store.entry txnId) pid nowMs).joins groupId)
  | .prepareEndTxn io txnId pid epoch commit =>
    match w.store.prepareEndTxn io txnId pid epoch commit with
    | (s,.error _) => {w with store := s}
    | (s,.ok out) => {w with store := s}.note txnId (·.prepares (w.store.entry txnId) epoch commit out)
  | .completeEndTxn io txnId pid epoch commit =>
    match w.store.completeEndTxn io txnId pid epoch commit with
    | (s,.error _) => {w with store := s}
    | (s,.ok calls) => {w with store := s}.note txnId (·.completes (w.store.entry txnId) calls)
  | .pendingMarkerDispatches loads owns =>
    {w with history := fun id => (w.history id).pending id (w.store.pendingMarkerDispatches loads owns)}
  | .abortOverdueOwned io nowMs owns =>
    {w with
      store := (w.store.abortOverdueOwned io nowMs owns).1
      history := fun id =>
        (w.history id).sweeps (w.store.entry id) ((w.store.abortOverdueOwned io nowMs owns).1.entry id)
      handed := w.handed++installed w.store io nowMs owns}

end TxnWorld

def TxnStoreStep (w : TxnWorld) (op : TxnStoreOp) (w' : TxnWorld) : Prop := w.exec op=w'

/-- Everything a step can do to an entry and its history. `J` is what is known about the entry that
an `InitProducerId` finds, `R` about one that a sweep finds overdue. -/
inductive TxnChange (J : Option TxnEntry → Prop) (R : TxnEntry → Prop) :
    Option TxnEntry → TxnHistory → Option TxnEntry → TxnHistory → Prop
  | same (x : Option TxnEntry) (h : TxnHistory) : TxnChange J R x h x h
  | joined (x : Option TxnEntry) (h : TxnHistory) (timeoutMs alloc : Int) (found : J x) :
    TxnChange J R x h (some (TxnEntry.rejoin timeoutMs alloc x)) h
  | added (e : TxnEntry) (h : TxnHistory) (additions : List TxnTopic) (nowMs : Int) (idle : ¬e.preparing) :
    TxnChange J R (some e) h
      (some (TxnEntry.opened nowMs {e with partitions := (mergePartitions e.partitions additions).1}))
      ((h.opens (some e) e.pid nowMs).adds e.epoch additions)
  | grouped (e : TxnEntry) (h : TxnHistory) (groupId : String) (nowMs : Int) (idle : ¬e.preparing) :
    TxnChange J R (some e) h
      (some (TxnEntry.opened nowMs
        {e with groups := if groupId∈e.groups then e.groups else e.groups++[groupId]}))
      ((h.opens (some e) e.pid nowMs).joins groupId)
  | prepared (e : TxnEntry) (h : TxnHistory) (commit : Bool) (ongoing : e.state=.ongoing) :
    TxnChange J R (some e) h (some {e with state := wantPrepare commit})
      (({h with prepared := some ⟨e.epoch,commit,e.partitions⟩} : TxnHistory).dispatch e.epoch
        commit e.partitions)
  | redriven (e : TxnEntry) (h : TxnHistory) (commit : Bool) (n : Nat) (ready : e.state=wantPrepare commit) :
    TxnChange J R (some e) h (some e)
      {h with dispatches := h.dispatches++List.replicate n ⟨h.number,e.epoch,commit,e.partitions⟩}
  | completed (e : TxnEntry) (h : TxnHistory) (commit : Bool) (ready : e.state=wantPrepare commit) :
    TxnChange J R (some e) h (some (e.completed commit))
      (h.completes (some e) (e.groups.map (fun g => ⟨g,e.pid,commit⟩)))
  | reaped (e : TxnEntry) (h : TxnHistory) (ongoing : e.state=.ongoing) (found : R e) :
    TxnChange J R (some e) h (some e.reaped) {h with prepared := some ⟨e.reaped.epoch,false,e.partitions⟩}

section Changes

variable {J : Option TxnEntry → Prop} {R : TxnEntry → Prop} {w : TxnWorld} {id : String}

theorem note_history (w : TxnWorld) (txnId : String) (f : TxnHistory → TxnHistory) (id : String) :
    (w.note txnId f).history id=if id=txnId then f (w.history txnId) else w.history id := by
  by_cases hid : id=txnId
  · rw [if_pos hid,hid]
    exact Function.update_self ..
  · rw [if_neg hid]
    exact Function.update_of_ne hid ..

theorem access_change {α : Type} (io : SlotIo) (txnId : String)
    (f : Option TxnEntry → Except TxnStateError (Option TxnEntry × α)) (note : α → TxnHistory →
    TxnHistory) {w' : TxnWorld} (herr : ∀err,w.store.access io txnId f=(w.store,.error err) → w'=w)
    (hok : ∀s a,w.store.access io txnId f=(s,.ok a) → w'={w with store := s}.note txnId (note a))
    (hchange : ∀o a,f (w.store.entry txnId)=.ok (o,a) →
      TxnChange J R (w.store.entry txnId) (w.history txnId) (o.or (w.store.entry txnId))
        (note a (w.history txnId))) :
    TxnChange J R (w.store.entry id) (w.history id) (w'.store.entry id) (w'.history id) := by
  rcases access_cases w.store io txnId f with ⟨err,h⟩|⟨o,a,_,hf,hres,hentry,_⟩
  · rw [herr err h]
    exact .same _ _
  · have hw := hok _ a (Prod.ext rfl hres)
    have hstore : w'.store.entry id=if id=txnId then o.or (w.store.entry txnId) else w.store.entry id := by
      rw [hw]
      exact hentry id
    have hhist : w'.history id=if id=txnId then note a (w.history txnId) else w.history id := by
      rw [hw]
      exact note_history _ txnId (note a) id
    rw [hstore,hhist]
    by_cases hid : id=txnId
    · rw [if_pos hid,if_pos hid,hid]
      exact hchange o a hf
    · rw [if_neg hid,if_neg hid]
      exact .same _ _

theorem initProducerId_change (io : SlotIo) (txnId : String) (timeoutMs alloc : Int)
    (hJ : id=txnId → J (w.store.entry id)) :
    TxnChange J R (w.store.entry id) (w.history id)
      ((w.exec (.initProducerId io txnId timeoutMs alloc)).store.entry id) (w.history id) := by
  change TxnChange J R _ _ ((w.store.getOrAllocateWithTimeout io txnId timeoutMs alloc).1.entry id) _
  unfold TxnStore.getOrAllocateWithTimeout
  rcases access_cases w.store io txnId (fun existing => .ok (some (TxnEntry.rejoin timeoutMs alloc existing),
    ((TxnEntry.rejoin timeoutMs alloc existing).pid,(TxnEntry.rejoin timeoutMs alloc existing).epoch)))
      with ⟨err,h⟩|⟨o,a,_,hf,_,hentry,_⟩
  · rw [h]
    exact .same _ _
  · rw [hentry id]
    by_cases hid : id=txnId
    · cases hf
      rw [if_pos hid,← hid]
      exact .joined _ _ timeoutMs alloc (hJ hid)
    · rw [if_neg hid]
      exact .same _ _

theorem prepares_change (existing : Option TxnEntry) (h : TxnHistory) (pid epoch : Int) (commit : Bool)
    (o : Option TxnEntry) (out : EndTxnOutcome) (hf : TxnEntry.prepare pid epoch commit existing=.ok (o,out)) :
    TxnChange J R existing h (o.or existing) (h.prepares existing epoch commit out) := by
  obtain ⟨e,rfl,_,rfl,⟨hs,rfl,rfl⟩|⟨hs,rfl,rfl⟩|⟨hs,rfl,rfl⟩⟩ := prepare_ok hf
  · have hnote : h.prepares (some e) e.epoch commit ⟨e.partitions,e.groups,true⟩=
        ({h with prepared := some ⟨e.epoch,commit,e.partitions⟩} : TxnHistory).dispatch e.epoch
          commit e.partitions := by
      simp [TxnHistory.prepares,isOngoing,hs]
    rw [hnote]
    exact .prepared e h commit hs
  · have hnote : h.prepares (some e) e.epoch commit ⟨e.partitions,e.groups,true⟩=
        {h with dispatches := h.dispatches++List.replicate 1 ⟨h.number,e.epoch,commit,e.partitions⟩} := by
      cases commit <;> simp [TxnHistory.prepares,TxnHistory.dispatch,isOngoing,hs,wantPrepare]
    rw [hnote]
    exact .redriven e h commit 1 hs
  · have hnote : h.prepares (some e) e.epoch commit {}=h := by
      cases commit <;> simp [TxnHistory.prepares,isOngoing,hs,wantComplete]
    rw [hnote]
    exact .same _ _

theorem completes_change (existing : Option TxnEntry) (h : TxnHistory) (pid epoch : Int)
    (commit : Bool) (o : Option TxnEntry) (calls : List HookCall)
    (hf : TxnEntry.complete pid epoch commit existing=.ok (o,calls)) :
    TxnChange J R existing h (o.or existing) (h.completes existing calls) := by
  obtain ⟨e,rfl,_,_,⟨hs,rfl,rfl⟩|⟨hs,rfl,rfl⟩⟩ := complete_ok hf
  · exact .completed e h commit hs
  · have hnote : h.completes (some e) []=h := by
      cases commit <;> simp [TxnHistory.completes,isPreparing,TxnEntry.preparing,hs,wantComplete]
    rw [hnote]
    exact .same _ _

theorem dispatch_foldl (n : Nat) (d : PendingMarkerDispatch) (h : TxnHistory) :
    (List.replicate n d).foldl (fun h d => h.dispatch d.epoch d.commit d.partitions) h=
      {h with dispatches := h.dispatches++List.replicate n ⟨h.number,d.epoch,d.commit,d.partitions⟩} := by
  induction n generalizing h with
  | zero => simp
  | succ n ih =>
    rw [List.replicate_succ,List.foldl_cons,ih,List.replicate_succ]
    simp [TxnHistory.dispatch]

theorem pending_change (hp : Placed w.store) (loads : Nat → Bool) (owns : OwnsTxn) :
    TxnChange J R (w.store.entry id) (w.history id) (w.store.entry id)
      ((w.history id).pending id (w.store.pendingMarkerDispatches loads owns)) := by
  have hall (d : PendingMarkerDispatch)
      (hd : d∈(w.store.pendingMarkerDispatches loads owns).filter (·.txnId=id)) :
      ∃e commit,w.store.entry id=some e ∧ e.state=wantPrepare commit ∧
        d=⟨id,e.pid,e.epoch,commit,e.partitions⟩ := by
    obtain ⟨hin,hid⟩ := List.mem_filter.mp hd
    have hid : d.txnId=id := of_decide_eq_true hid
    obtain ⟨_,e,he,hpend⟩ := (mem_pendingMarkerDispatches hp loads owns d).mp hin
    obtain ⟨hprep,_,_,heq⟩ := pendingOf_some.mp hpend
    rw [hid] at he heq
    rcases hprep with hs|hs
    · exact ⟨e,true,he,hs,by rw [heq,hs]; rfl⟩
    · exact ⟨e,false,he,hs,by rw [heq,hs]; rfl⟩
  unfold TxnHistory.pending
  cases hl : (w.store.pendingMarkerDispatches loads owns).filter (·.txnId=id) with
  | nil => exact .same _ _
  | cons d ds =>
    rw [hl] at hall
    obtain ⟨e,commit,he,hs,hd⟩ := hall d (List.mem_cons_self ..)
    have hrep : d::ds=List.replicate (d::ds).length d := by
      apply List.eq_replicate_of_mem
      intro d' hd'
      obtain ⟨e',commit',he',hs',heq⟩ := hall d' hd'
      rw [he] at he'
      cases he'
      have hc : commit'=commit := by
        rw [hs] at hs'
        cases commit <;> cases commit' <;> first | rfl | cases hs'
      rw [heq,hd,hc]
    rw [hrep,dispatch_foldl,he,hd]
    exact .redriven e _ commit _ hs

def TxnWorld.Reaps (w : TxnWorld) (io : Nat → SlotIo) (nowMs : Int) (owns : OwnsTxn) (id : String)
    (e : TxnEntry) :
    Prop :=
  Swept w.store io (w.store.slotFor id) ∧ e.overdue nowMs ∧ owns.owns id=true

theorem sweeps_change (io : Nat → SlotIo) (nowMs : Int) (owns : OwnsTxn)
    (hR : ∀e,w.store.entry id=some e → w.Reaps io nowMs owns id e → R e) :
    TxnChange J R (w.store.entry id) (w.history id) ((w.store.abortOverdueOwned io nowMs owns).1.entry id)
      ((w.history id).sweeps (w.store.entry id) ((w.store.abortOverdueOwned io nowMs owns).1.entry id)) := by
  have hsame : TxnChange J R (w.store.entry id) (w.history id) (w.store.entry id)
      ((w.history id).sweeps (w.store.entry id) (w.store.entry id)) := by
    have hnote : (w.history id).sweeps (w.store.entry id) (w.store.entry id)=w.history id := by
      cases w.store.entry id with
      | none => rfl
      | some e => simp [TxnHistory.sweeps,isOngoing]
    rw [hnote]
    exact .same _ _
  rw [abortOverdueOwned_entry]
  split_ifs with hswept
  · cases he : w.store.entry id with
    | none =>
      rw [he] at hsame
      exact hsame
    | some e =>
      rw [he] at hsame
      rw [Option.map_some,TxnEntry.swept]
      split_ifs with hdue
      · have hnote : (w.history id).sweeps (some e) (some e.reaped)=
            {w.history id with prepared := some ⟨e.reaped.epoch,false,e.partitions⟩} := by
          simp [TxnHistory.sweeps,isOngoing,hdue.1.1,TxnEntry.reaped]
        rw [hnote]
        exact .reaped e _ hdue.1.1 (hR e he ⟨hswept,hdue⟩)
      · exact hsame
  · exact hsame

theorem exec_change (hp : Placed w.store) (op : TxnStoreOp)
    (hJ : ∀io timeoutMs alloc,op=.initProducerId io id timeoutMs alloc → J (w.store.entry id))
    (hR : ∀io nowMs owns,op=.abortOverdueOwned io nowMs owns →
      ∀e,w.store.entry id=some e → w.Reaps io nowMs owns id e → R e) :
    TxnChange J R (w.store.entry id) (w.history id) ((w.exec op).store.entry id) ((w.exec op).history id) := by
  cases op with
  | initProducerId io txnId timeoutMs alloc =>
    exact initProducerId_change io txnId timeoutMs alloc (fun hid => hJ io timeoutMs alloc (by rw [hid]))
  | addPartitions io txnId pid epoch additions nowMs =>
    apply access_change io txnId (TxnEntry.addPartitions pid epoch additions nowMs)
      (fun _ h => (h.opens (w.store.entry txnId) pid nowMs).adds epoch additions)
    · intro err h
      simp only [TxnWorld.exec,TxnStore.addPartitions,h]
    · intro s a h
      simp only [TxnWorld.exec,TxnStore.addPartitions,h]
    · intro o a hf
      obtain ⟨e,he,rfl,rfl,hidle,hnew⟩ := addPartitions_ok hf
      rw [hnew,he]
      exact .added e _ additions nowMs hidle
  | addOffsetsToTxn io txnId pid epoch groupId nowMs =>
    by_cases hid : txnId=""
    · have hsame : w.exec (.addOffsetsToTxn io txnId pid epoch groupId nowMs)=w := by
        simp only [TxnWorld.exec,TxnStore.addOffsetsToTxn,hid,if_true]
      rw [hsame]
      exact .same _ _
    by_cases hgroup : groupId=""
    · have hsame : w.exec (.addOffsetsToTxn io txnId pid epoch groupId nowMs)=w := by
        simp only [TxnWorld.exec,TxnStore.addOffsetsToTxn,hid,hgroup,if_true,if_false]
      rw [hsame]
      exact .same _ _
    apply access_change io txnId (TxnEntry.addOffsets pid epoch groupId nowMs)
      (fun _ h => (h.opens (w.store.entry txnId) pid nowMs).joins groupId)
    · intro err h
      simp only [TxnWorld.exec,TxnStore.addOffsetsToTxn,hid,hgroup,if_false,h]
    · intro s a h
      simp only [TxnWorld.exec,TxnStore.addOffsetsToTxn,hid,hgroup,if_false,h]
    · intro o a hf
      obtain ⟨e,he,rfl,rfl,hidle,hnew⟩ := addOffsets_ok hf
      rw [hnew,he]
      exact .grouped e _ groupId nowMs hidle
  | prepareEndTxn io txnId pid epoch commit =>
    apply access_change io txnId (TxnEntry.prepare pid epoch commit)
      (fun out h => h.prepares (w.store.entry txnId) epoch commit out)
    · intro err h
      simp only [TxnWorld.exec,TxnStore.prepareEndTxn,h]
    · intro s a h
      simp only [TxnWorld.exec,TxnStore.prepareEndTxn,h]
    · intro o out hf
      exact prepares_change _ _ pid epoch commit o out hf
  | completeEndTxn io txnId pid epoch commit =>
    apply access_change io txnId (TxnEntry.complete pid epoch commit)
      (fun calls h => h.completes (w.store.entry txnId) calls)
    · intro err h
      simp only [TxnWorld.exec,TxnStore.completeEndTxn,h]
    · intro s a h
      simp only [TxnWorld.exec,TxnStore.completeEndTxn,h]
    · intro o calls hf
      exact completes_change _ _ pid epoch commit o calls hf
  | pendingMarkerDispatches loads owns => exact pending_change hp loads owns
  | abortOverdueOwned io nowMs owns => exact sweeps_change io nowMs owns (hR io nowMs owns rfl)

theorem exec_placed (hp : Placed w.store) (op : TxnStoreOp) : Placed (w.exec op).store := by
  cases op with
  | initProducerId io txnId timeoutMs alloc => exact placed_access hp
  | addPartitions io txnId pid epoch additions nowMs =>
    have h : Placed (w.store.access io txnId
      (TxnEntry.addPartitions pid epoch additions nowMs)).1 := placed_access hp
    simp only [TxnWorld.exec,TxnStore.addPartitions]
    split <;> rename_i heq <;> rw [heq] at h <;> exact h
  | addOffsetsToTxn io txnId pid epoch groupId nowMs =>
    have h : Placed (w.store.addOffsetsToTxn io txnId pid epoch groupId nowMs).1 := by
      unfold TxnStore.addOffsetsToTxn
      split_ifs
      · exact hp
      · exact hp
      · exact placed_access hp
    simp only [TxnWorld.exec]
    split <;> rename_i heq <;> rw [heq] at h <;> exact h
  | prepareEndTxn io txnId pid epoch commit =>
    have h : Placed (w.store.access io txnId (TxnEntry.prepare pid epoch commit)).1 := placed_access hp
    simp only [TxnWorld.exec,TxnStore.prepareEndTxn]
    split <;> rename_i heq <;> rw [heq] at h <;> exact h
  | completeEndTxn io txnId pid epoch commit =>
    have h : Placed (w.store.access io txnId (TxnEntry.complete pid epoch commit)).1 := placed_access hp
    simp only [TxnWorld.exec,TxnStore.completeEndTxn]
    split <;> rename_i heq <;> rw [heq] at h <;> exact h
  | pendingMarkerDispatches loads owns => exact hp
  | abortOverdueOwned io nowMs owns => exact placed_abortOverdueOwned hp io nowMs owns

theorem start_entry (n : Nat) (id : String) : (TxnWorld.start n).store.entry id=none := AList.lookup_empty id

theorem reaches_each {n : Nat} {ok : TxnWorld → TxnStoreOp → Prop} {P : Option TxnEntry → TxnHistory → Prop}
    (run : Reaches TxnStoreStep ok (TxnWorld.start n) w) (hstart : P none {})
    (hkeep : ∀x h x' h',P x h → TxnChange J (fun _ => True) x h x' h' → P x' h')
    (hJ : ∀v io id timeoutMs alloc,ok v (.initProducerId io id timeoutMs alloc) → J (v.store.entry id)) :
    Placed w.store ∧ ∀id,P (w.store.entry id) (w.history id) := by
  induction run with
  | start =>
    refine ⟨placed_open n,fun id => ?_⟩
    rw [start_entry]
    exact hstart
  | @next v v' op _ hok hstep ih =>
    cases hstep
    refine ⟨exec_placed ih.1 op,fun id => hkeep _ _ _ _ (ih.2 id)
      (exec_change ih.1 op ?_ (fun _ _ _ _ _ _ _ => trivial))⟩
    intro io timeoutMs alloc hop
    rw [hop] at hok
    exact hJ v io id timeoutMs alloc hok

inductive TxnState.Follows : TxnState → TxnState → Prop
  | stays (s : TxnState) : Follows s s
  | opens (s : TxnState) (idle : ∀commit,s≠wantPrepare commit) : Follows s .ongoing
  | prepares (commit : Bool) : Follows .ongoing (wantPrepare commit)
  | completes (commit : Bool) : Follows (wantPrepare commit) (wantComplete commit)

/-- What may become of an entry while its epochs last. What is prepared keeps its partitions and
groups until it is completed. -/
structure TxnEntry.Advances (e e' : TxnEntry) : Prop where
  pid : e'.pid=e.pid
  epoch : e.epoch≤e'.epoch
  state : e.state.Follows e'.state
  frozen : e.preparing → e'.preparing → e'.partitions=e.partitions ∧ e'.groups=e.groups

theorem TxnEntry.advances_opened {e e' : TxnEntry} (nowMs : Int) (idle : ¬e.preparing) (hp : e'.pid=e.pid)
    (he : e'.epoch=e.epoch) (hs : e'.state=e.state) : e.Advances (opened nowMs e') := by
  have hidle (commit : Bool) (h : e.state=wantPrepare commit) : False := by
    cases commit
    · exact idle (.inr h)
    · exact idle (.inl h)
  unfold opened
  split_ifs
  · exact ⟨hp,he.ge,.opens _ hidle,fun h => absurd h idle⟩
  · exact ⟨hp,he.ge,hs ▸ .stays _,fun h => absurd h idle⟩

theorem TxnChange.advances {e : TxnEntry} {x : Option TxnEntry} {h h' : TxnHistory}
    (hc : TxnChange J R (some e) h x h') (hlast : e.epoch≠i16Max) : ∃e'∈x,e.Advances e' := by
  cases hc with
  | same | redriven _ _ commit n ready => exact ⟨e,rfl,rfl,le_refl _,.stays _,fun _ _ => ⟨rfl,rfl⟩⟩
  | joined _ _ timeoutMs alloc found =>
    refine ⟨_,rfl,?_⟩
    unfold TxnEntry.rejoin
    dsimp only
    rw [if_neg hlast]
    split_ifs <;> exact ⟨rfl,Int.le_add_one (le_refl _),.stays _,fun _ _ => ⟨rfl,rfl⟩⟩
  | added _ _ additions nowMs idle | grouped _ _ groupId nowMs idle =>
    exact ⟨_,rfl,TxnEntry.advances_opened nowMs idle rfl rfl rfl⟩
  | prepared _ _ commit ongoing => exact ⟨_,rfl,rfl,le_refl _,ongoing ▸ .prepares commit,fun _ _ => ⟨rfl,rfl⟩⟩
  | completed _ _ commit ready =>
    refine ⟨_,rfl,rfl,le_refl _,ready ▸ .completes commit,fun _ h => ?_⟩
    cases commit <;> rcases h with h|h <;> cases h
  | reaped _ _ ongoing found =>
    refine ⟨_,rfl,rfl,?_,ongoing ▸ .prepares false,fun _ _ => ⟨rfl,rfl⟩⟩
    rw [TxnEntry.reaped,if_neg hlast]
    exact Int.le_add_one (le_refl _)

/-- In every reachable state, whatever the operation: an entry stays, with its pid, and moves only
as the state machine says, its epoch never going down. -/
theorem txn_entries_advance {n : Nat} {e : TxnEntry} (op : TxnStoreOp)
    (run : Reaches TxnStoreStep (fun _ _ => True) (TxnWorld.start n) w) (he : w.store.entry id=some e)
    (hlast : e.epoch≠i16Max) : ∃e'∈(w.exec op).store.entry id,e.Advances e' := by
  have hplaced := (reaches_each (J := fun _ => True) (P :=
    fun _ _ => True) run trivial (fun _ _ _ _ _ _ => trivial) (fun _ _ _ _ _ _ => trivial)).1
  have hc : TxnChange (fun _ => True) (fun _ => True) (w.store.entry id) _ _ _ :=
    exec_change hplaced op (fun _ _ _ _ => trivial) (fun _ _ _ _ _ _ _ => trivial)
  rw [he] at hc
  exact hc.advances hlast

end Changes

theorem txn_entry_prepared : ∃e'∈(([.initProducerId {} "t" 0 7,.addPartitions {} "t" 7 0 [⟨"a",[0]⟩] 5].foldl
    TxnWorld.exec (TxnWorld.start 1)).exec (.prepareEndTxn {} "t" 7 0 true)).store.entry "t",
    TxnEntry.Advances ⟨7,0,[⟨"a",[0]⟩],5,0,.ongoing,[]⟩ e' := by
  exact txn_entries_advance _ (foldl_reaches (fun _ _ => rfl) _ _) (by decide +kernel) (by decide)

end Kaas
