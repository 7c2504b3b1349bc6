import Kaas.Broker.GroupHash
import Kaas.Math.BigEndian

namespace Kaas

inductive TxnState
  | empty
  | ongoing
  | prepareCommit
  | prepareAbort
  | completeCommit
  | completeAbort
  deriving DecidableEq, Repr

structure TxnTopic where
  topic : String
  partitions : List Int
  deriving DecidableEq, Repr

structure TxnEntry where
  pid : Int
  epoch : Int
  partitions : List TxnTopic := []
  ongoingSinceMs : Int := 0
  transactionTimeoutMs : Int := 0
  state : TxnState := .empty
  groups : List String := []
  deriving DecidableEq, Repr

inductive TxnStateError
  | emptyTxnId
  | unknownProducer
  | epochFenced
  | concurrent
  | invalidState
  | io
  deriving DecidableEq, Repr

structure PendingMarkerDispatch where
  txnId : String
  pid : Int
  epoch : Int
  commit : Bool
  partitions : List TxnTopic
  deriving DecidableEq, Repr

structure TxnAbortRecord where
  txnId : String
  pid : Int
  oldEpoch : Int
  newEpoch : Int
  groups : List String
  deriving DecidableEq, Repr

structure EndTxnOutcome where
  partitions : List TxnTopic := []
  groups : List String := []
  transitionFired : Bool := false
  deriving DecidableEq, Repr

structure HookCall where
  groupId : String
  producerId : Int
  commit : Bool
  deriving DecidableEq, Repr

def i16Max : Int := 32767

def wantPrepare (commit : Bool) : TxnState := if commit then .prepareCommit else .prepareAbort

def wantComplete (commit : Bool) : TxnState := if commit then .completeCommit else .completeAbort

def pushMissing (s : List Int × Bool) (p : Int) : List Int × Bool :=
  if p∈s.1 then s else (s.1++[p],true)

/-- Partitions of a known topic are united, a new topic is taken over as it is. -/
def mergeTopic (add : TxnTopic) : List TxnTopic → List TxnTopic × Bool
  | [] => ([add],true)
  | t::ts =>
    if t.topic=add.topic then
      let merged := add.partitions.foldl pushMissing (t.partitions,false)
      ({t with partitions := merged.1}::ts,merged.2)
    else (t::(mergeTopic add ts).1,(mergeTopic add ts).2)

def mergePartitions (partitions additions : List TxnTopic) : List TxnTopic × Bool :=
  additions.foldl (fun s add => ((mergeTopic add s.1).1,s.2||(mergeTopic add s.1).2)) (partitions,false)

namespace TxnEntry

/-- `InitProducerId`: a new entry, a new pid once the epochs are used up, or the next epoch. -/
def rejoin (timeoutMs alloc : Int) (existing : Option TxnEntry) : TxnEntry :=
  let entry := match existing with
    | none => {pid := alloc,epoch := 0}
    | some e =>
      if e.epoch=i16Max then {pid := alloc,epoch := 0,transactionTimeoutMs := e.transactionTimeoutMs}
      else {e with epoch := e.epoch+1}
  if 0<timeoutMs then {entry with transactionTimeoutMs := timeoutMs} else entry

def validate (pid epoch : Int) (existing : Option TxnEntry) : Except TxnStateError TxnEntry :=
  match existing with
  | none => .error .unknownProducer
  | some e =>
    if e.pid≠pid then .error .unknownProducer
    else if e.epoch≠epoch then .error .epochFenced
    else .ok e

def preparing (e : TxnEntry) : Prop := e.state=.prepareCommit ∨ e.state=.prepareAbort

instance (e : TxnEntry) : Decidable e.preparing := inferInstanceAs (Decidable (_ ∨ _))

def opened (nowMs : Int) (e : TxnEntry) : TxnEntry :=
  if e.state≠.ongoing then {e with state := .ongoing,ongoingSinceMs := nowMs} else e

def addPartitions (pid epoch : Int) (additions : List TxnTopic) (nowMs : Int)
    (existing : Option TxnEntry) : Except TxnStateError (Option TxnEntry × Unit) :=
  match validate pid epoch existing with
  | .error err => .error err
  | .ok e =>
    if e.preparing then .error .concurrent
    else
      let merged := mergePartitions e.partitions additions
      if merged.2=false ∧ e.state=.ongoing then .ok (none,())
      else .ok (some (opened nowMs {e with partitions := merged.1}),())

def addOffsets (pid epoch : Int) (groupId : String) (nowMs : Int) (existing : Option TxnEntry) :
    Except TxnStateError (Option TxnEntry × Unit) :=
  match validate pid epoch existing with
  | .error err => .error err
  | .ok e =>
    if e.preparing then .error .concurrent
    else if groupId∈e.groups ∧ e.state=.ongoing then .ok (none,())
    else .ok (some (opened nowMs
      {e with groups := if groupId∈e.groups then e.groups else e.groups++[groupId]}),())

def prepare (pid epoch : Int) (commit : Bool) (existing : Option TxnEntry) :
    Except TxnStateError (Option TxnEntry × EndTxnOutcome) :=
  match validate pid epoch existing with
  | .error err => .error err
  | .ok e => match e.state with
    | .ongoing => .ok (some {e with state := wantPrepare commit},⟨e.partitions,e.groups,true⟩)
    | .prepareCommit | .prepareAbort =>
      if e.state≠wantPrepare commit then .error .invalidState
      else .ok (none,⟨e.partitions,e.groups,true⟩)
    | .completeCommit => if commit then .ok (none,{}) else .error .invalidState
    | .completeAbort => if commit then .error .invalidState else .ok (none,{})
    | .empty => .error .invalidState

/-- With the calls of the offset hook that follow the write. -/
def complete (pid epoch : Int) (commit : Bool) (existing : Option TxnEntry) :
    Except TxnStateError (Option TxnEntry × List HookCall) :=
  match validate pid epoch existing with
  | .error err => .error err
  | .ok e =>
    if e.state=wantComplete commit then .ok (none,[])
    else if e.state≠wantPrepare commit then .error .invalidState
    else .ok (some {e with state := wantComplete commit,groups := [],partitions := [],ongoingSinceMs := 0},
      e.groups.map (fun g => ⟨g,pid,commit⟩))

def overdue (nowMs : Int) (e : TxnEntry) : Prop :=
  e.state=.ongoing ∧ e.ongoingSinceMs≠0 ∧ 0<e.transactionTimeoutMs ∧
    wrapI64 (e.ongoingSinceMs+e.transactionTimeoutMs)≤nowMs

instance (nowMs : Int) (e : TxnEntry) : Decidable (e.overdue nowMs)
    := inferInstanceAs (Decidable (_ ∧ _ ∧ _ ∧ _))

def reaped (e : TxnEntry) : TxnEntry :=
  {e with state := .prepareAbort,ongoingSinceMs := 0,epoch := if e.epoch=i16Max then 0 else e.epoch+1}

end TxnEntry

abbrev TxnSlot := AList (fun _ : String => TxnEntry)

structure TxnStore where
  numSlots : Nat
  slots : Nat → TxnSlot := fun _ => ∅

/-- Whether the slot file is read and written without an error. A failed write leaves the file as it
was. -/
structure SlotIo where
  load : Bool := true
  persist : Bool := true

abbrev OwnsTxn := Option (String → Bool)

def OwnsTxn.owns (o : OwnsTxn) (txnId : String) : Bool := o.all (fun f => f txnId)

namespace TxnStore

def openStore (numSlots : Nat) : TxnStore := {numSlots := if numSlots=0 then 50 else numSlots}

def slotFor (s : TxnStore) (txnId : String) : Nat := (fnv1a32 (utf8Bytes txnId)).toNat%s.numSlots

def entry (s : TxnStore) (txnId : String) : Option TxnEntry := (s.slots (s.slotFor txnId)).lookup txnId

def insert (s : TxnStore) (txnId : String) (e : TxnEntry) : TxnStore :=
  {s with slots := Function.update s.slots (s.slotFor txnId) ((s.slots (s.slotFor txnId)).insert txnId e)}

def access {α : Type} (s : TxnStore) (io : SlotIo) (txnId : String)
    (f : Option TxnEntry → Except TxnStateError (Option TxnEntry × α)) : TxnStore × Except TxnStateError α :=
  if txnId="" then (s,.error .emptyTxnId)
  else if io.load=false then (s,.error .io)
  else match f (s.entry txnId) with
    | .error err => (s,.error err)
    | .ok (none,a) => (s,.ok a)
    | .ok (some e,a) => if io.persist then (s.insert txnId e,.ok a) else (s,.error .io)

def getOrAllocateWithTimeout (s : TxnStore) (io : SlotIo) (txnId : String) (timeoutMs alloc : Int) :
    TxnStore × Except TxnStateError (Int × Int) :=
  s.access io txnId (fun existing =>
    let e := TxnEntry.rejoin timeoutMs alloc existing
    .ok (some e,(e.pid,e.epoch)))

def addPartitions (s : TxnStore) (io : SlotIo) (txnId : String) (pid epoch : Int)
    (additions : List TxnTopic) (nowMs : Int) : TxnStore × Except TxnStateError Unit :=
  s.access io txnId (TxnEntry.addPartitions pid epoch additions nowMs)

def addOffsetsToTxn (s : TxnStore) (io : SlotIo) (txnId : String) (pid epoch : Int)
    (groupId : String) (nowMs : Int) : TxnStore × Except TxnStateError Unit :=
  if txnId="" then (s,.error .emptyTxnId)
  else if groupId="" then (s,.error .invalidState)
  else s.access io txnId (TxnEntry.addOffsets pid epoch groupId nowMs)

def prepareEndTxn (s : TxnStore) (io : SlotIo) (txnId : String) (pid epoch : Int) (commit : Bool) :
    TxnStore × Except TxnStateError EndTxnOutcome :=
  s.access io txnId (TxnEntry.prepare pid epoch commit)

def completeEndTxn (s : TxnStore) (io : SlotIo) (txnId : String) (pid epoch : Int) (commit : Bool) :
    TxnStore × Except TxnStateError (List HookCall) :=
  s.access io txnId (TxnEntry.complete pid epoch commit)

def pendingOf (owns : OwnsTxn) (txnId : String) (e : TxnEntry) : Option PendingMarkerDispatch :=
  if e.preparing ∧ e.partitions≠[] ∧ owns.owns txnId=true then
    some ⟨txnId,e.pid,e.epoch,e.state=.prepareCommit,e.partitions⟩
  else none

def pendingMarkerDispatches (s : TxnStore) (loads : Nat → Bool) (owns : OwnsTxn) : List PendingMarkerDispatch :=
  (List.range s.numSlots).flatMap (fun slot =>
    if loads slot then (s.slots slot).entries.filterMap (fun x => pendingOf owns x.1 x.2) else [])

def reapOne (nowMs : Int) (owns : OwnsTxn) (s : TxnSlot × List TxnAbortRecord) (txnId : String) :
    TxnSlot × List TxnAbortRecord :=
  match s.1.lookup txnId with
  | none => s
  | some e =>
    if e.overdue nowMs ∧ owns.owns txnId=true then
      (s.1.insert txnId e.reaped,s.2++[⟨txnId,e.pid,e.epoch,e.reaped.epoch,e.groups⟩])
    else s

def reapSlot (nowMs : Int) (owns : OwnsTxn) (m : TxnSlot) : TxnSlot × List TxnAbortRecord :=
  m.keys.foldl (reapOne nowMs owns) (m,[])

/-- The records of a slot that cannot be persisted are returned all the same. -/
def abortOverdueOwned (s : TxnStore) (io : Nat → SlotIo) (nowMs : Int) (owns : OwnsTxn) :
    TxnStore × List TxnAbortRecord :=
  ({s with slots := fun slot =>
      if slot<s.numSlots ∧ (io slot).load=true ∧ (io slot).persist=true then
        (reapSlot nowMs owns (s.slots slot)).1
      else s.slots slot},
    (List.range s.numSlots).flatMap (fun slot =>
      if (io slot).load then (reapSlot nowMs owns (s.slots slot)).2 else []))

end TxnStore

end Kaas
