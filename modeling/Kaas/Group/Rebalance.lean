import Kaas.Operator.TopicPaths

namespace Kaas

/-! The consumer group under its lock, with the tasks and the parked requests around it. -/

inductive GroupState
  | empty
  | preparingRebalance
  | completingRebalance
  | stable
  | dead
  deriving DecidableEq, Repr

structure ProtocolMetadata where
  name : String
  metadata : Bytes
  deriving DecidableEq

inductive TimerPhase
  | sleeping
  /-- past its sleep, waiting for the lock -/
  | woken
  | finished
  deriving DecidableEq, Repr

structure Timer where
  deadline : Nat
  phase : TimerPhase := .sleeping
  deriving DecidableEq

def Timer.outruns (t : Option Timer) : Bool := t.any (fun t => t.phase==.woken)

def Timer.wake (now : Nat) (t : Option Timer) : Option Timer :=
  t.map (fun t => if t.phase=.sleeping ∧ t.deadline≤now then {t with phase := .woken} else t)

def Timer.finish (t : Option Timer) : Option Timer := t.map (fun t => {t with phase := .finished})

def Timer.Armed (t : Option Timer) : Prop := t.any (fun t => t.phase≠.finished)=true

instance (t : Option Timer) : Decidable (Timer.Armed t) := inferInstanceAs (Decidable (_=_))

structure GroupMember where
  groupInstanceId : Option String
  sessionTimeoutMs : Int
  rebalanceTimeoutMs : Int
  protocols : List ProtocolMetadata
  heartbeat : Option Timer := none

abbrev Members := AList (fun _ : String => GroupMember)

def Members.modify (members : Members) (mid : String) (f : GroupMember → GroupMember) : Members :=
  match members.lookup mid with
  | none => members
  | some m => members.insert mid (f m)

structure JoinRequest where
  memberId : String := ""
  groupInstanceId : Option String := none
  sessionTimeoutMs : Int := 30000
  rebalanceTimeoutMs : Int := 30000
  protocolType : String := "consumer"
  protocols : List ProtocolMetadata := []
  clientId : String := ""

structure JoinedMember where
  memberId : String
  groupInstanceId : Option String
  metadata : Bytes
  deriving DecidableEq

structure JoinOutcome where
  errorCode : Int
  generationId : Int := 0
  leader : String := ""
  memberId : String
  protocolType : String := ""
  protocolName : String := ""
  members : List JoinedMember := []
  deriving DecidableEq

structure SyncAssignment where
  memberId : String
  assignment : Bytes
  deriving DecidableEq

structure SyncRequest where
  memberId : String
  generationId : Int
  assignments : List SyncAssignment := []

structure SyncOutcome where
  errorCode : Int := 0
  protocolType : String := ""
  protocolName : String := ""
  assignment : Bytes := []
  deriving DecidableEq

/-- A SyncGroup behind its first lock: what it has read, and the round it holds on to. -/
structure SyncCall where
  memberId : String
  generationId : Int
  protocolType : String
  protocolName : String
  round : Nat
  deriving DecidableEq

structure SyncRound where
  generationId : Int := 0
  assignments : AList (fun _ : String => Bytes) := ∅
  delivered : Bool := false
  canceled : Bool := false
  waiters : List SyncCall := []

/-- The completion of a rebalance as it was handed out: whether its timer had not fired yet, the
members it found and their latest JoinGroup. -/
structure Rebalance where
  generationId : Int
  leader : String
  early : Bool
  members : List String
  latest : String → Option JoinRequest
  outcomes : List JoinOutcome

structure Publication where
  generationId : Int
  leader : String
  assignments : List SyncAssignment

namespace ErrorCode

def none : Int := 0
def illegalGeneration : Int := 22
def unknownMemberId : Int := 25
def rebalanceInProgress : Int := 27

end ErrorCode

def initialRebalanceDelayMs : Int := 3000
def defaultRebalanceTimeoutMs : Int := 30000
def defaultSessionTimeoutMs : Int := 30000

/-- The part of a group under its lock, the tasks that an abort came too late for, the rounds and
the calls that hold them, and what has been answered. Join waiters are known by their member. -/
structure ConsumerGroup where
  state : GroupState := .empty
  generationId : Int := 0
  protocolType : String := ""
  protocolName : String := ""
  leaderId : String := ""
  members : Members := ∅
  joinWaiters : List String := []
  currentSync : Option Nat := none
  rebalanceHandle : Option Timer := none
  initialRebalance : Bool := true
  initialRebalanceDeadline : Option Nat := none
  now : Nat := 0
  lateRebalances : Nat := 0
  lateSessions : List String := []
  rounds : Nat → SyncRound := fun _ => {}
  nextRound : Nat := 0
  awake : List SyncCall := []
  joins : List JoinOutcome := []
  synced : List (SyncCall × SyncOutcome) := []
  latest : String → Option JoinRequest := fun _ => none
  rebalances : List Rebalance := []
  published : List Publication := []

def unknownMember (memberId : String) : JoinOutcome :=
  {errorCode := ErrorCode.unknownMemberId,memberId := memberId}

/-- The counter is shared by all groups of the broker; its bytes are written with the low one
first. -/
def generateMemberId (clientId : String) (n : Nat) : String :=
  clientId++"-"++String.ofList ((List.range 8).flatMap (fun i => hexByte (UInt8.ofNat (n/256^i))))

def memberIdOf (req : JoinRequest) (n : Nat) : String :=
  if req.memberId="" then generateMemberId req.clientId n else req.memberId

def maxRebalanceTimeout (members : Members) : Int :=
  let m := (members.entries.map (fun e => e.2.rebalanceTimeoutMs)).foldl max 0
  if m≤0 then defaultRebalanceTimeoutMs else m

def selectProtocol (members : Members) : List String → Option String
  | [] => none
  | first::rest => (members.lookup first).bind (fun leader =>
      (leader.protocols.find? (fun p => rest.all (fun w =>
        ((members.lookup w).map (fun m => m.protocols.any (fun mp => mp.name==p.name))).getD
          false))).map (·.name))

def metadataFor (protocols : List ProtocolMetadata) (name : String) : Bytes :=
  ((protocols.find? (fun p => p.name==name)).map (·.metadata)).getD []

def joinedMember (members : Members) (protocolName w : String) : JoinedMember where
  memberId := w
  groupInstanceId := (members.lookup w).bind (·.groupInstanceId)
  metadata := ((members.lookup w).map (fun m => metadataFor m.protocols protocolName)).getD []

def cancelSync (r : SyncRound) : SyncRound × List SyncCall :=
  if r.delivered || r.canceled then (r,[]) else ({r with canceled := true, waiters := []},r.waiters)

/-- The leader's assignments go in one by one, then an empty one for every member that is left
out. -/
def storeAssignments (stored : AList (fun _ : String => Bytes)) (assignments : List SyncAssignment)
    (members : List String) : AList (fun _ : String => Bytes) :=
  members.foldl (fun m mid => if mid∈m then m else m.insert mid [])
    (assignments.foldl (fun m a => m.insert a.memberId a.assignment) stored)

def publishedRound (r : SyncRound) (assignments : List SyncAssignment) (members : List String) : SyncRound :=
  {r with assignments := storeAssignments r.assignments assignments members, delivered := true, waiters := []}

namespace ConsumerGroup

def abortRebalance (g : ConsumerGroup) : ConsumerGroup :=
  {g with
    rebalanceHandle := none
    lateRebalances := g.lateRebalances+(Timer.outruns g.rebalanceHandle).toNat}

/-- The initial rebalance waits for a short delay, up to its deadline. -/
def rebalanceBudget (g : ConsumerGroup) (initial : Bool) : Nat :=
  let longest := maxRebalanceTimeout g.members
  if initial then
    let delay := min longest initialRebalanceDelayMs
    (match g.initialRebalanceDeadline with
      | none => delay
      | some deadline => min delay ((deadline-g.now : Nat) : Int)).toNat
  else longest.toNat

def startRebalanceTimer (g : ConsumerGroup) (initial : Bool) : ConsumerGroup :=
  {g.abortRebalance with rebalanceHandle := some ⟨g.now+g.rebalanceBudget initial,.sleeping⟩}

def outrunSession (g : ConsumerGroup) (mid : String) : List String :=
  if Timer.outruns ((g.members.lookup mid).bind (·.heartbeat)) then [mid] else []

def sessionDeadline (g : ConsumerGroup) (m : GroupMember) : Nat :=
  g.now+(if m.sessionTimeoutMs≤0 then defaultSessionTimeoutMs else m.sessionTimeoutMs).toNat

def resetHeartbeatTimer (g : ConsumerGroup) (mid : String) : ConsumerGroup :=
  {g with
    members := g.members.modify mid (fun m => {m with heartbeat := some ⟨g.sessionDeadline m,.sleeping⟩})
    lateSessions := g.lateSessions++g.outrunSession mid}

def removeMember (g : ConsumerGroup) (mid : String) : ConsumerGroup :=
  {g with
    members := g.members.erase mid
    lateSessions := g.lateSessions++g.outrunSession mid
    joinWaiters := g.joinWaiters.erase mid
    joins := if mid∈g.joinWaiters then g.joins++[unknownMember mid] else g.joins}

def afterRemoval (g : ConsumerGroup) : ConsumerGroup :=
  if g.members.keys=[] then {g.abortRebalance with state := .empty}
  else if g.state=.stable then {g with state := .preparingRebalance}.startRebalanceTimer false
  else g

def evictNonRejoiningMembers (g : ConsumerGroup) : ConsumerGroup :=
  if g.members.keys.length=g.joinWaiters.length then g
  else ((g.members.entries.filter (fun e => decide (e.1∉g.joinWaiters) && e.2.groupInstanceId.isNone)).map
    (·.1)).foldl removeMember g

/-- The outcomes of a completion, in the order of the waiters; the member list goes to the
leader. -/
def outcomesFor (g : ConsumerGroup) (leader protocolName : String) : List JoinOutcome :=
  g.joinWaiters.map (fun w =>
    {errorCode := ErrorCode.none
     generationId := wrapI32 (g.generationId+1)
     leader := leader
     memberId := w
     protocolType := g.protocolType
     protocolName := protocolName
     members := if w=leader then g.joinWaiters.map (joinedMember g.members protocolName) else []})

/-- `early` says that the timer of this rebalance has not fired. A round in place is replaced by a
fresh one. -/
def completeRebalance (g : ConsumerGroup) (early : Bool) : ConsumerGroup :=
  let protocolName := (selectProtocol g.members g.joinWaiters).getD ""
  let leader := g.joinWaiters.head?.getD g.leaderId
  let outcomes := g.outcomesFor leader protocolName
  {g.abortRebalance with
    state := .completingRebalance
    initialRebalance := false
    initialRebalanceDeadline := none
    generationId := wrapI32 (g.generationId+1)
    joinWaiters := []
    protocolName := protocolName
    leaderId := leader
    currentSync := some g.nextRound
    rounds := Function.update g.rounds g.nextRound {generationId := wrapI32 (g.generationId+1)}
    nextRound := g.nextRound+1
    joins := g.joins++outcomes
    rebalances := g.rebalances++[⟨wrapI32 (g.generationId+1),leader,early,g.members.keys,g.latest,outcomes⟩]}

def maybeCompleteRebalance (g : ConsumerGroup) : ConsumerGroup :=
  if g.initialRebalance=true then g
  else if g.state=.preparingRebalance ∧ g.members.keys.length≤g.joinWaiters.length then g.completeRebalance true
  else g

def takeSync (g : ConsumerGroup) : ConsumerGroup :=
  {g with
    currentSync := none
    rounds := match g.currentSync with
      | none => g.rounds
      | some k => Function.update g.rounds k (cancelSync (g.rounds k)).1
    awake := match g.currentSync with
      | none => g.awake
      | some k => g.awake++(cancelSync (g.rounds k)).2}

def upsert (g : ConsumerGroup) (mid : String) (req : JoinRequest) : ConsumerGroup :=
  {g with
    members := g.members.insert mid
      {groupInstanceId := req.groupInstanceId
       sessionTimeoutMs := req.sessionTimeoutMs
       rebalanceTimeoutMs := req.rebalanceTimeoutMs
       protocols := req.protocols
       heartbeat := (g.members.lookup mid).bind (·.heartbeat)}
    protocolType := if req.protocolType="" then g.protocolType else req.protocolType
    latest := Function.update g.latest mid (some req)}

/-- The transitions of `join`, with the member in place; a dead group takes none. -/
def beginRebalance (g : ConsumerGroup) (isNew : Bool) : ConsumerGroup :=
  match g.state with
  | .empty =>
    {g with
      state := .preparingRebalance
      initialRebalanceDeadline := some (g.now+(maxRebalanceTimeout g.members).toNat)}.startRebalanceTimer true
  | .stable | .completingRebalance => ({g with state := .preparingRebalance}.startRebalanceTimer false).takeSync
  | .preparingRebalance => if g.initialRebalance && isNew then g.startRebalanceTimer true else g
  | .dead => g

def park (g : ConsumerGroup) (mid : String) : ConsumerGroup :=
  {g with joinWaiters := g.joinWaiters++[mid]}.maybeCompleteRebalance

/-- With the answer of a join that is not parked. The member is in place before the state is looked
at. -/
def join (g : ConsumerGroup) (req : JoinRequest) (n : Nat) : ConsumerGroup × Option JoinOutcome :=
  let mid := memberIdOf req n
  let enrolled := (g.upsert mid req).resetHeartbeatTimer mid
  if g.state=.dead then (enrolled,some (unknownMember mid))
  else ((enrolled.beginRebalance (decide (mid∉g.members))).park mid,none)

def publish (g : ConsumerGroup) (k : Nat) (assignments : List SyncAssignment) : ConsumerGroup :=
  {g with
    state := .stable
    rounds := Function.update g.rounds k (publishedRound (g.rounds k) assignments g.members.keys)
    awake := g.awake++(g.rounds k).waiters
    published := if g.state=.completingRebalance then g.published++[⟨g.generationId,g.leaderId,
      assignments⟩] else g.published}

def await (g : ConsumerGroup) (k : Nat) (call : SyncCall) : ConsumerGroup :=
  if (g.rounds k).delivered || (g.rounds k).canceled then {g with awake := g.awake++[call]}
  else {g with rounds := Function.update g.rounds k {g.rounds k with waiters := (g.rounds k).waiters++[call]}}

/-- With the answer of a sync that neither parks nor goes on to read the round. -/
def sync (g : ConsumerGroup) (req : SyncRequest) : ConsumerGroup × Option SyncOutcome :=
  if req.memberId∉g.members then (g,some {errorCode := ErrorCode.unknownMemberId})
  else if req.generationId≠g.generationId then (g,some {errorCode := ErrorCode.illegalGeneration})
  else if g.state≠.completingRebalance ∧
    g.state≠.stable then (g,some {errorCode := ErrorCode.rebalanceInProgress})
  else match g.currentSync with
    | none => (g,some {errorCode := ErrorCode.rebalanceInProgress})
    | some k =>
      let call : SyncCall := ⟨req.memberId,req.generationId,g.protocolType,g.protocolName,k⟩
      ((if req.memberId=g.leaderId then g.publish k req.assignments else g).await k call,none)

def syncOutcome (r : SyncRound) (call : SyncCall) : SyncOutcome :=
  if r.canceled then {errorCode := ErrorCode.rebalanceInProgress}
  else
    {errorCode := ErrorCode.none
     protocolType := call.protocolType
     protocolName := call.protocolName
     assignment := (r.assignments.lookup call.memberId).getD []}

def finishSync (g : ConsumerGroup) (i : Nat) : ConsumerGroup :=
  match g.awake[i]? with
  | none => g
  | some call =>
    {g with awake := g.awake.eraseIdx i, synced := g.synced++[(call,syncOutcome (g.rounds call.round) call)]}

def heartbeat (g : ConsumerGroup) (mid : String) (generation : Int) : ConsumerGroup × Int :=
  if g.state=.empty ∨ g.state=.dead then (g,ErrorCode.unknownMemberId)
  else if mid∉g.members then (g,ErrorCode.unknownMemberId)
  else if generation≠g.generationId then (g,ErrorCode.illegalGeneration)
  else (g.resetHeartbeatTimer mid,
    if g.state=.preparingRebalance ∨ g.state=.completingRebalance then ErrorCode.rebalanceInProgress
    else ErrorCode.none)

def leaveOne (r : ConsumerGroup × List (String × Int)) (mid : String) : ConsumerGroup × List (String × Int) :=
  if mid∈r.1.members then (r.1.removeMember mid,r.2++[(mid,ErrorCode.none)])
  else (r.1,r.2++[(mid,ErrorCode.unknownMemberId)])

def leave (g : ConsumerGroup) (mids : List String) : ConsumerGroup × List (String × Int) :=
  let r := mids.foldl leaveOne (g,[])
  (r.1.afterRemoval,r.2)

def shutdown (g : ConsumerGroup) : ConsumerGroup :=
  {(g.members.keys.foldl removeMember g).abortRebalance.takeSync with state := .dead, members := ∅}

def rebalanceExpired (g : ConsumerGroup) (early : Bool) : ConsumerGroup :=
  if g.state=.preparingRebalance ∧
    g.joinWaiters≠[] then g.evictNonRejoiningMembers.completeRebalance early else g

def sessionExpired (g : ConsumerGroup) (mid : String) : ConsumerGroup :=
  if mid∈g.members then (g.removeMember mid).afterRemoval else g

end ConsumerGroup

/-- A request, a call that goes on, or a task. A task wakes when its time has come, runs once, and
runs in spite of an abort that came after it woke. -/
inductive ConsumerOp
  | join (req : JoinRequest) (n : Nat)
  | sync (req : SyncRequest)
  | finishSync (i : Nat)
  | heartbeat (mid : String) (generation : Int)
  | leave (mids : List String)
  | shutdown
  | tick (ms : Nat)
  | wakeRebalance
  | rebalanceTimer
  | lateRebalance
  | wakeSession (mid : String)
  | sessionTimer (mid : String)
  | lateSession (mid : String)

namespace ConsumerGroup

def wakeRebalance (g : ConsumerGroup) : ConsumerGroup :=
  {g with rebalanceHandle := Timer.wake g.now g.rebalanceHandle}

def rebalanceTimer (g : ConsumerGroup) : ConsumerGroup :=
  if Timer.outruns g.rebalanceHandle then
    {g with rebalanceHandle := Timer.finish g.rebalanceHandle}.rebalanceExpired false
  else g

def lateRebalance (g : ConsumerGroup) : ConsumerGroup :=
  if g.lateRebalances=0 then g else {g with lateRebalances := g.lateRebalances-1}.rebalanceExpired true

def wakeSession (g : ConsumerGroup) (mid : String) : ConsumerGroup :=
  {g with members := g.members.modify mid (fun m => {m with heartbeat := Timer.wake g.now m.heartbeat})}

def sessionTimer (g : ConsumerGroup) (mid : String) : ConsumerGroup :=
  if g.outrunSession mid=[] then g
  else {g with
    members := g.members.modify mid
      (fun m => {m with heartbeat := Timer.finish m.heartbeat})}.sessionExpired mid

def lateSession (g : ConsumerGroup) (mid : String) : ConsumerGroup :=
  if mid∈g.lateSessions then {g with lateSessions := g.lateSessions.erase mid}.sessionExpired mid else g

def exec (g : ConsumerGroup) : ConsumerOp → ConsumerGroup
  | .join req n => (g.join req n).1
  | .sync req => (g.sync req).1
  | .finishSync i => g.finishSync i
  | .heartbeat mid generation => (g.heartbeat mid generation).1
  | .leave mids => (g.leave mids).1
  | .shutdown => g.shutdown
  | .tick ms => {g with now := g.now+ms}
  | .wakeRebalance => g.wakeRebalance
  | .rebalanceTimer => g.rebalanceTimer
  | .lateRebalance => g.lateRebalance
  | .wakeSession mid => g.wakeSession mid
  | .sessionTimer mid => g.sessionTimer mid
  | .lateSession mid => g.lateSession mid

end ConsumerGroup

def GroupStep (g : ConsumerGroup) (op : ConsumerOp) (g' : ConsumerGroup) : Prop := g.exec op=g'

end Kaas
