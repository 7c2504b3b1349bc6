import Kaas.Storage.Read

namespace Kaas

inductive FetchError
  | none
  | unknownTopicOrPartition
  | notLeaderForPartition
  | topicAuthorizationFailed
  deriving DecidableEq, Repr

structure AbortedTransaction where
  producerId : Int
  firstOffset : Int
  deriving DecidableEq, Repr

structure FetchResponse where
  errorCode : FetchError
  highWatermark : Int
  lastStableOffset : Int
  logStartOffset : Int
  abortedTransactions : List AbortedTransaction
  records : Bytes
  deriving DecidableEq, Repr

def fetchError (e : FetchError) : FetchResponse := ⟨e,-1,-1,-1,[],[]⟩

structure FetchGate where
  topicKnown : Bool := true
  owns : Option Bool := none
  authorized : Bool := true
  deriving DecidableEq, Repr

structure FetchRequest where
  fetchOffset : Int
  partitionMaxBytes : Int
  readCommitted : Bool
  deriving DecidableEq, Repr

/-- The loop of `trim_to_offset`: how many bytes of whole batches below the cap come first. `none`
says no batch to cut at was met. -/
def trimLoop (bytes : Bytes) (maxOffset : Int) : Nat → Nat → Option Nat
  | 0,_ => none
  | n+1,pos =>
    if pos+27≤bytes.length then
      if maxOffset≤ max (-2^63) (min (2^63-1) (i64At bytes pos+i32At bytes (pos+23))) then some pos
      else if bytes.length<pos+(12+(i32At bytes (pos+8)).toNat) then some pos
      else trimLoop bytes maxOffset n (pos+(12+(i32At bytes (pos+8)).toNat))
    else none

def trimToOffset (bytes : Bytes) (maxOffset : Int) : Bytes :=
  match trimLoop bytes maxOffset (bytes.length+1) 0 with
  | some pos => bytes.take pos
  | none => bytes

/-- The bytes a fetch reads: none for a read-committed consumer at or past the stable offset. -/
def fetchBytes (lso : Int) (s : Store) (req : FetchRequest) : Bytes :=
  if req.readCommitted && decide (lso≤ req.fetchOffset) then []
  else readSnapshot s.dir s.snapshot req.fetchOffset req.partitionMaxBytes.toNat

/-- `read_one` with the stable offset it has read before the log. -/
def readOneAt (lso : Int) (gate : FetchGate) (s : Store) (req : FetchRequest) : FetchResponse :=
  if !gate.topicKnown then fetchError .unknownTopicOrPartition
  else if gate.owns=some false then fetchError .notLeaderForPartition
  else if !gate.authorized then fetchError .topicAuthorizationFailed
  else ⟨.none,s.snapshot.highWater,lso,s.snapshot.logStart,
    if req.readCommitted then
      (abortedInRange s.toPartitionInner req.fetchOffset lso).map (fun a => ⟨a.producerId,a.firstOffset⟩)
    else [],
    if req.readCommitted then trimToOffset (fetchBytes lso s req) lso else fetchBytes lso s req⟩

def readOne (gate : FetchGate) (s : Store) (req : FetchRequest) : FetchResponse :=
  readOneAt (lastStableOffset s.toPartitionInner) gate s req

end Kaas
