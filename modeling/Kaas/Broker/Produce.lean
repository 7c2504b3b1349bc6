import Kaas.Storage.Read

namespace Kaas

inductive ProduceError
  | none
  | unknownServerError
  | unknownTopicOrPartition
  | leaderNotAvailable
  | notLeaderForPartition
  | messageTooLarge
  | topicAuthorizationFailed
  | outOfOrderSequenceNumber
  | duplicateSequenceNumber
  | invalidProducerEpoch
  | kafkaStorageError
  deriving DecidableEq, Repr

def ProduceError.code : ProduceError → Int
  | .none => 0
  | .unknownServerError => -1
  | .unknownTopicOrPartition => 3
  | .leaderNotAvailable => 5
  | .notLeaderForPartition => 6
  | .messageTooLarge => 18
  | .topicAuthorizationFailed => 29
  | .outOfOrderSequenceNumber => 45
  | .duplicateSequenceNumber => 46
  | .invalidProducerEpoch => 47
  | .kafkaStorageError => 56

structure ProduceResponse where
  errorCode : ProduceError
  baseOffset : Int
  logStartOffset : Int
  deriving DecidableEq, Repr

def okPartition (baseOffset logStartOffset : Int) : ProduceResponse := ⟨.none,baseOffset,logStartOffset⟩

def errorPartition (e : ProduceError) : ProduceResponse := ⟨e,-1,-1⟩

def mapError : StorageError → ProduceResponse
  | .epochMismatch => errorPartition .notLeaderForPartition
  | .outOfOrderSequence => errorPartition .outOfOrderSequenceNumber
  | .duplicateSequence => errorPartition .duplicateSequenceNumber
  | .invalidProducerEpoch => errorPartition .invalidProducerEpoch
  | .unknownTopicOrPartition => errorPartition .unknownTopicOrPartition
  | .stalled => errorPartition .leaderNotAvailable
  | .migrating => errorPartition .leaderNotAvailable
  | .staleTopicDir => errorPartition .leaderNotAvailable
  | .io _ => errorPartition .kafkaStorageError
  | .offsetOutOfRange => errorPartition .unknownServerError
  | .json => errorPartition .unknownServerError

/-- What the broker answers to the questions a Produce handler asks before the engine. -/
structure ProduceGate where
  topicKnown : Bool := true
  /-- whether the coordinator, when one is wired, says this broker leads the partition -/
  owns : Option Bool := none
  heartbeatFresh : Bool := true
  authorized : Bool := true
  maxMessageBytes : Nat := 1048588
  epoch : UInt32 := 0
  deriving DecidableEq, Repr

/-- The gates of `append_one`, in order; null records are a no-op that echoes the high watermark. -/
def produceGate (gate : ProduceGate) (s : Store) (records : Option Bytes) :
    ProduceResponse ⊕ Bytes :=
  if !gate.topicKnown then .inl (errorPartition .unknownTopicOrPartition)
  else if gate.owns=some false then .inl (errorPartition .notLeaderForPartition)
  else if gate.owns=some true && !gate.heartbeatFresh then .inl (errorPartition .notLeaderForPartition)
  else if !gate.authorized then .inl (errorPartition .topicAuthorizationFailed)
  else match records with
    | none => .inl (okPartition s.snapshot.highWater 0)
    | some records =>
      if gate.maxMessageBytes< records.length then .inl (errorPartition .messageTooLarge)
      else .inr records

/-- What `append` returns once its critical section is left: with `acks=-1` the appender
that triggered a flush waits for its outcome. -/
def awaitFlush (acks : Int) (flushed : Except StorageError Unit) : Appended → Except StorageError Int
  | .duplicate base => .ok base
  | .stored assigned _ triggered =>
    if acks=-1 ∧ triggered=true then
      match flushed with
      | .error e => .error e
      | .ok _ => .ok assigned
    else .ok assigned

def produceAnswer (s : Store) : Except StorageError Int → ProduceResponse
  | .error e => mapError e
  | .ok base => okPartition base s.snapshot.logStart

def produceResponse (acks : Int) (flushed : Except StorageError Unit) (s : Store) :
    Except StorageError Appended → ProduceResponse
  | .error e => mapError e
  | .ok out => produceAnswer s (awaitFlush acks flushed out)

/-- One partition of a Produce request. No result: the append panicked. -/
def appendOne (cfg : PartitionConfig) (gate : ProduceGate) (env : IoEnv) (acks : Int)
    (flushed : Except StorageError Unit) (records : Option Bytes) (s : Store) :
    Option (Store × ProduceResponse) :=
  match produceGate gate s records with
  | .inl r => some (s,r)
  | .inr batch => (appendLocked cfg env gate.epoch batch s).map
      (fun out => (out.1,produceResponse acks flushed out.1 out.2))

end Kaas
