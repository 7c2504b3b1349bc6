import Kaas.Codec.Primitives

namespace Kaas.Codec.Fetch

/-! The Fetch response, versions 4 to 12. -/

structure AbortedTransaction where
  producerId : I64
  firstOffset : I64
  deriving DecidableEq, Repr

structure PartitionResponse where
  partitionIndex : I32
  errorCode : I16
  highWatermark : I64
  lastStableOffset : I64
  logStartOffset : I64
  abortedTransactions : List AbortedTransaction
  preferredReadReplica : I32
  records : Option Bytes
  deriving DecidableEq, Repr

structure TopicResponse where
  name : String
  partitions : List PartitionResponse
  deriving DecidableEq, Repr

structure Response where
  throttleTimeMs : I32
  errorCode : I16
  sessionId : I32
  responses : List TopicResponse
  deriving DecidableEq, Repr

section Model

variable (version : Nat)

def flexible : Bool := 12≤version

def encodeAborted (a : AbortedTransaction) : Wire :=
  .all [writeI64 a.producerId,writeI64 a.firstOffset,writeTags (flexible version)]

def encodePartition (p : PartitionResponse) : Wire := .all [writeI32 p.partitionIndex,
  writeI16 p.errorCode,
  writeI64 p.highWatermark,
  .gated (4≤version) (writeI64 p.lastStableOffset),
  .gated (5≤version) (writeI64 p.logStartOffset),
  .gated (4≤version) (writeArray (flexible version) (encodeAborted version) p.abortedTransactions),
  .gated (11≤version) (writeI32 p.preferredReadReplica),
  writeNullableBytes (flexible version) p.records,
  writeTags (flexible version)]

def encodeTopic (t : TopicResponse) : Wire := .all [writeStr (flexible version) t.name,
  writeArray (flexible version) (encodePartition version) t.partitions,
  writeTags (flexible version)]

def encodeResponse (resp : Response) : Wire := .all [
  .gated (1≤version) (writeI32 resp.throttleTimeMs),
  .gated (7≤version) (writeI16 resp.errorCode),
  .gated (7≤version) (writeI32 resp.sessionId),
  writeArray (flexible version) (encodeTopic version) resp.responses,
  writeTags (flexible version)]

def decodeAborted : Read AbortedTransaction := do
  let producerId ← readI64
  let firstOffset ← readI64
  let _ ← readTags (flexible version)
  return ⟨producerId,firstOffset⟩

def decodePartition : Read PartitionResponse := do
  let partitionIndex ← readI32
  let errorCode ← readI16
  let highWatermark ← readI64
  let lastStableOffset ← Decoder.gated (4≤version) readI64 (-1)
  let logStartOffset ← Decoder.gated (5≤version) readI64 (-1)
  let abortedTransactions ← Decoder.gated (4≤version) (readArray (flexible version) (decodeAborted version)) []
  let preferredReadReplica ← Decoder.gated (11≤version) readI32 (-1)
  let records ← readNullableBytes (flexible version)
  let _ ← readTags (flexible version)
  return ⟨partitionIndex,errorCode,highWatermark,lastStableOffset,logStartOffset,
    abortedTransactions,preferredReadReplica,
    records⟩

def decodeTopic : Read TopicResponse := do
  let name ← readStr (flexible version)
  let partitions ← readArray (flexible version) (decodePartition version)
  let _ ← readTags (flexible version)
  return ⟨name,partitions⟩

def decodeResponse : Read Response := do
  let throttleTimeMs ← Decoder.gated (1≤version) readI32 0
  let errorCode ← Decoder.gated (7≤version) readI16 0
  let sessionId ← Decoder.gated (7≤version) readI32 0
  let responses ← readArray (flexible version) (decodeTopic version)
  let _ ← readTags (flexible version)
  return ⟨throttleTimeMs,errorCode,sessionId,responses⟩

end Model

section Versions

variable (version : Nat)

/-- What a version can say of a partition: the fields it lacks have their defaults. -/
def PartitionResponse.at (p : PartitionResponse) : PartitionResponse :=
  {p with lastStableOffset := if 4≤version then p.lastStableOffset else -1
          logStartOffset := if 5≤version then p.logStartOffset else -1
          abortedTransactions := if 4≤version then p.abortedTransactions else []
          preferredReadReplica := if 11≤version then p.preferredReadReplica else -1}

def TopicResponse.at (t : TopicResponse) : TopicResponse :=
  {t with partitions := t.partitions.map (·.at version)}

def Response.at (resp : Response) : Response where
  throttleTimeMs := if 1≤version then resp.throttleTimeMs else 0
  errorCode := if 7≤version then resp.errorCode else 0
  sessionId := if 7≤version then resp.sessionId else 0
  responses := resp.responses.map (·.at version)

/-- Strings, arrays and records within the limits of the version's length prefixes. -/
def PartitionResponse.Fits (p : PartitionResponse) : Prop :=
  FitsArray (flexible version) (fun _ => True) p.abortedTransactions ∧
    ∀b∈p.records,Codec.Fits (flexible version) 32 b.length

def TopicResponse.Fits (t : TopicResponse) : Prop :=
  FitsStr (flexible version) t.name ∧ FitsArray (flexible version) (·.Fits version) t.partitions

def Response.Fits (resp : Response) : Prop := FitsArray (flexible version) (·.Fits version) resp.responses

end Versions

section RoundTrips

variable {version : Nat}

theorem writes_aborted (a : AbortedTransaction) : Writes (encodeAborted version a) (decodeAborted version) a :=
  (writes_i64 a.producerId).step <| (writes_i64 a.firstOffset).step <| writes_tags.last _

theorem writes_partition {p : PartitionResponse} (h : p.Fits version) :
    Writes (encodePartition version p) (decodePartition version) (p.at version) := by
  obtain ⟨haborted,hrecords⟩ := h
  refine (writes_i32 p.partitionIndex).step ?_
  refine (writes_i16 p.errorCode).step ?_
  refine (writes_i64 p.highWatermark).step ?_
  refine (writes_i64 p.lastStableOffset).gated.step ?_
  refine (writes_i64 p.logStartOffset).gated.step ?_
  refine (writes_list haborted fun a _ => writes_aborted a).gated.step ?_
  refine (writes_i32 p.preferredReadReplica).gated.step ?_
  refine (writes_nullableBytes hrecords).step ?_
  exact writes_tags.last _

theorem writes_topic {t : TopicResponse} (h : t.Fits version) :
    Writes (encodeTopic version t) (decodeTopic version) (t.at version) :=
  (writes_str h.1).step <| (writes_array h.2 fun _ => writes_partition).step <| writes_tags.last _

end RoundTrips

/-- Whatever follows a response, it is read back as what its version can say of it. -/
theorem fetch_response_read (version : Nat) {resp : Response} (h : resp.Fits version) :
    ∃bytes,encodeResponse version resp=.ok bytes ∧
      ∀rest,decodeResponse version (bytes++rest)=.ok (resp.at version,rest) := by
  refine (writes_i32 resp.throttleTimeMs).gated.step ?_
  refine (writes_i16 resp.errorCode).gated.step ?_
  refine (writes_i32 resp.sessionId).gated.step ?_
  refine (writes_array h fun _ => writes_topic).step ?_
  exact writes_tags.last _

def twoPartitions : Response :=
  ⟨5,0,7,[⟨"orders",[⟨0,0,9,9,3,[⟨4,2⟩],1,none⟩,⟨1,0,9,8,3,[],1,some []⟩]⟩]⟩

theorem fetch_response_read_first : ∃bytes,encodeResponse 4 twoPartitions=.ok bytes ∧
      ∀rest,decodeResponse 4 (bytes++rest)=
        .ok (⟨5,0,0,[⟨"orders",[⟨0,0,9,9,-1,[⟨4,2⟩],-1,none⟩,⟨1,0,9,8,-1,[],-1,some []⟩]⟩]⟩,rest) := by
  refine fetch_response_read 4 ⟨by decide,fun t ht => ?_⟩
  obtain rfl := List.mem_singleton.mp ht
  refine ⟨by decide,by decide,fun p hp => ?_⟩
  rcases List.mem_cons.mp hp with rfl|hp
  · exact ⟨⟨by decide,fun _ _ => trivial⟩,nofun⟩
  · obtain rfl := List.mem_singleton.mp hp
    refine ⟨⟨by decide,nofun⟩,fun b hb => ?_⟩
    obtain rfl := Option.some.inj hb
    decide

end Kaas.Codec.Fetch
