import Kaas.Codec.Primitives

namespace Kaas.Codec.CreateTopics

/-! CreateTopics, versions 0 to 7. -/

structure ReplicaAssignment where
  partitionIndex : I32
  brokerIds : List I32
  deriving DecidableEq, Repr

structure TopicConfig where
  name : String
  value : Option String
  deriving DecidableEq, Repr

structure CreatableTopic where
  name : String
  numPartitions : I32
  replicationFactor : I16
  assignments : List ReplicaAssignment
  configs : List TopicConfig
  deriving DecidableEq, Repr

structure Request where
  topics : List CreatableTopic
  timeoutMs : I32
  validateOnly : Bool
  deriving DecidableEq, Repr

structure ConfigResult where
  name : String
  value : Option String
  readOnly : Bool
  configSource : I8
  isSensitive : Bool
  deriving DecidableEq, Repr

/-- The sixteen bytes of a topic id stand as one number. -/
structure TopicResult where
  name : String
  topicId : BitVec 128
  errorCode : I16
  errorMessage : Option String
  numPartitions : I32
  replicationFactor : I16
  configs : List ConfigResult
  deriving DecidableEq, Repr

structure Response where
  throttleTimeMs : I32
  topics : List TopicResult
  deriving DecidableEq, Repr

def flexible (version : Nat) : Bool := 5≤version

section Requests

variable (version : Nat) (flex : Bool)

def encodeAssignment (a : ReplicaAssignment) : Wire :=
  .all [writeI32 a.partitionIndex,writeArray flex writeI32 a.brokerIds,writeTags flex]

def decodeAssignment : Read ReplicaAssignment := do
  let partitionIndex ← readI32
  let brokerIds ← readArray flex readI32
  let _ ← readTags flex
  return ⟨partitionIndex,brokerIds⟩

def encodeConfig (c : TopicConfig) : Wire :=
  .all [writeStr flex c.name,writeNullableStr flex c.value,writeTags flex]

def decodeConfig : Read TopicConfig := do
  let name ← readStr flex
  let value ← readNullableStr flex
  let _ ← readTags flex
  return ⟨name,value⟩

def encodeTopic (t : CreatableTopic) : Wire := .all [writeStr flex t.name,writeI32 t.numPartitions,
  writeI16 t.replicationFactor,
  writeArray flex (encodeAssignment flex) t.assignments,
  writeArray flex (encodeConfig flex) t.configs,
  writeTags flex]

def decodeTopic : Read CreatableTopic := do
  let name ← readStr flex
  let numPartitions ← readI32
  let replicationFactor ← readI16
  let assignments ← readArray flex (decodeAssignment flex)
  let configs ← readArray flex (decodeConfig flex)
  let _ ← readTags flex
  return ⟨name,numPartitions,replicationFactor,assignments,configs⟩

def encodeRequest (req : Request) : Wire := .all [
  writeArray (flexible version) (encodeTopic (flexible version)) req.topics,
  writeI32 req.timeoutMs,
  .gated (1≤version) (writeBool req.validateOnly),
  writeTags (flexible version)]

def decodeRequest : Read Request := do
  let topics ← readArray (flexible version) (decodeTopic (flexible version))
  let timeoutMs ← readI32
  let validateOnly ← Decoder.gated (1≤version) readBool false
  let _ ← readTags (flexible version)
  return ⟨topics,timeoutMs,validateOnly⟩

def Request.at (req : Request) : Request :=
  {req with validateOnly := if 1≤version then req.validateOnly else false}

def FitsPair (name : String) (value : Option String) : Prop := FitsStr flex name ∧ ∀s∈value,FitsStr flex s

def CreatableTopic.Fits (t : CreatableTopic) : Prop :=
  FitsStr flex t.name ∧ FitsArray flex (fun a => Codec.Fits flex 32 a.brokerIds.length)
    t.assignments ∧ FitsArray flex (fun c => FitsPair flex c.name c.value) t.configs

def Request.Fits (req : Request) : Prop := FitsArray (flexible version) (·.Fits (flexible version)) req.topics

end Requests

section Responses

variable (version : Nat) (flex : Bool)

def encodeConfigResult (c : ConfigResult) : Wire := .all [writeStr flex c.name,
  writeNullableStr flex c.value,
  writeBool c.readOnly,
  writeI8 c.configSource,
  writeBool c.isSensitive,
  writeTags flex]

def decodeConfigResult : Read ConfigResult := do
  let name ← readStr flex
  let value ← readNullableStr flex
  let readOnly ← readBool
  let configSource ← readI8
  let isSensitive ← readBool
  let _ ← readTags flex
  return ⟨name,value,readOnly,configSource,isSensitive⟩

def encodeTopicResult (t : TopicResult) : Wire := .all [writeStr (flexible version) t.name,
  .gated (7≤version) (writeInt 16 t.topicId),
  writeI16 t.errorCode,
  .gated (1≤version) (writeNullableStr (flexible version) t.errorMessage),
  .gated (5≤version) (writeI32 t.numPartitions),
  .gated (5≤version) (writeI16 t.replicationFactor),
  .gated (5≤version) (writeArray (flexible version) (encodeConfigResult (flexible version)) t.configs),
  writeTags (flexible version)]

def decodeTopicResult : Read TopicResult := do
  let name ← readStr (flexible version)
  let topicId ← Decoder.gated (7≤version) (readInt 16 128) 0
  let errorCode ← readI16
  let errorMessage ← Decoder.gated (1≤version) (readNullableStr (flexible version)) none
  let numPartitions ← Decoder.gated (5≤version) readI32 0
  let replicationFactor ← Decoder.gated (5≤version) readI16 0
  let configs ← Decoder.gated (5≤version)
    (readArray (flexible version) (decodeConfigResult (flexible version))) []
  let _ ← readTags (flexible version)
  return ⟨name,topicId,errorCode,errorMessage,numPartitions,replicationFactor,configs⟩

def encodeResponse (resp : Response) : Wire := .all [
  .gated (2≤version) (writeI32 resp.throttleTimeMs),
  writeArray (flexible version) (encodeTopicResult version) resp.topics,
  writeTags (flexible version)]

def decodeResponse : Read Response := do
  let throttleTimeMs ← Decoder.gated (2≤version) readI32 0
  let topics ← readArray (flexible version) (decodeTopicResult version)
  let _ ← readTags (flexible version)
  return ⟨throttleTimeMs,topics⟩

def TopicResult.at (t : TopicResult) : TopicResult :=
  {t with topicId := if 7≤version then t.topicId else 0
          errorMessage := if 1≤version then t.errorMessage else none
          numPartitions := if 5≤version then t.numPartitions else 0
          replicationFactor := if 5≤version then t.replicationFactor else 0
          configs := if 5≤version then t.configs else []}

def Response.at (resp : Response) : Response :=
  ⟨if 2≤version then resp.throttleTimeMs else 0,resp.topics.map (·.at version)⟩

def TopicResult.Fits (t : TopicResult) : Prop :=
  FitsPair flex t.name t.errorMessage ∧ FitsArray flex (fun c => FitsPair flex c.name c.value) t.configs

def Response.Fits (resp : Response) : Prop :=
  FitsArray (flexible version) (·.Fits (flexible version)) resp.topics

end Responses

section RoundTrips

variable {version : Nat} {flex : Bool}

theorem writes_assignment {a : ReplicaAssignment} (h : Codec.Fits flex 32 a.brokerIds.length) :
    Writes (encodeAssignment flex a) (decodeAssignment flex) a :=
  (writes_i32 a.partitionIndex).step <| (writes_ints h).step <| writes_tags.last _

theorem writes_config {c : TopicConfig} (h : FitsPair flex c.name c.value) :
    Writes (encodeConfig flex c) (decodeConfig flex) c :=
  (writes_str h.1).step <| (writes_nullableStr h.2).step <| writes_tags.last _

theorem writes_topic {t : CreatableTopic} (h : t.Fits flex) :
    Writes (encodeTopic flex t) (decodeTopic flex) t := by
  obtain ⟨hname,hassignments,hconfigs⟩ := h
  refine (writes_str hname).step ?_
  refine (writes_i32 t.numPartitions).step ?_
  refine (writes_i16 t.replicationFactor).step ?_
  refine (writes_list hassignments fun _ => writes_assignment).step ?_
  refine (writes_list hconfigs fun _ => writes_config).step ?_
  exact writes_tags.last _

theorem writes_request {req : Request} (h : req.Fits version) :
    Writes (encodeRequest version req) (decodeRequest version) (req.at version) := by
  refine (writes_list h fun _ => writes_topic).step ?_
  refine (writes_i32 req.timeoutMs).step ?_
  refine (writes_bool req.validateOnly).gated.step ?_
  exact writes_tags.last _

theorem writes_configResult {c : ConfigResult} (h : FitsPair flex c.name c.value) :
    Writes (encodeConfigResult flex c) (decodeConfigResult flex) c := by
  obtain ⟨hname,hvalue⟩ := h
  refine (writes_str hname).step ?_
  refine (writes_nullableStr hvalue).step ?_
  refine (writes_bool c.readOnly).step ?_
  refine (writes_i8 c.configSource).step ?_
  refine (writes_bool c.isSensitive).step ?_
  exact writes_tags.last _

theorem writes_topicResult {t : TopicResult} (h : t.Fits (flexible version)) :
    Writes (encodeTopicResult version t) (decodeTopicResult version) (t.at version) := by
  obtain ⟨⟨hname,hmessage⟩,hconfigs⟩ := h
  have hid : Writes (writeInt 16 t.topicId) (readInt 16 128) t.topicId := writes_int (by decide) t.topicId
  refine (writes_str hname).step ?_
  -- the gated fields are written, and read, from the version on that has them
  refine hid.gated.step ?_
  refine (writes_i16 t.errorCode).step ?_
  refine (writes_nullableStr hmessage).gated.step ?_
  refine (writes_i32 t.numPartitions).gated.step ?_
  refine (writes_i16 t.replicationFactor).gated.step ?_
  refine (writes_list hconfigs fun _ => writes_configResult).gated.step ?_
  exact writes_tags.last _

theorem writes_response {resp : Response} (h : resp.Fits version) :
    Writes (encodeResponse version resp) (decodeResponse version) (resp.at version) := by
  refine (writes_i32 resp.throttleTimeMs).gated.step ?_
  refine (writes_array h fun _ => writes_topicResult).step ?_
  exact writes_tags.last _

end RoundTrips

end Kaas.Codec.CreateTopics
