import Kaas.Codec.Primitives

namespace Kaas.Codec.OffsetFetch

/-! OffsetFetch: one group up to version 7, a batch of groups from version 8 on. -/

structure Topic where
  name : String
  partitionIndexes : List I32
  deriving DecidableEq, Repr

structure Group where
  groupId : String
  topics : List Topic
  deriving DecidableEq, Repr

structure Request where
  groupId : String := ""
  topics : Option (List Topic) := none
  groups : List Group := []
  requireStable : Bool := false
  deriving DecidableEq, Repr

structure PartitionResponse where
  partitionIndex : I32
  committedOffset : I64
  committedLeaderEpoch : I32
  metadata : Option String
  errorCode : I16
  deriving DecidableEq, Repr

structure TopicResponse where
  name : String
  partitions : List PartitionResponse
  deriving DecidableEq, Repr

structure GroupResponse where
  groupId : String
  topics : List TopicResponse
  errorCode : I16
  deriving DecidableEq, Repr

structure Response where
  throttleTimeMs : I32 := 0
  topics : List TopicResponse := []
  errorCode : I16 := 0
  groups : List GroupResponse := []
  deriving DecidableEq, Repr

def flexible (version : Nat) : Bool := 6≤version

section Requests

variable (version : Nat) (flex : Bool)

def encodeTopic (t : Topic) : Wire :=
  .all [writeStr flex t.name,writeArray flex writeI32 t.partitionIndexes,writeTags flex]

def decodeTopic : Read Topic := do
  let name ← readStr flex
  let partitionIndexes ← readArray flex readI32
  let _ ← readTags flex
  return ⟨name,partitionIndexes⟩

def encodeGroup (g : Group) : Wire :=
  .all [writeStr true g.groupId,writeArray true (encodeTopic true) g.topics,writeTags true]

def decodeGroup : Read Group := do
  let groupId ← readStr true
  let topics ← readArray true (decodeTopic true)
  let _ ← readTags true
  return ⟨groupId,topics⟩

def encodeRequest (req : Request) : Wire :=
  if 8≤version then
    .all [writeArray true encodeGroup req.groups,writeBool req.requireStable,writeTags true]
  else .all [
    writeStr (flexible version) req.groupId,
    writeNullableArray (flexible version) (encodeTopic (flexible version)) req.topics,
    .gated (7≤version) (writeBool req.requireStable),
    writeTags (flexible version)]

def decodeRequest : Read Request :=
  if 8≤version then do
    let groups ← readArray (flexible version) decodeGroup
    let requireStable ← readBool
    let _ ← readTags true
    return {groups := groups,requireStable := requireStable}
  else do
    let groupId ← readStr (flexible version)
    let topics ← readNullableArray (flexible version) (decodeTopic (flexible version))
    let requireStable ← Decoder.gated (7≤version) readBool false
    let _ ← readTags (flexible version)
    return {groupId := groupId,topics := topics,requireStable := requireStable}

/-- The form of a version, with the other form's fields and those it lacks at their defaults. -/
def Request.at (req : Request) : Request :=
  if 8≤version then {groups := req.groups,requireStable := req.requireStable}
  else {groupId := req.groupId,topics := req.topics,requireStable := if 7≤version then req.requireStable else false}

def Topic.Fits (t : Topic) : Prop := FitsStr flex t.name ∧ Codec.Fits flex 32 t.partitionIndexes.length

def Group.Fits (g : Group) : Prop := FitsStr true g.groupId ∧ FitsArray true (·.Fits true) g.topics

def Request.Fits (req : Request) : Prop :=
  if 8≤version then FitsArray true Group.Fits req.groups
  else FitsStr (flexible version) req.groupId ∧
    ∀l∈req.topics,FitsArray (flexible version) (·.Fits (flexible version)) l

end Requests

section Responses

variable (version : Nat) (flex : Bool)

def encodePartition (p : PartitionResponse) : Wire := .all [writeI32 p.partitionIndex,
  writeI64 p.committedOffset,
  .gated (5≤version) (writeI32 p.committedLeaderEpoch),
  writeNullableStr flex p.metadata,
  writeI16 p.errorCode,
  writeTags flex]

def decodePartition : Read PartitionResponse := do
  let partitionIndex ← readI32
  let committedOffset ← readI64
  let committedLeaderEpoch ← Decoder.gated (5≤version) readI32 (-1)
  let metadata ← readNullableStr flex
  let errorCode ← readI16
  let _ ← readTags flex
  return ⟨partitionIndex,committedOffset,committedLeaderEpoch,metadata,errorCode⟩

def encodeTopicResponse (t : TopicResponse) : Wire :=
  .all [writeStr flex t.name,writeArray flex (encodePartition version flex) t.partitions,writeTags flex]

def decodeTopicResponse : Read TopicResponse := do
  let name ← readStr flex
  let partitions ← readArray flex (decodePartition version flex)
  let _ ← readTags flex
  return ⟨name,partitions⟩

def encodeGroupResponse (g : GroupResponse) : Wire := .all [writeStr true g.groupId,
  writeArray true (encodeTopicResponse version true) g.topics,
  writeI16 g.errorCode,
  writeTags true]

def decodeGroupResponse : Read GroupResponse := do
  let groupId ← readStr true
  let topics ← readArray true (decodeTopicResponse version true)
  let errorCode ← readI16
  let _ ← readTags true
  return ⟨groupId,topics,errorCode⟩

def encodeResponse (resp : Response) : Wire := .all [
  .gated (3≤version) (writeI32 resp.throttleTimeMs),
  if 8≤version then .all [writeArray true (encodeGroupResponse version) resp.groups,writeTags true]
  else .all [
    writeArray (flexible version) (encodeTopicResponse version (flexible version)) resp.topics,
    .gated (2≤version) (writeI16 resp.errorCode),
    writeTags (flexible version)]]

def decodeResponse : Read Response := do
  let throttleTimeMs ← Decoder.gated (3≤version) readI32 0
  if 8≤version then do
    let groups ← readArray true (decodeGroupResponse version)
    let _ ← readTags true
    return {throttleTimeMs := throttleTimeMs,groups := groups}
  else do
    let topics ← readArray (flexible version) (decodeTopicResponse version (flexible version))
    let errorCode ← Decoder.gated (2≤version) readI16 0
    let _ ← readTags (flexible version)
    return {throttleTimeMs := throttleTimeMs,topics := topics,errorCode := errorCode}

def PartitionResponse.at (p : PartitionResponse) : PartitionResponse :=
  {p with committedLeaderEpoch := if 5≤version then p.committedLeaderEpoch else -1}

def TopicResponse.at (t : TopicResponse) : TopicResponse :=
  {t with partitions := t.partitions.map (·.at version)}

def GroupResponse.at (g : GroupResponse) : GroupResponse := {g with topics := g.topics.map (·.at version)}

def Response.at (resp : Response) : Response :=
  let throttleTimeMs := if 3≤version then resp.throttleTimeMs else 0
  if 8≤version then {throttleTimeMs := throttleTimeMs,groups := resp.groups.map (·.at version)}
  else {throttleTimeMs := throttleTimeMs,topics := resp.topics.map (·.at version),
        errorCode := if 2≤version then resp.errorCode else 0}

def TopicResponse.Fits (t : TopicResponse) : Prop :=
  FitsStr flex t.name ∧ FitsArray flex (fun p => ∀s∈p.metadata,FitsStr flex s) t.partitions

def GroupResponse.Fits (g : GroupResponse) : Prop := FitsStr true g.groupId ∧
    FitsArray true (·.Fits true) g.topics

def Response.Fits (resp : Response) : Prop :=
  if 8≤version then FitsArray true GroupResponse.Fits resp.groups
  else FitsArray (flexible version) (·.Fits (flexible version)) resp.topics

end Responses

section RoundTrips

variable {version : Nat} {flex : Bool}

theorem writes_topic {t : Topic} (h : t.Fits flex) : Writes (encodeTopic flex t) (decodeTopic flex) t :=
  (writes_str h.1).step <| (writes_ints h.2).step <| writes_tags.last _

theorem writes_group {g : Group} (h : g.Fits) : Writes (encodeGroup g) decodeGroup g :=
  (writes_str h.1).step <| (writes_list h.2 fun _ => writes_topic).step <| writes_tags.last _

theorem writes_request {req : Request} (h : req.Fits version) :
    Writes (encodeRequest version req) (decodeRequest version) (req.at version) := by
  unfold Request.Fits at h
  unfold encodeRequest decodeRequest Request.at
  by_cases h8 : 8≤version
  · have hflex : flexible version=true := decide_eq_true (by omega)
    rw [if_pos h8] at h
    rw [if_pos h8,if_pos h8,if_pos h8,hflex]
    exact (writes_list h fun _ => writes_group).step <| (writes_bool req.requireStable).step <|
      writes_tags.last _
  · rw [if_neg h8] at h
    rw [if_neg h8,if_neg h8,if_neg h8]
    refine (writes_str h.1).step ?_
    refine (writes_nullableArray h.2 fun _ => writes_topic).step ?_
    refine (writes_bool req.requireStable).gated.step ?_
    exact writes_tags.last _

theorem writes_partition {p : PartitionResponse} (h : ∀s∈p.metadata,FitsStr flex s) :
    Writes (encodePartition version flex p) (decodePartition version flex) (p.at version) := by
  refine (writes_i32 p.partitionIndex).step ?_
  refine (writes_i64 p.committedOffset).step ?_
  refine (writes_i32 p.committedLeaderEpoch).gated.step ?_
  refine (writes_nullableStr h).step ?_
  refine (writes_i16 p.errorCode).step ?_
  exact writes_tags.last _

theorem writes_topicResponse {t : TopicResponse} (h : t.Fits flex) :
    Writes (encodeTopicResponse version flex t) (decodeTopicResponse version flex) (t.at version) :=
  (writes_str h.1).step <| (writes_array h.2 fun _ => writes_partition).step <| writes_tags.last _

theorem writes_groupResponse {g : GroupResponse} (h : g.Fits) :
    Writes (encodeGroupResponse version g) (decodeGroupResponse version) (g.at version) := by
  obtain ⟨hgroup,htopics⟩ := h
  refine (writes_str hgroup).step ?_
  refine (writes_array htopics fun _ => writes_topicResponse).step ?_
  refine (writes_i16 g.errorCode).step ?_
  exact writes_tags.last _

theorem writes_response {resp : Response} (h : resp.Fits version) :
    Writes (encodeResponse version resp) (decodeResponse version) (resp.at version) := by
  unfold Response.Fits at h
  unfold encodeResponse decodeResponse Response.at
  refine (writes_i32 resp.throttleTimeMs).gated.step (Writes.one ?_)
  by_cases h8 : 8≤version
  · rw [if_pos h8] at h
    rw [if_pos h8,if_pos h8,if_pos h8]
    exact (writes_array h fun _ => writes_groupResponse).step <| writes_tags.last _
  · rw [if_neg h8] at h
    rw [if_neg h8,if_neg h8,if_neg h8]
    exact (writes_array h fun _ => writes_topicResponse).step <|
      (writes_i16 resp.errorCode).gated.step <| writes_tags.last _

end RoundTrips

end Kaas.Codec.OffsetFetch
