import Kaas.Codec.Primitives

namespace Kaas.Codec.DescribeLogDirs

/-! DescribeLogDirs, versions 0 to 4. Its legacy counts are written with the largest i32 in place of
one that does not fit. -/

structure RequestTopic where
  name : String
  partitions : List I32
  deriving DecidableEq, Repr

structure Request where
  topics : Option (List RequestTopic)
  deriving DecidableEq, Repr

structure ResponsePartition where
  partitionIndex : I32
  partitionSize : I64
  offsetLag : I64
  isFutureKey : Bool
  deriving DecidableEq, Repr

structure ResponseTopic where
  name : String
  partitions : List ResponsePartition
  deriving DecidableEq, Repr

structure LogDirResult where
  errorCode : I16
  logDir : String
  topics : List ResponseTopic
  totalBytes : I64
  usableBytes : I64
  deriving DecidableEq, Repr

structure Response where
  throttleTimeMs : I32
  errorCode : I16
  results : List LogDirResult
  deriving DecidableEq, Repr

def flexible (version : Nat) : Bool := 2≤version

section Model

variable (version : Nat) (flex : Bool)

def writeCount (n : Nat) : Wire :=
  if flex then writeCompactLen n else writeI32 (BitVec.ofNat 32 (if n<2^31 then n else 2^31-1))

def writeCounted {α : Type} (f : α → Wire) (l : List α) : Wire := .all [writeCount flex l.length,.each f l]

def encodeRequestTopic (t : RequestTopic) : Wire :=
  .all [writeStr flex t.name,writeCounted flex writeI32 t.partitions,writeTags flex]

def decodeRequestTopic : Read RequestTopic := do
  let name ← readStr flex
  let partitions ← readArray flex readI32
  let _ ← readTags flex
  return ⟨name,partitions⟩

def encodeTopics : Option (List RequestTopic) → Wire
  | none => if flex then .bytes (writeUvarint 0) else writeI32 (-1)
  | some topics => writeCounted flex (encodeRequestTopic flex) topics

def encodeRequest (req : Request) : Wire :=
  .all [encodeTopics (flexible version) req.topics,writeTags (flexible version)]

def decodeRequest : Read Request := do
  let topics ← readNullableArray (flexible version) (decodeRequestTopic (flexible version))
  let _ ← readTags (flexible version)
  return ⟨topics⟩

def encodePartition (p : ResponsePartition) : Wire := .all [writeI32 p.partitionIndex,
  writeI64 p.partitionSize,
  writeI64 p.offsetLag,
  writeBool p.isFutureKey,
  writeTags flex]

def decodePartition : Read ResponsePartition := do
  let partitionIndex ← readI32
  let partitionSize ← readI64
  let offsetLag ← readI64
  let isFutureKey ← readBool
  let _ ← readTags flex
  return ⟨partitionIndex,partitionSize,offsetLag,isFutureKey⟩

def encodeTopic (t : ResponseTopic) : Wire :=
  .all [writeStr flex t.name,writeCounted flex (encodePartition flex) t.partitions,writeTags flex]

def decodeTopic : Read ResponseTopic := do
  let name ← readStr flex
  let partitions ← readArray flex (decodePartition flex)
  let _ ← readTags flex
  return ⟨name,partitions⟩

def encodeResult (r : LogDirResult) : Wire := .all [writeI16 r.errorCode,
  writeStr (flexible version) r.logDir,
  writeCounted (flexible version) (encodeTopic (flexible version)) r.topics,
  .gated (4≤version) (writeI64 r.totalBytes),
  .gated (4≤version) (writeI64 r.usableBytes),
  writeTags (flexible version)]

def decodeResult : Read LogDirResult := do
  let errorCode ← readI16
  let logDir ← readStr (flexible version)
  let topics ← readArray (flexible version) (decodeTopic (flexible version))
  let totalBytes ← Decoder.gated (4≤version) readI64 (-1)
  let usableBytes ← Decoder.gated (4≤version) readI64 (-1)
  let _ ← readTags (flexible version)
  return ⟨errorCode,logDir,topics,totalBytes,usableBytes⟩

def encodeResponse (resp : Response) : Wire := .all [writeI32 resp.throttleTimeMs,
  .gated (3≤version) (writeI16 resp.errorCode),
  writeCounted (flexible version) (encodeResult version) resp.results,
  writeTags (flexible version)]

def decodeResponse : Read Response := do
  let throttleTimeMs ← readI32
  let errorCode ← Decoder.gated (3≤version) readI16 0
  let results ← readArray (flexible version) (decodeResult version)
  let _ ← readTags (flexible version)
  return ⟨throttleTimeMs,errorCode,results⟩

def LogDirResult.at (r : LogDirResult) : LogDirResult :=
  {r with totalBytes := if 4≤version then r.totalBytes else -1
          usableBytes := if 4≤version then r.usableBytes else -1}

def Response.at (resp : Response) : Response :=
  {resp with errorCode := if 3≤version then resp.errorCode else 0
             results := resp.results.map (·.at version)}

def RequestTopic.Fits (t : RequestTopic) : Prop := FitsStr flex t.name ∧ Codec.Fits flex 32 t.partitions.length

def Request.Fits (req : Request) : Prop :=
  ∀l∈req.topics,FitsArray (flexible version) (·.Fits (flexible version)) l

def ResponseTopic.Fits (t : ResponseTopic) : Prop := FitsStr flex t.name ∧
    Codec.Fits flex 32 t.partitions.length

def LogDirResult.Fits (r : LogDirResult) : Prop := FitsStr flex r.logDir ∧ FitsArray flex (·.Fits flex) r.topics

def Response.Fits (resp : Response) : Prop :=
  FitsArray (flexible version) (·.Fits (flexible version)) resp.results

end Model

section RoundTrips

variable {version : Nat} {flex : Bool}

theorem writeCounted_eq {α : Type} {f : α → Wire} {l : List α} (h : Codec.Fits flex 32 l.length) :
    writeCounted flex f l=writeArray flex f l := by
  have hcount : writeCount flex l.length=writeArrayLen flex l.length := by
    unfold writeCount writeArrayLen
    cases flex with
    | true => rfl
    | false =>
      have hlen : l.length<2^31 := h
      simp only [Bool.false_eq_true,if_false,if_pos hlen,writeLen]
      rfl
  rw [writeCounted,hcount,writeArray]

theorem writes_requestTopic {t : RequestTopic} (h : t.Fits flex) :
    Writes (encodeRequestTopic flex t) (decodeRequestTopic flex) t := by
  rw [encodeRequestTopic,writeCounted_eq h.2]
  exact (writes_str h.1).step <| (writes_ints h.2).step <| writes_tags.last _

theorem encodeTopics_eq {topics : Option (List RequestTopic)} (h : ∀l∈topics,FitsArray flex (·.Fits flex) l) :
    encodeTopics flex topics=writeNullableArray flex (encodeRequestTopic flex) topics := by
  cases topics with
  | none => rfl
  | some l => exact writeCounted_eq (h l rfl).1

theorem writes_request {req : Request} (h : req.Fits version) :
    Writes (encodeRequest version req) (decodeRequest version) req := by
  rw [encodeRequest,encodeTopics_eq h]
  exact (writes_nullableArray h fun _ => writes_requestTopic).step <| writes_tags.last _

theorem writes_partition (p : ResponsePartition) :
    Writes (encodePartition flex p) (decodePartition flex) p := by
  refine (writes_i32 p.partitionIndex).step ?_
  refine (writes_i64 p.partitionSize).step ?_
  refine (writes_i64 p.offsetLag).step ?_
  refine (writes_bool p.isFutureKey).step ?_
  exact writes_tags.last _

theorem writes_topic {t : ResponseTopic} (h : t.Fits flex) :
    Writes (encodeTopic flex t) (decodeTopic flex) t := by
  have hall : FitsArray flex (fun _ => True) t.partitions := ⟨h.2,fun _ _ => trivial⟩
  rw [encodeTopic,writeCounted_eq h.2]
  exact (writes_str h.1).step <| (writes_list hall fun p _ => writes_partition p).step <| writes_tags.last _

theorem writes_result {r : LogDirResult} (h : r.Fits (flexible version)) :
    Writes (encodeResult version r) (decodeResult version) (r.at version) := by
  obtain ⟨hdir,htopics⟩ := h
  rw [encodeResult,writeCounted_eq htopics.1]
  refine (writes_i16 r.errorCode).step ?_
  refine (writes_str hdir).step ?_
  refine (writes_list htopics fun _ => writes_topic).step ?_
  refine (writes_i64 r.totalBytes).gated.step ?_
  refine (writes_i64 r.usableBytes).gated.step ?_
  exact writes_tags.last _

theorem writes_response {resp : Response} (h : resp.Fits version) :
    Writes (encodeResponse version resp) (decodeResponse version) (resp.at version) := by
  rw [encodeResponse,writeCounted_eq h.1]
  refine (writes_i32 resp.throttleTimeMs).step ?_
  refine (writes_i16 resp.errorCode).gated.step ?_
  refine (writes_array h fun _ => writes_result).step ?_
  exact writes_tags.last _

end RoundTrips

end Kaas.Codec.DescribeLogDirs
