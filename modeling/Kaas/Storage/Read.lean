import Kaas.Storage.Lifecycle

namespace Kaas

def readIndexEntry (data : Bytes) (i : Nat) : Int × Nat :=
  (i32At data (i*8),beNat (slice data (i*8+4) (i*8+8)))

/-- The binary search loop; the first argument bounds its turns. -/
def searchLoop (data : Bytes) (targetRel : Int) : Nat → Nat → Nat → Nat → Nat
  | 0,_,_,result => result
  | n+1,lo,hi,result =>
    if lo≤hi then
      if (readIndexEntry data (lo+(hi-lo)/2)).1≤targetRel then
        searchLoop data targetRel n (lo+(hi-lo)/2+1) hi (readIndexEntry data (lo+(hi-lo)/2)).2
      else if lo+(hi-lo)/2=0 then result
      else searchLoop data targetRel n lo (lo+(hi-lo)/2-1) result
    else result

def searchIndexBytes (data : Bytes) (segmentBase target : Int) : Nat :=
  if data.length/8=0 then 0
  else if -2^31≤wrapI64 (target-segmentBase) ∧ wrapI64 (target-segmentBase)<2^31 then
    if wrapI64 (target-segmentBase)<0 then 0
    else searchLoop data (wrapI64 (target-segmentBase)) (data.length/8) 0 (data.length/8-1) 0
  else (readIndexEntry data (data.length/8-1)).2

/-- One turn of the loop of `read_batches`: a batch to skip, a batch to return, or the end. -/
inductive ReadTurn
  | stop
  | skip (rest : Bytes)
  | take (batch rest : Bytes)

def readTurn (startOffset : Int) (f : Bytes) : ReadTurn :=
  match readExact 12 f with
  | none => .stop
  | some (header,f) =>
    if i32At header 8<15 then .stop
    else match readExact 15 f with
      | none => .stop
      | some (bodyHead,f) =>
        if wrapI64 (i64At header 0+i32At bodyHead 11)< startOffset then
          .skip (f.drop ((i32At header 8).toNat-15))
        else match readExact ((i32At header 8).toNat-15) f with
          | none => .stop
          | some (rest,f) => .take (header++bodyHead++rest) f

def readLoop (startOffset : Int) (maxBytes : Nat) : Nat → Bytes → Bytes → Bytes
  | 0,_,out => out
  | n+1,f,out =>
    if out.length< maxBytes then
      match readTurn startOffset f with
      | .stop => out
      | .skip f => readLoop startOffset maxBytes n f out
      | .take batch f => readLoop startOffset maxBytes n f (out++batch)
    else out

def readBatches (log : Bytes) (approxPos : Nat) (startOffset : Int) (maxBytes : Nat) : Bytes :=
  readLoop startOffset maxBytes (log.length+1) (log.drop approxPos) []

def readSegment (d : Dir) (m : SegmentMeta) (startOffset : Int) (maxBytes : Nat) : Bytes :=
  readBatches (d.logData m.name) (searchIndexBytes (d.indexData m.name) m.baseOffset startOffset)
    startOffset maxBytes

/-- The closed segments in order; those that end at or below the start are not read. -/
def readClosed (d : Dir) (startOffset : Int) (maxBytes : Nat) : List (SegmentMeta × Int) → Bytes → Bytes
  | [],out => out
  | (m,upper)::rest,out =>
    if maxBytes≤out.length then out
    else if upper≤ startOffset then readClosed d startOffset maxBytes rest out
    else readClosed d startOffset maxBytes rest
      (out++readSegment d m startOffset (maxBytes-out.length))

def readSnapshot (d : Dir) (snap : ReadSnapshot) (startOffset : Int) (maxBytes : Nat) : Bytes :=
  let start := max startOffset snap.logStart
  let out := readClosed d start maxBytes
    (snap.closed.zip (upperBounds snap.closed snap.activeMeta.baseOffset)) []
  let out := if out.length< maxBytes then
      out++readSegment d snap.activeMeta start (maxBytes-out.length)
    else out
  out.take maxBytes

end Kaas
