import Kaas.Math.BigEndian

namespace Kaas

/-- The `crc32c` crate: a digest, and its continuation over a second buffer. -/
structure Crc32c where
  crc32c : Bytes → UInt32
  crc32cAppend : UInt32 → Bytes → UInt32
  append_digest : ∀a b,crc32cAppend (crc32c a) b=crc32c (a++b)

def castagnoliBit (c : UInt32) : UInt32 :=
  if c&&&1=1 then (c>>>1)^^^0x82F63B78 else c>>>1

def castagnoliByte (c : UInt32) (b : UInt8) : UInt32 := castagnoliBit^[8] (c^^^b.toUInt32)

def castagnoli : Crc32c where
  crc32c bs := ~~~(bs.foldl castagnoliByte (~~~0))
  crc32cAppend c bs := ~~~(bs.foldl castagnoliByte (~~~c))
  append_digest a b := by rw [UInt32.not_not,List.foldl_append]

example : castagnoli.crc32c [0x31,0x32,0x33,0x34,0x35,0x36,0x37,0x38,0x39]=0xE3069283 := by
  decide +kernel

inductive IoError
  | batchTooShort (got : Nat)
  | logHandleClosed
  | indexHandleClosed
  | relOffsetOverflow
  | logSizeOverflow
  | legacyEpochTruncated (got : Nat)
  | memoryBatchTooShort (got : Nat)
  | fault
  deriving DecidableEq, Repr

inductive StorageError
  | epochMismatch
  | outOfOrderSequence
  | invalidProducerEpoch
  | duplicateSequence
  | stalled
  | unknownTopicOrPartition
  | offsetOutOfRange
  | migrating
  | staleTopicDir
  | io (e : IoError)
  | json
  deriving DecidableEq, Repr

def i16At (raw : Bytes) (i : Nat) : Int := toSigned 16 (beNat (slice raw i (i+2)))
def i32At (raw : Bytes) (i : Nat) : Int := toSigned 32 (beNat (slice raw i (i+4)))
def i64At (raw : Bytes) (i : Nat) : Int := toSigned 64 (beNat (slice raw i (i+8)))

/-! The fields of a v2 batch header, at the positions Kafka gives them. -/

def baseOffset (raw : Bytes) : Int := i64At raw 0
def batchLength (raw : Bytes) : Int := i32At raw 8
def crcField (raw : Bytes) : Nat := beNat (slice raw 17 21)
def attributes (raw : Bytes) : Nat := beNat (slice raw 21 23)
def lastOffsetDelta (raw : Bytes) : Int := i32At raw 23
def batchMaxTimestamp (raw : Bytes) : Int := i64At raw 35
def producerId (raw : Bytes) : Int := i64At raw 43
def producerEpoch (raw : Bytes) : Int := i16At raw 51
def baseSequence (raw : Bytes) : Int := i32At raw 53

structure BatchOffsets where
  baseOffset : Int
  lastOffsetDelta : Int
  maxTimestamp : Int
  deriving DecidableEq, Repr

def parseBatchOffsets (raw : Bytes) : Except IoError BatchOffsets :=
  if raw.length<43 then .error (.batchTooShort raw.length)
  else .ok ⟨baseOffset raw,lastOffsetDelta raw,batchMaxTimestamp raw⟩

structure BatchProducerInfo where
  producerId : Int
  epoch : Int
  firstSeq : Int
  lastSeq : Int
  deriving DecidableEq, Repr

def parseBatchProducerInfo (raw : Bytes) : Option BatchProducerInfo :=
  if raw.length<57 then none
  else some ⟨producerId raw,producerEpoch raw,baseSequence raw,
    wrapI32 (baseSequence raw+lastOffsetDelta raw)⟩

structure BatchTxnInfo where
  isTransactional : Bool
  isControl : Bool
  producerId : Int
  controlCommit : Option Bool
  deriving DecidableEq, Repr

def isTransactional (raw : Bytes) : Bool := (attributes raw).testBit 4
def isControl (raw : Bytes) : Bool := (attributes raw).testBit 5

def controlCommit (raw : Bytes) : Option Bool :=
  if isControl raw then
    if raw.length≤69 then none else some (decide (i16At raw 68=1))
  else none

def parseBatchTxnInfo (raw : Bytes) : Option BatchTxnInfo :=
  if raw.length<57 then none
  else some ⟨isTransactional raw,isControl raw,producerId raw,controlCommit raw⟩

/-- `owned[0..8].copy_from_slice(&assigned.to_be_bytes())`; the slice exists from 8 bytes on. -/
def rewriteBase (raw : Bytes) (o : Int) : Bytes := beBytes 8 (o%2^64).toNat++raw.drop 8

def recordCount (raw : Bytes) : Int := lastOffsetDelta raw+1

def nextOffset (raw : Bytes) : Int := wrapI64 (baseOffset raw+lastOffsetDelta raw+1)

/-- A complete batch: its length field counts its own bytes and its checksum matches. -/
structure CompleteBatch (crc : Crc32c) (raw : Bytes) : Prop where
  long : 28≤ raw.length
  sized : batchLength raw=(raw.length : Int)-12
  checked : (crc.crc32c (raw.drop 21)).toNat=crcField raw

instance (crc : Crc32c) (raw : Bytes) : Decidable (CompleteBatch crc raw) :=
  decidable_of_iff (28≤ raw.length ∧ batchLength raw=(raw.length : Int)-12 ∧
      (crc.crc32c (raw.drop 21)).toNat=crcField raw)
    ⟨fun h => ⟨h.1,h.2.1,h.2.2⟩,fun h => ⟨h.long,h.sized,h.checked⟩⟩

structure WellFormed (crc : Crc32c) (raw : Bytes) : Prop extends CompleteBatch crc raw where
  headed : 57≤ raw.length
  counted : 0≤lastOffsetDelta raw

instance (crc : Crc32c) (raw : Bytes) : Decidable (WellFormed crc raw) :=
  decidable_of_iff (CompleteBatch crc raw ∧ 57≤ raw.length ∧ 0≤lastOffsetDelta raw)
    ⟨fun h => ⟨h.1,h.2.1,h.2.2⟩,fun h => ⟨h.toCompleteBatch,h.headed,h.counted⟩⟩

theorem beNat_slice_lt (raw : Bytes) (i w : Nat) : beNat (slice raw i (i+w))<256^w := by
  have h := beNat_lt (slice raw i (i+w))
  have hl : (slice raw i (i+w)).length≤w := by simp [slice]
  calc
    beNat (slice raw i (i+w)) < 256^(slice raw i (i+w)).length := h
    _ ≤ 256^w := Nat.pow_le_pow_right (by decide) hl

theorem i32At_range (raw : Bytes) (i : Nat) : -2^31≤ i32At raw i ∧ i32At raw i<2^31 :=
  toSigned_range (by decide) (beNat_slice_lt raw i 4)

theorem i64At_range (raw : Bytes) (i : Nat) : -2^63≤ i64At raw i ∧ i64At raw i<2^63 :=
  toSigned_range (by decide) (beNat_slice_lt raw i 8)

theorem lastOffsetDelta_range (raw : Bytes) :
    -2^31≤lastOffsetDelta raw ∧ lastOffsetDelta raw<2^31 := i32At_range raw 23

@[simp] theorem rewriteBase_length (raw : Bytes) (o : Int) (h : 8≤ raw.length) :
    (rewriteBase raw o).length=raw.length := by
  simp only [rewriteBase,List.length_append,beBytes_length,List.length_drop]
  omega

theorem slice_rewriteBase (raw : Bytes) (o : Int) {i : Nat} (j : Nat) (hi : 8≤ i) :
    slice (rewriteBase raw o) i j=slice raw i j := by
  rw [rewriteBase,slice_append_right _ _ (by simpa using hi)]
  have hd : 8+(i-8)=i := by omega
  have ht : j-8-(i-8)=j-i := by omega
  simp only [slice,beBytes_length,List.drop_drop,hd,ht]

theorem drop_rewriteBase (raw : Bytes) (o : Int) {i : Nat} (hi : 8≤ i) :
    (rewriteBase raw o).drop i=raw.drop i := by
  rw [rewriteBase,List.drop_append,List.drop_eq_nil_of_le (by simpa using hi),
    List.nil_append,List.drop_drop,beBytes_length]
  congr 1
  omega

theorem rewriteBase_fields (raw : Bytes) (o : Int) :
    batchLength (rewriteBase raw o)=batchLength raw ∧
    crcField (rewriteBase raw o)=crcField raw ∧
    attributes (rewriteBase raw o)=attributes raw ∧
    lastOffsetDelta (rewriteBase raw o)=lastOffsetDelta raw ∧
    producerId (rewriteBase raw o)=producerId raw := by
  refine ⟨?_,?_,?_,?_,?_⟩
  · rw [batchLength,i32At,slice_rewriteBase _ _ _ (by decide)]; rfl
  · rw [crcField,slice_rewriteBase _ _ _ (by decide)]; rfl
  · rw [attributes,slice_rewriteBase _ _ _ (by decide)]; rfl
  · rw [lastOffsetDelta,i32At,slice_rewriteBase _ _ _ (by decide)]; rfl
  · rw [producerId,i64At,slice_rewriteBase _ _ _ (by decide)]; rfl

theorem rewriteBase_baseOffset (raw : Bytes) (o : Int) : baseOffset (rewriteBase raw o)=wrapI64 o := by
  have hs : slice (rewriteBase raw o) 0 (0+8)=beBytes 8 (o%2^64).toNat := by
    rw [rewriteBase,slice_append_left _ _ (by simp),slice,List.drop_zero]
    exact List.take_of_length_le (by simp)
  have hm : (o%2^64).toNat%256^8=(o%2^64).toNat := Nat.mod_eq_of_lt (by omega)
  rw [baseOffset,i64At,hs,beNat_beBytes,hm,toSigned_of_wrap]

theorem rewriteBase_assigned (raw : Bytes) (o : Int) (hl : -2^63≤o) (hu : o<2^63) :
    baseOffset (rewriteBase raw o)=o := by
  rw [rewriteBase_baseOffset,wrapI64_of_range o hl hu]

theorem rewriteBase_lastOffsetDelta (raw : Bytes) (o : Int) :
    lastOffsetDelta (rewriteBase raw o)=lastOffsetDelta raw :=
  (rewriteBase_fields raw o).2.2.2.1

theorem rewriteBase_recordCount (raw : Bytes) (o : Int) : recordCount (rewriteBase raw o)=recordCount raw := by
  rw [recordCount,recordCount,rewriteBase_lastOffsetDelta]

theorem rewriteBase_txn {raw : Bytes} (o : Int) (h : 8≤ raw.length) :
    parseBatchTxnInfo (rewriteBase raw o)=parseBatchTxnInfo raw := by
  obtain ⟨_,_,ha,_,hp⟩ := rewriteBase_fields raw o
  have hk : i16At (rewriteBase raw o) 68=i16At raw 68 := by
    rw [i16At,slice_rewriteBase _ _ _ (by decide)]; rfl
  have hc : controlCommit (rewriteBase raw o)=controlCommit raw := by
    unfold controlCommit isControl
    rw [ha,hk,rewriteBase_length raw o h]
  unfold parseBatchTxnInfo isTransactional isControl
  rw [ha,hp,hc,rewriteBase_length raw o h]

theorem rewriteBase_complete {crc : Crc32c} {raw : Bytes} (o : Int) (h : CompleteBatch crc raw) :
    CompleteBatch crc (rewriteBase raw o) := by
  have hl := rewriteBase_length raw o (by have := h.long; omega)
  obtain ⟨hb,hc,_⟩ := rewriteBase_fields raw o
  refine ⟨by rw [hl]; exact h.long,by rw [hb,hl]; exact h.sized,?_⟩
  rw [drop_rewriteBase _ _ (by decide),hc]
  exact h.checked

structure BatchFields where
  attributes : Nat := 0
  lastOffsetDelta : Int := 0
  producerId : Int := -1
  producerEpoch : Int := -1
  baseSequence : Int := -1
  records : Bytes := []

def BatchFields.body (b : BatchFields) : Bytes :=
  beBytes 2 b.attributes++beBytes 4 (b.lastOffsetDelta%2^32).toNat++beBytes 8 0++beBytes 8 0++
    beBytes 8 (b.producerId%2^64).toNat++beBytes 2 (b.producerEpoch%2^16).toNat++
    beBytes 4 (b.baseSequence%2^32).toNat++beBytes 4 ((b.lastOffsetDelta+1)%2^32).toNat++b.records

def encodeBatch (crc : Crc32c) (b : BatchFields) : Bytes :=
  beBytes 8 0++beBytes 4 (b.body.length+9)++beBytes 4 0++[2]++beBytes 4 (crc.crc32c b.body).toNat++b.body

/-- One record of no producer, the batch of most concrete runs. -/
def plainBatch : Bytes := encodeBatch castagnoli {}

/-- Producer 7 at sequence number `seq`. -/
def seqBatch (seq delta : Int) : Bytes :=
  encodeBatch castagnoli {lastOffsetDelta := delta,producerId := 7,producerEpoch := 0,baseSequence := seq}

def txnBatch (pid seq : Int) : Bytes :=
  encodeBatch castagnoli {attributes := 16,producerId := pid,producerEpoch := 0,baseSequence := seq}

/-- Six records in 81 bytes. -/
def wideBatch : Bytes := encodeBatch castagnoli {lastOffsetDelta := 5,records := List.replicate 20 0}

end Kaas
