import Kaas.Storage.TxnIndex

namespace Kaas

/-! `write_varint`: seven bits a byte, the lowest first. -/

def writeUvarintLoop : Nat → Nat → Bytes
  | 0,x => [UInt8.ofNat (x%128)]
  | k+1,x => if 128≤x then UInt8.ofNat (x%128+128)::writeUvarintLoop k (x/128) else [UInt8.ofNat (x%128)]

def writeUvarint (v : Nat) : Bytes := writeUvarintLoop 9 v

def zigzagEncode (n : Int) : Nat := if 0≤n then (2*n).toNat%2^64 else (-2*n-1).toNat%2^64

def writeVarint (v : Int) : Bytes := writeUvarint (zigzagEncode v)

def encodeRecord (key value : Bytes) : Bytes :=
  let body := [0]++writeVarint 0++writeVarint 0++writeVarint key.length++key++writeVarint
    value.length++value++ writeVarint 0
  writeVarint body.length++body

def attrIsTransactional : Nat := 1<<<4
def attrIsControl : Nat := 1<<<5

def buildControlBatch (crc : Crc32c) (producerId producerEpoch : Int) (commit : Bool)
    (coordinatorEpoch : Int) : Bytes :=
  encodeBatch crc {
    attributes := attrIsTransactional|||attrIsControl
    lastOffsetDelta := 0
    producerId := producerId
    producerEpoch := producerEpoch
    baseSequence := -1
    records := encodeRecord (beBytes 2 0++beBytes 2 (if commit then 1 else 0))
      (beBytes 2 0++beBytes 4 (coordinatorEpoch%2^32).toNat) }

section Encoded

variable (crc : Crc32c) (b : BatchFields)

theorem encodeBatch_length : (encodeBatch crc b).length=61+b.records.length := by
  simp only [encodeBatch,BatchFields.body,List.length_append,beBytes_length,List.length_singleton]
  omega

theorem encodeBatch_attributes : attributes (encodeBatch crc b)=b.attributes%2^16 := by
  have h : slice (encodeBatch crc b) 21 23=beBytes 2 b.attributes := by
    simp only [encodeBatch,BatchFields.body,List.append_assoc]
    rw [← List.append_assoc,← List.append_assoc,← List.append_assoc,← List.append_assoc]
    exact slice_field _ _ _ 21 23 (by simp) (by simp)
  rw [attributes,h,beNat_beBytes]
  rfl

theorem encodeBatch_producerId : producerId (encodeBatch crc b)=wrapI64 b.producerId := by
  have h : slice (encodeBatch crc b) 43 (43+8)=beBytes 8 (b.producerId%2^64).toNat := by
    simp only [encodeBatch,BatchFields.body,List.append_assoc]
    rw [← List.append_assoc,← List.append_assoc,← List.append_assoc,← List.append_assoc,
      ← List.append_assoc,← List.append_assoc,← List.append_assoc,← List.append_assoc]
    exact slice_field _ _ _ 43 51 (by simp) (by simp)
  have hm : (b.producerId%2^64).toNat%256^8=(b.producerId%2^64).toNat := Nat.mod_eq_of_lt (by omega)
  rw [producerId,i64At,h,beNat_beBytes,hm,toSigned_of_wrap]

theorem slice_records (i j : Nat) : slice (encodeBatch crc b) (61+i) (61+j)=slice b.records i j := by
  rw [encodeBatch,slice_append_right _ _ (by simp; omega),BatchFields.body,
    slice_append_right _ _ (by simp; omega)]
  simp only [List.length_append,beBytes_length,List.length_singleton]
  congr 1 <;> omega

end Encoded

theorem markerRecord_length (commit : Bool) (coordinatorEpoch : Int) :
    (encodeRecord (beBytes 2 0++beBytes 2 (if commit then 1 else 0))
      (beBytes 2 0++beBytes 4 (coordinatorEpoch%2^32).toNat)).length=17 := by
  simp only [encodeRecord,List.length_append,beBytes_length]
  rfl

theorem markerRecord_type (commit : Bool) (coordinatorEpoch : Int) :
    slice (encodeRecord (beBytes 2 0++beBytes 2 (if commit then 1 else 0))
      (beBytes 2 0++beBytes 4 (coordinatorEpoch%2^32).toNat)) 7 9=beBytes 2 (if commit then 1 else 0) := by
  simp only [encodeRecord,List.length_append,beBytes_length]
  rfl

theorem buildControlBatch_txn (crc : Crc32c) (pid epoch : Int) (commit : Bool) (coordinatorEpoch : Int) :
    parseBatchTxnInfo (buildControlBatch crc pid epoch commit coordinatorEpoch)=
      some ⟨true,true,wrapI64 pid,some commit⟩ := by
  have hlen : (buildControlBatch crc pid epoch commit coordinatorEpoch).length=78 := by
    rw [buildControlBatch,encodeBatch_length,markerRecord_length]
  have hattr : attributes (buildControlBatch crc pid epoch commit coordinatorEpoch)=48 :=
    encodeBatch_attributes crc _
  have hpid : producerId (buildControlBatch crc pid epoch commit coordinatorEpoch)=wrapI64 pid :=
    encodeBatch_producerId crc _
  have htype : slice (buildControlBatch crc pid epoch commit coordinatorEpoch) 68 (68+2)=
      beBytes 2 (if commit then 1 else 0) := by
    rw [buildControlBatch,slice_records crc _ 7 9,markerRecord_type]
  have hcommit : controlCommit (buildControlBatch crc pid epoch commit coordinatorEpoch)=some commit := by
    rw [controlCommit,isControl,hattr,if_pos (by decide),if_neg (by omega),i16At,htype,beNat_beBytes]
    cases commit <;> rfl
  rw [parseBatchTxnInfo,if_neg (by omega),isTransactional,isControl,hattr,hpid,hcommit]
  rfl

end Kaas
