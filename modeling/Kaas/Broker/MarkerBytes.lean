import Kaas.Broker.ControlBatch
import Kaas.Storage.Idempotence
import Kaas.Storage.Scan

namespace Kaas

/-! `read_varint`, and a v2 record as its fields follow one another. -/

inductive VarintError
  | unexpectedEof
  | invalidUvarint
  deriving DecidableEq, Repr

/-- The rounds left of `MAX_UVARINT_LEN`, the shift and the bits so far; the last byte may not go
past bit 63. -/
def readUvarintLoop : Nat → Nat → Nat → Bytes → Except VarintError (Nat × Bytes)
  | 0,_,_,_ => .error .invalidUvarint
  | _+1,_,_,[] => .error .unexpectedEof
  | k+1,shift,x,b::buf =>
    if b.toNat<128 then
      if k=0 ∧ 1<b.toNat then .error .invalidUvarint else .ok (x|||(b.toNat<<<shift)%2^64,buf)
    else readUvarintLoop k (shift+7) (x|||((b.toNat%128)<<<shift)%2^64) buf

def readUvarint (buf : Bytes) : Except VarintError (Nat × Bytes) := readUvarintLoop 10 0 0 buf

def zigzagDecode (u : Nat) : Int := if u%2=0 then ((u/2 : Nat) : Int) else -((u/2 : Nat) : Int)-1

def readVarint (buf : Bytes) : Except VarintError (Int × Bytes) := do
  let (u,buf) ← readUvarint buf
  return (zigzagDecode u,buf)

def readSized (n : Int) (buf : Bytes) : Except VarintError (Bytes × Bytes) :=
  match readExact n.toNat buf with
  | some r => .ok r
  | none => .error .unexpectedEof

structure RecordFields where
  attributes : Bytes
  timestampDelta : Int
  offsetDelta : Int
  key : Bytes
  value : Bytes
  headers : Int
  deriving DecidableEq, Repr

/-- With what is left of the record's own bytes, and behind it. -/
def decodeRecord (raw : Bytes) : Except VarintError (RecordFields × Bytes × Bytes) := do
  let (size,raw) ← readVarint raw
  let (body,behind) ← readSized size raw
  let (attributes,body) ← readSized 1 body
  let (timestampDelta,body) ← readVarint body
  let (offsetDelta,body) ← readVarint body
  let (keyLen,body) ← readVarint body
  let (key,body) ← readSized keyLen body
  let (valueLen,body) ← readVarint body
  let (value,body) ← readSized valueLen body
  let (headers,body) ← readVarint body
  return (⟨attributes,timestampDelta,offsetDelta,key,value,headers⟩,body,behind)

theorem writeVarint_small {n : Nat} (h : n<64) : writeVarint n=[UInt8.ofNat (2*n)] := by
  have hz : zigzagEncode n=2*n := by
    unfold zigzagEncode
    split_ifs <;> omega
  have hlow : 2*n%128=2*n := Nat.mod_eq_of_lt (by omega)
  rw [writeVarint,hz,writeUvarint,writeUvarintLoop,if_neg (by omega),hlow]

theorem readVarint_writeVarint {n : Nat} (h : n<64) (buf : Bytes) :
    readVarint (writeVarint n++buf)=.ok ((n : Int),buf) := by
  have hb : (UInt8.ofNat (2*n)).toNat=2*n := by
    rw [UInt8.toNat_ofNat']
    omega
  have hlow : 2*n%2^64=2*n := Nat.mod_eq_of_lt (by omega)
  have hu : readUvarint (UInt8.ofNat (2*n)::buf)=.ok (2*n,buf) := by
    rw [readUvarint,readUvarintLoop,hb,if_pos (by omega),if_neg (by omega),Nat.shiftLeft_zero,hlow,Nat.zero_or]
  have hz : zigzagDecode (2*n)=n := by
    unfold zigzagDecode
    split_ifs <;> omega
  rw [writeVarint_small h,List.singleton_append,readVarint,hu,← hz]
  rfl

theorem readSized_append (bytes buf : Bytes) : readSized bytes.length (bytes++buf)=.ok (bytes,buf) := by
  rw [readSized,Int.toNat_natCast,readExact_append buf rfl]

theorem decodeRecord_encodeRecord {key value : Bytes} (h : key.length+value.length<58) :
    decodeRecord (encodeRecord key value)=.ok (⟨[0],0,0,key,value,0⟩,[],[]) := by
  let body : Bytes := [0]++(writeVarint (0 : Nat)++(writeVarint (0 : Nat)++(writeVarint key.length++(key++
    (writeVarint value.length++(value++(writeVarint (0 : Nat)++[])))))))
  have hone {n : Nat} (hn : n<64) : (writeVarint n).length=1 := by
    rw [writeVarint_small hn]
    rfl
  have hlen : body.length<64 := by
    unfold body
    simp only [List.length_append,hone (by decide : 0<64),hone (by omega : key.length<64),
      hone (by omega : value.length<64),List.length_singleton,List.length_nil]
    omega
  have hrec : encodeRecord key value=writeVarint body.length++(body++[]) := by
    unfold body encodeRecord
    simp only [List.append_assoc,List.append_nil]
    rfl
  have hattr (buf : Bytes) : readSized 1 ([0]++buf)=.ok ([0],buf) := readSized_append [0] buf
  rw [hrec,decodeRecord,readVarint_writeVarint hlen]
  simp only [bind,Except.bind,readSized_append]
  unfold body
  simp only [hattr,readVarint_writeVarint (by decide : 0<64),readVarint_writeVarint (by omega : key.length<64),
    readSized_append,readVarint_writeVarint (by omega : value.length<64)]
  rfl

theorem signed_beBytes (x : Int) : toSigned 32 (beNat (beBytes 4 (x%2^32).toNat))=wrapI32 x := by
  rw [beNat_beBytes]
  unfold toSigned wrapI32
  split_ifs <;> omega

section Encoded

variable (crc : Crc32c) (b : BatchFields)

theorem encodeBatch_lastOffsetDelta : lastOffsetDelta (encodeBatch crc b)=wrapI32 b.lastOffsetDelta := by
  have h : slice (encodeBatch crc b) 23 (23+4)=beBytes 4 (b.lastOffsetDelta%2^32).toNat := rfl
  rw [lastOffsetDelta,i32At,h,signed_beBytes]

theorem encodeBatch_records : (encodeBatch crc b).drop 61=b.records := rfl

theorem encodeBatch_complete (hsize : b.body.length+9<2^31) : CompleteBatch crc (encodeBatch crc b) := by
  have hlen : (encodeBatch crc b).length=21+b.body.length := by
    simp only [encodeBatch,List.length_append,beBytes_length,List.length_singleton]
  have hfield : slice (encodeBatch crc b) 8 (8+4)=beBytes 4 (b.body.length+9) := rfl
  have hcrc : slice (encodeBatch crc b) 17 21=beBytes 4 (crc.crc32c b.body).toNat := rfl
  have hbody : (encodeBatch crc b).drop 21=b.body := rfl
  refine ⟨?_,?_,?_⟩
  · rw [encodeBatch_length]
    omega
  · rw [batchLength,i32At,hfield,beNat_beBytes,hlen]
    unfold toSigned
    split_ifs <;> omega
  · rw [hbody,crcField,hcrc,beNat_beBytes]
    exact (Nat.mod_eq_of_lt (crc.crc32c b.body).toNat_lt).symm

end Encoded

/-- What the scan, the two parsers, the sequence check and a record reader make of a marker. -/
structure MarkerRead (crc : Crc32c) (raw : Bytes) (pid epoch : Int) (commit : Bool)
    (coordinatorEpoch : Int) : Prop where
  complete : CompleteBatch crc raw
  scanned : ∀o hwm : Int,scanHighWatermarkFrom crc (rewriteBase raw o) 0 hwm=⟨wrapI64 (o+1),raw.length,.eof⟩
  producer : parseBatchProducerInfo raw=some ⟨pid,epoch,-1,-1⟩
  txn : parseBatchTxnInfo raw=some ⟨true,true,pid,some commit⟩
  exempt : ∀states,(parseBatchProducerInfo raw).map (classify states)=some .notIdempotent
  single : recordCount raw=1
  record : ∃key value,decodeRecord (raw.drop 61)=.ok (⟨[0],0,0,key,value,0⟩,[],[]) ∧
    i16At key 2=(if commit then 1 else 0) ∧ i32At value 2=coordinatorEpoch

section Marker

variable {crc : Crc32c} {pid epoch coordinatorEpoch : Int} {commit : Bool}

theorem marker_complete : CompleteBatch crc (buildControlBatch crc pid epoch commit coordinatorEpoch) := by
  unfold buildControlBatch
  apply encodeBatch_complete
  simp only [BatchFields.body,List.length_append,beBytes_length,markerRecord_length]
  decide

theorem marker_lastOffsetDelta :
    lastOffsetDelta (buildControlBatch crc pid epoch commit coordinatorEpoch)=0 := by
  rw [buildControlBatch,encodeBatch_lastOffsetDelta]
  rfl

theorem marker_producer (hpid : -2^63≤pid ∧ pid<2^63) (hepoch : -2^15≤epoch ∧ epoch<2^15) :
    parseBatchProducerInfo (buildControlBatch crc pid epoch commit coordinatorEpoch)=some
      ⟨pid,epoch,-1,-1⟩ := by
  have hid : producerId (buildControlBatch crc pid epoch commit coordinatorEpoch)=pid := by
    rw [buildControlBatch,encodeBatch_producerId]
    exact wrapI64_of_range pid hpid.1 hpid.2
  have hslice : slice (buildControlBatch crc pid epoch commit coordinatorEpoch) 51 (51+2)=
      beBytes 2 (epoch%2^16).toNat := rfl
  have hepoch' : producerEpoch (buildControlBatch crc pid epoch commit coordinatorEpoch)=epoch := by
    rw [producerEpoch,i16At,hslice,beNat_beBytes]
    unfold toSigned
    split_ifs <;> omega
  have hseq : baseSequence (buildControlBatch crc pid epoch commit coordinatorEpoch)=-1 := by
    have h : slice (buildControlBatch crc pid epoch commit coordinatorEpoch) 53 (53+4)=
      beBytes 4 ((-1 : Int)%2^32).toNat := rfl
    rw [baseSequence,i32At,h,signed_beBytes]
    rfl
  have hlen : ¬(buildControlBatch crc pid epoch commit coordinatorEpoch).length<57 := by
    rw [buildControlBatch,encodeBatch_length]
    omega
  rw [parseBatchProducerInfo,if_neg hlen,hid,hepoch',hseq,marker_lastOffsetDelta]
  rfl

theorem marker_scanned (o hwm : Int) :
    scanHighWatermarkFrom crc (rewriteBase (buildControlBatch crc pid epoch commit coordinatorEpoch) o) 0 hwm=
      ⟨wrapI64 (o+1),(buildControlBatch crc pid epoch commit coordinatorEpoch).length,.eof⟩ := by
  have hscan := scan_complete crc
    [rewriteBase (buildControlBatch crc pid epoch commit coordinatorEpoch) o] (fun f hf => by
      rw [List.mem_singleton.mp hf]
      exact rewriteBase_complete o marker_complete) hwm
  rw [List.flatten_singleton] at hscan
  have hend : endOffset hwm [rewriteBase (buildControlBatch crc pid epoch commit coordinatorEpoch) o]=
      wrapI64 (o+1) := by
    change nextOffset _=_
    rw [nextOffset,rewriteBase_lastOffsetDelta,rewriteBase_baseOffset,marker_lastOffsetDelta]
    unfold wrapI64
    omega
  rw [hscan,hend,rewriteBase_length _ o (le_trans (by decide) marker_complete.long)]

theorem marker_record (hcoord : -2^31≤ coordinatorEpoch ∧ coordinatorEpoch<2^31) :
    ∃key value,decodeRecord ((buildControlBatch crc pid epoch commit coordinatorEpoch).drop 61)=
        .ok (⟨[0],0,0,key,value,0⟩,[],[]) ∧
      i16At key 2=(if commit then 1 else 0) ∧ i32At value 2=coordinatorEpoch := by
  refine ⟨beBytes 2 0++beBytes 2 (if commit then 1 else 0),
    beBytes 2 0++beBytes 4 (coordinatorEpoch%2^32).toNat,?_,?_,?_⟩
  · rw [buildControlBatch,encodeBatch_records]
    exact decodeRecord_encodeRecord (by simp)
  · have h : slice (beBytes 2 0++beBytes 2 (if commit then 1 else 0)) 2 (2+2)=
        beBytes 2 (if commit then 1 else 0) := rfl
    rw [i16At,h,beNat_beBytes]
    cases commit <;> rfl
  · have h : slice (beBytes 2 0++beBytes 4 (coordinatorEpoch%2^32).toNat) 2 (2+4)=
        beBytes 4 (coordinatorEpoch%2^32).toNat := rfl
    rw [i32At,h,signed_beBytes]
    unfold wrapI32
    omega

end Marker

/-- Every marker is complete for the scan, one offset long wherever it is appended, the same for
both parsers, outside the sequence check, and one record with nothing left over. -/
theorem control_batch_read (crc : Crc32c) {pid epoch coordinatorEpoch : Int} (commit : Bool)
    (hpid : -2^63≤pid ∧ pid<2^63) (hepoch : -2^15≤epoch ∧ epoch<2^15)
    (hcoord : -2^31≤ coordinatorEpoch ∧ coordinatorEpoch<2^31) :
    MarkerRead crc (buildControlBatch crc pid epoch commit coordinatorEpoch) pid epoch commit
      coordinatorEpoch where
  complete := marker_complete
  scanned := marker_scanned
  producer := marker_producer hpid hepoch
  txn := by
    rw [buildControlBatch_txn,wrapI64_of_range pid hpid.1 hpid.2]
  exempt states := by
    rw [marker_producer hpid hepoch,Option.map_some,classify]
    split_ifs with h1 h2
    · rfl
    · rfl
    · exact absurd (by decide : (-1 : Int)<0) h2
  single := by
    rw [recordCount,marker_lastOffsetDelta]
    rfl
  record := marker_record hcoord

theorem control_batch_read_bounds :
    MarkerRead castagnoli (buildControlBatch castagnoli (-2^63) (-2^15) true (-2^31)) (-2^63)
      (-2^15) true (-2^31) ∧
    MarkerRead castagnoli (buildControlBatch castagnoli (2^63-1) (2^15-1) false (2^31-1)) (2^63-1)
      (2^15-1) false (2^31-1) :=
  ⟨control_batch_read castagnoli true (by decide) (by decide) (by decide),
    control_batch_read castagnoli false (by decide) (by decide) (by decide)⟩

end Kaas
