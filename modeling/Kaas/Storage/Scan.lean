import Kaas.Math.Framing
import Kaas.Storage.RecordBatch

namespace Kaas

inductive ScanStop
  | eof
  | torn
  | crcMismatch
  deriving DecidableEq, Repr

structure ScanResult where
  highWatermark : Int
  validEnd : Nat
  stop : ScanStop
  deriving DecidableEq, Repr

def readExact (n : Nat) (br : Bytes) : Option (Bytes × Bytes) :=
  if n≤br.length then some (br.take n,br.drop n) else none

structure ScanTurn where
  header : Bytes
  bodyHead : Bytes
  rest : Bytes

def ScanTurn.batch (t : ScanTurn) : Bytes := t.header++t.bodyHead++t.rest

/-- One turn of the loop of `scan_high_watermark_from`: the batch read, and the reader behind it. -/
def scanTurn (crc : Crc32c) (br : Bytes) : Except ScanStop (ScanTurn × Bytes) :=
  match readExact 12 br with
  | none => .error .eof
  | some (header,br) =>
    if i32At header 8<16 then .error .torn
    else match readExact 16 br with
      | none => .error .torn
      | some (bodyHead,br) =>
        match readExact (i32At header 8-16).toNat br with
        | none => .error .torn
        | some (rest,br) =>
          if (crc.crc32cAppend (crc.crc32c (bodyHead.drop 9)) rest).toNat=beNat (slice bodyHead 5 9)
          then .ok (⟨header,bodyHead,rest⟩,br)
          else .error .crcMismatch

def scanLoop (crc : Crc32c) : Nat → Bytes → Int → Nat → ScanResult
  | 0,_,hwm,validEnd => ⟨hwm,validEnd,.eof⟩
  | n+1,br,hwm,validEnd => match scanTurn crc br with
    | .error stop => ⟨hwm,validEnd,stop⟩
    | .ok (t,br) => scanLoop crc n br
        (wrapI64 (i64At t.header 0+i32At t.bodyHead 11+1))
        (validEnd+((i32At t.header 8).toNat+12))

def scanHighWatermarkFrom (crc : Crc32c) (log : Bytes) (startByte : Nat) (startHwm : Int) :
    ScanResult :=
  scanLoop crc (log.length+1) (log.drop startByte) startHwm startByte

variable {br : Bytes} {crc : Crc32c} {t : ScanTurn}

theorem readExact_some {n : Nat} {a b : Bytes} (h : readExact n br=some (a,b)) :
    br=a++b ∧ a.length=n := by
  unfold readExact at h
  split_ifs at h with hn
  obtain ⟨rfl,rfl⟩ := Prod.mk.inj (Option.some.inj h)
  exact ⟨(List.take_append_drop n br).symm,by simp [hn]⟩

theorem readExact_append {n : Nat} {a : Bytes} (b : Bytes) (h : a.length=n) :
    readExact n (a++b)=some (a,b) := by
  subst h
  simp [readExact]

theorem readExact_none (n : Nat) (br : Bytes) : readExact n br=none ↔ br.length<n := by
  unfold readExact
  split_ifs with h <;> simp <;> omega

structure TurnSpec (crc : Crc32c) (t : ScanTurn) : Prop where
  header : t.header.length=12
  bodyHead : t.bodyHead.length=16
  rest : (t.rest.length : Int)=i32At t.header 8-16
  digest : (crc.crc32c (t.bodyHead.drop 9++t.rest)).toNat=beNat (slice t.bodyHead 5 9)

theorem scanTurn_ok {br' : Bytes}
    (h : scanTurn crc br=.ok (t,br')) : br=t.batch++br' ∧ TurnSpec crc t := by
  unfold scanTurn at h
  split at h
  · cases h
  · rename_i header b1 h1
    split_ifs at h with hl
    split at h
    · cases h
    · rename_i bodyHead b2 h2
      split at h
      · cases h
      · rename_i rest b3 h3
        split_ifs at h with hd
        obtain ⟨rfl,rfl⟩ := Prod.mk.inj (Except.ok.inj h)
        obtain ⟨e1,l1⟩ := readExact_some h1
        obtain ⟨e2,l2⟩ := readExact_some h2
        obtain ⟨e3,l3⟩ := readExact_some h3
        refine ⟨by simp [ScanTurn.batch,e1,e2,e3],l1,l2,?_,?_⟩
        · simp only [l3]; omega
        · rw [← crc.append_digest]; exact hd

theorem scanTurn_of_spec (ht : TurnSpec crc t) (br : Bytes) :
    scanTurn crc (t.batch++br)=.ok (t,br) := by
  have hl : ¬i32At t.header 8<16 := by have := ht.rest; omega
  have hr : t.rest.length=(i32At t.header 8-16).toNat := by have := ht.rest; omega
  have hd := ht.digest
  rw [← crc.append_digest] at hd
  unfold scanTurn ScanTurn.batch
  rw [List.append_assoc,List.append_assoc,readExact_append _ ht.header]
  simp only [hl,if_false,readExact_append _ ht.bodyHead,
    readExact_append br hr,hd,if_true]

theorem TurnSpec.length (ht : TurnSpec crc t) :
    t.batch.length=(i32At t.header 8).toNat+12 ∧ 28≤t.batch.length := by
  have h1 := ht.header
  have h2 := ht.bodyHead
  have h3 := ht.rest
  simp only [ScanTurn.batch,List.length_append]
  omega

theorem TurnSpec.fields (ht : TurnSpec crc t) :
    batchLength t.batch=i32At t.header 8 ∧ crcField t.batch=beNat (slice t.bodyHead 5 9) ∧
    t.batch.drop 21=t.bodyHead.drop 9++t.rest ∧
    nextOffset t.batch=wrapI64 (i64At t.header 0+i32At t.bodyHead 11+1) := by
  have h1 := ht.header
  have h2 := ht.bodyHead
  have head (i j : Nat) (hj : j≤12) : slice t.batch i j=slice t.header i j := by
    rw [ScanTurn.batch,List.append_assoc,slice_append_left _ _ (by omega)]
  have body (i j : Nat) (hi : 12≤ i) (hj : j≤28) :
      slice t.batch i j=slice t.bodyHead (i-12) (j-12) := by
    rw [ScanTurn.batch,List.append_assoc,slice_append_right _ _ (by omega),h1,
      slice_append_left _ _ (by omega)]
  refine ⟨?_,?_,?_,?_⟩
  · rw [batchLength,i32At,head 8 (8+4) (by decide)]; rfl
  · rw [crcField,body 17 21 (by decide) (by decide)]
  · rw [ScanTurn.batch,List.append_assoc,List.drop_append,List.drop_eq_nil_of_le (by omega),
      List.nil_append,h1,List.drop_append_of_le_length (by omega)]
  · rw [nextOffset,baseOffset,i64At,head 0 (0+8) (by decide),lastOffsetDelta,i32At,
      body 23 (23+4) (by decide) (by decide)]
    rfl

theorem turnSpec_complete (ht : TurnSpec crc t) : CompleteBatch crc t.batch := by
  obtain ⟨hb,hc,hd,_⟩ := ht.fields
  obtain ⟨hl,h28⟩ := ht.length
  have hr := ht.rest
  refine ⟨h28,by rw [hb,hl]; omega,by rw [hd,hc]; exact ht.digest⟩

def turnOf (raw : Bytes) : ScanTurn := ⟨raw.take 12,(raw.drop 12).take 16,raw.drop 28⟩

theorem turnOf_batch (raw : Bytes) : (turnOf raw).batch=raw := by
  have h : raw.drop 28=(raw.drop 12).drop 16 := by rw [List.drop_drop]
  rw [turnOf,ScanTurn.batch,h,List.append_assoc,List.take_append_drop,List.take_append_drop]

theorem complete_turnSpec {raw : Bytes} (h : CompleteBatch crc raw) :
    TurnSpec crc (turnOf raw) := by
  have hl := h.long
  have hb : i32At (raw.take 12) 8=batchLength raw := by
    rw [batchLength,i32At,i32At,slice_take _ _ (by decide)]
  have hc : beNat (slice ((raw.drop 12).take 16) 5 9)=crcField raw := by
    have e : slice raw 17 21=slice ((raw.drop 12).take 16) 5 9 := by
      conv_lhs => rw [← turnOf_batch raw]
      rw [turnOf,ScanTurn.batch,List.append_assoc,slice_append_right _ _ (by simp),
        slice_append_left _ _ (by simp; omega)]
      congr 1 <;> simp <;> omega
    rw [crcField,e]
  have hd : ((raw.drop 12).take 16).drop 9++raw.drop 28=raw.drop 21 := by
    have e : raw.drop 28=(raw.drop 12).drop 16 := by rw [List.drop_drop]
    have e' : raw.drop 21=(raw.drop 12).drop 9 := by rw [List.drop_drop]
    rw [e,e']
    conv_rhs => rw [← List.take_append_drop 16 (raw.drop 12)]
    rw [List.drop_append_of_le_length (by simp; omega)]
  refine ⟨by simp [turnOf]; omega,by simp [turnOf]; omega,?_,?_⟩
  · simp only [turnOf,List.length_drop]
    rw [hb,h.sized]
    omega
  · simp only [turnOf]
    rw [hd,hc]
    exact h.checked

/-- The recovery scan's reading of a log as a sequence of frames. -/
def logFraming (crc : Crc32c) : Framing UInt8 ScanStop where
  next xs := match scanTurn crc xs with
    | .error e => .error e
    | .ok (t,br) => .ok (t.batch,br)
  sound := by
    intro xs f r h
    split at h
    · cases h
    · rename_i t br ht
      obtain ⟨rfl,rfl⟩ := Prod.mk.inj (Except.ok.inj h)
      obtain ⟨he,hs⟩ := scanTurn_ok ht
      have hl := hs.length.2
      exact ⟨he,fun e => by rw [e] at hl; simp at hl⟩
  stable := by
    intro xs f r h r'
    split at h
    · cases h
    · rename_i t br ht
      obtain ⟨rfl,rfl⟩ := Prod.mk.inj (Except.ok.inj h)
      rw [scanTurn_of_spec (scanTurn_ok ht).2]

theorem frame_iff_complete (crc : Crc32c) (raw : Bytes) :
    (logFraming crc).Frame raw ↔ CompleteBatch crc raw := by
  constructor
  · intro h
    simp only [Framing.Frame,logFraming] at h
    split at h
    · cases h
    · rename_i t br ht
      obtain ⟨he,-⟩ := Prod.mk.inj (Except.ok.inj h)
      rw [← he]
      exact turnSpec_complete (scanTurn_ok ht).2
  · intro h
    have ht := scanTurn_of_spec (complete_turnSpec h) []
    rw [turnOf_batch,List.append_nil] at ht
    simp only [Framing.Frame,logFraming,ht,turnOf_batch]

theorem next_eof_iff (crc : Crc32c) (xs : Bytes) :
    (logFraming crc).next xs=.error .eof ↔ xs.length<12 := by
  rw [← readExact_none]
  simp only [logFraming,scanTurn]
  cases h : readExact 12 xs with
  | none => simp
  | some p =>
    simp only [reduceCtorEq,iff_false]
    intro hh
    split at hh <;> rename_i hs <;> (split at hs <;> try cases hs) <;> try cases hh
    all_goals (split at hs <;> try cases hs)
    all_goals (split at hs <;> try cases hs)
    all_goals (split at hs <;> try cases hs)

def endOffset (hwm : Int) (fs : List Bytes) : Int := fs.foldl (fun _ f => nextOffset f) hwm

theorem endOffset_append (hwm : Int) (fs gs : List Bytes) :
    endOffset hwm (fs++gs)=endOffset (endOffset hwm fs) gs := by
  simp [endOffset]

@[simp] theorem endOffset_nil (hwm : Int) : endOffset hwm []=hwm := rfl

@[simp] theorem endOffset_concat (hwm : Int) (fs : List Bytes) (f : Bytes) :
    endOffset hwm (fs++[f])=nextOffset f := by
  simp [endOffset]

theorem scanLoop_splits (crc : Crc32c) {fs t stop}
    (h : (logFraming crc).Splits br fs t stop) (n : Nat) (hn : fs.length<n) (hwm : Int) (ve : Nat) :
    scanLoop crc n br hwm ve=⟨endOffset hwm fs,ve+fs.flatten.length,stop⟩ := by
  induction h generalizing n hwm ve with
  | stop xs e h =>
    cases n with
    | zero => simp at hn
    | succ n =>
      simp only [logFraming] at h
      split at h
      · rename_i e' he
        cases h
        simp [scanLoop,he]
      · cases h
  | more xs f r fs t e h _ ih =>
    cases n with
    | zero => simp at hn
    | succ n =>
      simp only [logFraming] at h
      split at h
      · cases h
      · rename_i u br hu
        obtain ⟨rfl,rfl⟩ := Prod.mk.inj (Except.ok.inj h)
        have hs := (scanTurn_ok hu).2
        simp only [scanLoop,hu]
        rw [ih n (by simpa using hn),← hs.fields.2.2.2,← hs.length.1]
        simp [endOffset,Nat.add_assoc]

theorem scan_splits (crc : Crc32c) (log : Bytes) (start : Nat) (hwm : Int) {fs t stop}
    (h : (logFraming crc).Splits (log.drop start) fs t stop) :
    scanHighWatermarkFrom crc log start hwm=⟨endOffset hwm fs,start+fs.flatten.length,stop⟩ := by
  have hl := h.length_le
  rw [List.length_drop] at hl
  exact scanLoop_splits crc h _ (by omega) hwm start

theorem scan_complete (crc : Crc32c) (fs : List Bytes) (hf : ∀f∈fs,CompleteBatch crc f) (hwm : Int) :
    scanHighWatermarkFrom crc fs.flatten 0 hwm=⟨endOffset hwm fs,fs.flatten.length,.eof⟩ := by
  have hn : (logFraming crc).next []=.error .eof := (next_eof_iff crc []).mpr (by decide)
  have hs := Framing.splits_of_frames fs (fun f h => (frame_iff_complete crc f).mpr (hf f h)) [] .eof hn
  rw [List.append_nil] at hs
  simpa using scan_splits crc fs.flatten 0 hwm (by simpa using hs)

theorem scan_resume (crc : Crc32c) (fs : List Bytes) (hf : ∀f∈fs,CompleteBatch crc f)
    (tail : Bytes) (hwm : Int) :
    scanHighWatermarkFrom crc (fs.flatten++tail) fs.flatten.length (endOffset hwm fs)=
      scanHighWatermarkFrom crc (fs.flatten++tail) 0 hwm := by
  obtain ⟨gs,t,stop,hs⟩ := Framing.splits_exists (F := logFraming crc) tail
  have hw := hs.append fs (fun f h => (frame_iff_complete crc f).mpr (hf f h))
  rw [scan_splits crc _ _ _ (by rw [List.drop_left]; exact hs),scan_splits crc _ 0 _ hw,
    endOffset_append]
  simp [List.flatten_append]

end Kaas
