import Kaas.Framework.Wire
import Kaas.Codec.Varint

namespace Kaas.Codec

/-! The wire primitives of the message codecs, in their legacy and their flexible forms. -/

inductive CodecError
  | unexpectedEof
  | invalidUtf8
  | invalidLength (got : Nat) (max : Nat)
  | invalidUvarint
  | unexpectedNull
  | lengthOverflow
  deriving DecidableEq, Repr

abbrev Read (α : Type) : Type := Decoder CodecError α

abbrev Wire : Type := Encoding CodecError

abbrev I8 := BitVec 8

abbrev I16 := BitVec 16

abbrev I32 := BitVec 32

abbrev I64 := BitVec 64

def readInt (k w : Nat) : Read (BitVec w) := do
  let b ← Decoder.take .unexpectedEof k
  return BitVec.ofNat w (beNat b)

def writeInt (k : Nat) {w : Nat} (v : BitVec w) : Wire := .bytes (beBytes k v.toNat)

def readI8 : Read I8 := readInt 1 8

def readI16 : Read I16 := readInt 2 16

def readI32 : Read I32 := readInt 4 32

def readI64 : Read I64 := readInt 8 64

def writeI8 (v : I8) : Wire := writeInt 1 v

def writeI16 (v : I16) : Wire := writeInt 2 v

def writeI32 (v : I32) : Wire := writeInt 4 v

def writeI64 (v : I64) : Wire := writeInt 8 v

def readBool : Read Bool := do
  let v ← readI8
  return v≠0

def writeBool (v : Bool) : Wire := writeI8 (if v then 1 else 0)

def readUvarint : Read Nat := fun raw =>
  match Kaas.readUvarint raw with
  | .ok x => .ok x
  | .error .unexpectedEof => .error .unexpectedEof
  | .error .invalidUvarint => .error .invalidUvarint

def readLen (k w : Nat) : Read (Option Nat) := do
  let raw ← readInt k w
  return if raw.toInt<0 then none else some raw.toNat

def writeLen (k w n : Nat) : Wire := if n<2^(w-1) then writeInt k (BitVec.ofNat w n) else .fail .lengthOverflow

def readCompactLen : Read (Option Nat) := do
  let u ← readUvarint
  return if u=0 then none else some (u-1)

def writeCompactLen (n : Nat) : Wire := if n+1<2^64 then .bytes (writeUvarint (n+1)) else .fail .lengthOverflow

def readNullable {α : Type} (len : Read (Option Nat)) (body : Nat → Read α) : Read (Option α) := do
  match ← len with
  | none => return none
  | some n => do
    let a ← body n
    return some a

def unwrapNull {α : Type} (d : Read (Option α)) : Read α := do
  match ← d with
  | some a => return a
  | none => Decoder.fail .unexpectedNull

/-- The bytes behind a compact length, which is checked against what is left. -/
def takeCompact (n : Nat) : Read Bytes := do
  let max ← Decoder.remaining
  if max<n then Decoder.fail (.invalidLength (min n (2^63-1)) max) else Decoder.take .unexpectedEof n

def textOf (d : Read Bytes) : Read String := do
  let b ← d
  match String.fromUTF8? ⟨b.toArray⟩ with
  | some s => return s
  | none => Decoder.fail .invalidUtf8

def utf8 (s : String) : Bytes := s.toUTF8.data.toList

section Forms

variable (flexible : Bool)

def readNullableStr : Read (Option String) :=
  if flexible then readNullable readCompactLen fun n => textOf (takeCompact n)
  else readNullable (readLen 2 16) fun n => textOf (Decoder.take .unexpectedEof n)

def readStr : Read String := unwrapNull (readNullableStr flexible)

def writeStr (s : String) : Wire :=
  .all [if flexible then writeCompactLen (utf8 s).length else writeLen 2 16 (utf8 s).length,.bytes (utf8 s)]

def writeNullableStr : Option String → Wire
  | none => if flexible then .bytes (writeUvarint 0) else writeI16 (-1)
  | some s => writeStr flexible s

def readNullableBytes : Read (Option Bytes) :=
  if flexible then readNullable readCompactLen takeCompact
  else readNullable (readLen 4 32) fun n => Decoder.take .unexpectedEof n

def writeNullableBytes : Option Bytes → Wire
  | none => if flexible then .bytes (writeUvarint 0) else writeI32 (-1)
  | some b => .all [if flexible then writeCompactLen b.length else writeLen 4 32 b.length,.bytes b]

def readNullableArrayLen : Read (Option Nat) := if flexible then readCompactLen else readLen 4 32

/-- A null array counts as an empty one. -/
def readArrayLen : Read Nat := do
  let n ← readNullableArrayLen flexible
  return n.getD 0

def writeArrayLen (n : Nat) : Wire := if flexible then writeCompactLen n else writeLen 4 32 n

def readArray {α : Type} (d : Read α) : Read (List α) := do
  let n ← readArrayLen flexible
  Decoder.times n d

def writeArray {α : Type} (f : α → Wire) (l : List α) : Wire := .all [writeArrayLen flexible l.length,.each f l]

def readNullableArray {α : Type} (d : Read α) : Read (Option (List α)) :=
  readNullable (readNullableArrayLen flexible) fun n => Decoder.times n d

def writeNullableArray {α : Type} (f : α → Wire) : Option (List α) → Wire
  | none => if flexible then .bytes (writeUvarint 0) else writeI32 (-1)
  | some l => writeArray flexible f l

def readTagged : Read Unit := do
  let n ← readUvarint
  let _ ← Decoder.times n do
    let _ ← readUvarint
    let size ← readUvarint
    Decoder.take .unexpectedEof size
  return ()

def readTags : Read Unit := Decoder.gated flexible readTagged ()

def writeTags : Wire := .gated flexible (.bytes (writeUvarint 0))

def Fits (w n : Nat) : Prop := if flexible then n+1<2^64 else n<2^(w-1)

instance decidableFits (w n : Nat) : Decidable (Fits flexible w n) :=
  inferInstanceAs (Decidable (if flexible then n+1<2^64 else n<2^(w-1)))

def FitsStr (s : String) : Prop := Fits flexible 16 (utf8 s).length

instance decidableFitsStr (s : String) : Decidable (FitsStr flexible s) := decidableFits flexible 16 _

def FitsArray {α : Type} (P : α → Prop) (l : List α) : Prop := Fits flexible 32 l.length ∧ ∀x∈l,P x

end Forms

section RoundTrips

variable {flexible : Bool} {α β : Type}

theorem writes_int {k w : Nat} (hk : 2^w=256^k) (v : BitVec w) : Writes (writeInt k v) (readInt k w) v := by
  have hval : BitVec.ofNat w (beNat (beBytes k v.toNat))=v := by
    rw [beNat_beBytes,← hk,Nat.mod_eq_of_lt v.isLt,BitVec.ofNat_toNat,BitVec.setWidth_eq]
  have h := (Writes.take CodecError.unexpectedEof (beBytes k v.toNat)).made fun b => BitVec.ofNat w (beNat b)
  rw [beBytes_length,hval] at h
  exact h

theorem writes_i8 (v : I8) : Writes (writeI8 v) readI8 v := writes_int (by decide) v

theorem writes_i16 (v : I16) : Writes (writeI16 v) readI16 v := writes_int (by decide) v

theorem writes_i32 (v : I32) : Writes (writeI32 v) readI32 v := writes_int (by decide) v

theorem writes_i64 (v : I64) : Writes (writeI64 v) readI64 v := writes_int (by decide) v

theorem writes_bool (v : Bool) : Writes (writeBool v) readBool v := by
  have h := (writes_i8 (if v then 1 else 0)).made fun v => decide (v≠0)
  have hv : decide ((if v then (1 : I8) else 0)≠0)=v := by cases v <;> rfl
  rwa [hv] at h

theorem writes_uvarint {v : Nat} (hv : v<2^64) : Writes (.bytes (writeUvarint v)) readUvarint v := by
  refine .bytes fun rest => ?_
  rw [readUvarint,readUvarint_write hv]

theorem writes_len {k w n : Nat} (hk : 2^w=256^k) (hw : 0<w) (hn : n<2^(w-1)) :
    Writes (writeLen k w n) (readLen k w) (some n) := by
  have hpow : 2^w=2*2^(w-1) := by rw [← pow_succ',Nat.sub_add_cancel hw]
  have hnat : (BitVec.ofNat w n).toNat=n := by
    rw [BitVec.toNat_ofNat]
    exact Nat.mod_eq_of_lt (by omega)
  have hint : (BitVec.ofNat w n).toInt=n := by rw [BitVec.toInt_eq_toNat_of_lt (by omega),hnat]
  have h := (writes_int hk (BitVec.ofNat w n)).made fun raw => if raw.toInt<0 then none else some raw.toNat
  rw [hint,hnat,if_neg (by omega)] at h
  rw [writeLen,if_pos hn]
  exact h

theorem writes_compactLen {n : Nat} (hn : n+1<2^64) : Writes (writeCompactLen n) readCompactLen (some n) := by
  have h := (writes_uvarint hn).made fun u => if u=0 then none else some (u-1)
  rw [if_neg (Nat.succ_ne_zero n),Nat.add_sub_cancel] at h
  rw [writeCompactLen,if_pos hn]
  exact h

theorem writes_compactNull : Writes (.bytes (writeUvarint 0)) readCompactLen none :=
  (writes_uvarint (v := 0) (by decide)).made fun u => if u=0 then none else some (u-1)

theorem writes_null {k w : Nat} (hk : 2^w=256^k) (hneg : (-1 : BitVec w).toInt<0) :
    Writes (writeInt k (-1 : BitVec w)) (readLen k w) none := by
  have h := (writes_int hk (-1 : BitVec w)).made fun raw => if raw.toInt<0 then none else some raw.toNat
  rwa [if_pos hneg] at h

theorem writes_nullable_none {w : Wire} {len : Read (Option Nat)} (h : Writes w len none)
    (body : Nat → Read α) : Writes w (readNullable len body) none := h.silent fun _ => rfl

theorem writes_nullable_some {w w' : Wire} {len : Read (Option Nat)} {body : Nat → Read α} {n : Nat}
    {a : α} (h : Writes w len (some n)) (hbody : Writes w' (body n) a) :
    Writes (.all [w,w']) (readNullable len body) (some a) := h.step (hbody.last some)

theorem writes_unwrapNull {w : Wire} {d : Read (Option α)} {a : α} (h : Writes w d (some a)) :
    Writes w (unwrapNull d) a :=
  h.silent fun _ => rfl

theorem writes_takeCompact (b : Bytes) : Writes (.bytes b) (takeCompact b.length) b := by
  obtain ⟨x,hx,hread⟩ := Writes.take CodecError.unexpectedEof b
  obtain rfl := Except.ok.inj hx
  refine .bytes fun rest => ?_
  have hlen : ¬(b++rest).length<b.length := by
    rw [List.length_append]
    omega
  have hcheck : takeCompact b.length (b++rest)=(if (b++rest).length<b.length
      then Decoder.fail (.invalidLength (min b.length (2^63-1)) (b++rest).length)
      else Decoder.take .unexpectedEof b.length : Read Bytes) (b++rest) := rfl
  rw [hcheck,if_neg hlen]
  exact hread rest

theorem writes_text {s : String} {d : Read Bytes} (h : Writes (.bytes (utf8 s)) d (utf8 s)) :
    Writes (.bytes (utf8 s)) (textOf d) s := by
  have htext : String.fromUTF8? ⟨(utf8 s).toArray⟩=some s := by
    have hdata : (⟨(utf8 s).toArray⟩ : ByteArray)=s.toUTF8 := rfl
    rw [hdata,String.fromUTF8?,String.toUTF8_eq_toByteArray,dif_pos s.isValidUTF8]
    rfl
  refine h.silent fun rest => ?_
  rw [htext]
  rfl

theorem writes_someStr {s : String} (h : FitsStr flexible s) :
    Writes (writeStr flexible s) (readNullableStr flexible) (some s) := by
  unfold writeStr readNullableStr
  cases flexible with
  | true => exact writes_nullable_some (writes_compactLen h) (writes_text (writes_takeCompact _))
  | false => exact writes_nullable_some (writes_len (by decide) (by decide) h) (writes_text (.take _ _))

theorem writes_str {s : String} (h : FitsStr flexible s) : Writes (writeStr flexible s) (readStr flexible) s :=
  writes_unwrapNull (writes_someStr h)

theorem writes_nullableStr {s : Option String} (h : ∀x∈s,FitsStr flexible x) :
    Writes (writeNullableStr flexible s) (readNullableStr flexible) s := by
  cases s with
  | some s => exact writes_someStr (h s rfl)
  | none =>
    unfold writeNullableStr readNullableStr
    cases flexible with
    | true => exact writes_nullable_none writes_compactNull _
    | false => exact writes_nullable_none (writes_null (by decide) (by decide)) _

theorem writes_nullableBytes {b : Option Bytes} (h : ∀x∈b,Fits flexible 32 x.length) :
    Writes (writeNullableBytes flexible b) (readNullableBytes flexible) b := by
  unfold writeNullableBytes readNullableBytes
  cases b with
  | some b =>
    have hb := h b rfl
    cases flexible with
    | true => exact writes_nullable_some (writes_compactLen hb) (writes_takeCompact b)
    | false => exact writes_nullable_some (writes_len (by decide) (by decide) hb) (.take _ b)
  | none =>
    cases flexible with
    | true => exact writes_nullable_none writes_compactNull _
    | false => exact writes_nullable_none (writes_null (by decide) (by decide)) _

theorem writes_someArrayLen {n : Nat} (h : Fits flexible 32 n) :
    Writes (writeArrayLen flexible n) (readNullableArrayLen flexible) (some n) := by
  unfold writeArrayLen readNullableArrayLen
  cases flexible with
  | true => exact writes_compactLen h
  | false => exact writes_len (by decide) (by decide) h

theorem writes_arrayLen {n : Nat} (h : Fits flexible 32 n) :
    Writes (writeArrayLen flexible n) (readArrayLen flexible) n :=
  (writes_someArrayLen h).silent fun _ => rfl

theorem writes_array {γ : Type} {f : γ → Wire} {d : Read α} {g : γ → α} {P : γ → Prop} {l : List γ}
    (h : FitsArray flexible P l) (hf : ∀x,P x → Writes (f x) d (g x)) :
    Writes (writeArray flexible f l) (readArray flexible d) (l.map g) := by
  have hall := Writes.times fun x hx => hf x (h.2 x hx)
  exact (writes_arrayLen h.1).step hall.one

theorem writes_list {f : α → Wire} {d : Read α} {P : α → Prop} {l : List α} (h : FitsArray flexible P l)
    (hf : ∀x,P x → Writes (f x) d x) : Writes (writeArray flexible f l) (readArray flexible d) l := by
  have hall := writes_array (g := fun x => x) h hf
  rwa [List.map_id'] at hall

theorem writes_ints {l : List I32} (h : Fits flexible 32 l.length) :
    Writes (writeArray flexible writeI32 l) (readArray flexible readI32) l :=
  writes_list (P := fun _ => True) ⟨h,fun _ _ => trivial⟩ fun x _ => writes_i32 x

theorem writes_nullArray : Writes (if flexible then .bytes (writeUvarint 0) else writeI32 (-1))
    (readNullableArrayLen flexible) none := by
  unfold readNullableArrayLen
  cases flexible with
  | true => exact writes_compactNull
  | false => exact writes_null (by decide) (by decide)

theorem writes_someArray {w : Wire} {f : α → Wire} {d : Read α} {l : List α}
    (hlen : Writes w (readNullableArrayLen flexible) (some l.length)) (hf : ∀x∈l,Writes (f x) d x) :
    Writes (.all [w,.each f l]) (readNullableArray flexible d) (some l) := by
  have hall := Writes.times (g := fun x => x) hf
  rw [List.map_id'] at hall
  exact writes_nullable_some hlen hall

theorem writes_nullableArray {f : α → Wire} {d : Read α} {P : α → Prop} {l : Option (List α)}
    (h : ∀x∈l,FitsArray flexible P x) (hf : ∀x,P x → Writes (f x) d x) :
    Writes (writeNullableArray flexible f l) (readNullableArray flexible d) l := by
  cases l with
  | none => exact writes_nullable_none writes_nullArray _
  | some l => exact writes_someArray (writes_someArrayLen (h l rfl).1) fun x hx => hf x ((h l rfl).2 x hx)

theorem writes_tags : Writes (writeTags flexible) (readTags flexible) () := by
  have h : Writes (.bytes (writeUvarint 0)) readTagged () :=
    (writes_uvarint (v := 0) (by decide)).silent fun _ => rfl
  exact h.gated

end RoundTrips

end Kaas.Codec
