import Mathlib.Algebra.Order.Ring.Nat
import Mathlib.Tactic.Ring
import Mathlib.Tactic.Linarith

namespace Kaas

abbrev Bytes := List UInt8

/-- The number that bytes stand for, the highest first. -/
def beNat (bs : Bytes) : Nat := bs.foldl (fun acc b => acc*256+b.toNat) 0

def beBytes : Nat → Nat → Bytes
  | 0,_ => []
  | k+1,n => UInt8.ofNat (n/256^k)::beBytes k n

/-- The number of `w` bits as a signed one. -/
def toSigned (w n : Nat) : Int := if 2*n<2^w then (n : Int) else (n : Int)-2^w

/-- An `i64` after wrapping arithmetic. -/
def wrapI64 (x : Int) : Int := (x+2^63)%2^64-2^63

def wrapI32 (x : Int) : Int := (x+2^31)%2^32-2^31

def subU64 (a b : Nat) : Nat := (a+2^64-b)%2^64

def slice (raw : Bytes) (i j : Nat) : Bytes := (raw.drop i).take (j-i)

@[simp] theorem beBytes_length (k n : Nat) : (beBytes k n).length=k := by
  induction k with
  | zero => rfl
  | succ k ih => simp [beBytes,ih]

theorem foldl_beNat (bs : Bytes) (acc : Nat) :
    bs.foldl (fun acc b => acc*256+b.toNat) acc=acc*256^bs.length+beNat bs := by
  induction bs generalizing acc with
  | nil => simp [beNat]
  | cons b bs ih =>
    have h0 := ih (0*256+b.toNat)
    have h1 := ih (acc*256+b.toNat)
    simp only [beNat,List.foldl_cons,List.length_cons] at h0 h1 ⊢
    rw [h0,h1,pow_succ]
    ring

theorem beNat_cons (b : UInt8) (bs : Bytes) : beNat (b::bs)=b.toNat*256^bs.length+beNat bs := by
  have h := foldl_beNat bs b.toNat
  simpa [beNat] using h

theorem beNat_lt (bs : Bytes) : beNat bs<256^bs.length := by
  induction bs with
  | nil => simp [beNat]
  | cons b bs ih =>
    have hb : b.toNat<256 := b.toNat_lt
    rw [beNat_cons,List.length_cons,pow_succ]
    nlinarith

/-- Writing `k` bytes keeps a number up to `256^k`. -/
theorem beNat_beBytes (k n : Nat) : beNat (beBytes k n)=n%256^k := by
  induction k with
  | zero => simp [beBytes,beNat,Nat.mod_one]
  | succ k ih =>
    have hd : (UInt8.ofNat (n/256^k)).toNat=n/256^k%256 := by simp
    rw [beBytes,beNat_cons,hd,beBytes_length,ih,pow_succ,Nat.mod_mul]
    ring

theorem toSigned_range {w n : Nat} (hw : 0<w) (hn : n<2^w) :
    -(2^(w-1) : Int)≤toSigned w n ∧ toSigned w n<2^(w-1) := by
  obtain ⟨k,rfl⟩ : ∃k,w=k+1 := ⟨w-1,by omega⟩
  have hp : (2^(k+1) : Int)=2*2^k := by ring
  have hq : (2^(k+1) : Nat)=2*2^k := by ring
  have hc : ((2^k : Nat) : Int)=2^k := by push_cast; rfl
  simp only [toSigned,Nat.add_sub_cancel]
  rw [hp,hq,← hc]
  rw [hq] at hn
  split_ifs <;> omega

theorem wrapI64_of_range (x : Int) (hl : -2^63≤x) (hu : x<2^63) : wrapI64 x=x := by
  unfold wrapI64; omega

theorem wrapI64_range (x : Int) : -2^63≤wrapI64 x ∧ wrapI64 x<2^63 := by
  unfold wrapI64; omega

theorem toSigned_of_wrap (x : Int) : toSigned 64 (x%2^64).toNat=wrapI64 x := by
  unfold toSigned wrapI64
  split_ifs <;> omega

theorem slice_append_right {xs : Bytes} (ys : Bytes) {i : Nat} (j : Nat) (h : xs.length≤ i) :
    slice (xs++ys) i j=slice ys (i-xs.length) (j-xs.length) := by
  unfold slice
  rw [List.drop_append,List.drop_eq_nil_of_le h,List.nil_append]
  congr 1
  omega

theorem slice_append_left {xs : Bytes} (ys : Bytes) (i : Nat) {j : Nat} (hj : j≤xs.length) :
    slice (xs++ys) i j=slice xs i j := by
  unfold slice
  by_cases h : i≤xs.length
  · rw [List.drop_append_of_le_length h,List.take_append_of_le_length]
    simp only [List.length_drop]
    omega
  · have hz : j-i=0 := by omega
    simp [hz]

theorem slice_take (xs : Bytes) {n : Nat} (i : Nat) {j : Nat} (h : j≤n) :
    slice (xs.take n) i j=slice xs i j := by
  unfold slice
  rw [List.drop_take,List.take_take,Nat.min_eq_left (by omega)]

theorem slice_field (a b c : Bytes) (i j : Nat) (hi : a.length=i) (hj : i+b.length=j) :
    slice (a++(b++c)) i j=b := by
  rw [slice,← hi,List.drop_left,show j-a.length=b.length by omega]
  exact List.take_left

end Kaas
