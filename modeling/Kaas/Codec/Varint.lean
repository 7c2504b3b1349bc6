import Kaas.Broker.MarkerBytes

namespace Kaas

/-! `read_uvarint` and `write_uvarint` over all of u64, and the zigzag code as the bit operations it
is. -/

def groupSum : Bytes → Nat
  | [] => 0
  | b::bs => b.toNat%128+128*groupSum bs

def zigzagDecodeBits (u : BitVec 64) : Int := ((u>>>1)^^^(-(u&&&1#64))).toInt

def zigzagEncodeBits (n : BitVec 64) : BitVec 64 := (n<<<1)^^^(n.sshiftRight 63)

section Loop

variable {k shift x v : Nat}

theorem or_group (hx : x<2^shift) (hv : v*2^shift<2^64) : x|||(v<<<shift)%2^64=x+v*2^shift := by
  rw [Nat.shiftLeft_eq,Nat.mod_eq_of_lt hv,Nat.or_comm,mul_comm v,← Nat.two_pow_add_eq_or_of_lt hx,add_comm]

theorem group_room {b g shift : Nat} (hx : x<2^shift) (hb : b<128) (hv : (b+128*g)*2^shift<2^64) :
    b*2^shift<2^64 ∧ x+b*2^shift<2^(shift+7) ∧ g*2^(shift+7)<2^64 ∧
      x+b*2^shift+g*2^(shift+7)=x+(b+128*g)*2^shift := by
  have hpow : 2^(shift+7)=128*2^shift := by rw [pow_add]; ring
  have hle : b*2^shift≤127*2^shift := Nat.mul_le_mul_right _ (by omega)
  have hsum : (b+128*g)*2^shift=b*2^shift+g*(128*2^shift) := by ring
  rw [hsum] at hv
  rw [hpow,hsum]
  refine ⟨by omega,by omega,by omega,by ring⟩

theorem readUvarintLoop_write (rest : Bytes) (hshift : shift+7*k=63) (hx : x<2^shift) (hv : v*2^shift<2^64) :
    readUvarintLoop (k+1) shift x (writeUvarintLoop k v++rest)=.ok (x+v*2^shift,rest) := by
  induction k generalizing shift x v with
  | zero =>
    obtain rfl : shift=63 := by omega
    have hsmall : v<2 := by omega
    have hb : (UInt8.ofNat (v%128)).toNat=v := by
      rw [UInt8.toNat_ofNat']
      omega
    rw [writeUvarintLoop,List.singleton_append,readUvarintLoop,hb,if_pos (by omega),
      if_neg (by omega),or_group hx hv]
  | succ k ih =>
    rw [writeUvarintLoop]
    split_ifs with hmore
    · have hb : (UInt8.ofNat (v%128+128)).toNat=v%128+128 := by
        rw [UInt8.toNat_ofNat']
        omega
      have hlow : (v%128+128)%128=v%128 := by omega
      have hdiv : v%128+128*(v/128)=v := Nat.mod_add_div v 128
      rw [← hdiv] at hv
      obtain ⟨h1,h2,h3,h4⟩ := group_room hx (Nat.mod_lt v (by decide)) hv
      rw [List.cons_append,readUvarintLoop,hb,if_neg (by omega),hlow,or_group hx h1,ih (by omega) h2 h3,h4,hdiv]
    · have hb : (UInt8.ofNat (v%128)).toNat=v := by
        rw [UInt8.toNat_ofNat']
        omega
      rw [List.singleton_append,readUvarintLoop,hb,if_pos (by omega),if_neg (by omega),or_group hx hv]

theorem readUvarintLoop_sum {bytes behind : Bytes} {w : Nat} (hshift : shift+7*k=63)
    (hx : x<2^shift) (h : readUvarintLoop (k+1) shift x bytes=.ok (w,behind)) :
    ∃taken,bytes=taken++behind ∧ taken.length≤k+1 ∧ w=x+groupSum taken*2^shift ∧ w<2^64 := by
  induction k generalizing shift x bytes with
  | zero =>
    obtain rfl : shift=63 := by omega
    cases bytes with
    | nil => cases h
    | cons b bytes =>
      rw [readUvarintLoop] at h
      split_ifs at h with hlast hbig
      · have hb : b.toNat*2^63<2^64 := by omega
        rw [or_group hx hb] at h
        cases h
        have hmod : b.toNat%128=b.toNat := Nat.mod_eq_of_lt hlast
        exact ⟨[b],rfl,le_refl _,by rw [groupSum,groupSum,hmod]; ring,by omega⟩
      · cases h
  | succ k ih =>
    have hroom : 128*2^shift≤2^63 := by
      calc 128*2^shift=2^(shift+7) := by rw [pow_add]; ring
        _≤2^63 := Nat.pow_le_pow_right (by decide) (by omega)
    cases bytes with
    | nil => cases h
    | cons b bytes =>
      have hgroup : b.toNat%128*2^shift≤127*2^shift := Nat.mul_le_mul_right _ (by omega)
      rw [readUvarintLoop] at h
      split_ifs at h with hlast
      · have hmod : b.toNat%128=b.toNat := Nat.mod_eq_of_lt hlast
        rw [hmod] at hgroup
        rw [or_group hx (by omega)] at h
        cases h
        exact ⟨[b],rfl,by simp,by rw [groupSum,groupSum,hmod]; ring,by omega⟩
      · rw [or_group hx (by omega)] at h
        have hx' : x+b.toNat%128*2^shift<2^(shift+7) := by
          rw [pow_add]
          omega
        obtain ⟨taken,rfl,hlen,hw,hlt⟩ := ih (by omega) hx' h
        refine ⟨b::taken,rfl,by simpa using hlen,?_,hlt⟩
        rw [hw,groupSum,pow_add]
        ring

end Loop

theorem zigzagDecode_encode {n : Int} (hlow : -2^63≤n) (hhigh : n<2^63) : zigzagDecode (zigzagEncode n)=n := by
  unfold zigzagEncode zigzagDecode
  split_ifs <;> omega

theorem zigzagEncode_lt (n : Int) : zigzagEncode n<2^64 := by
  unfold zigzagEncode
  split_ifs <;> exact Nat.mod_lt _ (by decide)

theorem zigzagDecode_bits (u : BitVec 64) : zigzagDecode u.toNat=zigzagDecodeBits u := by
  have hu := u.isLt
  have hone : u&&&1#64=if u.toNat%2=0 then 0#64 else 1#64 := by
    apply BitVec.eq_of_toNat_eq
    rw [BitVec.toNat_and]
    change u.toNat&&&1=_
    rw [Nat.and_one_is_mod]
    split_ifs with h
    · exact h
    · change u.toNat%2=1
      omega
  have hhalf : (u>>>1).toNat=u.toNat/2 := by
    rw [BitVec.toNat_ushiftRight,Nat.shiftRight_eq_div_pow,pow_one]
  unfold zigzagDecode zigzagDecodeBits
  rw [hone]
  split_ifs with h
  · rw [BitVec.neg_zero,BitVec.xor_zero,BitVec.toInt_eq_toNat_cond,hhalf,if_pos (by omega)]
  · have hones : -1#64=BitVec.allOnes 64 := by decide
    rw [hones,BitVec.xor_allOnes,BitVec.toInt_eq_toNat_cond,BitVec.toNat_not,hhalf,if_neg (by omega)]
    omega

theorem zigzagEncode_bits (n : BitVec 64) : zigzagEncode n.toInt=(zigzagEncodeBits n).toNat := by
  have hn := n.isLt
  have hdouble : (n<<<1).toNat=2*n.toNat%2^64 := by
    rw [BitVec.toNat_shiftLeft,Nat.shiftLeft_eq,pow_one,mul_comm]
  unfold zigzagEncode zigzagEncodeBits
  rw [BitVec.toInt_eq_toNat_cond]
  by_cases h : 2*n.toNat<2^64
  · have hsign : n.sshiftRight 63=0#64 := by
      rw [BitVec.sshiftRight_eq_of_msb_false (BitVec.msb_eq_false_iff_two_mul_lt.mpr h)]
      apply BitVec.eq_of_toNat_eq
      rw [BitVec.toNat_ushiftRight,Nat.shiftRight_eq_div_pow]
      exact Nat.div_eq_of_lt (by omega)
    rw [hsign,BitVec.xor_zero,hdouble,if_pos h,if_pos (by omega)]
    omega
  · have hsign : n.sshiftRight 63=BitVec.allOnes 64 := by
      rw [BitVec.sshiftRight_eq_of_msb_true (BitVec.msb_eq_true_iff_two_mul_ge.mpr (by omega))]
      apply BitVec.eq_of_toNat_eq
      rw [BitVec.toNat_not,BitVec.toNat_ushiftRight,BitVec.toNat_not,Nat.shiftRight_eq_div_pow,
        BitVec.toNat_allOnes]
      omega
    rw [hsign,BitVec.xor_allOnes,BitVec.toNat_not,hdouble,if_neg h,if_neg (by omega)]
    omega

theorem readUvarint_write {v : Nat} (hv : v<2^64) (rest : Bytes) :
    readUvarint (writeUvarint v++rest)=.ok (v,rest) := by
  have h := readUvarintLoop_write (k := 9) rest rfl (show 0<2^0 by decide) (show v*2^0<2^64 by omega)
  rw [pow_zero,mul_one,zero_add] at h
  exact h

/-- Written and read back, every u64 and every i64 are the same with the rest behind them; and
whatever is accepted is the sum of the at most ten groups that were read. -/
theorem uvarint_exact (v n : BitVec 64) (rest : Bytes) :
    readUvarint (writeUvarint v.toNat++rest)=.ok (v.toNat,rest) ∧
    readVarint (writeVarint n.toInt++rest)=.ok (n.toInt,rest) ∧
    zigzagEncode n.toInt=(zigzagEncodeBits n).toNat ∧ zigzagDecode v.toNat=zigzagDecodeBits v ∧
    ∀bytes behind w,readUvarint bytes=.ok (w,behind) →
      ∃taken,bytes=taken++behind ∧ taken.length≤10 ∧ w=groupSum taken ∧ w<2^64 := by
  refine ⟨readUvarint_write v.isLt rest,?_,zigzagEncode_bits n,zigzagDecode_bits v,fun bytes behind w h => ?_⟩
  · rw [readVarint,writeVarint,readUvarint_write (zigzagEncode_lt _)]
    change Except.ok (zigzagDecode _,rest)=_
    rw [zigzagDecode_encode (BitVec.le_toInt n) (BitVec.toInt_lt)]
  · obtain ⟨taken,hb,hlen,hw,hlt⟩ := readUvarintLoop_sum (k := 9) rfl (by decide) h
    exact ⟨taken,hb,hlen,by rw [hw]; ring,hlt⟩

theorem uvarint_exact_largest : readUvarint (writeUvarint (2^64-1)++[5])=.ok (2^64-1,[5]) ∧
      ∃taken,[0xac,0x82,0x00,7]=taken++[7] ∧ taken.length≤10 ∧ 300=groupSum taken ∧ 300<2^64 := by
  obtain ⟨hmax,-,-,-,haccepted⟩ := uvarint_exact (BitVec.allOnes 64) 0 [5]
  exact ⟨hmax,haccepted [0xac,0x82,0x00,7] [7] 300 (by decide +kernel)⟩

end Kaas
