import Kaas.Broker.Fetch
import Kaas.Storage.ReadSpec

namespace Kaas

def Served (cap : Int) (n : Nat) (bs : List Bytes) : Prop :=
  (∀b∈bs,lastOffset b<cap) ∧ bs.flatten.length≤n

/-- The first `k` batches of a row may be served, and no longer run of them. -/
structure LongestServed (cap : Int) (n : Nat) (bs : List Bytes) (k : Nat) : Prop where
  bounded : k≤bs.length
  served : Served cap n (bs.take k)
  longest : ∀j≤bs.length,Served cap n (bs.take j) → j≤k

/-- Of the batch behind the first `k` some bytes are there, but not the 27 the trim reads. -/
def CutInHeader (n : Nat) (bs : List Bytes) (k : Nat) : Prop :=
  k<bs.length ∧ (bs.take k).flatten.length<n ∧ n<(bs.take k).flatten.length+27

instance (n : Nat) (bs : List Bytes) (k : Nat) : Decidable (CutInHeader n bs k) :=
  inferInstanceAs (Decidable (_ ∧ _ ∧ _))

/-- What the trim leaves of the first `n` bytes of a row: whole batches below the cap, and all of a
piece that is shorter than a header. -/
def trimmed (cap : Int) : Nat → List Bytes → Bytes
  | _,[] => []
  | n,b::bs =>
    if n<27 then (b::bs).flatten.take n
    else if b.length≤n ∧ lastOffset b<cap then b++trimmed cap (n-b.length) bs
    else []

theorem trimToOffset_eq (bytes : Bytes) (cap : Int) :
    trimToOffset bytes cap=bytes.take ((trimLoop bytes cap (bytes.length+1) 0).getD bytes.length) := by
  unfold trimToOffset
  cases trimLoop bytes cap (bytes.length+1) 0 with
  | none => exact (List.take_length).symm
  | some pos => rfl

variable {b : Bytes} {n : Nat} {cap : Int} {bs : List Bytes}

theorem slice_header (pre : Bytes) (tail : Bytes) {i w : Nat} (hb : 27≤b.length) (hn : 27≤n) (hw : i+w≤27) :
    slice (pre++(b++tail).take n) (pre.length+i) (pre.length+i+w)=slice b i (i+w) := by
  have hhead : (b++tail).take n=b.take 27++((b++tail).take n).drop 27 := by
    conv_lhs => rw [← List.take_append_drop 27 ((b++tail).take n)]
    rw [List.take_take,Nat.min_eq_left hn,List.take_append_of_le_length hb]
  have hlen : (b.take 27).length=27 := by simp [hb]
  rw [slice_append_right _ _ (by omega),hhead,slice_append_left _ _ (by omega)]
  conv_rhs => rw [← List.take_append_drop 27 b,slice_append_left _ _ (by omega)]
  congr 1 <;> omega

/-- All the trim needs of a batch: its length field counts it, and the saturated last offset is on
the same side of the cap as the last offset. -/
structure Trimmable (cap : Int) (b : Bytes) : Prop where
  long : 27≤b.length
  sized : batchLength b=(b.length : Int)-12
  capped : cap≤ max (-2^63) (min (2^63-1) (lastOffset b)) ↔ cap≤lastOffset b

theorem CompleteBatch.trimmable {crc : Crc32c} (hb : CompleteBatch crc b)
    (hl : -2^63≤lastOffset b ∧ lastOffset b<2^63) (cap : Int) : Trimmable cap b :=
  ⟨by have := hb.long; omega,hb.sized,by omega⟩

theorem WellFormed.trimmable {crc : Crc32c} (hb : WellFormed crc b)
    (hcap : cap<2^63) : Trimmable cap b := by
  have hbase := (i64At_range b 0).1
  have hcount := hb.counted
  have hlast : -2^63≤lastOffset b := by
    unfold lastOffset baseOffset
    omega
  exact ⟨by have := hb.long; omega,hb.sized,by omega⟩

theorem trimLoop_turn (hb : Trimmable cap b) (pre rest : Bytes) (n m : Nat) (hn : 27≤n) :
    trimLoop (pre++(b++rest).take n) cap (m+1) pre.length=
      if cap≤lastOffset b then some pre.length
      else if (pre++(b++rest).take n).length<pre.length+b.length then some pre.length
      else trimLoop (pre++(b++rest).take n) cap m (pre.length+b.length) := by
  have hlong := hb.long
  have hsized := hb.sized
  have hlen : (pre++(b++rest).take n).length=pre.length+min n (b.length+rest.length) := by simp
  have hfield (i w : Nat) (hw : i+w≤27) := slice_header pre rest hlong hn hw
  have hbase : i64At (pre++(b++rest).take n) pre.length=baseOffset b := by
    rw [i64At,baseOffset,i64At,← hfield 0 8 (by omega)]
    rfl
  have hdelta : i32At (pre++(b++rest).take n) (pre.length+23)=lastOffsetDelta b := by
    rw [i32At,lastOffsetDelta,i32At,← hfield 23 4 (by omega)]
  have hsize : i32At (pre++(b++rest).take n) (pre.length+8)=batchLength b := by
    rw [i32At,batchLength,i32At,← hfield 8 4 (by omega)]
  have hcap : cap≤ max (-2^63) (min (2^63-1) (baseOffset b+lastOffsetDelta b)) ↔ cap≤lastOffset b := hb.capped
  have htotal : 12+(batchLength b).toNat=b.length := by omega
  rw [trimLoop,if_pos (by rw [hlen]; omega),hbase,hdelta,hsize,htotal]
  simp only [hcap]

theorem trimLoop_trimmed (cap : Int) (bs : List Bytes) (hc : ∀b∈bs,Trimmable cap b) (pre : Bytes)
    (n m : Nat) (hm : (bs.flatten.take n).length< m) :
    (pre++bs.flatten.take n).take
        ((trimLoop (pre++bs.flatten.take n) cap m pre.length).getD (pre++bs.flatten.take n).length)=
      pre++trimmed cap n bs := by
  induction bs generalizing pre n m with
  | nil =>
    obtain ⟨m,rfl⟩ : ∃m',m=m'+1 := ⟨m-1,by omega⟩
    simp [trimLoop,trimmed]
  | cons b bs ih =>
    obtain ⟨m,rfl⟩ : ∃m',m=m'+1 := ⟨m-1,by omega⟩
    have hb := hc b (List.mem_cons_self ..)
    have hlong := hb.long
    have hlen : (pre++(b::bs).flatten.take n).length=pre.length+min n (b.length+bs.flatten.length) := by simp
    rw [trimmed]
    by_cases hn : n<27
    · have hshort : ¬pre.length+27≤(pre++(b::bs).flatten.take n).length := by rw [hlen]; omega
      rw [if_pos hn,trimLoop,if_neg hshort,Option.getD_none,List.take_length]
    · have hstep := trimLoop_turn hb pre bs.flatten n m (by omega)
      rw [← List.flatten_cons] at hstep
      rw [if_neg hn,hstep]
      by_cases hcap : cap≤lastOffset b
      · rw [if_pos hcap,if_neg (by omega)]
        simp
      · rw [if_neg hcap]
        by_cases hcut : n<b.length
        · rw [if_pos (by rw [hlen]; omega),if_neg (by omega)]
          simp
        · rw [if_neg (by rw [hlen]; omega),if_pos (by omega)]
          have hsplit : pre++(b::bs).flatten.take n=pre++b++bs.flatten.take (n-b.length) := by
            rw [List.flatten_cons,List.take_append,List.take_of_length_le (by omega),List.append_assoc]
          have hpos : pre.length+b.length=(pre++b).length := List.length_append.symm
          have hm' : (bs.flatten.take (n-b.length)).length< m := by
            rw [List.length_take,List.flatten_cons,List.length_append] at hm
            rw [List.length_take]
            omega
          rw [hsplit,hpos,ih (fun c hcm => hc c (List.mem_cons_of_mem b hcm)) (pre++b) (n-b.length) m hm',
            List.append_assoc]

theorem trimToOffset_row (hc : ∀b∈bs,Trimmable cap b) (n : Nat) :
    trimToOffset (bs.flatten.take n) cap=trimmed cap n bs := by
  have h := trimLoop_trimmed cap bs hc [] n ((bs.flatten.take n).length+1) (by omega)
  simp only [List.nil_append,List.length_nil] at h
  rw [trimToOffset_eq,h]

theorem Served.cons_iff (cap : Int) (n : Nat) (b : Bytes) (bs : List Bytes) :
    Served cap n (b::bs) ↔ (b.length≤n ∧ lastOffset b<cap) ∧ Served cap (n-b.length) bs := by
  simp only [Served,List.mem_cons,forall_eq_or_imp,List.flatten_cons,List.length_append]
  constructor
  · rintro ⟨⟨hb,hbs⟩,hl⟩
    exact ⟨⟨by omega,hb⟩,hbs,by omega⟩
  · rintro ⟨⟨hl,hb⟩,hbs,hr⟩
    exact ⟨⟨hb,hbs⟩,by omega⟩

theorem longestServed_cons {k : Nat}
    (hb : b.length≤n ∧ lastOffset b<cap) (h : LongestServed cap (n-b.length) bs k) :
    LongestServed cap n (b::bs) (k+1) := by
  refine ⟨by simpa using h.bounded,?_,fun j hj hs => ?_⟩
  · rw [List.take_succ_cons,Served.cons_iff]
    exact ⟨hb,h.served⟩
  · cases j with
    | zero => omega
    | succ j =>
      rw [List.take_succ_cons,Served.cons_iff] at hs
      have := h.longest j (by simpa using hj) hs.2
      omega

theorem longestServed_zero
    (hb : ¬(b.length≤n ∧ lastOffset b<cap)) : LongestServed cap n (b::bs) 0 := by
  refine ⟨by omega,⟨by simp,by simp⟩,fun j _ hs => ?_⟩
  cases j with
  | zero => exact le_refl 0
  | succ j =>
    rw [List.take_succ_cons,Served.cons_iff] at hs
    exact absurd hs.1 hb

theorem trimmed_longest (cap : Int) (hl : ∀b∈bs,27≤b.length) (n : Nat) :
    ∃k piece,LongestServed cap n bs k ∧ trimmed cap n bs=(bs.take k).flatten++piece ∧
      piece.length<27 ∧ (piece=[] ↔ ¬CutInHeader n bs k) := by
  induction bs generalizing n with
  | nil => exact ⟨0,[],⟨le_refl 0,⟨by simp,by simp⟩,fun j hj _ => by simpa using hj⟩,rfl,by simp,by simp [CutInHeader]⟩
  | cons b bs ih =>
    have hb := hl b (List.mem_cons_self ..)
    rw [trimmed]
    by_cases hn : n<27
    · have hlen : ((b::bs).flatten.take n).length=n := by simp; omega
      refine ⟨0,(b::bs).flatten.take n,longestServed_zero (by omega),by rw [if_pos hn]; simp,by omega,?_⟩
      rw [← List.length_eq_zero_iff,hlen]
      simp only [CutInHeader,List.take_zero,List.flatten_nil,List.length_nil,List.length_cons]
      omega
    · rw [if_neg hn]
      by_cases hs : b.length≤n ∧ lastOffset b<cap
      · obtain ⟨k,piece,hk,he,hp,hiff⟩ := ih (fun c hc => hl c (List.mem_cons_of_mem b hc)) (n-b.length)
        refine ⟨k+1,piece,longestServed_cons hs hk,by rw [if_pos hs,he]; simp,hp,hiff.trans (not_congr ?_)⟩
        simp only [CutInHeader,List.take_succ_cons,List.flatten_cons,List.length_append,List.length_cons]
        omega
      · refine ⟨0,[],longestServed_zero hs,by rw [if_neg hs]; rfl,by simp,?_⟩
        simp only [CutInHeader,List.take_zero,List.flatten_nil,List.length_nil,true_iff]
        omega

theorem trimmed_take (cap : Int) (bs : List Bytes) (n : Nat) :
    trimmed cap n bs=bs.flatten.take (trimmed cap n bs).length := by
  induction bs generalizing n with
  | nil => simp [trimmed]
  | cons b bs ih =>
    rw [trimmed]
    split_ifs with hn hs
    · rw [List.length_take,List.take_eq_take_iff]
      simp
    · rw [List.length_append,List.flatten_cons,List.take_length_add_append,← ih]
    · simp

theorem trimmed_trimmed (a c : Int) (hl : ∀b∈bs,27≤b.length) (n : Nat) :
    trimmed c (trimmed a n bs).length bs=trimmed (min a c) n bs := by
  induction bs generalizing n with
  | nil => rfl
  | cons b bs ih =>
    have hb := hl b (List.mem_cons_self ..)
    have hrest := ih (fun x hx => hl x (List.mem_cons_of_mem b hx)) (n-b.length)
    by_cases hn : n<27
    · have hlen : ((b::bs).flatten.take n).length=n := by simp; omega
      simp only [trimmed,if_pos hn,hlen]
    · by_cases hs : b.length≤n ∧ lastOffset b<a
      · have hlen : (b++trimmed a (n-b.length) bs).length=b.length+(trimmed a (n-b.length) bs).length :=
          List.length_append
        simp only [trimmed,if_neg hn,if_pos hs,hlen]
        rw [if_neg (by omega),Nat.add_sub_cancel_left,hrest]
        by_cases hc : lastOffset b<c
        · rw [if_pos (by omega),if_pos (by omega)]
        · rw [if_neg (by omega),if_neg (by omega)]
      · simp only [trimmed,if_neg hn,if_neg hs,List.length_nil,
          if_neg (c := b.length≤n ∧ lastOffset b< min a c) (by omega)]
        simp

theorem trimToOffset_longest_iff (crc : Crc32c) (bs : List Bytes) (hw : ∀b∈bs,WellFormed crc b)
    (n : Nat) : (∀cap<2^63,∃k,LongestServed cap n bs k ∧
      (trimToOffset (bs.flatten.take n) cap=(bs.take k).flatten ↔ ¬CutInHeader n bs k)) ∧
    (∀cap<2^63,trimToOffset (trimToOffset (bs.flatten.take n) cap) cap=trimToOffset (bs.flatten.take n) cap) ∧
    (∀a<2^63,∀c<2^63,trimToOffset (trimToOffset (bs.flatten.take n) a) c=
      trimToOffset (bs.flatten.take n) (min a c)) := by
  have hl : ∀b∈bs,27≤b.length := fun b hb => by have := (hw b hb).long; omega
  have hrow (cap : Int) (hcap : cap<2^63) (n : Nat) : trimToOffset (bs.flatten.take n) cap=trimmed cap n bs :=
    trimToOffset_row (fun b hb => (hw b hb).trimmable hcap) n
  have htwice (a c : Int) (ha : a<2^63) (hc : c<2^63) : trimToOffset
      (trimToOffset (bs.flatten.take n) a) c= trimToOffset (bs.flatten.take n) (min a c) := by
    rw [hrow a ha,trimmed_take,hrow c hc,trimmed_trimmed a c hl,hrow (min a c) (by omega)]
  refine ⟨fun cap hcap => ?_,fun cap hcap => ?_,fun a ha c hc => htwice a c ha hc⟩
  · obtain ⟨k,piece,hk,he,_,hiff⟩ := trimmed_longest cap hl n
    refine ⟨k,hk,?_⟩
    rw [hrow cap hcap,he,List.append_right_eq_self]
    exact hiff
  · rw [htwice cap cap hcap hcap,min_self]

/-- The second batch has its first ten bytes there, and they are returned with the first. -/
theorem trimToOffset_header_piece : (∀b∈[plainBatch,plainBatch],WellFormed castagnoli b) ∧
    LongestServed 1 71 [plainBatch,plainBatch] 1 ∧
    trimToOffset ([plainBatch,plainBatch].flatten.take 71) 1=plainBatch++plainBatch.take 10 ∧
    trimToOffset ([plainBatch,plainBatch].flatten.take 71) 1≠plainBatch := by
  refine ⟨by decide +kernel,⟨by decide,⟨by decide +kernel,by decide +kernel⟩,?_⟩,by decide +kernel,by decide +kernel⟩
  intro j hj hs
  by_contra hlt
  have htwo : j=2 := by
    simp only [List.length_cons,List.length_nil] at hj
    omega
  have hlen : ([plainBatch,plainBatch].take 2).flatten.length=122 := by decide +kernel
  rw [htwo] at hs
  have := hs.2
  omega

theorem trimToOffset_longest_two : (∀b∈[plainBatch,plainBatch],WellFormed castagnoli b) ∧
    ∃k,LongestServed 1 100 [plainBatch,plainBatch] k ∧
      (trimToOffset ([plainBatch,plainBatch].flatten.take 100) 1=([plainBatch,plainBatch].take k).flatten ↔
        ¬CutInHeader 100 [plainBatch,plainBatch] k) := by
  have hw : ∀b∈[plainBatch,plainBatch],WellFormed castagnoli b := by decide +kernel
  exact ⟨hw,(trimToOffset_longest_iff castagnoli _ hw 100).1 1 (by decide)⟩

end Kaas
