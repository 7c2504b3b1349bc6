import Mathlib.Algebra.Order.BigOperators.Group.Finset
import Mathlib.Algebra.BigOperators.Group.Finset.Piecewise
import Mathlib.Tactic.Ring

namespace Kaas

variable {α β : Type}

/-! Choosing from a list. -/

/-- A scan from left to right that keeps the better one. -/
def pickBest (better : α → α → Bool) (l : List α) : Option α :=
  l.foldl (fun best x => match best with
    | none => some x
    | some y => if better x y then some x else some y) none

theorem pickBest_cons_cons (better : α → α → Bool) (x y : α) (l : List α) :
    pickBest better (y::x::l)=pickBest better ((if better x y then x else y)::l) := by
  unfold pickBest
  simp only [List.foldl_cons]
  split_ifs <;> rfl

theorem pickBest_some (better : α → α → Bool) (y : α) (l : List α) : ∃z∈y::l,pickBest better (y::l)=some z := by
  induction l generalizing y with
  | nil => exact ⟨y,List.mem_singleton.mpr rfl,rfl⟩
  | cons x l ih =>
    obtain ⟨z,hz,he⟩ := ih (if better x y then x else y)
    rw [pickBest_cons_cons]
    refine ⟨z,?_,he⟩
    rcases List.mem_cons.mp hz with rfl|hz
    · split_ifs <;> simp
    · exact List.mem_cons_of_mem _ (List.mem_cons_of_mem _ hz)

theorem pickBest_mem {better : α → α → Bool} {l : List α} {x : α} (h : pickBest better l=some x) : x∈l := by
  cases l with
  | nil => cases h
  | cons y l =>
    obtain ⟨z,hz,he⟩ := pickBest_some better y l
    obtain rfl : z=x := Option.some.inj (he.symm.trans h)
    exact hz

theorem pickBest_isSome (better : α → α → Bool) (l : List α) : (pickBest better l).isSome ↔ l≠[] := by
  cases l with
  | nil => simp [pickBest]
  | cons y l =>
    obtain ⟨z,_,hz⟩ := pickBest_some better y l
    simp [hz]

/-- If winning and losing respect an order, the pick is least in it. -/
theorem pickBest_least {better : α → α → Bool} {R : α → α → Prop} (refl : ∀x,R x x)
    (trans : ∀{x y z},R x y → R y z → R x z) (win : ∀{x y},better x y=true → R x y)
    (lose : ∀{x y},¬better x y=true → R y x) {l : List α} {z : α} (h : pickBest better l=some z) :
    ∀x∈l,R z x := by
  cases l with
  | nil => cases h
  | cons y l =>
    induction l generalizing y with
    | nil =>
      obtain rfl : y=z := Option.some.inj h
      exact List.forall_mem_singleton.mpr (refl y)
    | cons x l ih =>
      rw [pickBest_cons_cons] at h
      obtain ⟨hbest,hl⟩ := List.forall_mem_cons.mp (ih _ h)
      -- the better of the two heads is at least as good as either
      have heads : R z y ∧ R z x := by
        by_cases hb : better x y=true
        · rw [if_pos hb] at hbest
          exact ⟨trans hbest (win hb),hbest⟩
        · rw [if_neg hb] at hbest
          exact ⟨hbest,trans hbest (lose hb)⟩
      exact List.forall_mem_cons.mpr ⟨heads.1,List.forall_mem_cons.mpr ⟨heads.2,hl⟩⟩

def pickIndex (better : α → α → Bool) (p : α → Prop) [DecidablePred p] (l : List α) : Option Nat :=
  (pickBest (fun a b : α × Nat => better a.1 b.1) (l.zipIdx.filter fun x => p x.1)).map (·.2)

theorem pickIndex_some {better : α → α → Bool} {p : α → Prop} [DecidablePred p] {l : List α}
    {i : Nat} (h : pickIndex better p l=some i) : ∃x,l[i]?=some x ∧ p x := by
  obtain ⟨⟨x,j⟩,hbest,hj⟩ := Option.map_eq_some_iff.mp h
  cases hj
  obtain ⟨hmem,hp⟩ := List.mem_filter.mp (pickBest_mem hbest)
  exact ⟨x,List.mem_zipIdx_iff_getElem?.mp hmem,of_decide_eq_true hp⟩

theorem pickIndex_none {better : α → α → Bool} {p : α → Prop} [DecidablePred p] {l : List α} :
    pickIndex better p l=none ↔ ∀x∈l,¬p x := by
  rw [pickIndex,Option.map_eq_none_iff,← Option.not_isSome_iff_eq_none,pickBest_isSome,not_not,
    List.filter_eq_nil_iff]
  constructor
  · intro h x hx hp
    obtain ⟨i,hi⟩ := List.mem_iff_getElem?.mp hx
    exact h (x,i) (List.mem_zipIdx_iff_getElem?.mpr hi) (decide_eq_true hp)
  · intro h x hx hp
    exact h x.1 (List.mem_of_getElem? (List.mem_zipIdx_iff_getElem?.mp hx)) (of_decide_eq_true hp)

def extremes (f : β → Int) (first : β) (rest : List β) : β × β :=
  rest.foldl (fun p b => (if f p.1<f b then b else p.1,if f b<f p.2 then b else p.2)) (first,first)

/-- Both are taken from the list, and every load lies between theirs. -/
structure Extremes (f : β → Int) (l : List β) (p : β × β) : Prop where
  hi_mem : p.1∈l
  lo_mem : p.2∈l
  le_hi : ∀b∈l,f b≤f p.1
  lo_le : ∀b∈l,f p.2≤f b

theorem foldl_extremes (f : β → Int) (l rest : List β) (p : β × β) (h : Extremes f l p) :
    Extremes f (l++rest)
      (rest.foldl (fun p b => (if f p.1<f b then b else p.1,if f b<f p.2 then b else p.2)) p) := by
  induction rest generalizing l p with
  | nil =>
    rw [List.append_nil]
    exact h
  | cons x rest ih =>
    have hstep : Extremes f (l++[x]) (if f p.1<f x then x else p.1,if f x<f p.2 then x else p.2) := by
      refine ⟨?_,?_,fun b hb => ?_,fun b hb => ?_⟩
      · dsimp only
        split_ifs
        · exact List.mem_append_right _ (List.mem_singleton.mpr rfl)
        · exact List.mem_append_left _ h.hi_mem
      · dsimp only
        split_ifs
        · exact List.mem_append_right _ (List.mem_singleton.mpr rfl)
        · exact List.mem_append_left _ h.lo_mem
      · rcases List.mem_append.mp hb with hb|hb
        · have := h.le_hi b hb
          dsimp only
          split_ifs <;> omega
        · rw [List.mem_singleton.mp hb]
          dsimp only
          split_ifs <;> omega
      · rcases List.mem_append.mp hb with hb|hb
        · have := h.lo_le b hb
          dsimp only
          split_ifs <;> omega
        · rw [List.mem_singleton.mp hb]
          dsimp only
          split_ifs <;> omega
    have hrest := ih (l++[x]) _ hstep
    rw [List.append_assoc,List.singleton_append] at hrest
    exact hrest

theorem extremes_spec (f : β → Int) (first : β) (rest : List β) :
    Extremes f (first::rest) (extremes f first rest) := by
  have h0 : Extremes f [first] (first,first) := by
    refine ⟨List.mem_singleton.mpr rfl,List.mem_singleton.mpr rfl,fun b hb => ?_,fun b hb => ?_⟩ <;>
      rw [List.mem_singleton.mp hb]
  exact foldl_extremes f [first] rest _ h0

variable {f : β → Int} {S : Finset β} {source target : β}

/-- No two loads differ by more than one. -/
def Level (l : List β) (f : β → Int) : Prop := ∀a∈l,∀b∈l,f a-f b≤1

def excessAt (q c : Int) : Int := max (c-q-1) 0+max (q-c) 0

/-- How far the loads lie outside the two values a level load may have. -/
def excess (S : Finset β) (q : Int) (f : β → Int) : Int := S.sum fun b => excessAt q (f b)

theorem excess_nonneg (q : Int) : 0≤excess S q f := by
  refine Finset.sum_nonneg (fun b _ => ?_)
  unfold excessAt
  omega

def mean (S : Finset β) (f : β → Int) : Int := S.sum f/(S.card : Int)

theorem mean_between {hi lo : β} (hhi : hi∈S) (hlo : lo∈S) (le_hi : ∀b∈S,f b≤f hi)
    (lo_le : ∀b∈S,f lo≤f b) (gap : f lo+2≤f hi) :
    f lo≤ mean S f ∧ mean S f+1≤f hi := by
  unfold mean
  have hcard : (0 : Int)<S.card := by exact_mod_cast Finset.card_pos.mpr ⟨hi,hhi⟩
  constructor
  · rw [Int.le_ediv_iff_mul_le hcard]
    have h := Finset.card_nsmul_le_sum S f (f lo) lo_le
    rw [nsmul_eq_mul] at h
    rw [mul_comm]
    exact h
  · have hlt : S.sum f<(S.card : Int)*f hi := by
      have h := Finset.sum_lt_sum le_hi ⟨lo,hlo,by omega⟩
      rw [Finset.sum_const,nsmul_eq_mul] at h
      exact h
    have := (Int.ediv_lt_iff_lt_mul hcard).mpr (by rw [mul_comm]; exact hlt : S.sum f<f hi*S.card)
    omega

theorem excess_le (hf : ∀b∈S,0≤f b) : excess S (mean S f) f≤2*S.sum f := by
  have hsum : 0≤S.sum f := Finset.sum_nonneg hf
  obtain ⟨q,hq⟩ : ∃q,q=mean S f := ⟨_,rfl⟩
  have hq0 : 0≤q := by
    rw [hq,mean]
    exact Int.ediv_nonneg hsum (Int.natCast_nonneg _)
  have hmean : (S.card : Int)*q≤S.sum f := by
    rw [hq,mean]
    rcases Finset.eq_empty_or_nonempty S with rfl|hne
    · simp
    · have hcard : (0 : Int)<S.card := by exact_mod_cast Finset.card_pos.mpr hne
      have h := Int.emod_add_mul_ediv (S.sum f) S.card
      have hm := Int.emod_nonneg (S.sum f) hcard.ne'
      omega
  have hpoint : excess S q f≤S.sum fun b => f b+q := by
    refine Finset.sum_le_sum (fun b hb => ?_)
    have := hf b hb
    unfold excessAt
    omega
  rw [Finset.sum_add_distrib,Finset.sum_const,nsmul_eq_mul] at hpoint
  have hid : (S.sum fun b => f b)=S.sum f := rfl
  rw [hid] at hpoint
  rw [← hq]
  omega

theorem ne_of_gap (h : f target<f source) : source≠target := by
  rintro rfl
  exact lt_irrefl _ h

variable [DecidableEq β]

theorem sum_countP_le (S : Finset β) (p : α → Prop) [DecidablePred p] (g : α → β) (l : List α) :
    (S.sum fun b => (l.countP fun x => p x ∧ g x=b : Int))≤(l.countP p : Int) := by
  induction l with
  | nil => simp
  | cons x l ih =>
    have hx : (S.sum fun b => if p x ∧ g x=b then (1 : Int) else 0)≤ if p x then 1 else 0 := by
      by_cases hp : p x
      · simp only [hp,true_and,if_true,Finset.sum_ite_eq]
        split_ifs <;> omega
      · simp [hp]
    simp only [List.countP_cons,decide_eq_true_eq,Nat.cast_add,Nat.cast_ite,Nat.cast_one,
      Nat.cast_zero,Finset.sum_add_distrib]
    omega

theorem countP_modify (p : α → Bool) (change : α → α) (l : List α) (i : Nat) (x : α) (h : l[i]?=some x) :
    (l.modify i change).countP p+(if p x then 1 else 0)=l.countP p+(if p (change x) then 1 else 0) := by
  induction l generalizing i with
  | nil => cases h
  | cons y l ih =>
    cases i with
    | zero =>
      cases h
      simp only [List.modify_zero_cons,List.countP_cons]
      omega
    | succ i =>
      have := ih i h
      simp only [List.modify_succ_cons,List.countP_cons]
      omega

def transfer (f : β → Int) (source target : β) : β → Int :=
  fun b => f b-(if b=source then 1 else 0)+(if b=target then 1 else 0)

theorem sum_transfer (g : Int → Int) (hs : source∈S) (ht : target∈S) (hne : source≠target) :
    (S.sum fun b => g (transfer f source target b))+(g (f source)+g (f target))=
      (S.sum fun b => g (f b))+(g (f source-1)+g (f target+1)) := by
  have ht' : target∈S.erase source := Finset.mem_erase.mpr ⟨hne.symm,ht⟩
  have hsource : transfer f source target source=f source-1 := by simp [transfer,hne]
  have htarget : transfer f source target target=f target+1 := by simp [transfer,hne.symm]
  have hrest : ((S.erase source).erase target).sum (fun b => g (transfer f source target b))=
      ((S.erase source).erase target).sum (fun b => g (f b)) := by
    refine Finset.sum_congr rfl (fun b hb => ?_)
    obtain ⟨hbt,hb⟩ := Finset.mem_erase.mp hb
    obtain ⟨hbs,_⟩ := Finset.mem_erase.mp hb
    simp [transfer,hbt,hbs]
  rw [← Finset.add_sum_erase S (fun b => g (transfer f source target b)) hs,
    ← Finset.add_sum_erase S (fun b => g (f b)) hs,
    ← Finset.add_sum_erase (S.erase source) (fun b => g (transfer f source target b)) ht',
    ← Finset.add_sum_erase (S.erase source) (fun b => g (f b)) ht',hrest,hsource,htarget]
  ring

theorem sum_transfer_eq (hs : source∈S) (ht : target∈S) (hne : source≠target) :
    S.sum (transfer f source target)=S.sum f := by
  have h := sum_transfer (f := f) (fun x => x) hs ht hne
  have h1 : (S.sum fun b => transfer f source target b)=S.sum (transfer f source target) := rfl
  have h2 : (S.sum fun b => f b)=S.sum f := rfl
  rw [h1,h2] at h
  omega

theorem excess_transfer_le (q : Int) (hs : source∈S) (ht : target∈S) (down : f target<f source) :
    excess S q (transfer f source target)≤excess S q f := by
  have h := sum_transfer (f := f) (excessAt q) hs ht (ne_of_gap down)
  have hends : excessAt q (f source-1)+excessAt q (f target+1)≤
      excessAt q (f source)+excessAt q (f target) := by
    unfold excessAt
    omega
  unfold excess
  omega

/-- A unit moved over a gap of two or more across the mean lowers the excess. -/
theorem excess_transfer_lt {q : Int} (hs : source∈S) (ht : target∈S) (gap : f target+2≤f source)
    (low : f target≤q) (high : q+1≤f source) :
    excess S q (transfer f source target)+1≤excess S q f := by
  have h := sum_transfer (f := f) (excessAt q) hs ht (ne_of_gap (by omega : f target<f source))
  have hends : excessAt q (f source-1)+excessAt q (f target+1)+1≤
      excessAt q (f source)+excessAt q (f target) := by
    unfold excessAt
    omega
  unfold excess
  omega

end Kaas
