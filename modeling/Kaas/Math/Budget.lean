import Mathlib.Data.List.TakeDrop

namespace Kaas

variable {α : Type}

/-- Items in order as long as the budget is not used up; the one that reaches it is taken whole. -/
def fill (budget : Nat) : List (List α) → List α → List α
  | [],out => out
  | b::bs,out => if out.length<budget then fill budget bs (out++b) else out

/-- The budget ends between two items, or behind them all. -/
def Aligned (budget : Nat) (bs : List (List α)) : Prop :=
  bs=[] ∨ 0<budget ∧ (bs.flatten.length≤budget ∨ ∃k,(bs.take k).flatten.length=budget)

theorem fill_full {budget : Nat} (bs : List (List α)) {out : List α} (h : budget≤out.length) :
    fill budget bs out=out := by
  cases bs with
  | nil => rfl
  | cons b bs => exact if_neg (by omega)

theorem fill_append (budget : Nat) (as bs : List (List α)) (out : List α) :
    fill budget (as++bs) out=fill budget bs (fill budget as out) := by
  induction as generalizing out with
  | nil => rfl
  | cons a as ih =>
    by_cases h : out.length<budget
    · simp only [List.cons_append,fill,if_pos h]
      exact ih _
    · rw [fill_full _ (by omega),fill_full (a::as) (by omega),fill_full _ (by omega)]

theorem fill_behind (budget : Nat) (bs : List (List α)) (pre out : List α) (h : pre.length≤budget) :
    fill budget bs (pre++out)=pre++fill (budget-pre.length) bs out := by
  induction bs generalizing out with
  | nil => rfl
  | cons b bs ih =>
    by_cases hlt : out.length<budget-pre.length
    · have hlt' : (pre++out).length<budget := by rw [List.length_append]; omega
      simp only [fill,if_pos hlt,if_pos hlt']
      rw [List.append_assoc]
      exact ih _
    · have hlt' : ¬(pre++out).length<budget := by rw [List.length_append]; omega
      simp only [fill,if_neg hlt,if_neg hlt']

theorem fill_take (budget : Nat) (bs : List (List α)) (out : List α) :
    (fill budget bs out).take budget=(out++bs.flatten).take budget := by
  induction bs generalizing out with
  | nil => rw [List.flatten_nil,List.append_nil,fill]
  | cons b bs ih =>
    by_cases h : out.length<budget
    · rw [fill,if_pos h,ih,List.flatten_cons,List.append_assoc]
    · rw [fill_full _ (by omega),List.take_append_of_le_length (by omega)]

theorem fill_length_le_iff (budget : Nat) (bs : List (List α)) (out : List α)
    (h : out.length<budget) : (fill budget bs out).length≤budget ↔
      out.length+bs.flatten.length≤budget ∨ ∃k,out.length+(bs.take k).flatten.length=budget := by
  induction bs generalizing out with
  | nil =>
    simp only [fill,List.flatten_nil,List.length_nil]
    exact ⟨fun _ => Or.inl (by omega),fun _ => by omega⟩
  | cons b bs ih =>
    have hlen : (out++b).length=out.length+b.length := List.length_append
    have htotal : (b::bs).flatten.length=b.length+bs.flatten.length := by simp
    have htake (k : Nat) : ((b::bs).take (k+1)).flatten.length=b.length+(bs.take k).flatten.length := by simp
    simp only [fill,if_pos h]
    by_cases hlt : (out++b).length<budget
    · rw [ih _ hlt,htotal,hlen]
      constructor
      · rintro (hfit|⟨k,hk⟩)
        · exact Or.inl (by omega)
        · exact Or.inr ⟨k+1,by rw [htake]; omega⟩
      · rintro (hfit|⟨k,hk⟩)
        · exact Or.inl (by omega)
        · cases k with
          | zero =>
            simp only [List.take_zero,List.flatten_nil,List.length_nil] at hk
            omega
          | succ k => exact Or.inr ⟨k,by rw [htake] at hk; omega⟩
    · rw [fill_full _ (by omega),htotal,hlen]
      constructor
      · intro hle
        refine Or.inr ⟨1,?_⟩
        rw [htake]
        simp only [List.take_zero,List.flatten_nil,List.length_nil]
        omega
      · rintro (hfit|⟨k,hk⟩)
        · omega
        · cases k with
          | zero =>
            simp only [List.take_zero,List.flatten_nil,List.length_nil] at hk
            omega
          | succ k => rw [htake] at hk; omega

/-- Nothing is cut exactly where the budget is aligned. -/
theorem fill_take_iff {budget : Nat} (bs : List (List α)) (h : 0<budget) :
    (fill budget bs []).take budget=fill budget bs [] ↔ Aligned budget bs := by
  rw [List.take_eq_self_iff,fill_length_le_iff budget bs [] h]
  simp only [List.length_nil,Nat.zero_add,Aligned]
  constructor
  · exact fun hfit => Or.inr ⟨h,hfit⟩
  · rintro (rfl|⟨_,hfit⟩)
    · exact Or.inl (by simp)
    · exact hfit

end Kaas
