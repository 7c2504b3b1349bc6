import Mathlib.Order.Basic
import Mathlib.Algebra.Order.Ring.Int

namespace Kaas

/-- The ranges follow each other from `lo` to `hi` without a gap. -/
def Contiguous : Int → List (Int × Int) → Int → Prop
  | lo,[],hi => lo=hi
  | lo,r::rs,hi => r.1=lo ∧ Contiguous r.2 rs hi

instance Contiguous.decidable : (lo : Int) → (rs : List (Int × Int)) → (hi : Int) →
    Decidable (Contiguous lo rs hi)
  | lo,[],hi => inferInstanceAs (Decidable (lo=hi))
  | lo,r::rs,hi => @instDecidableAnd (r.1=lo) _ _ (Contiguous.decidable r.2 rs hi)

variable {hi lo : Int} {rs : List (Int × Int)}

theorem Contiguous.concat {mid : Int} (h : Contiguous lo rs mid) (hi : Int) :
    Contiguous lo (rs++[(mid,hi)]) hi := by
  induction rs generalizing lo with
  | nil =>
    simp only [Contiguous] at h
    simp [Contiguous,h]
  | cons r rs ih => exact ⟨h.1,ih h.2⟩

theorem contiguous_append {qs : List (Int × Int)} :
    Contiguous lo (rs++qs) hi ↔ ∃mid,Contiguous lo rs mid ∧ Contiguous mid qs hi := by
  induction rs generalizing lo with
  | nil => simp [Contiguous]
  | cons r rs ih => simp [Contiguous,ih,and_assoc]

theorem Contiguous.bounds (h : Contiguous lo rs hi)
    (hn : ∀r∈rs,r.1<r.2) : lo≤hi ∧ ∀r∈rs,lo≤ r.1 ∧ r.2≤hi := by
  induction rs generalizing lo with
  | nil => exact ⟨le_of_eq h,by simp⟩
  | cons r rs ih =>
    obtain ⟨hle,hall⟩ := ih h.2 (fun q hq => hn q (by simp [hq]))
    have hr := hn r (by simp)
    have h1 := h.1
    refine ⟨by omega,?_⟩
    intro q hq
    rcases List.mem_cons.mp hq with rfl|hq
    · exact ⟨le_of_eq h1.symm,hle⟩
    · have hb := hall q hq
      exact ⟨by omega,hb.2⟩

theorem Contiguous.getLast (h : Contiguous lo rs hi) (r : Int × Int)
    (hr : rs.getLast?=some r) : r.2=hi := by
  induction rs generalizing lo with
  | nil => simp at hr
  | cons q rs ih =>
    cases rs with
    | nil =>
      rw [List.getLast?_singleton] at hr
      cases hr
      exact h.2
    | cons q' rs => exact ih h.2 (by simpa using hr)

theorem Contiguous.disjoint (h : Contiguous lo rs hi)
    (hn : ∀r∈rs,r.1<r.2) : rs.Pairwise (fun a b => a.2≤b.1) := by
  induction rs generalizing lo with
  | nil => exact List.Pairwise.nil
  | cons r rs ih =>
    have hn' : ∀q∈rs,q.1<q.2 := fun q hq => hn q (by simp [hq])
    exact List.pairwise_cons.mpr ⟨fun q hq => ((h.2.bounds hn').2 q hq).1,ih h.2 hn'⟩

end Kaas
