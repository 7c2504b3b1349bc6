import Mathlib.Data.List.Sort

namespace Kaas

variable {α κ : Type} [DecidableEq κ] (key : α → κ)

def dedupFrom (a : α) : List α → List α
  | [] => [a]
  | b::l => if key b=key a then dedupFrom a l else a::dedupFrom b l

/-- Of neighbours with one key only the first stays. -/
def dedupByKey : List α → List α
  | [] => []
  | a::l => dedupFrom key a l

variable {key}

theorem mem_of_mem_dedupFrom {x : α} (l : List α) (a : α) (h : x∈dedupFrom key a l) : x=a ∨ x∈l := by
  induction l generalizing a with
  | nil => simpa [dedupFrom] using h
  | cons b l ih =>
    simp only [dedupFrom] at h
    split_ifs at h with hk
    · rcases ih a h with rfl|hx
      · exact Or.inl rfl
      · exact Or.inr (by simp [hx])
    · rcases List.mem_cons.mp h with rfl|hx
      · exact Or.inl rfl
      · rcases ih b hx with rfl|hy
        · exact Or.inr (by simp)
        · exact Or.inr (by simp [hy])

theorem mem_of_mem_dedupByKey {x : α} {l : List α} (h : x∈dedupByKey key l) : x∈l := by
  cases l with
  | nil => simp [dedupByKey] at h
  | cons a l => simpa using mem_of_mem_dedupFrom l a h

theorem dedupFrom_head (key : α → κ) (l : List α) (a : α) : ∃t,dedupFrom key a l=a::t := by
  induction l generalizing a with
  | nil => exact ⟨[],rfl⟩
  | cons b l ih =>
    simp only [dedupFrom]
    split_ifs
    · exact ih a
    · exact ⟨_,rfl⟩

theorem key_mem_dedupFrom (l : List α) (a : α) : ∀y∈a::l,∃x∈dedupFrom key a l,key x=key y := by
  induction l generalizing a with
  | nil => simp [dedupFrom]
  | cons b l ih =>
    intro y hy
    simp only [dedupFrom]
    split_ifs with hk
    · rcases List.mem_cons.mp hy with rfl|hy
      · exact ih y y (by simp)
      · rcases List.mem_cons.mp hy with rfl|hy
        · obtain ⟨x,hx,he⟩ := ih a a (by simp)
          exact ⟨x,hx,by rw [he,hk]⟩
        · exact ih a y (by simp [hy])
    · rcases List.mem_cons.mp hy with rfl|hy
      · exact ⟨y,by simp,rfl⟩
      · obtain ⟨x,hx,he⟩ := ih b y hy
        exact ⟨x,by simp [hx],he⟩

theorem key_mem_dedupByKey (key : α → κ) {l : List α} {y : α} (h : y∈l) : ∃x∈dedupByKey key l,key x=key y := by
  cases l with
  | nil => simp at h
  | cons a l => exact key_mem_dedupFrom l a y h

section Sorted

variable [LinearOrder κ] {r : α → α → Prop}

theorem dedupFrom_sorted (hk : ∀a b,r a b → key a≤key b) (l : List α) (a : α)
    (h : (a::l).Pairwise r) : (dedupFrom key a l).Pairwise (fun x y => key x<key y) := by
  induction l generalizing a with
  | nil => simp [dedupFrom]
  | cons b l ih =>
    obtain ⟨ha,hl⟩ := List.pairwise_cons.mp h
    simp only [dedupFrom]
    split_ifs with he
    · exact ih a (List.pairwise_cons.mpr
        ⟨fun x hx => ha x (by simp [hx]),(List.pairwise_cons.mp hl).2⟩)
    · refine List.pairwise_cons.mpr ⟨?_,ih b hl⟩
      have hab : key a<key b := lt_of_le_of_ne (hk a b (ha b (by simp))) (fun e => he e.symm)
      intro x hx
      rcases mem_of_mem_dedupFrom l b hx with rfl|hx
      · exact hab
      · exact lt_of_lt_of_le hab (hk b x ((List.pairwise_cons.mp hl).1 x hx))

theorem dedupByKey_sorted (hk : ∀a b,r a b → key a≤key b) {l : List α} (h : l.Pairwise r) :
    (dedupByKey key l).Pairwise (fun x y => key x<key y) := by
  cases l with
  | nil => simp [dedupByKey]
  | cons a l => exact dedupFrom_sorted hk l a h

theorem dedupFrom_above (hk : ∀a b,r a b → key a≤key b) (l : List α) (a : α)
    (h : (a::l).Pairwise r) (x : α) (hx : x∈dedupFrom key a l) : x=a ∨ key a<key x := by
  have hs := dedupFrom_sorted hk l a h
  obtain ⟨t,ht⟩ := dedupFrom_head key l a
  rw [ht] at hs hx
  rcases List.mem_cons.mp hx with rfl|hx
  · exact Or.inl rfl
  · exact Or.inr ((List.pairwise_cons.mp hs).1 x hx)

theorem dedupFrom_least (hr : ∀a,r a a) (hk : ∀a b,r a b → key a≤key b) (l : List α) (a : α)
    (h : (a::l).Pairwise r) : ∀x∈dedupFrom key a l,∀y∈a::l,key y=key x → r x y := by
  induction l generalizing a with
  | nil => simp [dedupFrom,hr]
  | cons b l ih =>
    obtain ⟨ha,hl⟩ := List.pairwise_cons.mp h
    intro x hx y hy hxy
    simp only [dedupFrom] at hx
    split_ifs at hx with he
    · have hal : (a::l).Pairwise r := List.pairwise_cons.mpr
        ⟨fun z hz => ha z (by simp [hz]),(List.pairwise_cons.mp hl).2⟩
      by_cases hyb : y=b
      · rcases dedupFrom_above hk l a hal x hx with rfl|hlt
        · exact ha y (by simp [hyb])
        · rw [← hxy,hyb,he] at hlt
          exact absurd hlt (lt_irrefl _)
      · exact ih a hal x hx y (by simpa [hyb] using hy) hxy
    · rcases List.mem_cons.mp hx with hxa|hxl
      · rcases List.mem_cons.mp hy with hya|hyl
        · rw [hxa,hya]; exact hr a
        · rw [hxa]; exact ha y hyl
      · rcases List.mem_cons.mp hy with hya|hyl
        · have hab : key a<key b := lt_of_le_of_ne (hk a b (ha b (by simp))) (fun e => he e.symm)
          rw [hya] at hxy
          rcases dedupFrom_above hk l b hl x hxl with hxb|hlt
          · rw [hxb] at hxy; exact absurd hxy (ne_of_lt hab)
          · exact absurd hxy (ne_of_lt (lt_trans hab hlt))
        · exact ih b hl x hxl y hyl hxy

/-- In a sorted list the item that stays is the least of its key. -/
theorem dedupByKey_least (hr : ∀a,r a a) (hk : ∀a b,r a b → key a≤key b) (l : List α)
    (h : l.Pairwise r) (x : α) (hx : x∈dedupByKey key l) (y : α) (hy : y∈l) (he : key y=key x) :
    r x y := by
  cases l with
  | nil => simp at hy
  | cons a l => exact dedupFrom_least hr hk l a h x hx y hy he

omit [DecidableEq κ] in
theorem eq_getLast_or_lt {l : List α} (hl : l.Pairwise (fun x y => key x<key y)) (hne : l≠[])
    {x : α} (hx : x∈l) : x=l.getLast hne ∨ key x<key (l.getLast hne) := by
  have hs := hl
  rw [← List.dropLast_append_getLast hne] at hs hx
  rcases List.mem_append.mp hx with hx|hx
  · exact Or.inr ((List.pairwise_append.mp hs).2.2 x hx _ (by simp))
  · exact Or.inl (List.mem_singleton.mp hx)

end Sorted

end Kaas
