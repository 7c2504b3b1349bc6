import Mathlib.Data.List.Basic

namespace Kaas

/-- A decoder that takes one self-delimiting frame off the front of an input, or says why none is
there, from the frame's own bytes only. -/
structure Framing (α ε : Type) where
  next : List α → Except ε (List α × List α)
  sound : ∀{xs f r},next xs=.ok (f,r) → xs=f++r ∧ f≠[]
  stable : ∀{xs f r},next xs=.ok (f,r) → ∀r',next (f++r')=.ok (f,r')

namespace Framing

variable {α ε : Type} (F : Framing α ε)

def Frame (f : List α) : Prop := F.next f=.ok (f,[])

/-- The maximal run of frames at the front of an input, what is left, and the reason. -/
inductive Splits : List α → List (List α) → List α → ε → Prop
  | stop (xs : List α) (e : ε) : F.next xs=.error e → Splits xs [] xs e
  | more (xs f r : List α) (fs : List (List α)) (t : List α) (e : ε) :
      F.next xs=.ok (f,r) → Splits r fs t e → Splits xs (f::fs) t e

def frames : Nat → List α → List (List α)
  | 0,_ => []
  | n+1,xs => match F.next xs with
    | .error _ => []
    | .ok (f,r) => f::frames n r

def decode (xs : List α) : List (List α) := F.frames xs.length xs

variable {F}

theorem frame_of_next {xs f r : List α} (h : F.next xs=.ok (f,r)) : F.Frame f := by
  have hs := F.stable h []
  simpa [Frame] using hs

theorem Frame.next {f : List α} (hf : F.Frame f) (r : List α) : F.next (f++r)=.ok (f,r) :=
  F.stable hf r

theorem next_nil : ∃e,F.next []=.error e := by
  cases h : F.next [] with
  | error e => exact ⟨e,rfl⟩
  | ok p =>
    have hs := F.sound (f := p.1) (r := p.2) h
    exact absurd (List.append_eq_nil_iff.mp hs.1.symm).1 hs.2

theorem next_length {xs f r : List α} (h : F.next xs=.ok (f,r)) : r.length<xs.length := by
  obtain ⟨he,hf⟩ := F.sound h
  have hp := List.length_pos_iff.mpr hf
  rw [he,List.length_append]
  omega

/-- Every input splits. -/
theorem splits_exists (xs : List α) : ∃fs t e,F.Splits xs fs t e := by
  induction hn : xs.length using Nat.strongRecOn generalizing xs with
  | ind n ih =>
    cases h : F.next xs with
    | error e => exact ⟨[],xs,e,.stop xs e h⟩
    | ok p =>
      obtain ⟨fs,t,e,hs⟩ := ih p.2.length (by have := next_length h; omega) p.2 rfl
      exact ⟨p.1::fs,t,e,.more xs p.1 p.2 fs t e h hs⟩

namespace Splits

theorem eq_append {xs : List α} {fs t e} (h : F.Splits xs fs t e) : xs=fs.flatten++t := by
  induction h with
  | stop xs e h => rfl
  | more xs f r fs t e h _ ih => rw [(F.sound h).1,ih]; simp

theorem all_frames {xs : List α} {fs t e} (h : F.Splits xs fs t e) : ∀f∈fs,F.Frame f := by
  induction h with
  | stop xs e h => simp
  | more xs f r fs t e h _ ih =>
    intro g hg
    rcases List.mem_cons.mp hg with rfl|hg
    · exact frame_of_next h
    · exact ih g hg

theorem tail_error {xs : List α} {fs t e} (h : F.Splits xs fs t e) : F.next t=.error e := by
  induction h with
  | stop xs e h => exact h
  | more xs f r fs t e h _ ih => exact ih

/-- It splits in one way only. -/
theorem unique {xs : List α} {fs t e} (h : F.Splits xs fs t e) :
    ∀{gs u e'},F.Splits xs gs u e' → fs=gs ∧ t=u ∧ e=e' := by
  induction h with
  | stop xs e h =>
    intro gs u e' k
    cases k with
    | stop _ _ k => rw [h] at k; exact ⟨rfl,rfl,Except.error.inj k⟩
    | more _ g s gs _ _ k _ => rw [h] at k; cases k
  | more xs f r fs t e h _ ih =>
    intro gs u e' k
    cases k with
    | stop _ _ k => rw [h] at k; cases k
    | more _ g s gs _ _ k ks =>
      rw [h] at k
      obtain ⟨rfl,rfl⟩ := Prod.mk.inj (Except.ok.inj k)
      obtain ⟨rfl,rfl,rfl⟩ := ih ks
      exact ⟨rfl,rfl,rfl⟩

theorem append {ys : List α} {gs t e} (h : F.Splits ys gs t e) (fs : List (List α))
    (hf : ∀f∈fs,F.Frame f) : F.Splits (fs.flatten++ys) (fs++gs) t e := by
  induction fs with
  | nil => simpa using h
  | cons f fs ih =>
    have hr := ih (fun g hg => hf g (by simp [hg]))
    have hn := (hf f (by simp)).next (fs.flatten++ys)
    simp only [List.flatten_cons,List.append_assoc,List.cons_append]
    exact .more _ f _ _ t e hn hr

theorem length_le {xs : List α} {fs t e} (h : F.Splits xs fs t e) : fs.length≤xs.length := by
  induction h with
  | stop xs e h => simp
  | more xs f r fs t e h _ ih =>
    have hl := next_length h
    simp only [List.length_cons]
    omega

theorem frames_eq {xs : List α} {fs t e} (h : F.Splits xs fs t e) (n : Nat) (hn : fs.length≤n) :
    F.frames n xs=fs := by
  induction h generalizing n with
  | stop xs e h => cases n <;> simp [frames,h]
  | more xs f r fs t e h _ ih =>
    cases n with
    | zero => simp at hn
    | succ n => simp [frames,h,ih n (by simpa using hn)]

theorem decode_eq {xs : List α} {fs t e} (h : F.Splits xs fs t e) : F.decode xs=fs :=
  h.frames_eq _ h.length_le

end Splits

theorem splits_of_frames (fs : List (List α)) (hf : ∀f∈fs,F.Frame f) (t : List α) (e : ε)
    (ht : F.next t=.error e) : F.Splits (fs.flatten++t) fs t e := by
  simpa using (Splits.stop t e ht).append fs hf

theorem splits_flatten {fs : List (List α)} (hf : ∀f∈fs,F.Frame f) :
    ∃e,F.Splits fs.flatten fs [] e := by
  obtain ⟨e,he⟩ := next_nil (F := F)
  exact ⟨e,by simpa using splits_of_frames fs hf [] e he⟩

/-- Frames in a row are decoded to themselves. -/
theorem decode_flatten (fs : List (List α)) (hf : ∀f∈fs,F.Frame f) : F.decode fs.flatten=fs := by
  obtain ⟨e,he⟩ := splits_flatten hf
  exact he.decode_eq

end Framing

end Kaas
