import Mathlib.Init

namespace Kaas

variable {σ ι : Type} (step : σ → ι → σ → Prop) (ok : σ → ι → Prop)

/-- The states of all runs from `s` whose every step meets the condition `ok`
in the state it is taken from. -/
inductive Reaches (s : σ) : σ → Prop
  | start : Reaches s s
  | next {t u : σ} (i : ι) (run : Reaches s t) (meets : ok t i) (taken : step t i u) : Reaches s u

variable {step ok}

/-- What holds at the start and is kept by every step holds after a run. -/
theorem Reaches.invariant {inv : σ → Prop} {s t : σ} (run : Reaches step ok s t) (h0 : inv s)
    (keep : ∀t i u,inv t → ok t i → step t i u → inv u) : inv t := by
  induction run with
  | start => exact h0
  | next i _ meets taken ih => exact keep _ i _ ih meets taken

theorem Reaches.mono {ok' : σ → ι → Prop} {s t : σ} (run : Reaches step ok s t)
    (weaker : ∀t i,ok t i → ok' t i) : Reaches step ok' s t := by
  induction run with
  | start => exact .start
  | next i _ meets taken ih => exact .next i ih (weaker _ _ meets) taken

/-- All steps in order, or none if one of them cannot be taken. -/
def runAll (f : σ → ι → Option σ) : List ι → σ → Option σ
  | [],s => some s
  | i::is,s => match f s i with
    | none => none
    | some t => runAll f is t

theorem runAll_cons {f : σ → ι → Option σ} {i : ι} {is : List ι} {s u : σ} :
    runAll f (i::is) s=some u ↔ ∃t,f s i=some t ∧ runAll f is t=some u := by
  simp only [runAll]
  cases f s i <;> simp

theorem runAll_reaches {f : σ → ι → Option σ} (sound : ∀s i t,f s i=some t → step s i t)
    (is : List ι) (meets : ∀i∈is,∀s,ok s i) (s t u : σ) (run : Reaches step ok s t)
    (h : runAll f is t=some u) : Reaches step ok s u := by
  induction is generalizing t with
  | nil => cases h; exact run
  | cons i is ih =>
    obtain ⟨v,hv,hu⟩ := runAll_cons.mp h
    exact ih (fun j hj => meets j (List.mem_cons_of_mem _ hj)) v
      (.next i run (meets i (List.mem_cons_self ..) t) (sound _ _ _ hv)) hu

/-- A run of which every step is checked to meet the condition. -/
def runChecked (f : σ → ι → Option σ) (ok : σ → ι → Prop) [∀s i,Decidable (ok s i)] :
    List ι → σ → Option σ
  | [],s => some s
  | i::is,s => if ok s i then (f s i).bind (runChecked f ok is) else none

theorem exists_outcome {o : Option σ} {p : σ → Prop} (h : ∃s∈o,p s) : ∃s,o=some s ∧ p s := h

theorem exists_outcome_of {o : Option σ} {p q : σ → Prop} (h : ∃s∈o,p s) (ends : ∀s,p s → q s) :
    ∃s,o=some s ∧ q s := by
  obtain ⟨s,hs,hp⟩ := h
  exact ⟨s,hs,ends s hp⟩

/-- A checked run is a run. -/
theorem runChecked_reaches [∀s i,Decidable (ok s i)] {f : σ → ι → Option σ}
    (sound : ∀s i t,f s i=some t → step s i t) (is : List ι) (s t u : σ) (run : Reaches step ok s t)
    (h : runChecked f ok is t=some u) : Reaches step ok s u := by
  induction is generalizing t with
  | nil => cases h; exact run
  | cons i is ih =>
    unfold runChecked at h
    by_cases meets : ok t i
    · rw [if_pos meets] at h
      obtain ⟨v,hv,hu⟩ := Option.bind_eq_some_iff.mp h
      exact ih v (.next i run meets (sound _ _ _ hv)) hu
    · rw [if_neg meets] at h
      cases h

theorem runChecked_outcome [∀s i,Decidable (ok s i)] {f : σ → ι → Option σ} {p q : σ → Prop}
    {is : List ι} {s : σ}
    (sound : ∀s i t,f s i=some t → step s i t) (h : ∃t∈runChecked f ok is s,p t)
    (ends : ∀t,Reaches step ok s t → p t → q t) : ∃t,runChecked f ok is s=some t ∧ q t := by
  obtain ⟨t,ht,hp⟩ := h
  exact ⟨t,ht,ends t (runChecked_reaches sound is s s t .start ht) hp⟩

theorem runChecked_total [∀s i,Decidable (ok s i)] {f : σ → ι → σ} (sound : ∀s i,step s i (f s i)) {is : List ι}
    {s u : σ} (h : runChecked (fun s i => some (f s i)) ok is s=some u) : Reaches step ok s u :=
  runChecked_reaches (fun s i _ ht => Option.some.inj ht ▸ sound s i) is s s u .start h

section Finds

variable [∀s i,Decidable (ok s i)] {f : σ → ι → σ} {P Q : σ → Prop} {s : σ}
    (sound : ∀s i,step s i (f s i)) (is : List ι)
  (h : ∃t∈runChecked (fun s i => some (f s i)) ok is s,P t)

include sound h

/-- A checked run whose outcome has been evaluated gives a reachable state. -/
theorem runChecked_finds : ∃t,Reaches step ok s t ∧ P t := by
  obtain ⟨t,ht,hp⟩ := h
  exact ⟨t,runChecked_total sound ht,hp⟩

theorem runChecked_finds_of (ends : ∀t,Reaches step ok s t → P t → Q t) : ∃t,Reaches step ok s t ∧ Q t := by
  obtain ⟨t,ht,hp⟩ := runChecked_finds sound is h
  exact ⟨t,ht,ends t ht hp⟩

theorem runChecked_finds_and (ends : ∀t,Reaches step ok s t → P t → Q t) : ∃t,Reaches step ok s t ∧ P t ∧ Q t :=
  runChecked_finds_of sound is h fun t ht hp => ⟨hp,ends t ht hp⟩

end Finds

theorem foldl_reaches {f : σ → ι → σ} (sound : ∀s i,step s i (f s i)) (is : List ι) (s : σ) :
    Reaches step (fun _ _ => True) s (is.foldl f s) := by
  have h : runAll (fun s i => some (f s i)) is s=some (is.foldl f s) := by
    induction is generalizing s with
    | nil => rfl
    | cons i is ih => exact ih _
  exact runAll_reaches (fun s i _ ht => Option.some.inj ht ▸ sound s i) is (fun _ _ _ => trivial) s s _ .start h

/-- At most so many steps, fewer if there is none left. -/
def repeatStep (next : σ → Option σ) : Nat → σ → σ
  | 0,s => s
  | n+1,s => match next s with
    | none => s
    | some t => repeatStep next n t

section Repeat

variable {next : σ → Option σ} {inv : σ → Prop} (keep : ∀s t,inv s → next s=some t → inv t)

include keep in
theorem repeatStep_invariant (n : Nat) (s : σ) (h : inv s) : inv (repeatStep next n s) := by
  induction n generalizing s with
  | zero => exact h
  | succ n ih =>
    unfold repeatStep
    cases ht : next s with
    | none => exact h
    | some t => exact ih t (keep s t h ht)

include keep in
/-- As many steps as the measure has units leave none to take. -/
theorem repeatStep_settled (measure : σ → Nat) (drop : ∀s t,inv s → next s=some t → measure t< measure s)
    (n : Nat) (s : σ) (h : inv s) (enough : measure s≤n) : next (repeatStep next n s)=none := by
  induction n generalizing s with
  | zero =>
    cases ht : next s with
    | none => exact ht
    | some t =>
      have := drop s t h ht
      omega
  | succ n ih =>
    unfold repeatStep
    cases ht : next s with
    | none => exact ht
    | some t =>
      have := drop s t h ht
      exact ih t (keep s t h ht) (by omega)

end Repeat

theorem repeatStep_of_none {next : σ → Option σ} {s : σ} (h : next s=none) (n : Nat) :
    repeatStep next n s=s := by
  cases n with
  | zero => rfl
  | succ n => simp only [repeatStep,h]

theorem repeatStep_of_some {next : σ → Option σ} {s t : σ} (h : next s=some t) (n : Nat) :
    repeatStep next (n+1) s=repeatStep next n t := by
  simp only [repeatStep,h]

theorem repeatStep_succ (next : σ → Option σ) (n : Nat) (s : σ) :
    repeatStep next (n+1) s=(next (repeatStep next n s)).getD (repeatStep next n s) := by
  induction n generalizing s with
  | zero =>
    simp only [repeatStep]
    cases next s <;> rfl
  | succ n ih =>
    rw [repeatStep]
    cases h : next s with
    | none => rw [repeatStep_of_none h,h]; rfl
    | some t =>
      rw [repeatStep_of_some h]
      exact ih t

theorem repeatStep_add_of_none {next : σ → Option σ} {n : Nat} {s : σ} (h : next (repeatStep next n s)=none)
    (m : Nat) : repeatStep next (n+m) s=repeatStep next n s := by
  induction m with
  | zero => rfl
  | succ m ih =>
    rw [← Nat.add_assoc,repeatStep_succ,ih,h]
    rfl

theorem eq_ok_of_toOption {α β ε : Type} {x : α × Except ε β} {b : β} (h : x.2.toOption=some b) :
    x=(x.1,.ok b) := by
  obtain ⟨a,e|b'⟩ := x
  · cases h
  · cases h
    rfl

/-- A history in which every entry is allowed by the entries in front of it. -/
inductive Lawful {α : Type} (allowed : List α → α → Prop) : List α → Prop
  | nil : Lawful allowed []
  | snoc {l : List α} {a : α} (before : Lawful allowed l) (last : allowed l a) : Lawful allowed (l++[a])

theorem Lawful.append {α : Type} {allowed : List α → α → Prop} {l : List α} (h : Lawful allowed l)
    (more : List α) (free : ∀a∈more,∀before,allowed before a) : Lawful allowed (l++more) := by
  induction more generalizing l with
  | nil => rwa [List.append_nil]
  | cons a more ih =>
    have ha : Lawful allowed (l++[a]) := h.snoc (free a (List.mem_cons_self ..) l)
    have := ih ha fun b hb => free b (List.mem_cons_of_mem _ hb)
    rwa [List.append_assoc] at this

/-- In a lawful history every entry was allowed when it came. -/
theorem Lawful.split {α : Type} {allowed : List α → α → Prop} {l before after : List α} {a : α}
    (h : Lawful allowed l) (hl : l=before++a::after) : allowed before a := by
  induction h generalizing after with
  | nil => cases before <;> cases hl
  | @snoc l b _ last ih =>
    cases List.eq_nil_or_concat after with
    | inl he =>
      subst he
      obtain ⟨rfl,hb⟩ := List.append_inj' hl rfl
      cases hb
      exact last
    | inr he =>
      obtain ⟨after',c,rfl⟩ := he
      rw [List.concat_eq_append,← List.cons_append,← List.append_assoc] at hl
      exact ih (List.append_inj' hl rfl).1

end Kaas
