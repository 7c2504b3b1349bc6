import Mathlib.Data.List.AList

namespace Kaas

/-! Tables filled from a list, the last row of a key winning. -/

variable {α κ β : Type} [DecidableEq κ]

def tableOf (key : α → κ) (val : α → β) (l : List α) (m : AList (fun _ : κ => β)) : AList (fun _ : κ => β) :=
  l.foldl (fun m x => m.insert (key x) (val x)) m

theorem lookup_tableOf (key : α → κ) (val : α → β) (l : List α) (m : AList (fun _ : κ => β)) (k : κ) :
    (tableOf key val l m).lookup k=((l.reverse.find? (fun x => key x=k)).map val).or (m.lookup k) := by
  induction l generalizing m with
  | nil => rfl
  | cons x l ih =>
    have hcons : tableOf key val (x::l) m=tableOf key val l (m.insert (key x) (val x)) := rfl
    rw [hcons,ih,List.reverse_cons,List.find?_append]
    cases l.reverse.find? (fun x => key x=k) with
    | some y => rfl
    | none =>
      by_cases hk : key x=k
      · rw [← hk,AList.lookup_insert]
        simp
      · rw [AList.lookup_insert_ne (Ne.symm hk)]
        simp [hk]

theorem lookup_tableOf_some {key : α → κ} {val : α → β} {l : List α} {k : κ} {b : β}
    (h : (tableOf key val l ∅).lookup k=some b) : ∃x∈l,key x=k ∧ val x=b := by
  rw [lookup_tableOf,AList.lookup_empty,Option.or_none,Option.map_eq_some_iff] at h
  obtain ⟨x,hx,hval⟩ := h
  have hkey : key x=k := by simpa using List.find?_some hx
  exact ⟨x,List.mem_reverse.mp (List.mem_of_find?_eq_some hx),hkey,hval⟩

theorem lookup_tableOf_none {key : α → κ} {val : α → β} {l : List α} {k : κ} :
    (tableOf key val l ∅).lookup k=none ↔ ∀x∈l,key x≠k := by
  rw [lookup_tableOf,AList.lookup_empty,Option.or_none,Option.map_eq_none_iff,List.find?_eq_none]
  simp

theorem lookup_tableOf_mem {key : α → κ} {val : α → β} {l : List α} (hn : (l.map key).Nodup) {x : α}
    (hx : x∈l) :
    (tableOf key val l ∅).lookup (key x)=some (val x) := by
  cases h : (tableOf key val l ∅).lookup (key x) with
  | none => exact absurd rfl (lookup_tableOf_none.mp h x hx)
  | some b =>
    obtain ⟨y,hy,hkey,rfl⟩ := lookup_tableOf_some h
    rw [List.inj_on_of_nodup_map hn hy hx hkey]

end Kaas
