import Mathlib.Data.List.Sort

namespace Kaas

/-! Paths as strings, joined as by `Path::join` and resolved as by the operating system without
links. -/

variable {c : Name} {dir : List Name} {base path : List Char} {isDir : List Name → Bool}

namespace Paths

abbrev Name := List Char

/-- A component that stands for an entry of its directory. -/
structure Plain (c : Name) : Prop where
  nonempty : c≠[]
  notDot : c≠['.']
  notDotDot : c≠['.','.']
  noSlash : '/'∉c

instance (c : Name) : Decidable (Plain c) :=
  decidable_of_iff (c≠[] ∧ c≠['.'] ∧ c≠['.','.'] ∧ '/'∉c)
    ⟨fun h => ⟨h.1,h.2.1,h.2.2.1,h.2.2.2⟩,fun h => ⟨h.1,h.2,h.3,h.4⟩⟩

def walk (dir : List Name) (c : Name) : List Name :=
  if c=[] ∨ c=['.'] then dir else if c=['.','.'] then dir.dropLast else dir++[c]

/-- The place a path leads to. -/
def resolve (path : List Char) : List Name := (path.splitOn '/').foldl walk []

def join (base path : List Char) : List Char :=
  if path.head?=some '/' then path
  else if base=[] ∨ base.getLast?=some '/' then base++path
  else base++ '/'::path

theorem walk_plain (h : Plain c) (dir : List Name) : walk dir c=dir++[c] := by
  unfold walk
  rw [if_neg (not_or.mpr ⟨h.nonempty,h.notDot⟩),if_neg h.notDotDot]

theorem splitOn_noSlash (h : '/'∉c) : c.splitOn '/'=[c] := by
  refine List.splitOnP_eq_singleton (fun x hx => ?_)
  rw [beq_eq_false_iff_ne]
  exact fun he => h (he ▸ hx)

theorem splitOn_join (base path : List Char) :
    (base++ '/'::path).splitOn '/'=base.splitOn '/'++path.splitOn '/' :=
  List.splitOnP_append_cons base path (beq_self_eq_true '/')

theorem noSlash_of_mem_splitOn (path : List Char) : ∀c∈path.splitOn '/','/'∉c := by
  induction hn : path.length using Nat.strong_induction_on generalizing path with
  | _ n ih =>
    by_cases hs : '/'∈path
    · obtain ⟨a,b,rfl⟩ := List.append_of_mem hs
      rw [List.length_append,List.length_cons] at hn
      rw [splitOn_join]
      intro c hc
      rcases List.mem_append.mp hc with ha|hb
      · exact ih a.length (by omega) a rfl c ha
      · exact ih b.length (by omega) b rfl c hb
    · rw [splitOn_noSlash hs]
      intro c hc
      rw [List.mem_singleton.mp hc]
      exact hs

theorem walk_keeps (h : ∀d∈dir,Plain d) (hc : '/'∉c) : ∀d∈walk dir c,Plain d := by
  unfold walk
  split_ifs with h1 h2
  · exact h
  · exact fun d hd => h d (List.dropLast_subset dir hd)
  · intro d hd
    rcases List.mem_append.mp hd with hold|hnew
    · exact h d hold
    · rw [List.mem_singleton.mp hnew]
      exact ⟨fun he => h1 (Or.inl he),fun he => h1 (Or.inr he),h2,hc⟩

theorem foldl_walk_plain {cs : List Name} (hcs : ∀c∈cs,'/'∉c) (h : ∀d∈dir,Plain d) :
    ∀d∈cs.foldl walk dir,Plain d := by
  induction cs generalizing dir with
  | nil => exact h
  | cons c cs ih =>
    exact ih (fun d hd => hcs d (List.mem_cons_of_mem c hd)) (walk_keeps h (hcs c List.mem_cons_self))

theorem resolve_plain (path : List Char) : ∀d∈resolve path,Plain d :=
  foldl_walk_plain (noSlash_of_mem_splitOn path) (fun _ hd => by cases hd)

theorem resolve_join (hb : base≠[]) (hp : path.head?≠some '/') :
    resolve (join base path)=(path.splitOn '/').foldl walk (resolve base) := by
  unfold join resolve
  rw [if_neg hp]
  split_ifs with h
  · obtain ⟨b,rfl⟩ := List.getLast?_eq_some_iff.mp (h.resolve_left hb)
    rw [List.append_assoc,List.singleton_append,splitOn_join,splitOn_join,List.foldl_append,List.foldl_append]
    rfl
  · rw [splitOn_join,List.foldl_append]

theorem join_ne_nil (hb : base≠[]) (path : List Char) : join base path≠[] := by
  unfold join
  split_ifs with h1 h2
  · rintro rfl
    cases h1
  · exact List.append_ne_nil_of_left_ne_nil hb _
  · exact List.append_ne_nil_of_left_ne_nil hb _

theorem resolve_join_plain (hb : base≠[]) (hc : Plain c) :
    resolve (join base c)=resolve base++[c] := by
  have hhead : c.head?≠some '/' := fun he => hc.noSlash (List.mem_of_mem_head? he)
  rw [resolve_join hb hhead,splitOn_noSlash hc.noSlash]
  exact walk_plain hc _

def visit (isDir : List Name → Bool) (place : Option (List Name)) (c : Name) : Option (List Name) :=
  place.bind (fun dir => if isDir dir then some (walk dir c) else none)

def lookup (isDir : List Name → Bool) (path : List Char) : Option (List Name) :=
  (path.splitOn '/').foldl (visit isDir) (some [])

theorem foldl_visit_none (isDir : List Name → Bool) (cs : List Name) : cs.foldl (visit isDir) none=none := by
  induction cs with
  | nil => rfl
  | cons c cs ih => exact ih

theorem foldl_visit_eq {cs : List Name} {place : List Name}
    (h : cs.foldl (visit isDir) (some dir)=some place) : place=cs.foldl walk dir := by
  induction cs generalizing dir with
  | nil => exact (Option.some.inj h).symm
  | cons c cs ih =>
    rw [List.foldl_cons] at h ⊢
    by_cases hd : isDir dir=true
    · have hv : visit isDir (some dir) c=some (walk dir c) := if_pos hd
      rw [hv] at h
      exact ih h
    · have hv : visit isDir (some dir) c=none := if_neg hd
      rw [hv,foldl_visit_none] at h
      cases h

/-- A lookup that finds every directory on its way ends where the path leads. -/
theorem lookup_eq_resolve {place : List Name}
    (h : lookup isDir path=some place) : place=resolve path := foldl_visit_eq h

theorem resolve_append_plain (path : List Char) (hc : Plain c) :
    resolve (path++ '/'::c)=resolve path++[c] := by
  unfold resolve
  rw [splitOn_join,List.foldl_append,splitOn_noSlash hc.noSlash]
  exact walk_plain hc _

theorem lookup_append_plain (hc : Plain c) : lookup isDir (path++ '/'::c)=(lookup isDir path).bind
      (fun dir => if isDir dir then some (dir++[c]) else none) := by
  unfold lookup
  rw [splitOn_join,List.foldl_append,splitOn_noSlash hc.noSlash,List.foldl_cons,List.foldl_nil]
  unfold visit
  simp only [walk_plain hc]

end Paths

end Kaas
