import Kaas.Math.BigEndian

namespace Kaas

/-! Encodings as sequences of writes, decoders that take values off the front of a byte string, and
when a decoder reads an encoding back. -/

def Decoder (ε α : Type) : Type := Bytes → Except ε (α × Bytes)

abbrev Encoding (ε : Type) : Type := Except ε Bytes

section Model

variable {ε α β : Type}

namespace Decoder

def next (d : Decoder ε α) (f : α → Decoder ε β) : Decoder ε β := fun raw =>
  match d raw with
  | .ok (a,rest) => f a rest
  | .error e => .error e

instance : Monad (Decoder ε) where
  pure a := fun raw => .ok (a,raw)
  bind := next

def fail (e : ε) : Decoder ε α := fun _ => .error e

def take (eof : ε) (n : Nat) : Decoder ε Bytes := fun raw =>
  if raw.length<n then .error eof else .ok (raw.take n,raw.drop n)

def remaining : Decoder ε Nat := fun raw => .ok (raw.length,raw)

/-- The decoder so many times over. -/
def times : Nat → Decoder ε α → Decoder ε (List α)
  | 0,_ => pure []
  | n+1,d => do
    let a ← d
    let l ← times n d
    return a::l

/-- A field that is read only under a condition, with its default otherwise. -/
def gated (c : Prop) [Decidable c] (d : Decoder ε α) (absent : α) : Decoder ε α := if c then d else pure absent

end Decoder

namespace Encoding

def bytes (b : Bytes) : Encoding ε := Except.ok b

def fail (e : ε) : Encoding ε := Except.error e

def all : List (Encoding ε) → Encoding ε
  | [] => bytes []
  | w::ws => Except.bind w fun b => Except.map (b++·) (all ws)

/-- A list, item behind item. -/
def each (f : α → Encoding ε) (l : List α) : Encoding ε := all (l.map f)

def gated (c : Prop) [Decidable c] (w : Encoding ε) : Encoding ε := if c then w else bytes []

end Encoding

end Model

/-- The encoding succeeds, and the decoder reads `a` off it and leaves what follows. -/
def Writes {ε α : Type} (w : Encoding ε) (d : Decoder ε α) (a : α) : Prop :=
  ∃b,w=.ok b ∧ ∀rest,d (b++rest)=.ok (a,rest)

namespace Writes

variable {ε α β : Type} {w : Encoding ε} {ws : List (Encoding ε)} {d : Decoder ε α} {a : α} {b : β}

theorem done (a : α) : Writes (.all []) (pure a : Decoder ε α) a := ⟨[],rfl,fun _ => rfl⟩

/-- A field in front of what the rest of the decoder reads. -/
theorem step {f : α → Decoder ε β} (h : Writes w d a) (hs : Writes (.all ws) (f a) b) :
    Writes (.all (w::ws)) (d >>= f) b := by
  obtain ⟨x,rfl,hx⟩ := h
  obtain ⟨y,hy,hread⟩ := hs
  refine ⟨x++y,by rw [Encoding.all,hy]; rfl,fun rest => ?_⟩
  change Decoder.next d f (x++y++rest)=_
  rw [Decoder.next,List.append_assoc,hx]
  exact hread rest

theorem silent {f : α → Decoder ε β} (h : Writes w d a) (hf : ∀rest,f a rest=.ok (b,rest)) :
    Writes w (d >>= f) b := by
  obtain ⟨x,hw,hx⟩ := h
  refine ⟨x,hw,fun rest => ?_⟩
  change Decoder.next d f (x++rest)=_
  rw [Decoder.next,hx]
  exact hf rest

theorem made (f : α → β) (h : Writes w d a) : Writes w (d >>= fun a => pure (f a)) (f a) :=
  h.silent fun _ => rfl

theorem one (h : Writes w d a) : Writes (.all [w]) d a := by
  obtain ⟨x,rfl,hx⟩ := h
  exact ⟨x,congrArg Except.ok (List.append_nil x),hx⟩

theorem last (f : α → β) (h : Writes w d a) : Writes (.all [w]) (d >>= fun a => pure (f a)) (f a) :=
  (h.made f).one

/-- A gated field is read back as it is, or as the default. -/
theorem gated {c : Prop} [Decidable c] {absent : α} (h : Writes w d a) :
    Writes (.gated c w) (.gated c d absent) (if c then a else absent) := by
  unfold Encoding.gated Decoder.gated
  split_ifs
  · exact h
  · exact done absent

theorem bytes {x : Bytes} (h : ∀rest,d (x++rest)=.ok (a,rest)) : Writes (.bytes x) d a := ⟨x,rfl,h⟩

theorem take (eof : ε) (x : Bytes) : Writes (.bytes x) (.take eof x.length) x := by
  refine bytes fun rest => ?_
  rw [Decoder.take,List.length_append,if_neg (by omega),List.take_left,List.drop_left]

/-- Items that are each read back are read back in a row. -/
theorem times {γ : Type} {f : γ → Encoding ε} {g : γ → α} {l : List γ}
    (h : ∀x∈l,Writes (f x) d (g x)) : Writes (.each f l) (.times l.length d) (l.map g) := by
  induction l with
  | nil => exact done _
  | cons x l ih =>
    have hrest := ih fun y hy => h y (List.mem_cons_of_mem x hy)
    exact (h x List.mem_cons_self).step (hrest.made (g x::·))

end Writes

end Kaas
