import Kaas.Math.Ranges
import Kaas.Storage.Scan

namespace Kaas

def lastOffset (b : Bytes) : Int := baseOffset b+lastOffsetDelta b

def offsetRange (b : Bytes) : Int × Int := (baseOffset b,baseOffset b+recordCount b)

/-- Batches of at least one record each that take the offsets from `lo` to `hi` in a row. -/
structure Chained (lo : Int) (bs : List Bytes) (hi : Int) : Prop where
  contiguous : Contiguous lo (bs.map offsetRange) hi
  counted : ∀b∈bs,0≤lastOffsetDelta b

instance (lo : Int) (bs : List Bytes) (hi : Int) : Decidable (Chained lo bs hi) :=
  decidable_of_iff (Contiguous lo (bs.map offsetRange) hi ∧ ∀b∈bs,0≤lastOffsetDelta b)
    ⟨fun h => ⟨h.1,h.2⟩,fun h => ⟨h.contiguous,h.counted⟩⟩

namespace Chained

variable {lo mid hi : Int} {bs cs : List Bytes}

theorem nil (lo : Int) : Chained lo [] lo := ⟨rfl,by simp⟩

theorem singleton {b : Bytes} (h : 0≤lastOffsetDelta b) :
    Chained (baseOffset b) [b] (baseOffset b+recordCount b) := ⟨⟨rfl,rfl⟩,by simpa using h⟩

theorem append (h : Chained lo bs mid) (h' : Chained mid cs hi) : Chained lo (bs++cs) hi := by
  refine ⟨by rw [List.map_append]; exact contiguous_append.mpr ⟨mid,h.contiguous,h'.contiguous⟩,?_⟩
  intro b hb
  rcases List.mem_append.mp hb with hb|hb
  · exact h.counted b hb
  · exact h'.counted b hb

theorem split (h : Chained lo (bs++cs) hi) : ∃mid,Chained lo bs mid ∧ Chained mid cs hi := by
  have hc := h.contiguous
  rw [List.map_append] at hc
  obtain ⟨mid,h1,h2⟩ := contiguous_append.mp hc
  exact ⟨mid,⟨h1,fun b hb => h.counted b (by simp [hb])⟩,h2,fun b hb => h.counted b (by simp [hb])⟩

theorem head {b : Bytes} (h : Chained lo (b::bs) hi) :
    baseOffset b=lo ∧ 0≤lastOffsetDelta b ∧ Chained (lo+recordCount b) bs hi := by
  obtain ⟨h1,h2⟩ := h.contiguous
  change baseOffset b=lo at h1
  subst h1
  exact ⟨rfl,h.counted b (by simp),h2,fun c hc => h.counted c (by simp [hc])⟩

theorem concat (h : Chained lo bs mid) (b : Bytes) (hb : baseOffset b=mid)
    (hd : 0≤lastOffsetDelta b) : Chained lo (bs++[b]) (mid+recordCount b) := by
  subst hb
  exact h.append (singleton hd)

theorem bounds (h : Chained lo bs hi) : lo≤hi ∧ ∀b∈bs,lo≤baseOffset b ∧ lastOffset b<hi := by
  have hn : ∀r∈bs.map offsetRange,r.1<r.2 := by
    intro r hr
    obtain ⟨b,hb,rfl⟩ := List.mem_map.mp hr
    have := h.counted b hb
    simp only [offsetRange,recordCount]
    omega
  obtain ⟨h1,h2⟩ := h.contiguous.bounds hn
  refine ⟨h1,fun b hb => ?_⟩
  have := h2 (offsetRange b) (List.mem_map_of_mem hb)
  simp only [offsetRange,recordCount] at this
  unfold lastOffset
  omega

theorem lt_of_ne_nil (h : Chained lo bs hi) (hn : bs≠[]) : lo<hi := by
  cases bs with
  | nil => exact absurd rfl hn
  | cons b bs =>
    obtain ⟨_,hd,ht⟩ := h.head
    have := ht.bounds.1
    unfold recordCount at this
    omega

end Chained

end Kaas
