import Kaas.Group.OffsetMirror

namespace Kaas

/-! What `purge_topic` removes, in memory and in the file of a group that is not in memory. -/

def PartitionIndex (p : Int) : Prop := -2^31≤p ∧ p<2^31

variable {s : OffsetCache} {w : OffsetMirror} {group topic t : String} {p q : Int} {m : OffsetMap}

theorem keyHasTopic_iff (hp : PartitionIndex p) : keyHasTopic (offsetKey t p) topic=true ↔ t=topic := by
  rw [keyHasTopic_offsetKey topic t hp.1 hp.2,decide_eq_true_eq]

theorem offsetKey_injective (hp : PartitionIndex p) (hq : PartitionIndex q)
    (h : offsetKey t p=offsetKey t q) : p=q := by
  have hlist := congrArg String.toList h
  simp only [offsetKey,String.toList_append,List.append_assoc] at hlist
  have hdigits := List.append_cancel_left (List.append_cancel_left hlist)
  have hparse := congrArg parseI32 hdigits
  rw [parseI32_toString hp.1 hp.2,parseI32_toString hq.1 hq.2] at hparse
  exact Option.some.inj hparse

namespace OffsetCache

end OffsetCache

end Kaas
