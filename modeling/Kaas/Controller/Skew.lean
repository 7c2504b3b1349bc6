import Kaas.Controller.Levels

namespace Kaas.Balancer

/-! How far apart the loads of a list of brokers are. -/

section Skew

variable {f : String → Int} {first : String} {rest : List String}

def skew (f : String → Int) : List String → Int
  | [] => 0
  | first::rest => f (extremes f first rest).1-f (extremes f first rest).2

theorem skew_le_iff {k : Int} : skew f (first::rest)≤k ↔ ∀a∈first::rest,∀b∈first::rest,f a-f b≤k := by
  have h := extremes_spec f first rest
  constructor
  · intro hk a ha b hb
    have h1 := h.le_hi a ha
    have h2 := h.lo_le b hb
    change f (extremes f first rest).1-f (extremes f first rest).2≤k at hk
    omega
  · intro hk
    exact hk _ h.hi_mem _ h.lo_mem

theorem skew_level : skew f (first::rest)≤1 ↔ Level (first::rest) f := skew_le_iff

theorem skew_transfer_le {a b : String} (ha : a∈first::rest) (hb : b∈first::rest) (down : f b<f a) :
    skew (transfer f a b) (first::rest)≤ skew f (first::rest) := by
  have hall := skew_le_iff.mp (le_refl (skew f (first::rest)))
  refine skew_le_iff.mpr (fun c hc d hd => ?_)
  have h1 := hall c hc d hd
  have h2 := hall a ha d hd
  have h3 := hall c hc b hb
  have h4 := hall a ha b hb
  unfold transfer
  split_ifs <;> (try subst_vars) <;> omega

variable {topics : List String} {slots : List PartitionSlot} {r : Repair}

theorem repair_skew_le (h : r.Sound (first::rest) topics slots) (t : String) :
    skew (topicCountOn (r.apply slots) t) (first::rest)≤ skew (topicCountOn slots t) (first::rest) := by
  have hdonor {topic hi lo : String} {donor : Nat} (hd : Donor (first::rest) slots topic hi lo donor) :
      skew (topicCountOn (moveTo slots donor lo) t) (first::rest)≤ skew (topicCountOn slots t)
        (first::rest) := by
    rw [donor_counts hd t]
    split_ifs with ht
    · subst ht
      have := hd.gap
      exact skew_transfer_le hd.ends.hi_mem hd.ends.lo_mem (by omega)
    · exact le_refl _
  cases h with
  | move _ hd _ => exact hdonor hd
  | swap _ hd _ other fits =>
    rw [Repair.apply,partner_counts hd other fits t]
    split_ifs with ht
    · subst ht
      exact skew_transfer_le hd.ends.lo_mem hd.ends.hi_mem fits.2.2
    · exact hdonor hd

end Skew

/-- No repair of the topic is left: its fullest broker has fewer partitions in all than its
emptiest, and the emptiest has no partition of another topic to give in exchange. -/
def Blocked (slots : List PartitionSlot) (topic : String) (hi lo : String) : Prop :=
  countOn slots hi<countOn slots lo ∧ ∀s∈slots,¬Swappable slots topic hi lo s

/-- On two or more brokers the cluster pass ends with a skew of at most one. The topic pass stops in
front of its cap because no topic can be improved: each has a skew of at most one, or no move and no
swap is open to it. No repair adds to a topic's skew. -/
theorem smoothing_ends (hash : RendezvousHash) (first second : String) (rest : List String)
    (slots : List PartitionSlot) :
    (∃n,smoothStep hash first (second::rest)
        (repeatStep (smoothStep hash first (second::rest)) n (slots,countOn slots))=none ∧
      (repeatStep (smoothStep hash first (second::rest)) n (slots,countOn slots)).1=
        smoothPartitions hash (first::second::rest) slots) ∧
    skew (countOn (smoothPartitions hash (first::second::rest) slots)) (first::second::rest)≤1 ∧
    (∃k< slots.length*(first::second::rest).length+16,
      improveOneTopic first (second::rest) (topicNames slots) (passState (first::second::rest) slots k)=none ∧
      passState (first::second::rest) slots k=smoothPartitionsPerTopic (first::second::rest) slots) ∧
    (∀s∈slots,skew (topicCountOn (smoothPartitionsPerTopic (first::second::rest) slots) s.topic)
        (first::second::rest)≤1 ∨
      ∃hi lo,Extremes (topicCountOn (smoothPartitionsPerTopic (first::second::rest) slots) s.topic)
          (first::second::rest) (hi,lo) ∧
        Blocked (smoothPartitionsPerTopic (first::second::rest) slots) s.topic hi lo) ∧
    ∀topics layout r,nextRepair first (second::rest) topics layout=some r → ∀t,
      skew (topicCountOn (r.apply layout) t) (first::second::rest)≤ skew (topicCountOn layout t)
        (first::second::rest) := by
  refine ⟨⟨2*slots.length,?_,rfl⟩,skew_level.mpr (smoothPartitions_level hash _ slots),
    ⟨slots.length*(first::second::rest).length,by omega,?_,?_⟩,
    fun s hs => ?_,fun topics layout r hr t => repair_skew_le (nextRepair_sound hr) t⟩
  · obtain ⟨hrun,hlevel⟩ := smoothing_run hash first (second::rest) slots
    generalize repeatStep (smoothStep hash first (second::rest)) (2*slots.length)
      (slots,countOn slots)=t at hrun hlevel ⊢
    obtain ⟨u,counts⟩ := t
    obtain rfl : counts=countOn u := hrun.counts
    exact smoothStep_none.mpr hlevel
  · exact Option.map_eq_none_iff.mpr (pass_settled_early first second rest slots)
  · exact (pass_ends_early first second rest slots).symm
  · have htopic : s.topic∈topicNames slots := by
      rw [topicNames,List.mem_dedup,(List.perm_insertionSort _ _).mem_iff]
      exact List.mem_map_of_mem hs
    have hnone := List.findSome?_eq_none_iff.mp (pass_settled (first::second::rest) slots) s.topic htopic
    rcases topicRepair_none.mp hnone with hlevel|hblocked
    · exact Or.inl (skew_level.mpr hlevel)
    · exact Or.inr ⟨_,_,extremes_spec _ _ _,hblocked⟩

end Kaas.Balancer
