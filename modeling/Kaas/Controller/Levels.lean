import Kaas.Controller.Balancer
import Mathlib.Algebra.BigOperators.Ring.Finset

namespace Kaas

variable {b hi lo topic : String} {donor : Nat}

namespace Balancer

variable {hash : RendezvousHash} {alive topics : List String} {slots slots' : List PartitionSlot}
  {i : Nat} {s : PartitionSlot}

/-! What a pass may change. -/

/-- The same partitions in the same order; whatever was on an alive broker still is. -/
structure Moved (alive : List String) (slots slots' : List PartitionSlot) : Prop where
  keys : slots'.map (·.key)=slots.map (·.key)
  onAlive : (∀s∈slots,s.broker∈alive) → ∀s∈slots',s.broker∈alive

theorem Moved.refl (alive : List String) (slots : List PartitionSlot) : Moved alive slots slots :=
  ⟨rfl,fun h => h⟩

theorem Moved.trans {slots'' : List PartitionSlot} (h : Moved alive slots slots')
    (h' : Moved alive slots' slots'') : Moved alive slots slots'' :=
  ⟨h'.keys.trans h.keys,fun ha => h'.onAlive (h.onAlive ha)⟩

theorem getElem?_moveTo (slots : List PartitionSlot) (i j : Nat) (b : String) :
    (moveTo slots i b)[j]?=if i=j then (slots[j]?).map (fun s => {s with broker := b}) else slots[j]? := by
  rw [moveTo,List.getElem?_modify]
  split_ifs <;> cases slots[j]? <;> rfl

theorem moveTo_moved (hb : b∈alive) (slots : List PartitionSlot) (i : Nat) :
    Moved alive slots (moveTo slots i b) := by
  constructor
  · refine List.ext_getElem? (fun j => ?_)
    rw [List.getElem?_map,List.getElem?_map,getElem?_moveTo]
    split_ifs <;> cases slots[j]? <;> rfl
  · intro h s hs
    obtain ⟨j,hj⟩ := List.mem_iff_getElem?.mp hs
    rw [getElem?_moveTo] at hj
    split_ifs at hj
    · obtain ⟨u,_,rfl⟩ := Option.map_eq_some_iff.mp hj
      exact hb
    · exact h s (List.mem_of_getElem? hj)

theorem countOn_moveTo (h : slots[i]?=some s) (b : String) :
    countOn (moveTo slots i b)=transfer (countOn slots) s.broker b := by
  funext x
  have hc := countP_modify (fun s : PartitionSlot => decide (s.broker=x))
    (fun s => {s with broker := b}) slots i s h
  simp only [decide_eq_true_eq] at hc
  simp only [countOn,moveTo,transfer,eq_comm (a := x)]
  split_ifs at hc ⊢ <;> omega

theorem topicCountOn_moveTo (h : slots[i]?=some s) (b topic : String) :
    topicCountOn (moveTo slots i b) topic=
      if topic=s.topic then transfer (topicCountOn slots topic) s.broker b else topicCountOn slots topic := by
  funext x
  have hc := countP_modify (fun s : PartitionSlot => decide (s.topic=topic ∧ s.broker=x))
    (fun s => {s with broker := b}) slots i s h
  simp only [decide_eq_true_eq] at hc
  by_cases ht : topic=s.topic
  · rw [if_pos ht]
    simp only [ht,true_and] at hc
    simp only [topicCountOn,moveTo,transfer,eq_comm (a := x),ht]
    split_ifs at hc ⊢ <;> omega
  · have ht' : s.topic≠topic := fun he => ht he.symm
    rw [if_neg ht]
    simp only [ht',false_and,if_false] at hc
    simp only [topicCountOn,moveTo]
    omega

theorem countOn_nonneg (slots : List PartitionSlot) (b : String) : 0≤ countOn slots b :=
  Int.natCast_nonneg _

theorem topicCountOn_nonneg (slots : List PartitionSlot) (topic b : String) : 0≤topicCountOn slots topic b :=
  Int.natCast_nonneg _

theorem sum_countOn_le (S : Finset String) (slots : List PartitionSlot) :
    S.sum (countOn slots)≤ slots.length := by
  have h := sum_countP_le S (fun _ : PartitionSlot => True) (·.broker) slots
  simp only [true_and,decide_true,List.countP_true] at h
  exact h

theorem sum_topicCountOn_le (S : Finset String) (slots : List PartitionSlot) (topic : String) :
    S.sum (topicCountOn slots topic)≤(slots.countP fun s => s.topic=topic : Nat) :=
  sum_countP_le S (fun s : PartitionSlot => s.topic=topic) (·.broker) slots

theorem exists_of_countOn (h : 0<countOn slots b) : ∃s∈slots,s.broker=b := by
  have h' : 0< slots.countP fun s => s.broker=b := by
    unfold countOn at h
    omega
  obtain ⟨s,hs,hb⟩ := List.countP_pos_iff.mp h'
  exact ⟨s,hs,of_decide_eq_true hb⟩

theorem exists_of_topicCountOn (h : 0<topicCountOn slots topic b) :
    ∃s∈slots,s.topic=topic ∧ s.broker=b := by
  have h' : 0< slots.countP fun s => s.topic=topic ∧ s.broker=b := by
    unfold topicCountOn at h
    omega
  obtain ⟨s,hs,hb⟩ := List.countP_pos_iff.mp h'
  exact ⟨s,hs,of_decide_eq_true hb⟩

theorem placeSlots_keys (hash : RendezvousHash) (alive : List String) (l : Load) (slots : List PartitionSlot) :
    (placeSlots hash alive l slots).map (·.key)=slots.map (·.key) := by
  induction slots generalizing l with
  | nil => rfl
  | cons s slots ih =>
    unfold placeSlots
    split_ifs
    · rw [List.map_cons,List.map_cons,ih]
    · cases pickBest (placeBetter hash l s.topic s.partition) alive with
      | none => rw [List.map_cons,List.map_cons,ih]
      | some broker =>
        rw [List.map_cons,List.map_cons,ih]
        rfl

theorem placeSlots_onAlive (hash : RendezvousHash) (hne : alive≠[]) (l : Load) {slots : List PartitionSlot}
    (h : ∀s∈slots,s.broker≠"" → s.broker∈alive) : ∀s∈placeSlots hash alive l slots,s.broker∈alive := by
  induction slots generalizing l with
  | nil => intro s hs; cases hs
  | cons s slots ih =>
    have hrest := fun l => ih l (fun u hu => h u (List.mem_cons_of_mem _ hu))
    unfold placeSlots
    by_cases hb : s.broker≠""
    · rw [if_pos hb]
      intro u hu
      rcases List.mem_cons.mp hu with rfl|hu
      · exact h u (List.mem_cons_self ..) hb
      · exact hrest l u hu
    · rw [if_neg hb]
      have hsome := (pickBest_isSome (placeBetter hash l s.topic s.partition) alive).mpr hne
      obtain ⟨broker,hbest⟩ := Option.isSome_iff_exists.mp hsome
      simp only [hbest]
      intro u hu
      rcases List.mem_cons.mp hu with rfl|hu
      · exact pickBest_mem hbest
      · exact hrest _ u hu

section Smoothing

variable {first : String} {rest : List String}

structure SmoothMove (alive : List String) (slots : List PartitionSlot) (hi lo : String) (i : Nat) : Prop where
  ends : Extremes (countOn slots) alive (hi,lo)
  gap : countOn slots lo+2≤ countOn slots hi
  slot : ∃s,slots[i]?=some s ∧ s.broker=hi

theorem smoothStep_some {t : List PartitionSlot × (String → Int)}
    (h : smoothStep hash first rest (slots,countOn slots)=some t) :
    ∃hi lo i,SmoothMove (first::rest) slots hi lo i ∧ victim hash slots hi lo=some i ∧
      t=(moveTo slots i lo,countOn (moveTo slots i lo)) := by
  unfold smoothStep at h
  dsimp only at h
  have hends := extremes_spec (countOn slots) first rest
  generalize extremes (countOn slots) first rest=p at h hends
  split_ifs at h with hgap
  obtain ⟨i,hi,ht⟩ := Option.map_eq_some_iff.mp h
  obtain ⟨s,hs,hb⟩ := pickIndex_some hi
  have hcount := countOn_moveTo hs p.2
  rw [hb] at hcount
  refine ⟨p.1,p.2,i,⟨hends,?_,s,hs,hb⟩,hi,?_⟩
  · omega
  · rw [hcount]
    exact ht.symm

theorem smoothStep_none : smoothStep hash first rest (slots,countOn slots)=none ↔
    Level (first::rest) (countOn slots) := by
  unfold smoothStep
  dsimp only
  have hends := extremes_spec (countOn slots) first rest
  generalize extremes (countOn slots) first rest=p at hends
  constructor
  · intro h a ha b hb
    have h1 := hends.le_hi a ha
    have h2 := hends.lo_le b hb
    split_ifs at h with hgap
    · omega
    · have hpos : 0<countOn slots p.1 := by
        have := countOn_nonneg slots p.2
        omega
      obtain ⟨s,hs,hb⟩ := exists_of_countOn hpos
      exact absurd hb (pickIndex_none.mp (Option.map_eq_none_iff.mp h) s hs)
  · intro h
    rw [if_pos (h p.1 hends.hi_mem p.2 hends.lo_mem)]

structure Smoothing (alive : List String) (start : List PartitionSlot)
    (t : List PartitionSlot × (String → Int)) : Prop where
  counts : t.2=countOn t.1
  moved : Moved alive start t.1
  total : alive.toFinset.sum (countOn t.1)=alive.toFinset.sum (countOn start)

theorem smoothing_step {start : List PartitionSlot} (t u : List PartitionSlot × (String → Int))
    (h : Smoothing (first::rest) start t) (hstep : smoothStep hash first rest t=some u) :
    Smoothing (first::rest) start u ∧
      excess (first::rest).toFinset (mean (first::rest).toFinset (countOn start)) (countOn u.1)+1≤
        excess (first::rest).toFinset (mean (first::rest).toFinset (countOn start)) (countOn t.1) := by
  obtain ⟨slots,counts⟩ := t
  have hc : counts=countOn slots := h.counts
  subst hc
  obtain ⟨hi,lo,i,hm,_,rfl⟩ := smoothStep_some hstep
  obtain ⟨s,hs,hb⟩ := hm.slot
  have hhi : hi∈(first::rest).toFinset := List.mem_toFinset.mpr hm.ends.hi_mem
  have hlo : lo∈(first::rest).toFinset := List.mem_toFinset.mpr hm.ends.lo_mem
  have hgap := hm.gap
  have hne : hi≠lo := ne_of_gap (f := countOn slots) (by omega)
  have hcount : countOn (moveTo slots i lo)=transfer (countOn slots) hi lo := by
    rw [countOn_moveTo hs lo,hb]
  have hsum := sum_transfer_eq (f := countOn slots) hhi hlo hne
  have hmean := mean_between hhi hlo (fun b hb => hm.ends.le_hi b (List.mem_toFinset.mp hb))
    (fun b hb => hm.ends.lo_le b (List.mem_toFinset.mp hb)) hgap
  have htotal : (first::rest).toFinset.sum (countOn slots)=(first::rest).toFinset.sum (countOn start) := h.total
  rw [mean,htotal] at hmean
  constructor
  · refine ⟨rfl,h.moved.trans (moveTo_moved hm.ends.lo_mem slots i),?_⟩
    dsimp only
    rw [hcount,hsum,htotal]
  · dsimp only
    rw [hcount]
    exact excess_transfer_lt hhi hlo hgap hmean.1 hmean.2

theorem smoothing_run (hash : RendezvousHash) (first : String) (rest : List String)
    (slots : List PartitionSlot) :
    Smoothing (first::rest) slots
        (repeatStep (smoothStep hash first rest) (2*slots.length) (slots,countOn slots)) ∧
      Level (first::rest)
        (countOn (repeatStep (smoothStep hash first rest) (2*slots.length) (slots,countOn slots)).1) := by
  have h0 : Smoothing (first::rest) slots (slots,countOn slots) := ⟨rfl,Moved.refl _ _,rfl⟩
  have hkeep : ∀t u,Smoothing (first::rest) slots t → smoothStep hash first rest t=some u →
      Smoothing (first::rest) slots u := fun t u h hs => (smoothing_step t u h hs).1
  have hrun := repeatStep_invariant hkeep (2*slots.length) _ h0
  have hsettled := repeatStep_settled hkeep (fun t => (excess (first::rest).toFinset
      (mean (first::rest).toFinset (countOn slots)) (countOn t.1)).toNat)
    (fun t u h hs => by
      have hdrop := (smoothing_step t u h hs).2
      have hpos := excess_nonneg (S := (first::rest).toFinset) (f := countOn u.1)
        (mean (first::rest).toFinset (countOn slots))
      omega)
    (2*slots.length) _ h0 (by
      have hle := excess_le (S := (first::rest).toFinset) (fun b _ => countOn_nonneg slots b)
      have hlen := sum_countOn_le (first::rest).toFinset slots
      dsimp only
      omega)
  refine ⟨hrun,?_⟩
  generalize repeatStep (smoothStep hash first rest) (2*slots.length) (slots,countOn slots)=t at hrun hsettled
  obtain ⟨u,counts⟩ := t
  have hc : counts=countOn u := hrun.counts
  subst hc
  exact smoothStep_none.mp hsettled

end Smoothing

theorem smoothPartitions_moved (hash : RendezvousHash) (alive : List String)
    (slots : List PartitionSlot) : Moved alive slots (smoothPartitions hash alive slots) := by
  match alive with
  | [] => exact Moved.refl _ _
  | [_] => exact Moved.refl _ _
  | first::second::rest => exact (smoothing_run hash first (second::rest) slots).1.moved

theorem smoothPartitions_level (hash : RendezvousHash) (alive : List String)
    (slots : List PartitionSlot) : Level alive (countOn (smoothPartitions hash alive slots)) := by
  match alive with
  | [] => intro a ha; cases ha
  | [x] =>
    intro a ha b hb
    rw [List.mem_singleton.mp ha,List.mem_singleton.mp hb]
    omega
  | first::second::rest => exact (smoothing_run hash first (second::rest) slots).2

theorem smoothPartitions_of_level (h : Level alive (countOn slots)) :
    smoothPartitions hash alive slots=slots := by
  match alive with
  | [] => rfl
  | [_] => rfl
  | first::second::rest => rw [smoothPartitions,repeatStep_of_none (smoothStep_none.mpr h)]

/-- A slot of the topic's fullest broker `hi`, with `lo` its emptiest and at least two behind. -/
structure Donor (alive : List String) (slots : List PartitionSlot) (topic hi lo : String)
    (donor : Nat) : Prop where
  slot : ∃s,slots[donor]?=some s ∧ s.topic=topic ∧ s.broker=hi
  ends : Extremes (topicCountOn slots topic) alive (hi,lo)
  gap : topicCountOn slots topic lo+2≤topicCountOn slots topic hi

inductive Repair.Sound (alive topics : List String) (slots : List PartitionSlot) : Repair → Prop
  | move {topic hi lo : String} {donor : Nat} (listed : topic∈topics)
    (donates : Donor alive slots topic hi lo donor)
    (down : countOn slots lo≤ countOn slots hi) : Sound alive topics slots (.move donor hi lo)
  | swap {topic hi lo : String} {donor partner : Nat} {u : PartitionSlot} (listed : topic∈topics)
    (donates : Donor alive slots topic hi lo donor) (up : countOn slots hi<countOn slots lo)
    (other : slots[partner]?=some u) (fits : Swappable slots topic hi lo u) :
    Sound alive topics slots (.swap donor partner hi lo)

section PerTopic

variable {first : String} {rest : List String} {r : Repair}

theorem topicRepair_sound (listed : topic∈topics)
    (h : topicRepair slots first rest topic=some r) : r.Sound (first::rest) topics slots := by
  unfold topicRepair at h
  dsimp only at h
  have hends := extremes_spec (topicCountOn slots topic) first rest
  generalize extremes (topicCountOn slots topic) first rest=p at h hends
  by_cases hgap : topicCountOn slots topic p.1-topicCountOn slots topic p.2≤1
  · rw [if_pos hgap] at h
    cases h
  rw [if_neg hgap] at h
  obtain ⟨donor,hdonor,h⟩ := Option.bind_eq_some_iff.mp h
  have hfrom : Donor (first::rest) slots topic p.1 p.2 donor := ⟨pickIndex_some hdonor,hends,by omega⟩
  split_ifs at h with hdown
  · cases h
    exact .move listed hfrom hdown
  · obtain ⟨partner,hpartner,h⟩ := Option.map_eq_some_iff.mp h
    cases h
    obtain ⟨u,hu,hfits⟩ := pickIndex_some hpartner
    exact .swap listed hfrom (by omega) hu hfits

theorem nextRepair_sound (h : nextRepair first rest topics slots=some r)
    : r.Sound (first::rest) topics slots := by
  obtain ⟨topic,hmem,ht⟩ := List.exists_of_findSome?_eq_some h
  exact topicRepair_sound hmem ht

theorem topicRepair_none : topicRepair slots first rest topic=none ↔
    Level (first::rest) (topicCountOn slots topic) ∨
    (countOn slots (extremes (topicCountOn slots topic) first rest).1<
        countOn slots (extremes (topicCountOn slots topic) first rest).2 ∧
      ∀s∈slots,¬Swappable slots topic (extremes (topicCountOn slots topic) first rest).1
        (extremes (topicCountOn slots topic) first rest).2 s) := by
  unfold topicRepair
  dsimp only
  have hends := extremes_spec (topicCountOn slots topic) first rest
  generalize extremes (topicCountOn slots topic) first rest=p at hends
  by_cases hgap : topicCountOn slots topic p.1-topicCountOn slots topic p.2≤1
  · have hlevel : Level (first::rest) (topicCountOn slots topic) := by
      intro a ha b hb
      have h1 := hends.le_hi a ha
      have h2 := hends.lo_le b hb
      omega
    simp [hgap,hlevel]
  · have hlevel : ¬Level (first::rest) (topicCountOn slots topic) :=
      fun h => hgap (h p.1 hends.hi_mem p.2 hends.lo_mem)
    have hpos : 0<topicCountOn slots topic p.1 := by
      have := topicCountOn_nonneg slots topic p.2
      omega
    obtain ⟨s,hs,hon⟩ := exists_of_topicCountOn hpos
    obtain ⟨donor,hdonor⟩ : ∃donor,pickSlot slots topic p.1=some donor := by
      refine Option.ne_none_iff_exists'.mp (fun hnone => ?_)
      exact pickIndex_none.mp hnone s hs hon
    rw [if_neg hgap,hdonor,Option.bind_some]
    by_cases hdown : countOn slots p.2≤ countOn slots p.1
    · simp [hdown,hlevel,not_lt.mpr hdown]
    · rw [if_neg hdown,Option.map_eq_none_iff]
      simp only [hlevel,false_or,not_le.mp hdown,true_and]
      exact pickIndex_none

theorem partner_after {partner : Nat} {u : PartitionSlot}
    (h : Donor alive slots topic hi lo donor) (other : slots[partner]?=some u)
    (fits : Swappable slots topic hi lo u) (b : String) : (moveTo slots donor b)[partner]?=some u := by
  obtain ⟨s,hs,htopic,_⟩ := h.slot
  have hne : donor≠partner := by
    rintro rfl
    rw [hs] at other
    cases other
    exact fits.2.1 htopic
  rw [getElem?_moveTo,if_neg hne,other]

theorem repair_moved (h : r.Sound alive topics slots) : Moved alive slots (r.apply slots) := by
  cases h with
  | move _ hd _ => exact moveTo_moved hd.ends.lo_mem _ _
  | swap _ hd _ _ _ => exact (moveTo_moved hd.ends.lo_mem _ _).trans (moveTo_moved hd.ends.hi_mem _ _)

structure TopicShift (S : Finset String) (f g : String → Int) : Prop where
  total : S.sum g=S.sum f
  excess : ∀q,excess S q g≤excess S q f

theorem TopicShift.refl (S : Finset String) (f : String → Int) : TopicShift S f f := ⟨rfl,fun _ => le_refl _⟩

theorem topicShift_transfer {f : String → Int} {a : String} (ha : a∈alive) (hb : b∈alive)
    (h : f b<f a) : TopicShift alive.toFinset f (transfer f a b) :=
  ⟨sum_transfer_eq (List.mem_toFinset.mpr ha) (List.mem_toFinset.mpr hb) (ne_of_gap h),
    fun q => excess_transfer_le q (List.mem_toFinset.mpr ha) (List.mem_toFinset.mpr hb) h⟩

theorem donor_counts (h : Donor alive slots topic hi lo donor)
    (t : String) :
    topicCountOn (moveTo slots donor lo) t=
      if t=topic then transfer (topicCountOn slots t) hi lo else topicCountOn slots t := by
  obtain ⟨s,hs,htopic,hb⟩ := h.slot
  rw [topicCountOn_moveTo hs lo t,htopic,hb]

theorem donor_topicShift (h : Donor alive slots topic hi lo donor)
    (t : String) :
    TopicShift alive.toFinset (topicCountOn slots t) (topicCountOn (moveTo slots donor lo) t) := by
  rw [donor_counts h t]
  split_ifs with ht
  · subst ht
    have := h.gap
    exact topicShift_transfer h.ends.hi_mem h.ends.lo_mem (by omega)
  · exact .refl _ _

theorem partner_counts {partner : Nat} {u : PartitionSlot}
    (h : Donor alive slots topic hi lo donor) (other : slots[partner]?=some u)
    (fits : Swappable slots topic hi lo u) (t : String) :
    topicCountOn (moveTo (moveTo slots donor lo) partner hi) t=
      if t=u.topic then transfer (topicCountOn slots t) lo hi else topicCountOn (moveTo slots donor lo) t := by
  rw [topicCountOn_moveTo (partner_after h other fits lo) hi t,fits.1]
  split_ifs with ht
  · rw [donor_counts h t,if_neg (by rw [ht]; exact fits.2.1)]
  · rfl

theorem repair_topicShift (h : r.Sound alive topics slots) (t : String) :
    TopicShift alive.toFinset (topicCountOn slots t) (topicCountOn (r.apply slots) t) := by
  cases h with
  | move _ hd _ => exact donor_topicShift hd t
  | swap _ hd _ other fits =>
    rw [Repair.apply,partner_counts hd other fits t]
    split_ifs with ht
    · subst ht
      exact topicShift_transfer hd.ends.lo_mem hd.ends.hi_mem fits.2.2
    · exact donor_topicShift hd t

theorem repair_improves (h : r.Sound alive topics slots) :
    ∃topic∈topics,excess alive.toFinset (mean alive.toFinset (topicCountOn slots topic))
        (topicCountOn (r.apply slots) topic)+1≤
      excess alive.toFinset (mean alive.toFinset (topicCountOn slots topic)) (topicCountOn slots topic) := by
  have hdonor : ∀{topic hi lo : String} {donor : Nat},Donor alive slots topic hi lo donor →
      excess alive.toFinset (mean alive.toFinset (topicCountOn slots topic))
          (transfer (topicCountOn slots topic) hi lo)+1≤
        excess alive.toFinset (mean alive.toFinset (topicCountOn slots topic)) (topicCountOn slots topic) := by
    intro topic hi lo donor hd
    have hhi := List.mem_toFinset.mpr hd.ends.hi_mem
    have hlo := List.mem_toFinset.mpr hd.ends.lo_mem
    have hmean := mean_between hhi hlo (fun b hb => hd.ends.le_hi b (List.mem_toFinset.mp hb))
      (fun b hb => hd.ends.lo_le b (List.mem_toFinset.mp hb)) hd.gap
    exact excess_transfer_lt hhi hlo hd.gap hmean.1 hmean.2
  cases h with
  | @move topic _ _ _ listed hd _ =>
    refine ⟨topic,listed,?_⟩
    rw [Repair.apply,donor_counts hd,if_pos rfl]
    exact hdonor hd
  | @swap topic _ _ _ _ _ listed hd _ other fits =>
    refine ⟨topic,listed,?_⟩
    rw [Repair.apply,partner_counts hd other fits,if_neg fits.2.1.symm,donor_counts hd,if_pos rfl]
    exact hdonor hd

def unevenness (alive topics : List String) (start slots : List PartitionSlot) : Int :=
  topics.toFinset.sum fun t =>
    excess alive.toFinset (mean alive.toFinset (topicCountOn start t)) (topicCountOn slots t)

theorem unevenness_nonneg (alive topics : List String) (start slots : List PartitionSlot) :
    0≤unevenness alive topics start slots :=
  Finset.sum_nonneg (fun _ _ => excess_nonneg _)

theorem unevenness_le (alive topics : List String) (slots : List PartitionSlot) :
    unevenness alive topics slots slots≤2*slots.length := by
  have hterm : unevenness alive topics slots slots≤
      topics.toFinset.sum fun t => 2*((slots.countP fun s => s.topic=t : Nat) : Int) := by
    refine Finset.sum_le_sum (fun t _ => ?_)
    have h1 := excess_le (S := alive.toFinset) (fun b _ => topicCountOn_nonneg slots t b)
    have h2 := sum_topicCountOn_le alive.toFinset slots t
    omega
  have hsum := sum_countP_le topics.toFinset (fun _ : PartitionSlot => True) (·.topic) slots
  simp only [true_and,decide_true,List.countP_true] at hsum
  rw [← Finset.mul_sum] at hterm
  omega

structure Passing (alive : List String) (start slots : List PartitionSlot) : Prop where
  moved : Moved alive start slots
  total : ∀t,alive.toFinset.sum (topicCountOn slots t)=alive.toFinset.sum (topicCountOn start t)

theorem passing_step {start : List PartitionSlot} {t u : List PartitionSlot}
    (h : Passing (first::rest) start t) (hstep : improveOneTopic first rest topics t=some u) :
    Passing (first::rest) start u ∧
      unevenness (first::rest) topics start u+1≤unevenness (first::rest) topics start t := by
  obtain ⟨r,hr,rfl⟩ := Option.map_eq_some_iff.mp hstep
  have hsound := nextRepair_sound hr
  have hshift := repair_topicShift hsound
  constructor
  · exact ⟨h.moved.trans (repair_moved hsound),fun topic => (hshift topic).total.trans (h.total topic)⟩
  · obtain ⟨topic,hmem,hdrop⟩ := repair_improves hsound
    have hmean : mean (first::rest).toFinset (topicCountOn t topic)=
        mean (first::rest).toFinset (topicCountOn start topic) := by
      rw [mean,mean,h.total topic]
    rw [hmean] at hdrop
    exact Finset.sum_lt_sum (fun x _ => (hshift x).excess _)
      ⟨topic,List.mem_toFinset.mpr hmem,by omega⟩

end PerTopic

def passRepair (alive topics : List String) (slots : List PartitionSlot) : Option Repair :=
  match alive with
  | first::second::rest => nextRepair first (second::rest) topics slots
  | _ => none

def passTurns (alive : List String) (slots : List PartitionSlot) : Nat := slots.length*alive.length+16

def passState (alive : List String) (slots : List PartitionSlot) (k : Nat) : List PartitionSlot :=
  repeatStep (fun s => (passRepair alive (topicNames slots) s).map (·.apply s)) k slots

theorem smoothPartitionsPerTopic_eq (alive : List String) (slots : List PartitionSlot) :
    smoothPartitionsPerTopic alive slots=passState alive slots (passTurns alive slots) := by
  match alive with
  | [] => exact (repeatStep_of_none rfl _).symm
  | [_] => exact (repeatStep_of_none rfl _).symm
  | first::second::rest => rfl

theorem passRepair_sound {r : Repair} (h : passRepair alive topics slots=some r)
    : r.Sound alive topics slots := by
  match alive with
  | [] => cases h
  | [_] => cases h
  | first::second::rest => exact nextRepair_sound h

theorem passState_moved (alive : List String) (slots : List PartitionSlot) (k : Nat) :
    Moved alive slots (passState alive slots k) := by
  have hkeep : ∀t u,Moved alive slots t →
      (passRepair alive (topicNames slots) t).map (·.apply t)=some u → Moved alive slots u := by
    intro t u h hstep
    obtain ⟨r,hr,rfl⟩ := Option.map_eq_some_iff.mp hstep
    exact h.trans (repair_moved (passRepair_sound hr))
  exact repeatStep_invariant hkeep k slots (.refl _ _)

theorem pass_settled_early (first second : String) (rest : List String)
    (slots : List PartitionSlot) : passRepair (first::second::rest) (topicNames slots)
      (passState (first::second::rest) slots (slots.length*(first::second::rest).length))=none := by
  have hkeep : ∀t u,Passing (first::second::rest) slots t →
      improveOneTopic first (second::rest) (topicNames slots) t=some u →
      Passing (first::second::rest) slots u := fun t u h hs => (passing_step h hs).1
  have h := repeatStep_settled hkeep
    (fun t => (unevenness (first::second::rest) (topicNames slots) slots t).toNat)
    (fun t u h hs => by
      have hdrop := (passing_step h hs).2
      have hpos := unevenness_nonneg (first::second::rest) (topicNames slots) slots u
      omega)
    (slots.length*(first::second::rest).length) slots ⟨.refl _ _,fun _ => rfl⟩ (by
      have hle := unevenness_le (first::second::rest) (topicNames slots) slots
      have hmul : slots.length*2≤ slots.length*(first::second::rest).length := Nat.mul_le_mul_left _ (by simp)
      omega)
  exact Option.map_eq_none_iff.mp h

theorem pass_ends_early (first second : String) (rest : List String) (slots : List PartitionSlot) :
    smoothPartitionsPerTopic (first::second::rest) slots=
      passState (first::second::rest) slots (slots.length*(first::second::rest).length) := by
  rw [smoothPartitionsPerTopic_eq]
  refine repeatStep_add_of_none ?_ 16
  exact Option.map_eq_none_iff.mpr (pass_settled_early first second rest slots)

theorem pass_settled (alive : List String) (slots : List PartitionSlot) :
    passRepair alive (topicNames slots) (smoothPartitionsPerTopic alive slots)=none := by
  match alive with
  | [] => rfl
  | [_] => rfl
  | first::second::rest =>
    rw [pass_ends_early]
    exact pass_settled_early first second rest slots

/-! The two passes over slots that are all inherited: no move shifts a topic the wrong way, so the
counts of the start cannot come back once something has moved. -/

section Inherited

variable {first : String} {rest names : List String}

theorem TopicShift.trans {S : Finset String} {f g k : String → Int} (h : TopicShift S f g)
    (h' : TopicShift S g k) : TopicShift S f k :=
  ⟨h'.total.trans h.total,fun q => (h'.excess q).trans (h.excess q)⟩

end Inherited

end Balancer

end Kaas
