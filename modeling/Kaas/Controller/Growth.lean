import Kaas.Controller.Balance
import Kaas.Controller.Skew

namespace Kaas

namespace Balancer

variable {hash : RendezvousHash} {alive : List String} {slots : List PartitionSlot} {l : Load} {b : String}

/-! The load behind a placement. -/

def placedLoad (hash : RendezvousHash) (alive : List String) (l : Load) (slots : List PartitionSlot) : Load :=
  slots.foldl (fun l s => if s.broker≠"" then l
    else match pickBest (placeBetter hash l s.topic s.partition) alive with
      | none => l
      | some broker => l.add s.topic broker) l

theorem placedLoad_of_placed (h : ∀s∈slots,s.broker≠"") : placedLoad hash alive l slots=l := by
  induction slots with
  | nil => rfl
  | cons s slots ih =>
    rw [placedLoad,List.foldl_cons,if_pos (h s List.mem_cons_self)]
    exact ih (fun u hu => h u (List.mem_cons_of_mem _ hu))

theorem countOn_cons (s : PartitionSlot) (slots : List PartitionSlot) (b : String) :
    countOn (s::slots) b=countOn slots b+(if s.broker=b then 1 else 0) := by
  simp only [countOn,List.countP_cons,decide_eq_true_eq]
  split_ifs <;> rfl

theorem topicCountOn_cons (s : PartitionSlot) (slots : List PartitionSlot) (t b : String) :
    topicCountOn (s::slots) t b=topicCountOn slots t b+(if s.topic=t ∧ s.broker=b then 1 else 0) := by
  simp only [topicCountOn,List.countP_cons,decide_eq_true_eq]
  split_ifs <;> rfl

theorem placedLoad_counts (hash : RendezvousHash) (alive : List String) (hb : b≠"") (t : String)
    (l : Load) (slots : List PartitionSlot) :
    (placedLoad hash alive l slots).total b+countOn slots b=l.total b+countOn
    (placeSlots hash alive l slots) b ∧
    (placedLoad hash alive l slots).perTopic t b+topicCountOn slots t b=
      l.perTopic t b+topicCountOn (placeSlots hash alive l slots) t b := by
  induction slots generalizing l with
  | nil => exact ⟨rfl,rfl⟩
  | cons s slots ih =>
    rw [placedLoad,List.foldl_cons,placeSlots]
    by_cases hs : s.broker≠""
    · rw [if_pos hs,if_pos hs]
      have h := ih l
      unfold placedLoad at h
      simp only [countOn_cons,topicCountOn_cons]
      omega
    · rw [if_neg hs,if_neg hs]
      cases pickBest (placeBetter hash l s.topic s.partition) alive with
      | none =>
        have h := ih l
        unfold placedLoad at h
        simp only [countOn_cons,topicCountOn_cons]
        omega
      | some broker =>
        have h := ih (l.add s.topic broker)
        have hopen : s.broker≠b := fun he => hs (he ▸ hb)
        unfold placedLoad at h
        simp only [countOn_cons,topicCountOn_cons,hopen,and_false,if_false,Load.add,
          eq_comm (a := b),eq_comm (a := t)] at h ⊢
        omega

theorem pinnedLoad_counts (hb : b≠"") (t : String) (slots : List PartitionSlot) :
    (pinnedLoad slots).total b=countOn slots b ∧ (pinnedLoad slots).perTopic t b=topicCountOn slots t b := by
  have hfold (l : Load) (slots : List PartitionSlot) :
      (slots.foldl (fun l s => if s.broker="" then l else l.add s.topic s.broker) l).total b=
          l.total b+countOn slots b ∧
        (slots.foldl (fun l s => if s.broker="" then l else l.add s.topic s.broker) l).perTopic t b=
          l.perTopic t b+topicCountOn slots t b := by
    induction slots generalizing l with
    | nil => exact ⟨(add_zero _).symm,(add_zero _).symm⟩
    | cons s slots ih =>
      rw [List.foldl_cons,(ih _).1,(ih _).2,countOn_cons,topicCountOn_cons]
      by_cases hs : s.broker=""
      · have hopen : s.broker≠b := fun he => hb (he ▸ hs)
        simp [hs,hb.symm]
      · simp only [hs,if_false,Load.add,eq_comm (a := b),eq_comm (a := t)]
        omega
  have h := hfold ⟨fun _ => 0,fun _ _ => 0⟩ slots
  simp only [zero_add] at h
  exact h

theorem placeUnpinned_counts (hb : b≠"") (t : String) (slots : List PartitionSlot) :
    countOn (placeUnpinned hash alive slots) b=(placedLoad hash alive (pinnedLoad slots) slots).total b ∧
    topicCountOn (placeUnpinned hash alive slots) t b=
      (placedLoad hash alive (pinnedLoad slots) slots).perTopic t b := by
  have hpinned := pinnedLoad_counts hb t slots
  have hplaced := placedLoad_counts hash alive hb t (pinnedLoad slots) slots
  unfold placeUnpinned
  omega

theorem mem_placeSlots {s : PartitionSlot} (hs : s∈slots) (hb : s.broker≠"") :
    s∈placeSlots hash alive l slots := by
  induction slots generalizing l with
  | nil => cases hs
  | cons u slots ih =>
    rw [placeSlots]
    rcases List.mem_cons.mp hs with rfl|hs
    · rw [if_pos hb]
      exact List.mem_cons_self
    · split_ifs
      · exact List.mem_cons_of_mem _ (ih hs)
      · split
        · exact List.mem_cons_of_mem _ (ih hs)
        · exact List.mem_cons_of_mem _ (ih hs)

/-- Both loads are level, and whoever has been served in this round has at least the total of
whoever has not. -/
structure Round (alive : List String) (f g : String → Int) : Prop where
  total : Level alive f
  own : Level alive g
  served : ∀a∈alive,∀x∈alive,g x<g a → f x≤f a

theorem Round.add {f g : String → Int} (h : Round alive f g) (hb : b∈alive)
    (least : ∀a∈alive,g b<g a ∨ (g b=g a ∧ f b≤f a)) :
    Round alive (fun x => f x+(if x=b then 1 else 0)) (fun x => g x+(if x=b then 1 else 0)) := by
  have hmin : ∀a∈alive,f b≤f a := by
    intro a ha
    rcases least a ha with hlt|⟨_,hle⟩
    · exact h.served a ha b hb hlt
    · exact hle
  refine ⟨fun a ha x hx => ?_,fun a ha x hx => ?_,fun a ha x hx => ?_⟩
  · have h1 := h.total a ha x hx
    have h2 := hmin x hx
    split_ifs <;> (try subst_vars) <;> omega
  · have h1 := h.own a ha x hx
    have h2 := least x hx
    split_ifs <;> (try subst_vars) <;> omega
  · have h1 := h.served a ha x hx
    have h2 := h.total x hx b hb
    have h3 := h.own a ha b hb
    have h4 := least x hx
    split_ifs <;> (try subst_vars) <;> omega

theorem pickBest_place {t : String} {partition : Int}
    (h : pickBest (placeBetter hash l t partition) alive=some b) :
    ∀a∈alive,l.perTopic t b<l.perTopic t a ∨ (l.perTopic t b=l.perTopic t a ∧ l.total b≤l.total a) := by
  refine pickBest_least (R := fun x y => l.perTopic t x<l.perTopic t y ∨
    (l.perTopic t x=l.perTopic t y ∧ l.total x≤l.total y)) (fun x => ?_) (fun h1 h2 => ?_)
    (fun hw => ?_) (fun hl => ?_) h
  · exact Or.inr ⟨rfl,le_refl _⟩
  · omega
  · rw [placeBetter,decide_eq_true_eq] at hw
    omega
  · rw [placeBetter,decide_eq_true_eq] at hl
    omega

theorem round_run (hash : RendezvousHash) {t : String} (h : Round alive l.total (l.perTopic t))
    (hs : ∀s∈slots,s.broker="" ∧ s.topic=t) :
    Round alive (placedLoad hash alive l slots).total ((placedLoad hash alive l slots).perTopic t) ∧
      ∀u≠t,(placedLoad hash alive l slots).perTopic u=l.perTopic u := by
  induction slots generalizing l with
  | nil => exact ⟨h,fun _ _ => rfl⟩
  | cons s slots ih =>
    obtain ⟨hopen,rfl⟩ := hs s List.mem_cons_self
    have hrest := fun u hu => hs u (List.mem_cons_of_mem _ hu)
    rw [placedLoad,List.foldl_cons,if_neg (not_not.mpr hopen)]
    cases hbest : pickBest (placeBetter hash l s.topic s.partition) alive with
    | none => exact ih h hrest
    | some broker =>
      have hadd := h.add (pickBest_mem hbest) (pickBest_place hbest)
      have hround : Round alive (l.add s.topic broker).total ((l.add s.topic broker).perTopic s.topic) := by
        simp only [Load.add,true_and]
        exact hadd
      obtain ⟨hend,hothers⟩ := ih hround hrest
      refine ⟨hend,fun u hu => (hothers u hu).trans ?_⟩
      simp only [Load.add,hu,false_and,if_false,add_zero]

structure LevelLoad (alive : List String) (l : Load) : Prop where
  total : Level alive l.total
  perTopic : ∀t,Level alive (l.perTopic t)

theorem levelLoad_topics {slotsOf : TopicSpec → List PartitionSlot} {topics : List TopicSpec}
    (hnames : (topics.map (·.name)).Nodup) (htopic : ∀t∈topics,∀s∈slotsOf t,s.topic=t.name)
    (hkind : ∀t∈topics,(∀s∈slotsOf t,s.broker≠"") ∨
      ((∀s∈slotsOf t,s.broker="") ∧ ∀b∈alive,l.perTopic t.name b=0))
    (h : LevelLoad alive l) : LevelLoad alive (placedLoad hash alive l (topics.flatMap slotsOf)) := by
  induction topics generalizing l with
  | nil => exact h
  | cons t topics ih =>
    rw [List.map_cons,List.nodup_cons] at hnames
    have htail := fun u hu => htopic u (List.mem_cons_of_mem _ hu)
    have hkinds := fun u hu => hkind u (List.mem_cons_of_mem _ hu)
    rw [List.flatMap_cons,placedLoad,List.foldl_append]
    change LevelLoad alive
      (placedLoad hash alive (placedLoad hash alive l (slotsOf t)) (topics.flatMap slotsOf))
    rcases hkind t List.mem_cons_self with hpinned|⟨hopen,hnone⟩
    · rw [placedLoad_of_placed hpinned]
      exact ih hnames.2 htail hkinds h
    · have hstart : Round alive l.total (l.perTopic t.name) := by
        refine ⟨h.total,h.perTopic _,fun a ha x hx hlt => ?_⟩
        rw [hnone a ha,hnone x hx] at hlt
        exact absurd hlt (lt_irrefl 0)
      obtain ⟨hend,hothers⟩ := round_run hash hstart
        (fun s hs => ⟨hopen s hs,htopic t List.mem_cons_self s hs⟩)
      refine ih hnames.2 htail (fun u hu => ?_) ⟨hend.total,fun u => ?_⟩
      · have hne : u.name≠t.name := fun he => hnames.1 (he ▸ List.mem_map_of_mem hu)
        rw [hothers u.name hne]
        exact hkinds u hu
      · by_cases hu : u=t.name
        · rw [hu]
          exact hend.own
        · rw [hothers u hu]
          exact h.perTopic u

/-- A level layout of the old topics on alive brokers, and a catalog with new ones anywhere between
them. -/
structure Grown (brokers : List String) (prev : List PartitionAssignment)
    (old topics : List TopicSpec) : Prop where
  some_alive : brokers≠[]
  ids : ""∉brokers
  names : (topics.map (·.name)).Nodup
  catalog : ∃new,topics.Perm (old++new)
  covered : (prev.map (·.key)).Perm (catalogKeys old)
  leaders : ∀p∈prev,p.broker∈brokers
  cluster : skew (assignedTo prev) brokers≤1
  perTopic : ∀t,skew (assignedIn prev t) brokers≤1

variable {brokers : List String} {prev : Option (List PartitionAssignment)} {old topics : List TopicSpec}

def carried (prev : Option (List PartitionAssignment)) (brokers : List String) (topics : List TopicSpec) :
    List PartitionSlot := pinnedSlots (prevPartitions prev) (sortedBrokers brokers) topics

theorem skew_le_one (hne : brokers≠[]) {f : String → Int} : skew f brokers≤1 ↔ Level brokers f := by
  obtain ⟨first,rest,rfl⟩ := List.exists_cons_of_ne_nil hne
  exact skew_level

section Grown

variable (h : Grown brokers (prev.getD []) old topics)
include h

theorem Grown.nodup_topics : (catalogKeys topics).Nodup := nodup_catalogKeys h.names

theorem Grown.keys_perm : ∃new,topics.Perm (old++new) ∧
    (catalogKeys topics).Perm (catalogKeys old++catalogKeys new) := by
  obtain ⟨new,hperm⟩ := h.catalog
  refine ⟨new,hperm,?_⟩
  have hkeys := hperm.flatMap_right (fun t : TopicSpec =>
    (List.range t.partitionCount.toNat).map fun i : Nat => (t.name,(i : Int)))
  rw [List.flatMap_append] at hkeys
  exact hkeys

theorem Grown.nodup_prev : ((prev.getD []).map (·.key)).Nodup := by
  obtain ⟨new,_,hkeys⟩ := h.keys_perm
  have hboth := hkeys.nodup_iff.mp h.nodup_topics
  exact h.covered.nodup_iff.mpr hboth.of_append_left

theorem Grown.pinned {p : PartitionAssignment} (hp : p∈prev.getD []) :
    (prevPartitions prev).lookup p.key=some p ∧
      pinSlot (prevPartitions prev) (sortedBrokers brokers) p.topic p.partition=
        ⟨p.topic,p.partition,p.broker,true⟩ := by
  have hlook : (prevPartitions prev).lookup p.key=some p := prevPartitions_lookup h.nodup_prev hp
  have halive : p.broker∈sortedBrokers brokers := mem_sortedBrokers.mpr (h.leaders p hp)
  refine ⟨hlook,?_⟩
  unfold pinSlot
  rw [show (p.topic,p.partition)=p.key from rfl,hlook]
  simp only [Option.map_some,Option.filter_some,halive,decide_true,if_true]

theorem Grown.unpinned {k : PartitionKey} (hk : k∉catalogKeys old) :
    pinSlot (prevPartitions prev) (sortedBrokers brokers) k.1 k.2=⟨k.1,k.2,"",false⟩ := by
  have hlook : (prevPartitions prev).lookup k=none := by
    rw [prevPartitions,foldl_insert_other _ (fun hmem => hk (h.covered.mem_iff.mp hmem)),AList.lookup_empty]
  unfold pinSlot
  rw [hlook]
  rfl

theorem Grown.pinned_counts (Q : String → String → Bool) (hQ : ∀t,Q t ""=false) :
    (carried prev brokers topics).countP (fun s => Q s.topic s.broker)=
      (prev.getD []).countP (fun p => Q p.topic p.broker) := by
  obtain ⟨new,_,hkeys⟩ := h.keys_perm
  have hdisjoint := List.disjoint_of_nodup_append (hkeys.nodup_iff.mp h.nodup_topics)
  rw [carried,pinnedSlots_eq,List.countP_map,hkeys.countP_eq,List.countP_append,
    ← h.covered.countP_eq,List.countP_map]
  have hnew : (catalogKeys new).countP ((fun s : PartitionSlot => Q s.topic s.broker) ∘
      fun k => pinSlot (prevPartitions prev) (sortedBrokers brokers) k.1 k.2)=0 := by
    refine List.countP_eq_zero.mpr (fun k hk => ?_)
    rw [Function.comp_apply,h.unpinned (fun hold => hdisjoint hold hk),hQ]
    exact Bool.false_ne_true
  rw [hnew,add_zero]
  refine List.countP_congr (fun p hp => ?_)
  simp only [Function.comp_apply]
  rw [show pinSlot (prevPartitions prev) (sortedBrokers brokers) p.key.1 p.key.2=_ from (h.pinned hp).2]

theorem Grown.pinned_load (hb : b∈brokers) (t : String) :
    (pinnedLoad (carried prev brokers topics)).total b= assignedTo (prev.getD []) b ∧
      (pinnedLoad (carried prev brokers topics)).perTopic t b=
        assignedIn (prev.getD []) t b := by
  have hne : b≠"" := fun he => h.ids (he ▸ hb)
  obtain ⟨htotal,hown⟩ := pinnedLoad_counts hne t
    (carried prev brokers topics)
  have hall := h.pinned_counts (fun _ x => decide (x=b)) (fun _ => decide_eq_false hne.symm)
  have hin := h.pinned_counts (fun u x => decide (u=t ∧ x=b))
    (fun _ => decide_eq_false (fun hx => hne hx.2.symm))
  rw [htotal,hown]
  exact ⟨congrArg Nat.cast hall,congrArg Nat.cast hin⟩

theorem Grown.placed (hash : RendezvousHash) :
    LevelLoad (sortedBrokers brokers) (placedLoad hash (sortedBrokers brokers)
    (pinnedLoad (carried prev brokers topics))
    (carried prev brokers topics)) := by
  refine levelLoad_topics h.names (fun t _ s hs => ?_) (fun t ht => ?_)
    ⟨fun a ha c hc => ?_,fun t a ha c hc => ?_⟩
  · obtain ⟨i,_,rfl⟩ := List.mem_map.mp hs
    exact congrArg Prod.fst (pinSlot_key (prevPartitions prev) (sortedBrokers brokers) t.name i)
  · obtain ⟨new,hperm,hkeys⟩ := h.keys_perm
    have hdisjoint := List.disjoint_of_nodup_append (hkeys.nodup_iff.mp h.nodup_topics)
    have hkey (i : Nat) (hi : i∈List.range t.partitionCount.toNat) (l : List TopicSpec) (hl : t∈l) :
        (t.name,(i : Int))∈catalogKeys l := List.mem_flatMap.mpr ⟨t,hl,List.mem_map_of_mem hi⟩
    rcases List.mem_append.mp (hperm.mem_iff.mp ht) with hold|hnew
    · refine Or.inl (fun s hs => ?_)
      obtain ⟨i,hi,rfl⟩ := List.mem_map.mp hs
      obtain ⟨p,hp,hpk⟩ := List.mem_map.mp (h.covered.mem_iff.mpr (hkey i hi old hold))
      obtain ⟨htop,hpart⟩ := Prod.mk.inj hpk
      rw [← htop,← hpart,(h.pinned hp).2]
      exact fun he => h.ids (he ▸ h.leaders p hp)
    · refine Or.inr ⟨fun s hs => ?_,fun c hc => ?_⟩
      · obtain ⟨i,hi,rfl⟩ := List.mem_map.mp hs
        rw [h.unpinned (k := (t.name,(i : Int))) (fun hk => hdisjoint hk (hkey i hi new hnew))]
      · rw [(h.pinned_load (mem_sortedBrokers.mp hc) t.name).2]
        refine congrArg Nat.cast (List.countP_eq_zero.mpr (fun p hp hd => ?_))
        have htop := (of_decide_eq_true hd).1
        obtain ⟨u,hu,hname,_⟩ := mem_catalogKeys.mp (h.covered.mem_iff.mp (List.mem_map_of_mem hp))
        have hnames := (hperm.map (·.name)).nodup_iff.mp h.names
        rw [List.map_append] at hnames
        exact List.disjoint_of_nodup_append hnames (List.mem_map_of_mem hu)
          (hname.trans htop ▸ List.mem_map_of_mem hnew)
  · rw [(h.pinned_load (mem_sortedBrokers.mp ha) "").1,(h.pinned_load (mem_sortedBrokers.mp hc) "").1]
    exact (skew_le_one h.some_alive).mp h.cluster a (mem_sortedBrokers.mp ha) c (mem_sortedBrokers.mp hc)
  · rw [(h.pinned_load (mem_sortedBrokers.mp ha) t).2,(h.pinned_load (mem_sortedBrokers.mp hc) t).2]
    exact (skew_le_one h.some_alive).mp (h.perTopic t) a (mem_sortedBrokers.mp ha) c (mem_sortedBrokers.mp hc)

theorem Grown.level (hash : RendezvousHash) (t : String) :
    Level (sortedBrokers brokers) (countOn (placeUnpinned hash (sortedBrokers brokers)
      (carried prev brokers topics))) ∧
    Level (sortedBrokers brokers) (topicCountOn (placeUnpinned hash (sortedBrokers brokers)
      (carried prev brokers topics)) t) := by
  have hne {c : String} (hc : c∈sortedBrokers brokers) : c≠"" :=
    fun he => h.ids (he ▸ mem_sortedBrokers.mp hc)
  have hplaced := h.placed hash
  constructor
  · intro a ha c hc
    rw [(placeUnpinned_counts (hne ha) t _).1,(placeUnpinned_counts (hne hc) t _).1]
    exact hplaced.total a ha c hc
  · intro a ha c hc
    rw [(placeUnpinned_counts (hne ha) t _).2,(placeUnpinned_counts (hne hc) t _).2]
    exact hplaced.perTopic t a ha c hc

theorem Grown.layout_eq : layout hash prev brokers topics=placeUnpinned hash (sortedBrokers brokers)
    (carried prev brokers topics) := by
  have hsmooth : smoothed hash prev brokers topics=
      placeUnpinned hash (sortedBrokers brokers) (carried prev brokers topics) :=
    smoothPartitions_of_level (h.level hash "").1
  rw [layout,hsmooth,smoothPartitionsPerTopic_eq,passState]
  refine repeatStep_of_none ?_ _
  refine Option.map_eq_none_iff.mpr ?_
  have hlevel := fun t => (h.level hash t).2
  generalize placeUnpinned hash (sortedBrokers brokers)
    (carried prev brokers topics)=slots at hlevel ⊢
  generalize sortedBrokers brokers=alive at hlevel ⊢
  rcases alive with _|⟨first,_|⟨second,rest⟩⟩
  · rfl
  · rfl
  · exact List.findSome?_eq_none_iff.mpr (fun t _ => topicRepair_none.mpr (Or.inl (hlevel t)))

end Grown

/-- A level layout of the old topics keeps every leader and epoch when topics are added, and the
whole is level again, over the cluster and in every topic. -/
theorem balance_grown (hash : RendezvousHash) (h : Grown brokers (prev.getD []) old topics) :
    (∀p∈prev.getD [],p∈balance hash prev brokers topics ∅) ∧
    skew (assignedTo (balance hash prev brokers topics ∅)) brokers≤1 ∧
    ∀t,skew (assignedIn (balance hash prev brokers topics ∅) t) brokers≤1 := by
  have hlayout : layout hash prev brokers topics=_ := h.layout_eq
  refine ⟨fun p hp => ?_,?_,fun t => ?_⟩
  · obtain ⟨hlook,hslot⟩ := h.pinned hp
    have halive : p.broker∈brokers := h.leaders p hp
    obtain ⟨new,_,hkeys⟩ := h.keys_perm
    have hmem : (⟨p.topic,p.partition,p.broker,true⟩ : PartitionSlot)∈layout hash prev brokers topics := by
      rw [hlayout]
      refine mem_placeSlots ?_ (fun he => h.ids (he ▸ halive))
      rw [carried,pinnedSlots_eq,← hslot]
      refine List.mem_map.mpr ⟨p.key,hkeys.mem_iff.mpr (List.mem_append_left _ ?_),rfl⟩
      exact h.covered.mem_iff.mp (List.mem_map_of_mem hp)
    rw [balance_eq h.some_alive]
    refine List.mem_map.mpr ⟨_,hmem,?_⟩
    unfold reconcile
    rw [show PartitionSlot.key ⟨p.topic,p.partition,p.broker,true⟩=p.key from rfl,hlook]
    exact if_pos ⟨mem_sortedBrokers.mpr halive,rfl,UInt32.zero_le⟩
  · rw [skew_le_one h.some_alive,← level_sorted,assignedTo_balance h.some_alive,hlayout]
    exact (h.level hash "").1
  · rw [skew_le_one h.some_alive,← level_sorted,assignedIn_balance h.some_alive,hlayout]
    exact (h.level hash t).2

theorem balance_grown_two : (∀p∈[(⟨"a",0,"b0",3⟩ : PartitionAssignment),⟨"a",1,"b1",1⟩],
    p∈balance (fun _ _ _ => 0) (some [⟨"a",0,"b0",3⟩,⟨"a",1,"b1",1⟩]) ["b1","b0"] [⟨"c",3⟩,⟨"a",2⟩] ∅) ∧
    skew (assignedTo (balance (fun _ _ _ => 0) (some [⟨"a",0,"b0",3⟩,⟨"a",1,"b1",1⟩]) ["b1","b0"]
      [⟨"c",3⟩,⟨"a",2⟩] ∅)) ["b1","b0"]≤1 := by
  have hgrown : Grown ["b1","b0"] ((some [⟨"a",0,"b0",3⟩,⟨"a",1,"b1",1⟩]).getD []) [⟨"a",2⟩]
    [⟨"c",3⟩,⟨"a",2⟩] := by
    refine ⟨by decide,by decide,by decide,⟨[⟨"c",3⟩],by decide⟩,by decide,by decide,by decide,fun t => ?_⟩
    rw [skew_le_one (by decide)]
    intro a ha c hc
    by_cases ht : "a"=t
    · subst ht
      revert a c
      decide
    · simp [assignedIn,ht]
  have h := balance_grown (fun _ _ _ => 0) hgrown
  exact ⟨h.1,h.2.1⟩

end Balancer

end Kaas
