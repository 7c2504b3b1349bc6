import Kaas.Controller.Levels

namespace Kaas

variable {k : PartitionKey} {p : PartitionAssignment} {l : List PartitionAssignment}

namespace Balancer

variable {hash : RendezvousHash} {prev : Option (List PartitionAssignment)} {brokers : List String}
  {topics : List TopicSpec} {floor : EpochFloor}

theorem mem_sortedBrokers {b : String} : b∈sortedBrokers brokers ↔ b∈brokers :=
  (List.perm_insertionSort (·≤·) brokers).mem_iff

theorem sortedBrokers_ne_nil (h : brokers≠[]) : sortedBrokers brokers≠[] := by
  intro he
  apply h
  have := (List.perm_insertionSort (·≤·) brokers).length_eq
  rw [← sortedBrokers,he] at this
  exact List.eq_nil_of_length_eq_zero this.symm

theorem foldl_insert_key (l : List PartitionAssignment) (m : PrevMap)
    (hm : ∀k p,m.lookup k=some p → p.key=k) (k : PartitionKey) (p : PartitionAssignment)
    (h : (l.foldl (fun m p => m.insert p.key p) m).lookup k=some p) : p.key=k := by
  induction l generalizing m with
  | nil => exact hm k p h
  | cons q l ih =>
    refine ih (m.insert q.key q) (fun k p hp => ?_) h
    by_cases hk : k=q.key
    · rw [hk,AList.lookup_insert] at hp
      cases hp
      exact hk.symm
    · rw [AList.lookup_insert_ne hk] at hp
      exact hm k p hp

theorem prevPartitions_key (h : (prevPartitions prev).lookup k=some p) : p.key=k :=
  foldl_insert_key _ ∅ (fun k p h => by rw [AList.lookup_empty] at h; cases h) k p h

theorem foldl_insert_other (m : PrevMap)
    (h : k∉l.map (·.key)) : (l.foldl (fun m p => m.insert p.key p) m).lookup k=m.lookup k := by
  induction l generalizing m with
  | nil => rfl
  | cons q l ih =>
    rw [List.map_cons,List.mem_cons,not_or] at h
    rw [List.foldl_cons,ih _ h.2,AList.lookup_insert_ne h.1]

theorem foldl_insert_mem (m : PrevMap) (hl : (l.map (·.key)).Nodup) (hp : p∈l) :
    (l.foldl (fun m p => m.insert p.key p) m).lookup p.key=some p := by
  induction l generalizing m with
  | nil => cases hp
  | cons q l ih =>
    rw [List.map_cons,List.nodup_cons] at hl
    rw [List.foldl_cons]
    rcases List.mem_cons.mp hp with rfl|hp
    · rw [foldl_insert_other _ hl.1,AList.lookup_insert]
    · exact ih _ hl.2 hp

theorem prevPartitions_lookup (hl : (l.map (·.key)).Nodup) (hp : p∈l) :
    (prevPartitions (some l)).lookup p.key=some p :=
  foldl_insert_mem ∅ hl hp

def catalogKeys (topics : List TopicSpec) : List PartitionKey :=
  topics.flatMap fun t => (List.range t.partitionCount.toNat).map fun i : Nat => (t.name,(i : Int))

theorem pinSlot_key (prevMap : PrevMap) (alive : List String) (topic : String) (partition : Int) :
    (pinSlot prevMap alive topic partition).key=(topic,partition) := by
  unfold pinSlot
  split <;> rfl

theorem pinSlot_onAlive {prevMap : PrevMap} {alive : List String} {topic : String} {partition : Int}
    (h : (pinSlot prevMap alive topic partition).broker≠"") :
    (pinSlot prevMap alive topic partition).broker∈alive := by
  unfold pinSlot at h ⊢
  cases hf : ((prevMap.lookup (topic,partition)).map (·.broker)).filter (·∈alive) with
  | none =>
    rw [hf] at h
    exact absurd rfl h
  | some broker => exact of_decide_eq_true (Option.filter_eq_some_iff.mp hf).2

theorem pinnedSlots_keys (prevMap : PrevMap) (alive : List String) (topics : List TopicSpec) :
    (pinnedSlots prevMap alive topics).map (·.key)=catalogKeys topics := by
  unfold pinnedSlots catalogKeys
  rw [List.map_flatMap]
  congr 1
  funext t
  rw [List.map_map]
  refine List.map_congr_left (fun i _ => ?_)
  exact pinSlot_key prevMap alive t.name i

theorem mem_catalogKeys :
    k∈catalogKeys topics ↔ ∃t∈topics,t.name=k.1 ∧ 0≤k.2 ∧ k.2<t.partitionCount := by
  unfold catalogKeys
  simp only [List.mem_flatMap,List.mem_map,List.mem_range]
  constructor
  · rintro ⟨t,ht,i,hi,rfl⟩
    exact ⟨t,ht,rfl,Int.natCast_nonneg _,by dsimp only; omega⟩
  · rintro ⟨t,ht,hname,h0,hlt⟩
    refine ⟨t,ht,k.2.toNat,by omega,?_⟩
    rw [hname,Int.toNat_of_nonneg h0]

theorem nodup_catalogKeys (h : (topics.map (·.name)).Nodup) : (catalogKeys topics).Nodup := by
  unfold catalogKeys
  rw [List.nodup_flatMap]
  constructor
  · intro t _
    refine List.Nodup.map (fun i j hij => ?_) List.nodup_range
    have := congrArg Prod.snd hij
    dsimp only at this
    omega
  · refine (List.pairwise_map.mp h).imp (fun {t u} hne => ?_)
    intro k ht hu
    obtain ⟨i,_,rfl⟩ := List.mem_map.mp ht
    obtain ⟨j,_,he⟩ := List.mem_map.mp hu
    exact hne (congrArg Prod.fst he).symm

def layout (hash : RendezvousHash) (prev : Option (List PartitionAssignment))
    (brokers : List String) (topics : List TopicSpec) : List PartitionSlot :=
  smoothPartitionsPerTopic (sortedBrokers brokers) (smoothed hash prev brokers topics)

theorem balance_eq (h : brokers≠[]) : balance hash prev brokers topics floor=
    (layout hash prev brokers topics).map (reconcile (prevPartitions prev) (sortedBrokers brokers) floor) :=
  if_neg h

theorem layout_moved : Moved (sortedBrokers brokers) (smoothed hash prev brokers topics)
    (layout hash prev brokers topics) := by
  rw [layout,smoothPartitionsPerTopic_eq]
  exact passState_moved _ _ _

theorem layout_keys : (layout hash prev brokers topics).map (·.key)=catalogKeys topics := by
  rw [layout_moved.keys,smoothed,(smoothPartitions_moved ..).keys,placeUnpinned,placeSlots_keys,
    pinnedSlots_keys]

theorem layout_onAlive (h : brokers≠[]) :
    ∀s∈layout hash prev brokers topics,s.broker∈sortedBrokers brokers := by
  refine layout_moved.onAlive ((smoothPartitions_moved ..).onAlive ?_)
  refine placeSlots_onAlive hash (sortedBrokers_ne_nil h) _ (fun s hs hb => ?_)
  obtain ⟨t,_,hs⟩ := List.mem_flatMap.mp hs
  obtain ⟨i,_,rfl⟩ := List.mem_map.mp hs
  exact pinSlot_onAlive hb

theorem reconcile_broker (prevMap : PrevMap) (alive : List String) (floor : EpochFloor)
    (s : PartitionSlot) : (reconcile prevMap alive floor s).broker=s.broker := by
  unfold reconcile
  cases prevMap.lookup s.key with
  | none => rfl
  | some pa =>
    dsimp only
    split_ifs with h
    · exact h.2.1
    · rfl

theorem reconcile_key (alive : List String) (s : PartitionSlot) :
    (reconcile (prevPartitions prev) alive floor s).key=s.key := by
  unfold reconcile
  cases h : (prevPartitions prev).lookup s.key with
  | none => rfl
  | some pa =>
    dsimp only
    split_ifs
    · exact prevPartitions_key h
    · rfl

theorem balance_keys (h : brokers≠[]) :
    (balance hash prev brokers topics floor).map (·.key)=catalogKeys topics := by
  have hkeys : (layout hash prev brokers topics).map (·.key)=catalogKeys topics := layout_keys
  rw [balance_eq h,List.map_map,← hkeys]
  exact List.map_congr_left (fun s _ => reconcile_key _ s)

theorem balance_onAlive (h : brokers≠[]) : ∀p∈balance hash prev brokers topics floor,p.broker∈brokers := by
  intro p hp
  rw [balance_eq h] at hp
  obtain ⟨s,hs,rfl⟩ := List.mem_map.mp hp
  rw [reconcile_broker]
  exact mem_sortedBrokers.mp (layout_onAlive h s hs)

instance (l : List String) (f : String → Int) : Decidable (Level l f) :=
  inferInstanceAs (Decidable (∀a∈l,∀b∈l,f a-f b≤1))

def assignedTo (l : List PartitionAssignment) (broker : String) : Int :=
  (l.countP fun p => p.broker=broker : Nat)

theorem assignedTo_balance (h : brokers≠[]) :
    assignedTo (balance hash prev brokers topics floor)=countOn (layout hash prev brokers topics) := by
  funext b
  rw [balance_eq h,assignedTo,countOn,List.countP_map]
  congr 2
  funext s
  simp only [Function.comp,reconcile_broker]

def assignedIn (l : List PartitionAssignment) (topic broker : String) : Int :=
  (l.countP fun p => p.topic=topic ∧ p.broker=broker : Nat)

theorem assignedIn_balance (h : brokers≠[]) :
    assignedIn (balance hash prev brokers topics floor)=topicCountOn (layout hash prev brokers topics) := by
  funext t b
  rw [balance_eq h,assignedIn,topicCountOn,List.countP_map]
  congr 2
  funext s
  have hkey : (reconcile (prevPartitions prev) (sortedBrokers brokers) floor s).key=s.key := reconcile_key _ s
  simp only [Function.comp,reconcile_broker]
  rw [show (reconcile (prevPartitions prev) (sortedBrokers brokers) floor s).topic=s.topic from
    congrArg Prod.fst hkey]

theorem level_sorted {f : String → Int} : Level (sortedBrokers brokers) f ↔ Level brokers f := by
  simp only [Level,mem_sortedBrokers]

theorem pinnedSlots_eq (prevMap : PrevMap) (alive : List String) (topics : List TopicSpec) :
    pinnedSlots prevMap alive topics=(catalogKeys topics).map fun k => pinSlot prevMap alive k.1 k.2 := by
  unfold pinnedSlots catalogKeys
  rw [List.map_flatMap]
  congr 1
  funext t
  rw [List.map_map]
  rfl

section Again

variable (hne : brokers≠[]) (hnames : (topics.map (·.name)).Nodup)

include hne hnames

end Again

end Balancer

end Kaas
