import Kaas.Broker.Coordinator
import Kaas.Framework.Run
import Kaas.Math.Levelling
import Mathlib.Data.List.Sort
import Mathlib.Data.List.Dedup
import Mathlib.Data.String.Basic

namespace Kaas

structure TopicSpec where
  name : String
  partitionCount : Int
  deriving DecidableEq, Repr

/-- A partition on its way to a leader; a sticky one is inherited from the previous assignment. -/
structure PartitionSlot where
  topic : String
  partition : Int
  broker : String
  sticky : Bool
  deriving DecidableEq, Repr

def PartitionSlot.key (s : PartitionSlot) : PartitionKey := (s.topic,s.partition)

abbrev RendezvousHash := String → Int → String → UInt64

namespace Balancer

variable (hash : RendezvousHash)

abbrev PrevMap := AList (fun _ : PartitionKey => PartitionAssignment)

def prevPartitions (prev : Option (List PartitionAssignment)) : PrevMap :=
  (prev.getD []).foldl (fun m p => m.insert p.key p) ∅

def pinSlot (prevMap : PrevMap) (alive : List String) (topic : String) (partition : Int) : PartitionSlot :=
  match ((prevMap.lookup (topic,partition)).map (·.broker)).filter (·∈alive) with
  | some broker => ⟨topic,partition,broker,true⟩
  | none => ⟨topic,partition,"",false⟩

def pinnedSlots (prevMap : PrevMap) (alive : List String) (topics : List TopicSpec) : List PartitionSlot :=
  topics.flatMap fun t =>
    (List.range t.partitionCount.toNat).map fun i : Nat => pinSlot prevMap alive t.name i

structure Load where
  total : String → Int
  perTopic : String → String → Int

def Load.add (l : Load) (topic broker : String) : Load :=
  ⟨fun b => l.total b+(if b=broker then 1 else 0),
    fun t b => l.perTopic t b+(if t=topic ∧ b=broker then 1 else 0)⟩

def pinnedLoad (slots : List PartitionSlot) : Load :=
  slots.foldl (fun l s => if s.broker="" then l else l.add s.topic s.broker) ⟨fun _ => 0,fun _ _ => 0⟩

def placeBetter (l : Load) (topic : String) (partition : Int) (a b : String) : Bool :=
  decide (l.perTopic topic a<l.perTopic topic b ∨ (l.perTopic topic a=l.perTopic topic b ∧
    (l.total a<l.total b ∨ (l.total a=l.total b ∧ hash topic partition b<hash topic partition a))))

def placeSlots (alive : List String) : Load → List PartitionSlot → List PartitionSlot
  | _,[] => []
  | l,s::slots =>
    if s.broker≠"" then s::placeSlots alive l slots
    else match pickBest (placeBetter hash l s.topic s.partition) alive with
      | none => s::placeSlots alive l slots
      | some broker => {s with broker := broker}::placeSlots alive (l.add s.topic broker) slots

def placeUnpinned (alive : List String) (slots : List PartitionSlot) : List PartitionSlot :=
  placeSlots hash alive (pinnedLoad slots) slots

def countOn (slots : List PartitionSlot) (broker : String) : Int :=
  (slots.countP fun s => s.broker=broker : Nat)

def topicCountOn (slots : List PartitionSlot) (topic broker : String) : Int :=
  (slots.countP fun s => s.topic=topic ∧ s.broker=broker : Nat)

def moveTo (slots : List PartitionSlot) (i : Nat) (broker : String) : List PartitionSlot :=
  slots.modify i fun s => {s with broker := broker}

/-- Freshly placed before inherited, and within each a topic that `hi` has more of than `lo`. -/
def victimClass (slots : List PartitionSlot) (hi lo : String) (s : PartitionSlot) : Nat × Nat :=
  (s.sticky.toNat,if topicCountOn slots s.topic lo<topicCountOn slots s.topic hi then 0 else 1)

def victimBetter (slots : List PartitionSlot) (hi lo : String) (a b : PartitionSlot) : Bool :=
  if victimClass slots hi lo a≠victimClass slots hi lo b then
    decide ((victimClass slots hi lo a).1<(victimClass slots hi lo b).1 ∨
      ((victimClass slots hi lo a).1=(victimClass slots hi lo b).1 ∧
        (victimClass slots hi lo a).2<(victimClass slots hi lo b).2))
  else if hash a.topic a.partition lo≠hash b.topic b.partition lo then
    decide (hash b.topic b.partition lo<hash a.topic a.partition lo)
  else decide (a.topic<b.topic ∨ (a.topic=b.topic ∧ a.partition<b.partition))

def victim (slots : List PartitionSlot) (hi lo : String) : Option Nat :=
  pickIndex (victimBetter hash slots hi lo) (fun s => s.broker=hi) slots

/-- One turn of the loop over the slots and the running counts; none once the counts are level. -/
def smoothStep (first : String) (rest : List String) (s : List PartitionSlot × (String → Int)) :
    Option (List PartitionSlot × (String → Int)) :=
  if s.2 (extremes s.2 first rest).1-s.2 (extremes s.2 first rest).2≤1 then none
  else (victim hash s.1 (extremes s.2 first rest).1 (extremes s.2 first rest).2).map fun i =>
    (moveTo s.1 i (extremes s.2 first rest).2,
      transfer s.2 (extremes s.2 first rest).1 (extremes s.2 first rest).2)

def smoothPartitions (alive : List String) (slots : List PartitionSlot) : List PartitionSlot :=
  match alive with
  | first::second::rest =>
    (repeatStep (smoothStep hash first (second::rest)) (2*slots.length) (slots,countOn slots)).1
  | _ => slots

def pickSlot (slots : List PartitionSlot) (topic broker : String) : Option Nat :=
  pickIndex (fun a b => decide (a.sticky.toNat<b.sticky.toNat ∨
      (a.sticky=b.sticky ∧ a.partition<b.partition)))
    (fun s => s.topic=topic ∧ s.broker=broker) slots

def Swappable (slots : List PartitionSlot) (topic hi lo : String) (s : PartitionSlot) : Prop :=
  s.broker=lo ∧ s.topic≠topic ∧ topicCountOn slots s.topic hi<topicCountOn slots s.topic lo

instance (slots : List PartitionSlot) (topic hi lo : String) (s : PartitionSlot) :
    Decidable (Swappable slots topic hi lo s) := inferInstanceAs (Decidable (_ ∧ _ ∧ _))

def swapPartner (slots : List PartitionSlot) (topic hi lo : String) : Option Nat :=
  pickIndex (fun a b => decide (a.sticky.toNat<b.sticky.toNat ∨ (a.sticky=b.sticky ∧
      (a.topic<b.topic ∨ (a.topic=b.topic ∧ a.partition<b.partition)))))
    (Swappable slots topic hi lo) slots

/-- What one call of `improve_one_topic` does to the layout. -/
inductive Repair
  | move (donor : Nat) (hi lo : String)
  | swap (donor partner : Nat) (hi lo : String)
  deriving DecidableEq, Repr

def Repair.apply (slots : List PartitionSlot) : Repair → List PartitionSlot
  | .move donor _ lo => moveTo slots donor lo
  | .swap donor partner hi lo => moveTo (moveTo slots donor lo) partner hi

def topicRepair (slots : List PartitionSlot) (first : String) (rest : List String)
    (topic : String) : Option Repair :=
  let hi := (extremes (topicCountOn slots topic) first rest).1
  let lo := (extremes (topicCountOn slots topic) first rest).2
  if topicCountOn slots topic hi-topicCountOn slots topic lo≤1 then none
  else (pickSlot slots topic hi).bind fun donor =>
    if countOn slots lo≤ countOn slots hi then some (.move donor hi lo)
    else (swapPartner slots topic hi lo).map fun partner => .swap donor partner hi lo

def nextRepair (first : String) (rest topics : List String) (slots : List PartitionSlot) : Option Repair :=
  topics.findSome? (topicRepair slots first rest)

def improveOneTopic (first : String) (rest topics : List String) (slots : List PartitionSlot) :
    Option (List PartitionSlot) :=
  (nextRepair first rest topics slots).map (·.apply slots)

def topicNames (slots : List PartitionSlot) : List String :=
  ((slots.map (·.topic)).insertionSort (·≤·)).dedup

def smoothPartitionsPerTopic (alive : List String) (slots : List PartitionSlot) : List PartitionSlot :=
  match alive with
  | first::second::rest =>
    repeatStep (improveOneTopic first (second::rest) (topicNames slots))
      (slots.length*alive.length+16) slots
  | _ => slots

def keepsEpoch (alive : List String) (floor : UInt32) (pa : PartitionAssignment) (s : PartitionSlot) : Prop :=
  pa.broker∈alive ∧ pa.broker=s.broker ∧ floor≤pa.epoch

instance (alive : List String) (floor : UInt32) (pa : PartitionAssignment) (s : PartitionSlot) :
    Decidable (keepsEpoch alive floor pa s) := inferInstanceAs (Decidable (_ ∧ _ ∧ _))

abbrev EpochFloor := AList (fun _ : PartitionKey => UInt32)

def reconcile (prevMap : PrevMap) (alive : List String) (floor : EpochFloor) (s : PartitionSlot) :
    PartitionAssignment :=
  match prevMap.lookup s.key with
  | some pa =>
    if keepsEpoch alive ((floor.lookup s.key).getD 0) pa s then pa
    else ⟨s.topic,s.partition,s.broker,max (pa.epoch+1) ((floor.lookup s.key).getD 0)⟩
  | none => ⟨s.topic,s.partition,s.broker,max 1 ((floor.lookup s.key).getD 0)⟩

def sortedBrokers (brokers : List String) : List String := brokers.insertionSort (·≤·)

def smoothed (prev : Option (List PartitionAssignment)) (brokers : List String)
    (topics : List TopicSpec) : List PartitionSlot :=
  smoothPartitions hash (sortedBrokers brokers) (placeUnpinned hash (sortedBrokers brokers)
    (pinnedSlots (prevPartitions prev) (sortedBrokers brokers) topics))

def balance (prev : Option (List PartitionAssignment)) (brokers : List String)
    (topics : List TopicSpec) (floor : EpochFloor) : List PartitionAssignment :=
  if brokers=[] then []
  else (smoothPartitionsPerTopic (sortedBrokers brokers) (smoothed hash prev brokers topics)).map
    (reconcile (prevPartitions prev) (sortedBrokers brokers) floor)

end Balancer

end Kaas
