import Kaas.Broker.Coordinator
import Kaas.Broker.GroupHash
import Kaas.Math.Tables

namespace Kaas

inductive BrokerHealth
  | alive
  | draining
  | dead
  deriving DecidableEq, Repr

structure BrokerAssignment where
  id : String
  health : BrokerHealth
  lastSeen : String
  deriving DecidableEq, Repr

structure ConsumerGroupAssignment where
  groupId : String
  broker : String
  epoch : UInt32
  deriving DecidableEq, Repr

structure ClusterAssignment extends Assignment where
  brokers : List BrokerAssignment
  consumerGroups : List ConsumerGroupAssignment := []
  deriving DecidableEq, Repr

def aliveMap (rows : List BrokerAssignment) : AliveMap :=
  tableOf (·.id) (fun b => decide (b.health=.alive)) rows ∅

namespace ClusterAssignment

def brokerSets (a : ClusterAssignment) : List String × AliveMap := (a.brokers.map (·.id),aliveMap a.brokers)

def explicitEntry (a : ClusterAssignment) (groupId : String) : Option String :=
  (a.consumerGroups.find? (·.groupId=groupId)).map (·.broker)

end ClusterAssignment

/-- The part of `Coordinator` behind `GroupAssignmentSource` and `TxnAssignmentSource`. -/
structure AssignmentSource where
  selfId : String
  current : Option ClusterAssignment := none

namespace AssignmentSource

def groupCoordinator (c : AssignmentSource) (groupId : String) : Option String :=
  match c.current with
  | none => none
  | some a => match a.explicitEntry groupId with
    | some broker => some broker
    | none => pickGroupCoordinator groupId a.brokerSets.1 a.brokerSets.2

end AssignmentSource

namespace GroupTakeoverDriver

def coordinatorOf (a : ClusterAssignment) (groupId : String) : Option String :=
  match a.explicitEntry groupId with
  | some broker => some broker
  | none => pickGroupCoordinator groupId a.brokerSets.1 a.brokerSets.2

end GroupTakeoverDriver

namespace Manager

end Manager

def RowsAgree (rows : List BrokerAssignment) : Prop := ∀r∈rows,∀q∈rows,r.id=q.id → r.health=q.health

theorem isAlive_iff {rows : List BrokerAssignment} (h : RowsAgree rows) (id : String) :
    isAlive (aliveMap rows) id=true ↔ ∃r∈rows,r.id=id ∧ r.health=.alive := by
  unfold isAlive aliveMap
  cases hl : (tableOf (·.id) (fun b : BrokerAssignment => decide (b.health=.alive)) rows ∅).lookup id with
  | none =>
    have hnone := lookup_tableOf_none.mp hl
    constructor
    · intro hf
      cases hf
    · intro ⟨r,hr,hid,_⟩
      exact absurd hid (hnone r hr)
  | some x =>
    obtain ⟨r,hr,hid,rfl⟩ := lookup_tableOf_some hl
    rw [Option.getD_some,decide_eq_true_iff]
    constructor
    · intro ha
      exact ⟨r,hr,hid,ha⟩
    · intro ⟨q,hq,hqid,ha⟩
      rw [h r hr q hq (hid.trans hqid.symm)]
      exact ha

def ClusterAssignment.SomeAlive (a : ClusterAssignment) : Prop := ∃r∈a.brokers,r.health=.alive

instance (a : ClusterAssignment) : Decidable a.SomeAlive :=
  inferInstanceAs (Decidable (∃r∈a.brokers,r.health=.alive))

def ClusterAssignment.hashed (a : ClusterAssignment) (key : String) : Option String :=
  pickCoordinator key a.brokerSets.1 a.brokerSets.2

section Hashed

variable {a b : ClusterAssignment} {key id : String}

theorem hashed_alive (h : RowsAgree a.brokers) (hh : a.hashed key=some id) :
    ∃r∈a.brokers,r.id=id ∧ r.health=.alive :=
  (isAlive_iff h id).mp (pickCoordinator_alive hh).2

theorem hashed_some (h : RowsAgree a.brokers) (key : String) (ha : a.SomeAlive) : ∃id,a.hashed key=some id := by
  obtain ⟨r,hr,halive⟩ := ha
  have hin : r.id∈a.brokers.map (·.id) := List.mem_map_of_mem hr
  exact pickCoordinator_some key hin ((isAlive_iff h r.id).mpr ⟨r,hr,rfl,halive⟩)

theorem hashed_none (h : RowsAgree a.brokers) (key : String) (ha : ¬a.SomeAlive) : a.hashed key=none := by
  cases hh : a.hashed key with
  | none => rfl
  | some id =>
    obtain ⟨r,hr,_,halive⟩ := hashed_alive h hh
    exact absurd ⟨r,hr,halive⟩ ha

theorem hashed_congr (h : RowsAgree a.brokers) (key : String)
    (hperm : (a.brokers.map (fun r => (r.id,r.health))).Perm (b.brokers.map (fun r => (r.id,r.health)))) :
    a.hashed key=b.hashed key := by
  have hmem (id : String) (x : BrokerHealth) :
      (∃r∈a.brokers,r.id=id ∧ r.health=x) ↔ ∃r∈b.brokers,r.id=id ∧ r.health=x := by
    have := hperm.mem_iff (a := (id,x))
    simpa [Prod.ext_iff] using this
  have hb : RowsAgree b.brokers := by
    intro r hr q hq heq
    obtain ⟨r',hr',hid,hx⟩ := (hmem r.id r.health).mpr ⟨r,hr,rfl,rfl⟩
    obtain ⟨q',hq',hid',hx'⟩ := (hmem q.id q.health).mpr ⟨q,hq,rfl,rfl⟩
    rw [← hx,← hx']
    exact h r' hr' q' hq' (by rw [hid,hid',heq])
  have hids : (a.brokers.map (·.id)).Perm (b.brokers.map (·.id)) := by
    have := hperm.map Prod.fst
    simpa only [List.map_map,Function.comp_def] using this
  apply pickCoordinator_congr key hids
  intro id _
  rw [Bool.eq_iff_iff]
  exact (isAlive_iff h id).trans ((hmem id .alive).trans (isAlive_iff hb id).symm)

end Hashed

section Answers

open GroupTakeoverDriver

variable {a b : ClusterAssignment} {c : AssignmentSource} {key : String}

theorem groupCoordinator_eq (hc : c.current=some b) (key : String)
    : c.groupCoordinator key=coordinatorOf b key := by
  simp only [AssignmentSource.groupCoordinator,coordinatorOf,hc]

end Answers

end Kaas
