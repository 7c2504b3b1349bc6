import Kaas.Broker.ControlBatch
import Kaas.Storage.Anchor

namespace Kaas

structure TxnMarker where
  producerId : Int
  producerEpoch : Int
  commit : Bool
  coordinatorEpoch : Int := 0
  deriving DecidableEq, Repr

def TxnMarker.batch (crc : Crc32c) (m : TxnMarker) : Bytes :=
  buildControlBatch crc m.producerId m.producerEpoch m.commit m.coordinatorEpoch

/-- A partition as it is, and as it is when the marker is applied to the indexes at its first
delivery only. -/
structure Replica where
  actual : Store
  once : Store

/-- After a first delivery: the marker once more, or anything else that can happen to the
partition. -/
inductive ReplicaOp
  | again (cfg : PartitionConfig) (env : IoEnv) (epoch : UInt32)
  | other (op : PartitionOp)

def Store.indexesOf (s t : Store) : Store := {t with openTxns := s.openTxns,abortedTxns := s.abortedTxns}

def Replica.exec (crc : Crc32c) (m : TxnMarker) (r : Replica) : ReplicaOp → Option Replica
  | .again cfg env epoch =>
    match r.actual.exec crc (.append ⟨cfg,env,epoch,m.batch crc⟩),
      r.once.exec crc (.append ⟨cfg,env,epoch,m.batch crc⟩) with
    | some a,some o => some ⟨a,r.once.indexesOf o⟩
    | _,_ => none
  | .other op =>
    match r.actual.exec crc op,r.once.exec crc op with
    | some a,some o => some ⟨a,o⟩
    | _,_ => none

def ReplicaStep (crc : Crc32c) (m : TxnMarker) (r : Replica) (op : ReplicaOp) (r' : Replica) : Prop :=
  r.exec crc m op=some r'

/-- The marker is delivered again only while its producer has no transaction open on the
partition. -/
def RedeliveredIdle (m : TxnMarker) (r : Replica) : ReplicaOp → Prop
  | .again _ _ _ => r.actual.openTxns.lookup (wrapI64 m.producerId)=none
  | .other _ => True

instance (m : TxnMarker) (r : Replica) : (op : ReplicaOp) → Decidable (RedeliveredIdle m r op)
  | .again _ _ _ => inferInstanceAs (Decidable (r.actual.openTxns.lookup (wrapI64 m.producerId)=none))
  | .other _ => .isTrue trivial

theorem erase_absent {idx : OpenTxnIndex} {pid : Int} (h : idx.lookup pid=none) : idx.erase pid=idx := by
  apply AList.ext
  exact List.kerase_of_notMem_keys (AList.lookup_eq_none.mp h)

section Markers

variable {crc : Crc32c} {m : TxnMarker} {s t : Store}

theorem recordTxn_marker (crc : Crc32c) (m : TxnMarker) (idx : OpenTxnIndex)
    (aborted : AbortedTxnIndex) (o base : Int) :
    (recordTxn idx aborted (rewriteBase (m.batch crc) base) o).1=idx.erase (wrapI64 m.producerId) ∧
      (idx.lookup (wrapI64 m.producerId)=none →
        (recordTxn idx aborted (rewriteBase (m.batch crc) base) o).2=aborted) := by
  have hlen : 8≤(m.batch crc).length := by
    rw [TxnMarker.batch,buildControlBatch,encodeBatch_length]
    omega
  have hparse : parseBatchTxnInfo (rewriteBase (m.batch crc) base)=
      some ⟨true,true,wrapI64 m.producerId,some m.commit⟩ := by
    rw [rewriteBase_txn _ hlen]
    exact buildControlBatch_txn ..
  unfold recordTxn OpenTxnIndex.close
  rw [hparse]
  dsimp only
  rw [if_pos rfl,if_pos rfl]
  cases hl : idx.lookup (wrapI64 m.producerId) with
  | none => exact ⟨rfl,fun _ => rfl⟩
  | some first =>
    dsimp only
    split_ifs
    · exact ⟨rfl,fun h => by cases h⟩
    · exact ⟨rfl,fun h => by cases h⟩

theorem appendLocked_indexes {cfg : PartitionConfig} {env : IoEnv} {epoch : UInt32} {batch : Bytes}
    {r : Except StorageError Appended} (h : appendLocked cfg env epoch batch s=some (t,r)) :
    ((∀base seq trigger,r≠.ok (.stored base seq trigger)) ∧ t.openTxns=s.openTxns ∧
      t.abortedTxns=s.abortedTxns) ∨
      (t.openTxns,t.abortedTxns)=recordTxn s.openTxns s.abortedTxns (rewriteBase batch s.highWater)
        s.highWater := by
  cases appendLocked_step h with
  | refused e _ | known base _ => exact Or.inl ⟨by simp,rfl,rfl⟩
  | rollFailed accepted s1 e _ roll | failed accepted s1 d e _ roll _ _ =>
    have hl := rollIfDue_ledger roll
    exact Or.inl ⟨by simp,hl.openTxns,hl.abortedTxns⟩
  | stored accepted s1 d a _ roll _ _ =>
    have hl := rollIfDue_ledger roll
    apply Or.inr
    rw [← hl.openTxns,← hl.abortedTxns,← hl.highWater]
    rfl

theorem append_marker_idle {cfg : PartitionConfig} {env : IoEnv} {epoch : UInt32}
    (hidle : s.openTxns.lookup (wrapI64 m.producerId)=none) {r : Except StorageError Appended}
    (h : appendLocked cfg env epoch (m.batch crc) s=some (t,r)) :
    t.openTxns=s.openTxns ∧ t.abortedTxns=s.abortedTxns := by
  rcases appendLocked_indexes h with ⟨_,hsame⟩|hrec
  · exact hsame
  · obtain ⟨hopen,habort⟩ := recordTxn_marker crc m s.openTxns s.abortedTxns s.highWater s.highWater
    rw [erase_absent hidle] at hopen
    exact ⟨(congrArg Prod.fst hrec).trans hopen,(congrArg Prod.snd hrec).trans (habort hidle)⟩

theorem replica_step {r r' : Replica} {op : ReplicaOp} (h : r.actual=r.once)
    (hok : RedeliveredIdle m r op) (hstep : ReplicaStep crc m r op r') : r'.actual=r'.once := by
  obtain ⟨s,o⟩ := r
  have ho : o=s := h.symm
  subst ho
  cases op with
  | again cfg env epoch =>
    simp only [ReplicaStep,Replica.exec] at hstep
    cases he : Store.exec crc o (.append ⟨cfg,env,epoch,m.batch crc⟩) with
    | none =>
      rw [he] at hstep
      cases hstep
    | some t =>
      rw [he] at hstep
      cases hstep
      obtain ⟨⟨t',res⟩,happ,rfl⟩ := Option.map_eq_some_iff.mp he
      obtain ⟨hopen,habort⟩ := append_marker_idle hok happ
      change t'=o.indexesOf t'
      rw [Store.indexesOf,← hopen,← habort]
  | other op =>
    simp only [ReplicaStep,Replica.exec] at hstep
    cases he : Store.exec crc o op with
    | none =>
      rw [he] at hstep
      cases hstep
    | some t =>
      rw [he] at hstep
      cases hstep
      rfl

end Markers

/-- Delivered again while its producer has nothing open, a marker changes neither index nor the last
stable offset, whatever happens in between; while a transaction is open, it does. -/
theorem redelivered_marker_ineffective {crc : Crc32c} {m : TxnMarker} {s : Store} {r : Replica}
    (run : Reaches (ReplicaStep crc m) (RedeliveredIdle m) ⟨s,s⟩ r) :
    (r.actual.openTxns=r.once.openTxns ∧ r.actual.abortedTxns=r.once.abortedTxns ∧
      lastStableOffset r.actual.toPartitionInner=lastStableOffset r.once.toPartitionInner) ∧
    ∀cfg env epoch t base seq trigger,
      appendLocked cfg env epoch (m.batch crc) r.actual=some (t,.ok (.stored base seq trigger)) →
      ((t.openTxns=r.actual.openTxns ∧ t.abortedTxns=r.actual.abortedTxns) ↔
        r.actual.openTxns.lookup (wrapI64 m.producerId)=none) := by
  have h : r.actual=r.once := by
    induction run with
    | start => rfl
    | next op _ hok hstep ih => exact replica_step ih hok hstep
  refine ⟨by rw [h]; exact ⟨rfl,rfl,rfl⟩,?_⟩
  intro cfg env epoch t base seq trigger happ
  constructor
  · intro ⟨hopen,_⟩
    rcases appendLocked_indexes happ with ⟨hnot,_⟩|hrec
    · exact absurd rfl (hnot base seq trigger)
    · have hclosed : t.openTxns=r.actual.openTxns.erase (wrapI64 m.producerId) :=
        (congrArg Prod.fst hrec).trans (recordTxn_marker crc m _ _ _ _).1
      rw [← hopen,hclosed]
      exact AList.lookup_erase ..
  · intro hidle
    exact append_marker_idle hidle happ

def commitOf7 : TxnMarker := ⟨7,0,true,0⟩

theorem redelivered_commit_ineffective :
    ∃r,Reaches (ReplicaStep castagnoli commitOf7) (RedeliveredIdle commitOf7) ⟨firstStore,firstStore⟩ r ∧
      r.actual.openTxns.lookup 7=some 3 ∧ r.actual.highWater=4 ∧ r.actual.openTxns=r.once.openTxns ∧
      r.actual.abortedTxns=r.once.abortedTxns ∧
      lastStableOffset r.actual.toPartitionInner=lastStableOffset r.once.toPartitionInner := by
  obtain ⟨r,hr,hopen,hwm⟩ :
      ∃r∈runChecked (Replica.exec castagnoli commitOf7) (RedeliveredIdle commitOf7)
        [.other (.append {batch := txnBatch 7 0}),
      .other (.append {batch := commitOf7.batch castagnoli}),.again {} {} 0,
        .other (.append {batch := txnBatch 7 1})]
      ⟨firstStore,firstStore⟩,r.actual.openTxns.lookup 7=some 3 ∧ r.actual.highWater=4 := by decide +kernel
  have hreach : Reaches (ReplicaStep castagnoli commitOf7) (RedeliveredIdle commitOf7)
    ⟨firstStore,firstStore⟩ r :=
    runChecked_reaches (f := Replica.exec castagnoli commitOf7) (fun _ _ _ h => h) _ _ _ r .start hr
  exact ⟨r,hreach,hopen,hwm,(redelivered_marker_ineffective hreach).1⟩

/-- Delivered once more after the producer has begun its next transaction, the COMMIT closes that
one. -/
theorem redelivered_commit_closes_next : ¬∀(m : TxnMarker) (s : Store) (r : Replica),
      Reaches (ReplicaStep castagnoli m) (fun _ _ => True) ⟨s,s⟩ r →
      r.actual.openTxns=r.once.openTxns ∧ r.actual.abortedTxns=r.once.abortedTxns ∧
        lastStableOffset r.actual.toPartitionInner=lastStableOffset r.once.toPartitionInner := by
  intro hall
  obtain ⟨r,hr,hactual,honce⟩ :
      ∃r∈runChecked (Replica.exec castagnoli commitOf7) (fun _ _ => True)
        [.other (.append {batch := txnBatch 7 0}),
      .other (.append {batch := commitOf7.batch castagnoli}),
        .other (.append {batch := txnBatch 7 1}),.again {} {} 0]
      ⟨firstStore,firstStore⟩,lastStableOffset r.actual.toPartitionInner=4 ∧
        lastStableOffset r.once.toPartitionInner=2 := by decide +kernel
  have hreach : Reaches (ReplicaStep castagnoli commitOf7) (fun _ _ => True) ⟨firstStore,firstStore⟩ r :=
    runChecked_reaches (f := Replica.exec castagnoli commitOf7) (fun _ _ _ h => h) _ _ _ r .start hr
  have hlso := (hall _ _ r hreach).2.2
  rw [hactual,honce] at hlso
  exact absurd hlso (by decide)

end Kaas
