import Kaas.Broker.Acked
import Kaas.Broker.ControlBatch
import Kaas.Storage.Anchor

namespace Kaas

/-! What stands in the bytes of a Produce payload. -/

/-- The batches of a payload, one behind the other by their length fields; the last takes what is
left. -/
def payloadBatchesFrom : Nat → Bytes → List Bytes
  | 0,_ => []
  | n+1,raw =>
    let size := (batchLength raw+12).toNat
    if raw.length<23 then []
    else if batchLength raw<0 ∨ raw.length ≤ size then [raw]
    else raw.take size::payloadBatchesFrom n (raw.drop size)

def payloadBatches (payload : Bytes) : List Bytes := payloadBatchesFrom (payload.length+1) payload

/-- A batch that names a producer with an epoch below the one recorded or fenced for it. -/
def Stale (states : ProducerStates) (batch : Bytes) : Prop :=
  53≤batch.length ∧ ∃entry∈states.lookup (producerId batch),producerEpoch batch<entry.epoch

instance (states : ProducerStates) (batch : Bytes) : Decidable (Stale states batch) :=
  decidable_of_iff (53≤batch.length ∧
      (states.lookup (producerId batch)).any (fun entry => decide (producerEpoch batch<entry.epoch))=true) (by
    unfold Stale
    cases states.lookup (producerId batch) <;> simp)

/-- A payload that was taken: the producers known before it, and whether it was written or found a
duplicate. -/
structure TakenPayload where
  before : ProducerStates
  payload : Bytes
  stored : Bool

namespace ProduceCall

variable (c : ProduceCall) (s : Store)

/-- The partition afterwards. A payload without room for the offset panics behind the roll. -/
def after : Store :=
  match appendOne c.cfg c.gate c.env c.acks c.flushed c.records s with
  | some (t,_) => t
  | none => (rollIfDue c.cfg c.env (c.records.getD []) s).1

def taken : List TakenPayload :=
  match produceGate c.gate s c.records with
  | .inl _ => []
  | .inr batch => match appendLocked c.cfg c.env c.gate.epoch batch s with
    | some (_,.ok (.stored _ _ _)) => [⟨s.producerStates,batch,true⟩]
    | some (_,.ok (.duplicate _)) => [⟨s.producerStates,batch,false⟩]
    | _ => []

end ProduceCall

structure ClientWorld where
  store : Store
  taken : List TakenPayload := []

def ClientWorld.exec (w : ClientWorld) (c : ProduceCall) : ClientWorld :=
  ⟨c.after w.store,w.taken++c.taken w.store⟩

def ClientStep (w : ClientWorld) (c : ProduceCall) (w' : ClientWorld) : Prop := w'=w.exec c

theorem ClientStep.made (w : ClientWorld) (c : ProduceCall) : ClientStep w c (w.exec c) := rfl

/-- One whole batch with a full header, no control batch, and numbered unless its epoch is
current. -/
structure PlainPayload (states : ProducerStates) (payload : Bytes) : Prop where
  whole : batchLength payload=(payload.length : Int)-12
  headed : 57≤payload.length
  data : isControl payload=false
  numbered : (0≤producerId payload ∧ 0≤baseSequence payload) ∨ ¬Stale states payload

instance (states : ProducerStates) (payload : Bytes) : Decidable (PlainPayload states payload) :=
  decidable_of_iff (batchLength payload=(payload.length : Int)-12 ∧ 57≤payload.length ∧
    isControl payload=false ∧
      ((0≤producerId payload ∧ 0≤baseSequence payload) ∨ ¬Stale states payload))
    ⟨fun ⟨h1,h2,h3,h4⟩ => ⟨h1,h2,h3,h4⟩,fun ⟨h1,h2,h3,h4⟩ => ⟨h1,h2,h3,h4⟩⟩

def SendsPlain (w : ClientWorld) (c : ProduceCall) : Prop :=
  ∀payload∈c.records,PlainPayload w.store.producerStates payload

instance (w : ClientWorld) (c : ProduceCall) : Decidable (SendsPlain w c) :=
  inferInstanceAs (Decidable (∀payload∈c.records,_))

theorem payloadBatches_whole {payload : Bytes} (h : batchLength payload=(payload.length : Int)-12)
    (hlong : 57≤payload.length) : payloadBatches payload=[payload] := by
  have hsize : payload.length≤(batchLength payload+12).toNat := by omega
  rw [payloadBatches,payloadBatchesFrom,if_neg (by omega),if_pos (.inr hsize)]

theorem recordTxn_data (opened : OpenTxnIndex) (aborted : AbortedTxnIndex) {raw : Bytes}
    (assigned : Int) (hdata : isControl raw=false) :
    (recordTxn opened aborted raw assigned).2=aborted ∧
      ∀pid o,opened.lookup pid=some o → (recordTxn opened aborted raw assigned).1.lookup pid=some o := by
  unfold recordTxn parseBatchTxnInfo
  by_cases hl : raw.length<57
  · simp [hl]
  · by_cases ht : isTransactional raw=true
    · simp only [hl,ht,hdata,if_true,if_false,Bool.false_eq_true,true_and]
      intro pid o ho
      rw [recordDataBatch_lookup]
      split_ifs with hp
      · rw [← hp,ho]
        rfl
      · exact ho
    · simp [hl,ht]

/-- The transactions of the one partition are those of the other, and more at most. -/
structure KeepsTxns (s t : Store) : Prop where
  opened : ∀pid o,s.openTxns.lookup pid=some o → t.openTxns.lookup pid=some o
  aborted : t.abortedTxns=s.abortedTxns

variable {t : Store} {batch : Bytes}

theorem Store.SameLedger.keepsTxns {s : Store} (h : s.SameLedger t) : KeepsTxns s t :=
  ⟨fun pid o ho => by rw [h.openTxns]; exact ho,h.abortedTxns⟩

theorem KeepsTxns.trans {s u : Store} (h : KeepsTxns s t) (k : KeepsTxns t u) : KeepsTxns s u :=
  ⟨fun pid o ho => k.opened pid o (h.opened pid o ho),k.aborted.trans h.aborted⟩

theorem advance_keepsTxns (cfg : PartitionConfig) (accepted : Bool) (s : Store)
    (hdata : isControl batch=false) : KeepsTxns s (advance cfg accepted batch s).1 := by
  have hraw : isControl (rewriteBase batch s.highWater)=false := by
    rw [isControl,(rewriteBase_fields batch s.highWater).2.2.1]
    exact hdata
  have h := recordTxn_data s.openTxns s.abortedTxns s.highWater hraw
  exact ⟨h.2,h.1⟩

theorem appendLocked_keepsTxns {cfg : PartitionConfig} {env : IoEnv} {epoch : UInt32} {s : Store}
    {r : Except StorageError Appended} (h : appendLocked cfg env epoch batch s=some (t,r))
    (hdata : isControl batch=false) : KeepsTxns s t := by
  cases appendLocked_step h with
  | refused e _ | known base _ => exact ⟨fun _ _ ho => ho,rfl⟩
  | rollFailed accepted s1 e _ roll => exact (rollIfDue_ledger roll).keepsTxns
  | failed accepted s1 d e _ roll _ _ =>
    have hroll := (rollIfDue_ledger roll).keepsTxns
    exact ⟨hroll.opened,hroll.aborted⟩
  | stored accepted s1 d a _ roll _ _ =>
    have hroll := (rollIfDue_ledger roll).keepsTxns
    have hadv := advance_keepsTxns cfg accepted {s1 with active := a,dir := d} hdata
    exact hroll.trans ⟨hadv.opened,hadv.aborted⟩

theorem produceGate_records {gate : ProduceGate} {s : Store} {records : Option Bytes}
    (h : produceGate gate s records=.inr batch) : records=some batch := by
  unfold produceGate at h
  split_ifs at h
  split at h
  · cases h
  · split_ifs at h
    rw [Sum.inr.inj h]

theorem after_keepsTxns {c : ProduceCall} {s : Store}
    (hplain : ∀payload∈c.records,isControl payload=false) : KeepsTxns s (c.after s) := by
  unfold ProduceCall.after appendOne
  cases hgate : produceGate c.gate s c.records with
  | inl r => exact ⟨fun _ _ ho => ho,rfl⟩
  | inr batch =>
    have hrec := produceGate_records hgate
    simp only
    cases hlocked : appendLocked c.cfg c.env c.gate.epoch batch s with
    | none => exact (rollIfDue_ledger rfl).keepsTxns
    | some out => exact appendLocked_keepsTxns hlocked (hplain batch hrec)

theorem classifyBatch_fresh {g : PartitionInner} (hplain : PlainPayload g.producerStates batch)
    (h : ∀e,classifyBatch g batch≠.refused e) : ¬Stale g.producerStates batch := by
  rcases hplain.numbered with ⟨hpid,hseq⟩ | hfresh
  · rintro ⟨-,entry,hentry,hlt⟩
    refine h .invalidProducerEpoch ?_
    have hparse : parseBatchProducerInfo batch=some ⟨producerId batch,producerEpoch batch,
        baseSequence batch,wrapI32 (baseSequence batch+lastOffsetDelta batch)⟩ :=
      if_neg (not_lt.mpr hplain.headed)
    have hclass : classify g.producerStates ⟨producerId batch,producerEpoch batch,
        baseSequence batch,wrapI32 (baseSequence batch+lastOffsetDelta batch)⟩=.invalidEpoch := by
      simp only [classify]
      rw [if_neg (not_lt.mpr hpid),if_neg (not_lt.mpr hseq),Option.mem_def.mp hentry]
      simp only
      rw [if_neg (not_lt.mpr hlt.le),if_pos hlt]
    rw [classifyBatch,hparse]
    simp only [hclass]
  · exact hfresh

theorem appendLocked_ok_fresh {cfg : PartitionConfig} {env : IoEnv} {epoch : UInt32} {s : Store}
    {out : Appended} (h : appendLocked cfg env epoch batch s=some (t,.ok out))
    (hplain : PlainPayload s.producerStates batch) : ¬Stale s.producerStates batch := by
  have hlet : ∃a,admission s.toPartitionInner epoch batch=a ∧ ∀e,a≠.refused e := by
    cases appendLocked_step h with
    | known base hk => exact ⟨_,hk,nofun⟩
    | stored accepted s1 d a ha _ _ _ => exact ⟨_,ha,nofun⟩
  obtain ⟨a,ha,hne⟩ := hlet
  refine classifyBatch_fresh (g := s.toPartitionInner) hplain fun e he => hne e ?_
  rw [← he]
  exact (admission_classify ha hne).symm

/-- None of the batches written is a control batch, and none that was taken is below its producer's
epoch. -/
def TakenPayload.Inert (a : TakenPayload) : Prop :=
  (a.stored=true → ∀b∈payloadBatches a.payload,isControl b=false) ∧
    ∀b∈payloadBatches a.payload,¬Stale a.before b

theorem taken_inert {c : ProduceCall} {s : Store}
    (hplain : ∀payload∈c.records,PlainPayload s.producerStates payload) :
    ∀a∈c.taken s,a.Inert := by
  have hone {batch : Bytes} {stored : Bool} (hb : PlainPayload s.producerStates batch)
      (hfresh : ¬Stale s.producerStates batch) : (⟨s.producerStates,batch,stored⟩ : TakenPayload).Inert := by
    have hbatches := payloadBatches_whole hb.whole hb.headed
    constructor
    · intro _ b hmem
      rw [hbatches,List.mem_singleton] at hmem
      rw [hmem]
      exact hb.data
    · intro b hmem
      rw [hbatches,List.mem_singleton] at hmem
      rw [hmem]
      exact hfresh
  intro a ha
  unfold ProduceCall.taken at ha
  split at ha
  · cases ha
  · rename_i batch hgate
    have hb := hplain batch (produceGate_records hgate)
    split at ha
    · rename_i hlocked
      obtain rfl := List.mem_singleton.mp ha
      exact hone hb (appendLocked_ok_fresh hlocked hb)
    · rename_i hlocked
      obtain rfl := List.mem_singleton.mp ha
      exact hone hb (appendLocked_ok_fresh hlocked hb)
    · cases ha

/-- From every state of a partition and over every sequence of plain client payloads: no transaction
is closed or added as aborted, no control batch is stored, and no batch is taken below the epoch
that was recorded or fenced for its producer. -/
theorem client_payloads_inert {s : Store} {w : ClientWorld} (hrun : Reaches ClientStep SendsPlain ⟨s,[]⟩ w) :
    (∀pid o,s.openTxns.lookup pid=some o → w.store.openTxns.lookup pid=some o) ∧
    w.store.abortedTxns=s.abortedTxns ∧
    ∀a∈w.taken,(a.stored=true → ∀b∈payloadBatches a.payload,isControl b=false) ∧
      ∀b∈payloadBatches a.payload,¬Stale a.before b := by
  have hkeep (v : ClientWorld) (c : ProduceCall) (v' : ClientWorld)
      (ih : KeepsTxns s v.store ∧ ∀a∈v.taken,a.Inert) (hok : SendsPlain v c) (hstep : ClientStep v c v') :
      KeepsTxns s v'.store ∧ ∀a∈v'.taken,a.Inert := by
    obtain rfl := hstep
    refine ⟨ih.1.trans (after_keepsTxns fun payload hp => (hok payload hp).data),fun a ha => ?_⟩
    rcases List.mem_append.mp ha with ha | ha
    · exact ih.2 a ha
    · exact taken_inert hok a ha
  obtain ⟨htxns,htaken⟩ := hrun.invariant ⟨⟨fun _ _ ho => ho,rfl⟩,List.forall_mem_nil _⟩ hkeep
  exact ⟨htxns.opened,htxns.aborted,htaken⟩

def OpenedStore (s : Store) : Prop := openPartition castagnoli {} {}=(s.dir,.ok s.toPartition)

theorem openedStore_finds (ops : List PartitionOp) (P : Store → Prop)
    (h : ∃p∈(openPartition castagnoli {} {}).2.toOption,
      ∃s∈runAll (Store.exec castagnoli) ops ⟨p,(openPartition castagnoli {} {}).1⟩,P s) :
    ∃s0 s,OpenedStore s0 ∧ Reaches (PartitionStep castagnoli) (fun _ _ => True) s0 s ∧ P s := by
  obtain ⟨p,hopen,s,hrun,hp⟩ := h
  refine ⟨⟨p,(openPartition castagnoli {} {}).1⟩,s,eq_ok_of_toOption hopen,?_,hp⟩
  exact runAll_reaches (fun _ _ _ ht => ht) ops (fun _ _ _ => trivial) _ _ s .start hrun

theorem client_payloads_inert_next :
    ∃s0 s w,OpenedStore s0 ∧ Reaches (PartitionStep castagnoli) (fun _ _ => True) s0 s ∧
      Reaches ClientStep SendsPlain ⟨s,[]⟩ w ∧ w.taken.length=1 ∧ w.store.openTxns.lookup 7=some 0 := by
  obtain ⟨s0,s,h0,hreach,htxn,hok,hlen⟩ := openedStore_finds [.append ⟨{},{},0,txnBatch 7 0⟩]
    (fun s => s.openTxns.lookup 7=some 0 ∧ SendsPlain ⟨s,[]⟩ {records := some (txnBatch 7 1)} ∧
      (ClientWorld.exec ⟨s,[]⟩ {records := some (txnBatch 7 1)}).taken.length=1) (by decide +kernel)
  have hrun : Reaches ClientStep SendsPlain ⟨s,[]⟩ (ClientWorld.exec ⟨s,[]⟩ {records := some (txnBatch 7 1)}) :=
    .next _ .start hok rfl
  exact ⟨s0,s,_,h0,hreach,hrun,hlen,(client_payloads_inert hrun).1 7 0 htxn⟩

/-- An abort marker; a batch without a sequence number; a marker behind another batch; a header cut
short. -/
def forgedPayloads : List Bytes :=
  [buildControlBatch castagnoli 7 0 false 0,seqBatch (-1) 0,
    plainBatch++buildControlBatch castagnoli 7 0 true 0,(seqBatch 0 0).take 55]

/-- What is written of a payload: for each of its batches whether it is a control batch, and whether
it is stale. -/
def TakenPayload.marks (a : TakenPayload) : Bool × List (Bool × Bool) :=
  (a.stored,(payloadBatches a.payload).map fun b => (isControl b,decide (Stale a.before b)))

/-- With producer 7 in a transaction and fenced at epoch 1, all of these are stored, and the first
aborts the transaction. -/
theorem client_payloads_forged :
    ∃s0 s w,OpenedStore s0 ∧ Reaches (PartitionStep castagnoli) (fun _ _ => True) s0 s ∧
      Reaches ClientStep (fun _ _ => True) ⟨s,[]⟩ w ∧ w.taken.map TakenPayload.payload=forgedPayloads ∧
      s.openTxns.lookup 7=some 0 ∧ w.store.openTxns.lookup 7=none ∧
      s.abortedTxns=[] ∧ w.store.abortedTxns=[⟨7,0,1⟩] ∧
      w.taken.map TakenPayload.marks=[(true,[(true,true)]),(true,[(false,true)]),
        (true,[(false,false),(true,true)]),(true,[(false,true)])] := by
  obtain ⟨s0,s,h0,hreach,hall⟩ := openedStore_finds
    [.append ⟨{},{},0,txnBatch 7 0⟩,.fenceProducer 7 1] (fun s =>
      let w := (forgedPayloads.map fun b => {records := some b}).foldl ClientWorld.exec ⟨s,[]⟩
      w.taken.map TakenPayload.payload=forgedPayloads ∧
      s.openTxns.lookup 7=some 0 ∧ w.store.openTxns.lookup 7=none ∧
      s.abortedTxns=[] ∧ w.store.abortedTxns=[⟨7,0,1⟩] ∧
      w.taken.map TakenPayload.marks=[(true,[(true,true)]),(true,[(false,true)]),
        (true,[(false,false),(true,true)]),(true,[(false,true)])])
    (by decide +kernel)
  exact ⟨s0,s,_,h0,hreach,foldl_reaches ClientStep.made _ _,hall⟩

end Kaas
