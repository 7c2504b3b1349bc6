import Kaas.Broker.Produce
import Kaas.Storage.Durable

namespace Kaas

structure ProduceCall where
  cfg : PartitionConfig := {}
  gate : ProduceGate := {}
  env : IoEnv := {}
  acks : Int := -1
  flushed : Except StorageError Unit := .ok ()
  records : Option Bytes

/-- A stored batch with its assigned offset and the error code its producer was sent. -/
structure Answer where
  offset : Int
  batch : Bytes
  code : ProduceError
  deriving DecidableEq

/-- A broker with one open partition: the batches it has stored, oldest first, and how many of
them a completed fsync covers. -/
structure Ledger where
  node : Node
  stored : List Answer := []
  covered : Nat := 0

inductive LedgerOp
  | produce (c : ProduceCall)
  | commit (env : IoEnv)
  | writeCheckpoint (cp : RecoveryCheckpoint)

def storedAnswer (batch : Bytes) (code : ProduceError) : Except StorageError Appended → List Answer
  | .ok (.stored assigned _ _) => [⟨assigned,batch,code⟩]
  | _ => []

theorem mem_storedAnswer {batch : Bytes} {code : ProduceError} {r : Except StorageError Appended}
    {a : Answer} (h : a∈storedAnswer batch code r) :
    ∃seq triggered,r=.ok (.stored a.offset seq triggered) ∧ a.batch=batch ∧ a.code=code := by
  unfold storedAnswer at h
  split at h
  · rw [List.mem_singleton.mp h]
    exact ⟨_,_,rfl,rfl,rfl⟩
  · cases h

/-- The handler's path through one partition. The fsync of a roll covers what was stored in front
of it, the committer's everything. -/
def Ledger.exec (crc : Crc32c) (l : Ledger) : LedgerOp → Option Ledger
  | .produce c => l.node.live.bind (fun p => match produceGate c.gate ⟨p,l.node.dir⟩ c.records with
    | .inl _ => some l
    | .inr batch => (appendLocked c.cfg c.env c.gate.epoch batch ⟨p,l.node.dir⟩).map (fun out =>
      {node := {l.node with
         dir := out.1.dir
         live := some out.1.toPartition
         appended := l.node.appended++storedBatches batch out.2}
       stored := l.stored++storedAnswer batch
         (produceResponse c.acks c.flushed out.1 out.2).errorCode out.2
       covered := if out.1.closed=p.closed then l.covered else l.stored.length}))
  | .commit env => l.node.live.bind (fun p => match commitLocked env ⟨p,l.node.dir⟩ with
    | (_,.ok _) => (l.node.exec crc (.commit env)).map
        (fun n => {l with node := n,covered := l.stored.length})
    | (_,.error _) => (l.node.exec crc (.commit env)).map (fun n => {l with node := n}))
  | .writeCheckpoint cp => (l.node.exec crc (.writeCheckpoint cp)).map (fun n => {l with node := n})

variable {crc : Crc32c} {l l' : Ledger}

theorem Ledger.exec_appendOne (p : Partition) {c : ProduceCall}
    (up : l.node.live=some p) (h : l.exec crc (.produce c)=some l') :
    ∃s resp,appendOne c.cfg c.gate c.env c.acks c.flushed c.records ⟨p,l.node.dir⟩=some (s,resp) ∧
      l'.node.dir=s.dir ∧ l'.node.live=some s.toPartition ∧
      ∀a∈l'.stored,a∈l.stored ∨ a.code=resp.errorCode := by
  simp only [Ledger.exec,up,Option.bind_some] at h
  unfold appendOne
  cases hg : produceGate c.gate ⟨p,l.node.dir⟩ c.records with
  | inl resp =>
    rw [hg] at h
    cases h
    exact ⟨_,resp,rfl,rfl,up,fun a ha => Or.inl ha⟩
  | inr batch =>
    rw [hg] at h
    obtain ⟨⟨s,r⟩,hc,rfl⟩ := Option.map_eq_some_iff.mp h
    refine ⟨s,_,by dsimp only; rw [hc]; rfl,rfl,rfl,fun a ha => ?_⟩
    rcases List.mem_append.mp ha with ha|ha
    · exact Or.inl ha
    · obtain ⟨_,_,_,_,hcode⟩ := mem_storedAnswer ha
      exact Or.inr hcode

/-- The condition on a call: a payload that passes gates, latch, fence and dedupe window is one the
recovery scan accepts. -/
def LedgerOk (crc : Crc32c) (l : Ledger) : LedgerOp → Prop
  | .produce c => ∀p batch accepted,l.node.live=some p →
      produceGate c.gate ⟨p,l.node.dir⟩ c.records=.inr batch →
      admission p.toPartitionInner c.gate.epoch batch=.admitted accepted →
      Storable crc batch ∧ p.highWater+recordCount batch<2^63
  | _ => True

structure LedgerSound (crc : Crc32c) (l : Ledger) (p : Partition) (rows : SegmentName → List Bytes)
    (ends : SegmentName → Int) : Prop where
  node : NodeSound crc l.node
  live : l.node.live=some p
  journaled : Journaled crc ⟨p,l.node.dir⟩ rows ends
  placed : ∀a∈l.stored,baseOffset (rewriteBase a.batch a.offset)=a.offset ∧
    ∃n∈l.node.dir.logs,rewriteBase a.batch a.offset∈rows n
  bounded : l.covered≤l.stored.length
  covered : ∀a∈l.stored.take l.covered,Covered l.node.dir rows (rewriteBase a.batch a.offset)
  manifest : l.node.dir.manifest=firstStore.dir.manifest
  producers : l.node.dir.producers=.absent
  txns : l.node.dir.txns=.absent

theorem ledgerSound_produce {p : Partition} {rows : SegmentName → List Bytes}
    {ends : SegmentName → Int} (h : LedgerSound crc l p rows ends) {c : ProduceCall}
    (hok : LedgerOk crc l (.produce c)) (hs : l.exec crc (.produce c)=some l') :
    ∃p' rows' ends',LedgerSound crc l' p' rows' ends' := by
  simp only [Ledger.exec,h.live,Option.bind_some] at hs
  cases hg : produceGate c.gate ⟨p,l.node.dir⟩ c.records with
  | inl resp =>
    rw [hg] at hs
    cases hs
    exact ⟨p,rows,ends,h⟩
  | inr batch =>
    rw [hg] at hs
    obtain ⟨⟨s,r⟩,hc,rfl⟩ := Option.map_eq_some_iff.mp hs
    have hcond : NodeOk crc l.node (.append ⟨c.cfg,c.env,c.gate.epoch,batch⟩) := fun q accepted hq ha =>
      hok q batch accepted hq (by rw [h.live] at hq; cases hq; exact hg) ha
    have hsound := h.node.live p h.live
    obtain ⟨hnode,_⟩ := nodeStep_sound h.node hcond (.append h.live hc)
    obtain ⟨rows',ends',hj,hgrow,hroll,hstored⟩ :=
      journaled_append h.journaled hsound (fun accepted ha => hcond p accepted h.live ha) hc
    have hrest := appendLocked_segmentsOnly hc
    have hmem (n : SegmentName) (hn : n∈l.node.dir.logs) : n∈s.dir.logs := by
      obtain ⟨f,hf⟩ := Dir.lookup_of_mem hn
      obtain ⟨f',hf',_⟩ := hgrow.synced n f hf
      exact Dir.mem_of_lookup hf'
    refine ⟨s.toPartition,rows',ends',hnode,rfl,hj,?_,?_,?_,hrest.manifest.trans h.manifest,
      hrest.producers.trans h.producers,hrest.txns.trans h.txns⟩
    · intro a ha
      rcases List.mem_append.mp ha with ha|ha
      · obtain ⟨hb,n,hn,hr⟩ := h.placed a ha
        exact ⟨hb,n,hmem n hn,(hgrow.grown n hn).subset hr⟩
      · obtain ⟨seq,triggered,hr,hbatch,_⟩ := mem_storedAnswer ha
        rw [hbatch]
        exact hstored _ _ _ hr
    · have := h.bounded
      dsimp only
      split_ifs <;> simp only [List.length_append] <;> omega
    · intro a ha
      by_cases hclosed : s.closed=p.closed
      · dsimp only at ha
        rw [if_pos hclosed,List.take_append_of_le_length h.bounded] at ha
        exact (h.covered a ha).grow hgrow
      · dsimp only at ha
        rw [if_neg hclosed,List.take_left] at ha
        obtain ⟨_,n,hn,hr⟩ := h.placed a ha
        obtain ⟨f,hf⟩ := Dir.lookup_of_mem hn
        exact hroll hclosed n f hf _ hr

theorem ledgerSound_step {op : LedgerOp}
    (h : ∃p rows ends,LedgerSound crc l p rows ends) (hok : LedgerOk crc l op)
    (hs : l.exec crc op=some l') : ∃p rows ends,LedgerSound crc l' p rows ends := by
  obtain ⟨p,rows,ends,h⟩ := h
  cases op with
  | produce c => exact ledgerSound_produce h hok hs
  | commit env =>
    simp only [Ledger.exec,h.live,Option.bind_some,Node.exec] at hs
    rcases hc : commitLocked env ⟨p,l.node.dir⟩ with ⟨s,e|⟨seq,cp⟩⟩
    · rw [hc] at hs
      cases hs
      obtain rfl := commitLocked_error hc
      exact ⟨p,rows,ends,{h with
        node := (nodeStep_sound h.node (show NodeOk crc l.node (.commit env) from trivial)
          (.commitFailed h.live hc)).1
        live := rfl}⟩
    · rw [hc] at hs
      cases hs
      obtain ⟨hj,hgrow,hall⟩ := journaled_commit h.journaled hc
      obtain ⟨_,_,hs,_⟩ := commitLocked_ok hc
      have hrest : l.node.dir.SegmentsOnly s.dir := by rw [hs]; exact Dir.onLog_segmentsOnly _ _ _
      refine ⟨s.toPartition,rows,ends,(nodeStep_sound h.node
        (show NodeOk crc l.node (.commit env) from trivial) (.commit h.live hc)).1,rfl,hj,?_,
        le_refl _,?_,hrest.manifest.trans h.manifest,hrest.producers.trans h.producers,
        hrest.txns.trans h.txns⟩
      · intro a ha
        obtain ⟨hb,n,hn,hr⟩ := h.placed a ha
        obtain ⟨f,hf⟩ := Dir.lookup_of_mem hn
        obtain ⟨f',hf',_⟩ := hgrow.synced n f hf
        exact ⟨hb,n,Dir.mem_of_lookup hf',hr⟩
      · intro a ha
        obtain ⟨_,n,hn,hr⟩ := h.placed a (List.mem_of_mem_take ha)
        obtain ⟨f,hf⟩ := Dir.lookup_of_mem hn
        exact hall n f hf _ hr
  | writeCheckpoint cp =>
    simp only [Ledger.exec] at hs
    obtain ⟨n,hn,rfl⟩ := Option.map_eq_some_iff.mp hs
    have hstep := Node.exec_step _ _ _ _ hn
    have hnode := (nodeStep_sound h.node (show NodeOk crc l.node (.writeCheckpoint cp) from trivial) hstep).1
    cases hstep
    exact ⟨p,rows,ends,{h with
      node := hnode
      journaled := ⟨h.journaled.journal.congr (fun _ => Iff.rfl) (fun _ => rfl)
        (fun n f f' hf hf' => by rw [hf] at hf'; cases hf'; rfl),
        h.journaled.active.imp id (fun ha => ⟨ha.opened,ha.size,ha.ends,ha.cursor,ha.synced⟩)⟩}⟩

def firstLedger : Ledger := ⟨firstNode,[],0⟩

theorem firstLedger_sound (crc : Crc32c) :
    ∃p rows ends,LedgerSound crc firstLedger p rows ends := by
  have hreach := firstNode_reached crc
  have hlook (n : SegmentName) (f : LogFile) (h : firstStore.dir.logs.lookup n=some f) :
      n=segmentName 0 0 ∧ f={} := by
    change (ActiveSegment.created {} (segmentName 0 0)).logs.lookup n=some f at h
    rw [ActiveSegment.created_lookup] at h
    split_ifs at h with hn
    · exact ⟨hn,(Option.some.inj h).symm⟩
    · cases h
  have hmem (n : SegmentName) (h : n∈firstStore.dir.logs) : n=segmentName 0 0 := by
    obtain ⟨f,hf⟩ := Dir.lookup_of_mem h
    exact (hlook n f hf).1
  have hparse : (segmentName 0 0).parse=some (0,0) := by decide
  refine ⟨firstStore.toPartition,fun _ => [],fun _ => 0,?_,rfl,⟨⟨?_,?_,?_⟩,Or.inr ⟨rfl,rfl,rfl,⟨rfl,rfl⟩,?_⟩⟩,
    by simp [firstLedger],le_refl _,by simp [firstLedger],rfl,rfl,rfl⟩
  · exact nodeSound_reached hreach
  · intro n f hf
    obtain ⟨rfl,rfl⟩ := hlook n f hf
    have hidx : firstStore.dir.indexData (segmentName 0 0)=[] := rfl
    exact ⟨0,0,hparse,by simp,by simp,Chained.nil 0,fun i hi => by
      change i<(firstStore.dir.indexData (segmentName 0 0)).length/8 at hi
      rw [hidx] at hi
      simp at hi,le_refl _,by decide⟩
  · intro n hn n' hn' b e b' e' hp hp' hlt
    rw [hmem n hn,hparse] at hp
    rw [hmem n' hn',hparse] at hp'
    cases hp
    cases hp'
    omega
  · intro n hn n' hn' b e e' _ _
    rw [hmem n hn,hmem n' hn']
  · intro n f _ _
    exact Nat.zero_le _

/-- In every run of the produce handler whose accepted payloads can be recovered, every stored batch
a completed fsync covers is read back at its assigned offset by the open that follows any crash. -/
theorem acked_batches_survive (crc : Crc32c) (l : Ledger)
    (run : Reaches (fun l op l' => Ledger.exec crc l op=some l') (LedgerOk crc) firstLedger l) :
    ∀a∈l.stored.take l.covered,∀d2,l.node.dir.CrashImage d2 → ∀env,
      ∃d3 p,openPartition crc env d2=(d3,.ok p) ∧ ∀maxBytes,(rewriteBase a.batch a.offset).length≤ maxBytes →
        rewriteBase a.batch a.offset <+: readSnapshot d3 p.snapshot a.offset maxBytes := by
  obtain ⟨p,rows,ends,h⟩ := run.invariant (firstLedger_sound crc)
    (fun _ _ _ h hok hs => ledgerSound_step h hok hs)
  intro a ha d2 image env
  obtain ⟨n,base,htop⟩ := (h.node.live p h.live).rooted
  have hm : d2.manifest.read=.ok (.present ⟨0,0,0⟩) := by
    rw [image.manifest,h.manifest]; rfl
  have hread : Readable d2 := by
    refine ⟨⟨_,hm⟩,?_,?_⟩
    · rw [image.producers,h.producers]; nofun
    · rw [image.txns,h.txns]; nofun
  obtain ⟨d3,p',hopen⟩ := openPartition_total crc env (htop.congr image.names) hread
  have hstart := openPartition_logStart hopen hm
  have hbase := (h.placed a (List.mem_of_mem_take ha)).1
  refine ⟨d3,p',hopen,fun maxBytes hlen => ?_⟩
  have hr := covered_readable h.journaled.journal (h.covered a ha) htop
    (fun cp hc => h.node.checkpoints cp (Or.inl hc)) image hopen (by rw [hstart]; decide) hlen
  rwa [hbase] at hr

theorem acked_batch_survives_first :
    ∃l d2 d3 p,runAll (Ledger.exec castagnoli) [.produce {records := some oneRecord.batch},.commit {}]
        firstLedger=some l ∧ l.node.dir.CrashImage d2 ∧ openPartition castagnoli {} d2=(d3,.ok p) ∧
      rewriteBase oneRecord.batch 0 <+: readSnapshot d3 p.snapshot 0 61 := by
  have hok : LedgerOk castagnoli firstLedger (.produce {records := some oneRecord.batch}) := by
    rintro p batch accepted ⟨⟩ hgate _
    have hbatch : batch=oneRecord.batch := by
      have hg : produceGate {} ⟨firstStore.toPartition,firstStore.dir⟩ (some oneRecord.batch)=
          .inr oneRecord.batch := by decide +kernel
      exact Sum.inr.inj (hgate.symm.trans hg)
    rw [hbatch]
    exact ⟨oneRecord_storable,by decide +kernel⟩
  obtain ⟨l,hl,hstored,hcovered,hkeys,hsynced⟩ :
      ∃l∈runAll (Ledger.exec castagnoli) [.produce {records := some oneRecord.batch},.commit {}] firstLedger,
      l.stored=[⟨0,oneRecord.batch,.none⟩] ∧ l.covered=1 ∧ l.node.dir.logs.keys=[segmentName 0 0] ∧
        (l.node.dir.logs.lookup (segmentName 0 0)).map LogFile.synced=some 61 := by decide +kernel
  obtain ⟨l1,h1,h2⟩ := runAll_cons.mp hl
  obtain ⟨l2,h2,⟨⟩⟩ := runAll_cons.mp h2
  have hreach : Reaches (fun l op l' => Ledger.exec castagnoli l op=some l') (LedgerOk castagnoli)
      firstLedger l := .next (.commit {}) (.next _ .start hok h1) trivial h2
  have himage : l.node.dir.CrashImage (l.node.dir.cutTo (segmentName 0 0) 61) :=
    crashImage_cutTo hkeys hsynced (le_refl _)
  obtain ⟨d3,p,hopen,hread⟩ := acked_batches_survive castagnoli l hreach ⟨0,oneRecord.batch,.none⟩
    (by rw [hstored,hcovered]; simp) _ himage {}
  exact ⟨l,_,d3,p,hl,himage,hopen,hread 61 (by decide +kernel)⟩

def uncheckedBatch : Bytes := oneRecord.batch.take 17++[0,0,0,0]++oneRecord.batch.drop 21

/-- The checksum of a payload is not looked at: the batch is answered with code 0 and synced, as is
a sound one behind it; after a crash that loses nothing the open cuts both off. -/
theorem unchecked_batch_discards_acked :
    ∃l d2 d3 p,runAll (Ledger.exec castagnoli) [.produce {records := some uncheckedBatch},
        .produce {records := some oneRecord.batch},.commit {}] firstLedger=some l ∧
      l.stored=[⟨0,uncheckedBatch,.none⟩,⟨1,oneRecord.batch,.none⟩] ∧ l.covered=2 ∧
      l.node.dir.CrashImage d2 ∧ openPartition castagnoli {} d2=(d3,.ok p) ∧ p.highWater=0 ∧
      ∀maxBytes,readSnapshot d3 p.snapshot 1 maxBytes=[] := by
  obtain ⟨l,hl,p,hp,hstored,hcovered,hkeys,hsynced,hhw,hdata,hsnap⟩ :
      ∃l∈runAll (Ledger.exec castagnoli) [.produce {records := some uncheckedBatch},
      .produce {records := some oneRecord.batch},.commit {}] firstLedger,
      ∃p∈(openPartition castagnoli {} (l.node.dir.cutTo (segmentName 0 0) 122)).2.toOption,
        l.stored=[⟨0,uncheckedBatch,.none⟩,⟨1,oneRecord.batch,.none⟩] ∧ l.covered=2 ∧
        l.node.dir.logs.keys=[segmentName 0 0] ∧
        (l.node.dir.logs.lookup (segmentName 0 0)).map LogFile.synced=some 122 ∧ p.highWater=0 ∧
        (openPartition castagnoli {} (l.node.dir.cutTo (segmentName 0 0) 122)).1.logData (segmentName 0 0)=[] ∧
        p.snapshot=⟨0,0,0,[],⟨0,0,0,segmentName 0 0,unknownMaxTimestamp⟩⟩ := by decide +kernel
  have himage : l.node.dir.CrashImage (l.node.dir.cutTo (segmentName 0 0) 122) :=
    crashImage_cutTo hkeys hsynced (le_refl _)
  have hopen := eq_ok_of_toOption hp
  generalize (openPartition castagnoli {} (l.node.dir.cutTo (segmentName 0 0) 122)).1=d3 at hopen hdata
  refine ⟨l,_,d3,p,hl,hstored,hcovered,himage,hopen,hhw,fun maxBytes => ?_⟩
  rw [hsnap]
  have hread (n : Nat) : readSegment d3 ⟨0,0,0,segmentName 0 0,unknownMaxTimestamp⟩ 1 n=[] := by
    unfold readSegment readBatches
    rw [hdata,List.drop_nil]
    exact readLoop_nil _ _ _ _
  simp [readSnapshot,readClosed,upperBounds,hread]

end Kaas
