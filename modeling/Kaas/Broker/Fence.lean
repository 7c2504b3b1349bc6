import Kaas.Controller.Balancer
import Kaas.Storage.Anchor
import Kaas.Storage.Producers

namespace Kaas

/-! The epochs of the producer windows. -/

def HoldsFence (states : ProducerStates) (pid epoch : Int) : Prop :=
  (states.lookup pid).any (fun entry => decide (epoch≤entry.epoch))=true

instance (states : ProducerStates) (pid epoch : Int) : Decidable (HoldsFence states pid epoch) :=
  inferInstanceAs (Decidable (_=_))

variable {states : ProducerStates} {epoch : Int}

theorem holdsFence_iff {pid : Int} :
    HoldsFence states pid epoch ↔ ∃entry,states.lookup pid=some entry ∧ epoch≤entry.epoch := by
  unfold HoldsFence
  cases states.lookup pid <;> simp

def KeepsFences (states states' : ProducerStates) : Prop :=
  ∀pid epoch,HoldsFence states pid epoch → HoldsFence states' pid epoch

theorem KeepsFences.of_eq {states' : ProducerStates} (h : states'=states) : KeepsFences states states' := by
  intro pid epoch hf
  rw [h]
  exact hf

theorem fenceProducer_holds (states : ProducerStates) (pid epoch : Int) :
    HoldsFence (fenceProducer states pid epoch) pid epoch :=
  holdsFence_iff.mpr ⟨_,fenceProducer_lookup states pid epoch,(entryAt_epoch states pid epoch).1⟩

theorem entryAt_keeps {pid : Int} (h : HoldsFence states pid epoch) (newer : Int) :
    epoch≤(entryAt states pid newer).epoch := by
  obtain ⟨entry,hl,he⟩ := holdsFence_iff.mp h
  have hkept := (entryAt_epoch states pid newer).2
  rw [hl] at hkept
  exact he.trans hkept

theorem fenceProducer_keeps (states : ProducerStates) (pid newer : Int) :
    KeepsFences states (fenceProducer states pid newer) := by
  intro pid' epoch h
  by_cases hp : pid'=pid
  · subst hp
    exact holdsFence_iff.mpr ⟨_,fenceProducer_lookup states pid' newer,entryAt_keeps h newer⟩
  · unfold HoldsFence
    rw [fenceProducer_lookup_ne states newer hp]
    exact h

theorem recordAccepted_keeps (states : ProducerStates) (info : BatchProducerInfo) (base : Int) :
    KeepsFences states (recordAccepted states info base) := by
  intro pid epoch h
  by_cases hp : pid=info.producerId
  · subst hp
    exact holdsFence_iff.mpr ⟨_,recordAccepted_lookup states info base,entryAt_keeps h info.epoch⟩
  · unfold HoldsFence
    rw [recordAccepted_lookup_ne states base hp]
    exact h

theorem takeOver_producers (env : IoEnv) (epoch : UInt32) (s : Store) :
    (takeOver env epoch s).1.producerStates=s.producerStates := by
  unfold takeOver
  have hroll := (rollForEpochLocked_ledger env s epoch.toNat).1.producers
  split_ifs
  · rfl
  · rcases hr : rollForEpochLocked env s epoch.toNat with ⟨s1,e|u⟩
    · rw [hr] at hroll
      exact hroll
    · rw [hr] at hroll
      dsimp only
      rcases persistStateLocked env s1.toPartitionInner s1.dir epoch.toNat with ⟨d,e|b⟩
      · exact hroll
      · exact hroll

theorem partitionStep_keepsFences {crc : Crc32c} {s t : Store} {op : PartitionOp}
    (hs : PartitionStep crc s op t)
    (hop : ∀closing opening,op≠.reopen closing opening) : KeepsFences s.producerStates t.producerStates := by
  refine partitionStep_cases (P := fun t => KeepsFences s.producerStates t.producerStates) hs ?_
    (.of_eq rfl) ?_ ?_ ?_ ?_ ?_
  · intro c r s1 _ call
    rcases append_producers call with ⟨hp,_⟩|⟨_,_,_,_,hp,_⟩|⟨info,_,_,hp,_⟩
    · exact .of_eq hp
    · exact .of_eq hp
    · rw [hp]
      exact recordAccepted_keeps _ info _
  · intro env s1 seq cp _ call
    obtain ⟨_,_,hs1,_⟩ := commitLocked_ok call
    refine .of_eq ?_
    unfold writeDue
    rw [hs1]
    split
    · split_ifs <;> rfl
    · rfl
  · intro env epoch _
    exact .of_eq (takeOver_producers env epoch s)
  · intro env target
    rcases deleteRecords_cases env target s with hd|⟨start,_,_,hd⟩
    · exact .of_eq (by rw [hd])
    · exact .of_eq (by rw [hd]; rfl)
  · intro pid newEpoch
    exact fenceProducer_keeps _ pid newEpoch
  · intro closing opening s1 d p hre
    exact absurd hre (hop closing opening)

theorem classify_fenced {info : BatchProducerInfo}
    (hf : HoldsFence states info.producerId epoch) (hid : Idempotent info) (hlt : info.epoch<epoch) :
    classify states info=.invalidEpoch := by
  obtain ⟨entry,hl,he⟩ := holdsFence_iff.mp hf
  have hbelow : info.epoch<entry.epoch := hlt.trans_le he
  unfold classify
  rw [if_neg (not_lt.mpr hid.1),if_neg (not_lt.mpr hid.2),hl]
  dsimp only
  rw [if_neg (not_lt.mpr hbelow.le),if_pos hbelow]

theorem appendLocked_fenced {s : Store} {c : AppendCall} {info : BatchProducerInfo}
    (hparse : parseBatchProducerInfo c.batch=some info) (hid : Idempotent info)
    (hlt : info.epoch<epoch) (hf : HoldsFence s.producerStates info.producerId epoch) :
    ∃e,appendLocked c.cfg c.env c.epoch c.batch s=some (s,.error e) := by
  have hclass : classifyBatch s.toPartitionInner c.batch=.refused .invalidProducerEpoch := by
    unfold classifyBatch
    rw [hparse]
    dsimp only
    rw [classify_fenced hf hid hlt]
  unfold appendLocked admission
  by_cases hstall : s.flushErr.isSome
  · exact ⟨.stalled,by rw [if_pos hstall]⟩
  · rw [if_neg hstall]
    by_cases hepoch : (c.epoch.toNat : Int)<s.epoch
    · exact ⟨.epochMismatch,by rw [if_pos hepoch]⟩
    · exact ⟨.invalidProducerEpoch,by rw [if_neg hepoch,hclass]⟩

/-! The fence log of a broker and the watcher that reads those of its peers. -/

abbrev FenceMap := AList (fun _ : Int => Int)

def FenceMap.covers (m : FenceMap) (pid epoch : Int) : Bool := (m.lookup pid).any (fun e => decide (epoch≤e))

def loadFences (f : JsonFile FenceMap) (readable : Bool) : Except IoError FenceMap :=
  if readable then
    match f with
    | .absent => .ok ∅
    | .corrupt => .error .fault
    | .present m => .ok m
  else .error .fault

def appendFence (f : JsonFile FenceMap) (readable written : Bool) (pid epoch : Int) :
    JsonFile FenceMap × Except IoError Unit :=
  match loadFences f readable with
  | .error e => (f,.error e)
  | .ok m =>
    if FenceMap.covers m pid epoch then (f,.ok ())
    else if written then (.present (m.insert pid epoch),.ok ())
    else (f,.error .fault)

/-- The entries of a peer's file that are above what was applied from it before, and what is applied
then. -/
def freshFences (last peer : FenceMap) : FenceMap × List (Int × Int) :=
  peer.entries.foldl (fun acc e =>
    if FenceMap.covers acc.1 e.1 e.2 then acc else (acc.1.insert e.1 e.2,acc.2++[(e.1,e.2)])) (last,[])

/-- A call of `fence_producer_epoch` on its way through the open partitions: those of them it found
at its start and has not come to yet. -/
structure FenceWalk where
  pid : Int
  epoch : Int
  ahead : List PartitionKey

/-- A broker: its open partitions, those on the way into the map or out of it, the cache of its
watcher, the fences the watcher has still to apply, and those it or a handler has processed. -/
structure FenceBroker where
  partitions : AList (fun _ : PartitionKey => Partition) := ∅
  opening : List (PartitionKey × Partition) := []
  closing : List (PartitionKey × Partition) := []
  applied : AList (fun _ : String => FenceMap) := ∅
  pending : List (Int × Int) := []
  walks : List FenceWalk := []
  processed : List (Int × Int) := []

namespace FenceBroker

def startWalk (b : FenceBroker) (pid epoch : Int) : FenceBroker :=
  {b with walks := b.walks++[⟨pid,epoch,b.partitions.keys⟩]}

/-- `InitProducerId` on a transactional id: the epoch of a first allocation fences nothing. -/
def rejoin (b : FenceBroker) (pid epoch : Int) : FenceBroker := if 0<epoch then b.startWalk pid epoch else b

/-- `apply_peer` up to its list of fences; a file that is missing or cannot be read or decoded is
skipped. -/
def applyPeer (b : FenceBroker) (peer : String) (f : JsonFile FenceMap) (readable : Bool) : FenceBroker :=
  match f,readable with
  | .present m,true =>
    let r := freshFences ((b.applied.lookup peer).getD ∅) m
    {b with applied := b.applied.insert peer r.1,pending := b.pending++r.2}
  | _,_ => b

def applyNext (b : FenceBroker) : FenceBroker :=
  match b.pending with
  | [] => b
  | f::rest => {b with pending := rest}.startWalk f.1 f.2

/-- A walk comes to a key, and fences the producer when a partition is open there. -/
def visit (b : FenceBroker) (i : Nat) (key : PartitionKey) : FenceBroker :=
  match b.walks[i]? with
  | none => b
  | some k => {b with
      walks := b.walks.set i {k with ahead := k.ahead.filter (fun x => decide (x≠key))}
      partitions := match b.partitions.lookup key with
        | none => b.partitions
        | some p => b.partitions.insert key
            {p with producerStates := fenceProducer p.producerStates k.pid k.epoch}}

def finish (b : FenceBroker) (i : Nat) : FenceBroker :=
  match b.walks[i]? with
  | none => b
  | some k =>
    if k.ahead=[] then {b with walks := b.walks.eraseIdx i,processed := b.processed++[(k.pid,k.epoch)]}
    else b

def enter (b : FenceBroker) (i : Nat) : FenceBroker :=
  match b.opening[i]? with
  | none => b
  | some (key,p) => {b with
      opening := b.opening.eraseIdx i
      partitions := if key∈b.partitions then b.partitions else b.partitions.insert key p}

def leave (b : FenceBroker) (key : PartitionKey) : FenceBroker :=
  match b.partitions.lookup key with
  | none => b
  | some p => {b with partitions := b.partitions.erase key,closing := b.closing++[(key,p)]}

end FenceBroker

structure FenceWorld where
  dirs : PartitionKey → Dir := fun _ => {}
  logs : String → JsonFile FenceMap := fun _ => .absent
  brokers : String → FenceBroker := fun _ => {}

inductive FenceOp
  | rejoin (broker : String) (pid epoch : Int)
  | publish (broker : String) (pid epoch : Int) (readable written : Bool)
  | tick (broker peer : String) (readable : Bool)
  | applyNext (broker : String)
  | visit (broker : String) (i : Nat) (key : PartitionKey)
  | finish (broker : String) (i : Nat)
  | store (broker : String) (key : PartitionKey) (op : PartitionOp)
  | openDir (broker : String) (key : PartitionKey) (env : IoEnv)
  | enter (broker : String) (i : Nat)
  | leave (broker : String) (key : PartitionKey)
  | close (broker : String) (i : Nat) (env : IoEnv)

namespace FenceWorld

def set (w : FenceWorld) (broker : String) (b : FenceBroker) : FenceWorld :=
  {w with brokers := Function.update w.brokers broker b}

/-- An operation on an open partition; opens and closes are steps of their own. -/
def store (crc : Crc32c) (w : FenceWorld) (broker : String) (key : PartitionKey)
    (op : PartitionOp) : FenceWorld :=
  match op,(w.brokers broker).partitions.lookup key with
  | .reopen _ _,_ => w
  | _,none => w
  | op,some p => match Store.exec crc ⟨p,w.dirs key⟩ op with
    | none => w
    | some s => {w.set broker {w.brokers broker with
          partitions := (w.brokers broker).partitions.insert key s.toPartition} with
        dirs := Function.update w.dirs key s.dir}

def openDir (crc : Crc32c) (w : FenceWorld) (broker : String) (key : PartitionKey) (env : IoEnv) : FenceWorld :=
  match openPartition crc env (w.dirs key) with
  | (d,.error _) => {w with dirs := Function.update w.dirs key d}
  | (d,.ok p) => {w.set broker {w.brokers broker with opening := (w.brokers broker).opening++[(key,p)]} with
      dirs := Function.update w.dirs key d}

def close (w : FenceWorld) (broker : String) (i : Nat) (env : IoEnv) : FenceWorld :=
  match (w.brokers broker).closing[i]? with
  | none => w
  | some (key,p) => {w.set broker {w.brokers broker with closing := (w.brokers broker).closing.eraseIdx i} with
      dirs := Function.update w.dirs key (closePartition env ⟨p,w.dirs key⟩).1.dir}

def exec (crc : Crc32c) (w : FenceWorld) : FenceOp → FenceWorld
  | .rejoin broker pid epoch => w.set broker ((w.brokers broker).rejoin pid epoch)
  | .publish broker pid epoch readable written =>
    -- the handler writes its log when its own walk is behind it
    if (pid,epoch)∈(w.brokers broker).processed then
      {w with logs := Function.update w.logs broker (appendFence (w.logs broker) readable written pid epoch).1}
    else w
  | .tick broker peer readable =>
    if peer=broker then w else w.set broker ((w.brokers broker).applyPeer peer (w.logs peer) readable)
  | .applyNext broker => w.set broker (w.brokers broker).applyNext
  | .visit broker i key => w.set broker ((w.brokers broker).visit i key)
  | .finish broker i => w.set broker ((w.brokers broker).finish i)
  | .store broker key op => w.store crc broker key op
  | .openDir broker key env => w.openDir crc broker key env
  | .enter broker i => w.set broker ((w.brokers broker).enter i)
  | .leave broker key => w.set broker ((w.brokers broker).leave key)
  | .close broker i env => w.close broker i env

end FenceWorld

def FenceStep (crc : Crc32c) (w : FenceWorld) (op : FenceOp) (w' : FenceWorld) : Prop := w.exec crc op=w'

/-- The windows hold the fences the broker has processed and those of the walks that have passed the
key. -/
def FenceBroker.Guarded (b : FenceBroker) (key : PartitionKey) (states : ProducerStates) : Prop :=
  (∀f∈b.processed,HoldsFence states f.1 f.2) ∧ ∀k∈b.walks,key∉k.ahead → HoldsFence states k.pid k.epoch

instance (b : FenceBroker) (key : PartitionKey) (states : ProducerStates) : Decidable (b.Guarded key states) :=
  inferInstanceAs (Decidable ((∀f∈_,_) ∧ ∀k∈_,_ → _))

/-- A partition that comes into a broker's map was restored with the fences of that broker. -/
def FenceOk (w : FenceWorld) : FenceOp → Prop
  | .enter broker i => ∀e∈(w.brokers broker).opening[i]?,
      e.1∉(w.brokers broker).partitions → (w.brokers broker).Guarded e.1 e.2.producerStates
  | _ => True

instance (w : FenceWorld) (op : FenceOp) : Decidable (FenceOk w op) :=
  match op with
  | .enter .. => inferInstanceAs (Decidable (∀e∈_,_ → _))
  | .rejoin .. | .publish .. | .tick .. | .applyNext .. | .visit .. | .finish .. | .store .. | .openDir ..
  | .leave .. | .close .. => .isTrue trivial

def FenceBroker.Sound (b : FenceBroker) : Prop :=
  ∀key p,b.partitions.lookup key=some p → b.Guarded key p.producerStates

namespace FenceBroker

variable {b : FenceBroker}

theorem Guarded.keeps {key : PartitionKey} {states' : ProducerStates} (h : b.Guarded key states)
    (hk : KeepsFences states states') : b.Guarded key states' :=
  ⟨fun f hf => hk _ _ (h.1 f hf),fun k hk' ha => hk _ _ (h.2 k hk' ha)⟩

theorem Sound.startWalk (h : b.Sound) (pid epoch : Int) : (b.startWalk pid epoch).Sound := by
  intro key p hp
  refine ⟨(h key p hp).1,?_⟩
  intro k hk ha
  rcases List.mem_append.mp hk with hk|hk
  · exact (h key p hp).2 k hk ha
  · rw [List.mem_singleton.mp hk] at ha
    exact absurd (AList.mem_keys.mp (AList.lookup_isSome.mp (Option.isSome_of_mem hp))) ha

theorem Sound.rejoin (h : b.Sound) (pid epoch : Int) : (b.rejoin pid epoch).Sound := by
  unfold FenceBroker.rejoin
  split_ifs
  · exact h.startWalk pid epoch
  · exact h

theorem Sound.applyPeer (h : b.Sound) (peer : String) (f : JsonFile FenceMap) (readable : Bool) :
    (b.applyPeer peer f readable).Sound := by
  unfold FenceBroker.applyPeer
  split
  · exact h
  · exact h

theorem Sound.applyNext (h : b.Sound) : b.applyNext.Sound := by
  unfold FenceBroker.applyNext
  split
  · exact h
  · rename_i f rest _
    exact Sound.startWalk (b := {b with pending := rest}) h f.1 f.2

theorem Sound.replace (h : b.Sound) {key : PartitionKey} {p : Partition} (p' : Partition)
    (hp : b.partitions.lookup key=some p) (hk : KeepsFences p.producerStates p'.producerStates) :
    Sound {b with partitions := b.partitions.insert key p'} := by
  intro key' q hq
  by_cases hkey : key'=key
  · subst hkey
    cases (AList.lookup_insert _).symm.trans hq
    exact (h key' p hp).keeps hk
  · exact h key' q ((AList.lookup_insert_ne hkey).symm.trans hq)

theorem Sound.visit (h : b.Sound) (i : Nat) (key : PartitionKey) : (b.visit i key).Sound := by
  unfold FenceBroker.visit
  cases hi : b.walks[i]? with
  | none => exact h
  | some k =>
    have hmem : k∈b.walks := List.mem_of_getElem? hi
    -- the walk has one key less ahead of it, so that key alone has to be shown
    have hwalk (key' : PartitionKey) (states : ProducerStates) (hc : b.Guarded key' states)
        (hv : key'=key → HoldsFence states k.pid k.epoch) :
        ∀k'∈b.walks.set i {k with ahead := k.ahead.filter (fun x => decide (x≠key))},
          key'∉k'.ahead → HoldsFence states k'.pid k'.epoch := by
      intro k' hk' ha
      rcases List.mem_or_eq_of_mem_set hk' with hk'|rfl
      · exact hc.2 k' hk' ha
      · by_cases hkey : key'=key
        · exact hv hkey
        · refine hc.2 k hmem ?_
          intro hin
          exact ha (List.mem_filter.mpr ⟨hin,decide_eq_true hkey⟩)
    cases hl : b.partitions.lookup key with
    | none =>
      intro key' q hq
      have hc := h key' q hq
      refine ⟨hc.1,hwalk key' _ hc ?_⟩
      rintro rfl
      cases hl.symm.trans hq
    | some p =>
      have hs := h.replace {p with producerStates := fenceProducer p.producerStates k.pid k.epoch}
        hl (fenceProducer_keeps _ k.pid k.epoch)
      intro key' q hq
      have hc := hs key' q hq
      refine ⟨hc.1,hwalk key' _ hc ?_⟩
      rintro rfl
      cases (AList.lookup_insert _).symm.trans hq
      exact fenceProducer_holds _ k.pid k.epoch

theorem Sound.finish (h : b.Sound) (i : Nat) : (b.finish i).Sound := by
  unfold FenceBroker.finish
  cases hi : b.walks[i]? with
  | none => exact h
  | some k =>
    dsimp only
    split_ifs with hdone
    · intro key p hp
      have hc := h key p hp
      refine ⟨?_,fun k' hk' => hc.2 k' (List.mem_of_mem_eraseIdx hk')⟩
      intro f hf
      rcases List.mem_append.mp hf with hf|hf
      · exact hc.1 f hf
      · rw [List.mem_singleton.mp hf]
        exact hc.2 k (List.mem_of_getElem? hi) (by rw [hdone]; exact List.not_mem_nil)
    · exact h

theorem Sound.enter (h : b.Sound) (i : Nat)
    (hok : ∀e∈b.opening[i]?,e.1∉b.partitions → b.Guarded e.1 e.2.producerStates) : (b.enter i).Sound := by
  unfold FenceBroker.enter
  cases hi : b.opening[i]? with
  | none => exact h
  | some e =>
    obtain ⟨key,p⟩ := e
    intro key' q hq
    dsimp only at hq
    split_ifs at hq with hin
    · exact h key' q hq
    · by_cases hkey : key'=key
      · subst hkey
        cases (AList.lookup_insert _).symm.trans hq
        exact hok _ hi hin
      · exact h key' q ((AList.lookup_insert_ne hkey).symm.trans hq)

theorem Sound.leave (h : b.Sound) (key : PartitionKey) : (b.leave key).Sound := by
  unfold FenceBroker.leave
  split
  · exact h
  · intro key' q hq
    by_cases hkey : key'=key
    · subst hkey
      cases (AList.lookup_erase _ _).symm.trans hq
    · exact h key' q ((AList.lookup_erase_ne hkey).symm.trans hq)

end FenceBroker

namespace FenceWorld

variable {w : FenceWorld}

def Sound (w : FenceWorld) : Prop := ∀broker,(w.brokers broker).Sound

theorem Sound.set (h : w.Sound) {broker : String} {b : FenceBroker} (hb : b.Sound) :
    (w.set broker b).Sound := by
  intro broker'
  change (Function.update w.brokers broker b broker').Sound
  by_cases hbr : broker'=broker
  · subst hbr
    rw [Function.update_self]
    exact hb
  · rw [Function.update_of_ne hbr]
    exact h broker'

theorem Sound.store (h : w.Sound) (crc : Crc32c) (broker : String) (key : PartitionKey)
    (op : PartitionOp) : (w.store crc broker key op).Sound := by
  unfold FenceWorld.store
  split
  · exact h
  · exact h
  · rename_i op p hop hp
    split
    · exact h
    · rename_i s hs
      exact h.set ((h broker).replace _ hp (partitionStep_keepsFences (s := ⟨p,w.dirs key⟩) hs hop))

theorem Sound.step {crc : Crc32c} (h : w.Sound) (op : FenceOp) (hok : FenceOk w op) :
    (w.exec crc op).Sound := by
  cases op with
  | rejoin broker pid epoch => exact h.set ((h broker).rejoin pid epoch)
  | publish broker pid epoch readable written =>
    simp only [exec]
    split_ifs
    · exact h
    · exact h
  | tick broker peer readable =>
    simp only [exec]
    split_ifs
    · exact h
    · exact h.set ((h broker).applyPeer peer _ readable)
  | applyNext broker => exact h.set (h broker).applyNext
  | visit broker i key => exact h.set ((h broker).visit i key)
  | finish broker i => exact h.set ((h broker).finish i)
  | store broker key op => exact h.store crc broker key op
  | openDir broker key env =>
    simp only [exec,openDir]
    split
    · exact h
    · exact h.set (h broker)
  | enter broker i => exact h.set ((h broker).enter i hok)
  | leave broker key => exact h.set ((h broker).leave key)
  | close broker i env =>
    simp only [exec,close]
    split
    · exact h
    · exact h.set (h broker)

end FenceWorld

/-- Once a broker has processed a fence, a batch of the producer below it is turned away on every
partition the broker has open, and leaves the partition as it was. -/
theorem fenced_epochs_refused {crc : Crc32c} {w : FenceWorld} (run : Reaches (FenceStep crc) FenceOk {} w)
    {broker : String} {key : PartitionKey} {p : Partition}
    (opened : (w.brokers broker).partitions.lookup key=some p)
    {pid epoch : Int} (fenced : (pid,epoch)∈(w.brokers broker).processed) (c : AppendCall)
    {info : BatchProducerInfo}
    (hparse : parseBatchProducerInfo c.batch=some info) (numbered : Idempotent info)
    (hpid : info.producerId=pid) (hlt : info.epoch<epoch) :
    ∃e,appendLocked c.cfg c.env c.epoch c.batch ⟨p,w.dirs key⟩=some (⟨p,w.dirs key⟩,.error e) := by
  have hsound : w.Sound := by
    refine run.invariant ?_ ?_
    · intro broker key p hp
      cases hp
    · intro v op v' hv hok hstep
      cases hstep
      exact hv.step op hok
  have hheld := (hsound broker key p opened).1 (pid,epoch) fenced
  rw [← hpid] at hheld
  exact appendLocked_fenced hparse numbered hlt hheld

def fencedAppend : AppendCall := ⟨{},{},0,seqBatch 0 0⟩

theorem moved_partition_fenced :
    ∃w p,Reaches (FenceStep castagnoli) FenceOk {} w ∧ (7,1)∈(w.brokers "kaas-1").processed ∧
      (w.brokers "kaas-1").partitions.lookup ("t",0)=some p ∧
      ∃e,appendLocked fencedAppend.cfg fencedAppend.env fencedAppend.epoch fencedAppend.batch
        ⟨p,w.dirs ("t",0)⟩= some (⟨p,w.dirs ("t",0)⟩,.error e) := by
  obtain ⟨w,hreach,hfenced,hopen⟩ : ∃w,Reaches (FenceStep castagnoli) FenceOk {} w ∧
      (7,1)∈(w.brokers "kaas-1").processed ∧
      ((w.brokers "kaas-1").partitions.lookup ("t",0)).isSome=true := by
    refine runChecked_finds (f := FenceWorld.exec castagnoli) (fun _ _ => rfl) [
      .openDir "kaas-0" ("t",0) {},.enter "kaas-0" 0,.rejoin "kaas-0" 7 1,.visit "kaas-0" 0 ("t",0),
      .finish "kaas-0" 0,.publish "kaas-0" 7 1 true true,.leave "kaas-0" ("t",0),.close "kaas-0" 0 {},
      .tick "kaas-1" "kaas-0" true,.applyNext "kaas-1",.finish "kaas-1" 0,
      .openDir "kaas-1" ("t",0) {},.enter "kaas-1" 0] ?_
    decide +kernel
  obtain ⟨p,hp⟩ := Option.isSome_iff_exists.mp hopen
  have hparse : parseBatchProducerInfo fencedAppend.batch=some ⟨7,0,0,0⟩ := by decide +kernel
  exact ⟨w,p,hreach,hfenced,hp,
    fenced_epochs_refused hreach hp hfenced fencedAppend hparse (by decide) rfl (by decide)⟩

/-- A broker that opens a partition after the fence was processed takes the batch of the fenced
epoch. -/
theorem partition_opened_unfenced :
    ∃w p,Reaches (FenceStep castagnoli) (fun _ _ => True) {} w ∧ (7,1)∈(w.brokers "kaas-0").processed ∧
      (w.brokers "kaas-0").partitions.lookup ("t",0)=some p ∧
      parseBatchProducerInfo (seqBatch 0 0)=some ⟨7,0,0,0⟩ ∧
      (appendLocked {} {} 0 (seqBatch 0 0) ⟨p,w.dirs ("t",0)⟩).map (fun r => r.2.toOption)=
        some (some (.stored 0 1 true)) := by
  obtain ⟨w,hreach,p,hp,hfenced,hstored⟩ : ∃w,Reaches (FenceStep castagnoli) (fun _ _ => True) {}
      w ∧ ∃p∈(w.brokers "kaas-0").partitions.lookup ("t",0),(7,1)∈(w.brokers "kaas-0").processed ∧
        (appendLocked {} {} 0 (seqBatch 0 0) ⟨p,w.dirs ("t",0)⟩).map (fun r => r.2.toOption)=
          some (some (.stored 0 1 true)) := by
    refine runChecked_finds (f := FenceWorld.exec castagnoli) (fun _ _ => rfl) [
      .rejoin "kaas-0" 7 1,.finish "kaas-0" 0,.openDir "kaas-0" ("t",0) {},.enter "kaas-0" 0] ?_
    decide +kernel
  exact ⟨w,p,hreach,hfenced,hp,by decide +kernel,hstored⟩

end Kaas
