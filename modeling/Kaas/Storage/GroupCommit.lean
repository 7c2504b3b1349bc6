import Kaas.Storage.Coverage

namespace Kaas

/-- Where one `append` with `acks == -1` stands after its critical section. -/
inductive Appender
  | idle
  | triggered (base : Int) (seq : Nat)
  | waiting (base : Int) (seq : Nat)
  deriving DecidableEq, Repr

/-- Where the committer task stands; `synced` and `resynced` carry what its blocking half returned
and it has not acted on yet. -/
inductive Committer
  | idle
  | received
  | targeted (seq : Nat)
  | syncing
  | synced (outcome : Except IoError Nat)
  | probing
  | resynced (seq : Nat)

structure CommitGroup where
  store : Store
  /-- the flush channel, which holds one request -/
  queued : Bool := false
  appender : Nat → Appender := fun _ => .idle
  committer : Committer := .idle
  /-- blocking tasks whose committer has stopped waiting for them -/
  orphans : Nat := 0
  placed : List PlacedBatch := []
  returned : List Int := []

inductive GroupOp
  | append (task : Nat) (call : AppendCall)
  | send (task : Nat)
  | check (task : Nat)
  | receive
  | target
  | compare
  | sync (env : IoEnv)
  | settle
  | elapse
  | crashTask
  | orphan (env : IoEnv)
  | probe (env : IoEnv)
  | rearm

def latch (s : Store) (e : StorageError) : Store := {s with flushErr := s.flushErr.or (some e)}

def complete (s : Store) (seq : Nat) : Store :=
  {s with completedFlushSeq := max s.completedFlushSeq seq}

namespace CommitGroup

def leave (g : CommitGroup) (task : Nat) (s : Store) (r : Except StorageError Appended) : CommitGroup :=
  match r with
  | .error _ => {g with store := s}
  | .ok (.duplicate base) => {g with store := s,returned := g.returned++[base]}
  | .ok (.stored assigned seq triggered) =>
    if triggered then
      {g with
        store := s
        placed := g.placed++placedBatch s r
        appender := Function.update g.appender task (.triggered assigned seq)}
    else {g with store := s,placed := g.placed++placedBatch s r,returned := g.returned++[assigned]}

def look (g : CommitGroup) (task : Nat) (base : Int) (seq : Nat) : CommitGroup :=
  if g.store.flushErr.isSome then {g with appender := Function.update g.appender task .idle}
  else if seq≤g.store.completedFlushSeq then
    {g with appender := Function.update g.appender task .idle,returned := g.returned++[base]}
  else g

def exec (g : CommitGroup) : GroupOp → Option CommitGroup
  | .append task c => match g.appender task with
    | .idle => (appendLocked c.cfg c.env c.epoch c.batch g.store).map (fun p => g.leave task p.1 p.2)
    | _ => none
  | .send task => match g.appender task with
    | .triggered base seq =>
      some {g with queued := true,appender := Function.update g.appender task (.waiting base seq)}
    | _ => none
  | .check task => match g.appender task with
    | .waiting base seq => some (g.look task base seq)
    | _ => none
  | .receive => match g.committer,g.queued with
    | .idle,true => some {g with queued := false,committer := .received}
    | _,_ => none
  | .target => match g.committer with
    | .received => some {g with committer := .targeted g.store.requestedFlushSeq}
    | _ => none
  | .compare => match g.committer with
    | .targeted seq =>
      some {g with committer := if seq=g.store.completedFlushSeq then .idle else .syncing}
    | _ => none
  | .sync env => match g.committer with
    | .syncing => match commitLocked env g.store with
      | (s,.error e) => some {g with store := s,committer := .synced (.error e)}
      | (s,.ok (seq,cp)) => some {g with store := writeDue env s cp,committer := .synced (.ok seq)}
    | _ => none
  | .settle => match g.committer with
    | .synced (.ok seq) => some {g with store := complete g.store seq,committer := .idle}
    | .synced (.error e) => some {g with store := latch g.store (.io e),committer := .probing}
    | _ => none
  | .elapse => match g.committer with
    | .syncing =>
      some {g with store := latch g.store .stalled,committer := .probing,orphans := g.orphans+1}
    | _ => none
  | .crashTask => match g.committer with
    | .syncing => some {g with store := latch g.store .stalled,committer := .probing}
    | _ => none
  | .orphan env => match g.orphans with
    | 0 => none
    | n+1 => match commitLocked env g.store with
      | (s,.error _) => some {g with store := s,orphans := n}
      | (s,.ok (_,cp)) => some {g with store := writeDue env s cp,orphans := n}
  | .probe env => match g.committer with
    | .probing => match g.store.active.syncLog env g.store.dir with
      | (_,.error _) => some g
      | (d,.ok _) => some {g with
          store := {g.store with dir := d}
          committer := .resynced g.store.requestedFlushSeq}
    | _ => none
  | .rearm => match g.committer with
    | .resynced seq =>
      some {g with store := complete {g.store with flushErr := none} seq,committer := .idle}
    | _ => none

end CommitGroup

/-- Every batch is flushed at once; one the checks let through counts at least one record within
`i64`; and a retry comes when the flush its first attempt has asked for is published. -/
def FlushOk (g : CommitGroup) : GroupOp → Prop
  | .append _ c => c.cfg.flushIntervalMessages=1 ∧
    (∀accepted,admission g.store.toPartitionInner c.epoch c.batch=.admitted accepted →
      43≤ c.batch.length →
      0≤lastOffsetDelta c.batch ∧ g.store.highWater+recordCount c.batch<2^63) ∧
    ∀base,admission g.store.toPartitionInner c.epoch c.batch=.known base →
      ∀e∈g.placed,e.base=base → e.seq≤g.store.completedFlushSeq
  | _ => True

/-- A producer window has a batch at this offset, so that a retry of it would be known. -/
def Remembered (states : ProducerStates) (base : Int) : Prop :=
  ∃pid,∃entry∈states.lookup pid,∃rb∈entry.recent,rb.baseOffset=base

theorem remembered_of_known {p : PartitionInner} {epoch : UInt32} {batch : Bytes} {base : Int}
    (h : admission p epoch batch=.known base) : Remembered p.producerStates base := by
  obtain ⟨info,_,hdup⟩ := classifyBatch_known (admission_classify h fun _ => nofun)
  obtain ⟨entry,hl,_,hm⟩ := classify_duplicate hdup
  exact ⟨info.producerId,entry,hl,_,hm,rfl⟩

/-- An accepted batch is all that is new in the windows. -/
theorem remembered_recordAccepted {states : ProducerStates} {info : BatchProducerInfo} {assigned base : Int}
    (h : Remembered (recordAccepted states info assigned) base) : Remembered states base ∨ base=assigned := by
  obtain ⟨pid,entry,hl,rb,hrb,hbase⟩ := h
  by_cases hp : pid=info.producerId
  · subst hp
    rw [recordAccepted_lookup] at hl
    cases hl
    rcases List.mem_append.mp (mem_of_mem_lastN hrb) with hrb|hrb
    · simp only [entryAt] at hrb
      split at hrb
      · cases hrb
      · cases hs : states.lookup info.producerId with
        | none =>
          rw [hs] at hrb
          cases hrb
        | some old =>
          rw [hs] at hrb
          exact Or.inl ⟨_,old,hs,rb,hrb,hbase⟩
    · rw [List.mem_singleton.mp hrb] at hbase
      exact Or.inr hbase.symm
  · rw [recordAccepted_lookup_ne states assigned hp] at hl
    exact Or.inl ⟨pid,entry,hl,rb,hrb,hbase⟩

theorem remembered_append {c : AppendCall} {s s' : Store} {r : Except StorageError Appended} {base : Int}
    (ha : appendLocked c.cfg c.env c.epoch c.batch s=some (s',r)) (h : Remembered s'.producerStates base) :
    Remembered s.producerStates base ∨ base=s.highWater ∧ ∃assigned seq triggered,
      r=.ok (.stored assigned seq triggered) := by
  cases appendLocked_step ha with
  | refused e _ | known base _ => exact Or.inl h
  | rollFailed accepted s1 e _ roll => exact Or.inl ((rollIfDue_ledger roll).producers ▸ h)
  | failed accepted s1 d e _ roll _ _ => exact Or.inl ((rollIfDue_ledger roll).producers ▸ h)
  | stored accepted s1 d a _ roll _ _ =>
    have hl := rollIfDue_ledger roll
    rw [← hl.producers,← hl.highWater]
    simp only [advance,Store.publish] at h
    split at h
    · exact (remembered_recordAccepted h).imp_right fun hb => ⟨hb,_,_,_,rfl⟩
    · exact Or.inl h

/-- The batches of an open partition that its producer windows remember from before: they are
covered, and no flush is pending for them. -/
structure Earlier (s : Store) (earlier : List PlacedBatch) : Prop where
  covered : ∀e∈earlier,e.Covered s.dir
  within : ∀e∈earlier,e.name=s.active.info.name → e.stop≤ s.active.logSize
  bases : ∀e∈earlier,e.base<s.highWater
  distinct : ∀e∈earlier,∀e'∈earlier,e.base=e'.base → e=e'
  flushed : ∀e∈earlier,e.seq≤ s.completedFlushSeq
  remembered : ∀base,Remembered s.producerStates base → ∃e∈earlier,e.base=base

def CommitGroup.Flushed (g : CommitGroup) (seq : Nat) : Prop :=
  seq=g.store.completedFlushSeq ∨ g.committer=.synced (.ok seq) ∨ g.committer=.resynced seq

def CommitGroup.Awaits (g : CommitGroup) (task : Nat) (base : Int) (seq : Nat) : Prop :=
  g.appender task=.triggered base seq ∨ g.appender task=.waiting base seq

/-- What every interleaving keeps: a flush number covers the batches placed under it, so that an
append may return once its own is published. -/
structure GroupSound (g : CommitGroup) : Prop where
  log : LogSound g.store g.placed
  pending : g.store.pendingFlushRecords=0
  bases : ∀e∈g.placed,e.base<g.store.highWater
  distinct : ∀e∈g.placed,∀e'∈g.placed,e.base=e'.base → e=e'
  asked : ∀e∈g.placed,e.seq≤g.store.requestedFlushSeq
  flushed : ∀seq,g.Flushed seq → seq≤g.store.requestedFlushSeq ∧
    ∀e∈g.placed,e.seq≤ seq → e.Covered g.store.dir
  awaiting : ∀task base seq,g.Awaits task base seq → ∃e∈g.placed,e.base=base ∧ e.seq≤ seq
  remembered : ∀base,Remembered g.store.producerStates base → ∃e∈g.placed,e.base=base
  returned : ∀base∈g.returned,∃e∈g.placed,e.base=base ∧ e.Covered g.store.dir

variable {g g' : CommitGroup} {seq task : Nat}

theorem GroupSound.other (h : GroupSound g) (hl : LogSound g'.store g.placed)
    (hk : ∀e∈g.placed,e.Covered g.store.dir → e.Covered g'.store.dir)
    (hp : g'.store.pendingFlushRecords=g.store.pendingFlushRecords)
    (hw : g'.store.highWater=g.store.highWater)
    (hq : g'.store.requestedFlushSeq=g.store.requestedFlushSeq) (placed : g'.placed=g.placed)
    (hm : ∀base,Remembered g'.store.producerStates base → Remembered g.store.producerStates base)
    (hf : ∀seq,g'.Flushed seq → g.Flushed seq ∨
      (seq=g.store.requestedFlushSeq ∧ ∀e∈g.placed,e.Covered g'.store.dir))
    (ha : ∀task base seq,g'.Awaits task base seq → g.Awaits task base seq)
    (hr : ∀base∈g'.returned,base∈g.returned ∨ ∃e∈g.placed,e.base=base ∧ e.Covered g'.store.dir) :
    GroupSound g' where
  log := placed.symm ▸ hl
  pending := hp.trans h.pending
  bases := by
    rw [placed,hw]
    exact h.bases
  distinct := by
    rw [placed]
    exact h.distinct
  asked := by
    rw [placed,hq]
    exact h.asked
  flushed := by
    intro seq hs
    rw [placed,hq]
    rcases hf seq hs with hs|⟨rfl,hall⟩
    · obtain ⟨hle,hc⟩ := h.flushed seq hs
      exact ⟨hle,fun e he hse => hk e he (hc e he hse)⟩
    · exact ⟨le_refl _,fun e he _ => hall e he⟩
  awaiting := by
    intro task base seq hs
    rw [placed]
    exact h.awaiting task base seq (ha task base seq hs)
  remembered := by
    intro base hb
    rw [placed]
    exact h.remembered base (hm base hb)
  returned := by
    intro base hb
    rw [placed]
    rcases hr base hb with hb|hb
    · obtain ⟨e,he,heb,hc⟩ := h.returned base hb
      exact ⟨e,he,heb,hk e he hc⟩
    · exact hb

theorem awaits_update {x : Appender}
    (hg : g'.appender=Function.update g.appender task x) {task' : Nat} {base : Int}
    (h : g'.Awaits task' base seq) :
    g.Awaits task' base seq ∨ (task'=task ∧ (x=.triggered base seq ∨ x=.waiting base seq)) := by
  unfold CommitGroup.Awaits at h ⊢
  rw [hg] at h
  by_cases ht : task'=task
  · subst ht
    rw [Function.update_self] at h
    exact Or.inr ⟨rfl,h⟩
  · rw [Function.update_of_ne ht] at h
    exact Or.inl h

theorem groupSound_append (h : GroupSound g) {c : AppendCall}
    (hc : FlushOk g (.append task c)) {s : Store} {r : Except StorageError Appended}
    (ha : appendLocked c.cfg c.env c.epoch c.batch g.store=some (s,r)) : GroupSound (g.leave task s r) := by
  obtain ⟨hi,hcount,hdup⟩ := hc
  obtain ⟨hlog,hk⟩ := logSound_append h.log hcount ha
  obtain ⟨hp,hdone,hr⟩ := append_request h.log.ranged h.pending hi hcount ha
  rcases hr with ⟨rfl,hq,hlt⟩|⟨hq,hw,⟨e,rfl⟩|⟨base,rfl,hb⟩⟩
  · have hflushed (seq : Nat) (hs : (g.leave task s
        (.ok (.stored g.store.highWater (g.store.requestedFlushSeq+1) true))).Flushed seq) :
        g.Flushed seq := hs.imp_left (fun he => he.trans hdone)
    exact {
      log := hlog
      pending := hp
      bases := by
        intro e he
        rcases List.mem_append.mp he with he|he
        · exact (h.bases e he).trans hlt
        · rw [List.mem_singleton.mp he]
          exact hlt
      distinct := by
        intro e he e' he' heq
        rcases List.mem_append.mp he with he|he <;> rcases List.mem_append.mp he' with he'|he'
        · exact h.distinct e he e' he' heq
        · have := h.bases e he
          rw [heq,List.mem_singleton.mp he'] at this
          exact absurd this (lt_irrefl _)
        · have := h.bases e' he'
          rw [← heq,List.mem_singleton.mp he] at this
          exact absurd this (lt_irrefl _)
        · rw [List.mem_singleton.mp he,List.mem_singleton.mp he']
      asked := by
        intro e he
        change e.seq≤ s.requestedFlushSeq
        rw [hq]
        rcases List.mem_append.mp he with he|he
        · exact (h.asked e he).trans (Nat.le_succ _)
        · rw [List.mem_singleton.mp he]
      flushed := by
        intro seq hs
        obtain ⟨hle,hcov⟩ := h.flushed seq (hflushed seq hs)
        change seq≤ s.requestedFlushSeq ∧ _
        refine ⟨by omega,fun e he hse => ?_⟩
        rcases List.mem_append.mp he with he|he
        · exact hk e he (hcov e he hse)
        · rw [List.mem_singleton.mp he] at hse
          change g.store.requestedFlushSeq+1≤ seq at hse
          omega
      awaiting := by
        intro task' base seq hs
        rcases awaits_update rfl hs with hs|⟨_,hx|hx⟩
        · obtain ⟨e,he,heb⟩ := h.awaiting task' base seq hs
          exact ⟨e,List.mem_append_left _ he,heb⟩
        · cases hx
          exact ⟨_,List.mem_append_right _ (List.mem_singleton.mpr rfl),rfl,le_refl _⟩
        · cases hx
      remembered := by
        intro base hb
        rcases remembered_append ha hb with hb|⟨hb,_⟩
        · obtain ⟨e,he,heb⟩ := h.remembered base hb
          exact ⟨e,List.mem_append_left _ he,heb⟩
        · exact ⟨_,List.mem_append_right _ (List.mem_singleton.mpr rfl),hb.symm⟩
      returned := by
        intro base hb
        obtain ⟨e,he,heb,hcov⟩ := h.returned base hb
        exact ⟨e,List.mem_append_left _ he,heb,hk e he hcov⟩}
  all_goals
    have hlog' : LogSound s g.placed := by simpa [placedBatch] using hlog
    have hm (base : Int) (hb : Remembered s.producerStates base) : Remembered g.store.producerStates base :=
      (remembered_append ha hb).resolve_right (by rintro ⟨_,_,_,_,⟨⟩⟩)
  · exact h.other hlog' hk (hp.trans h.pending.symm) hw hq rfl hm
      (fun seq hs => Or.inl (hs.imp_left (fun he => he.trans hdone))) (fun _ _ _ hs => hs)
      (fun base hb => Or.inl hb)
  · refine h.other hlog' hk (hp.trans h.pending.symm) hw hq rfl hm
      (fun seq hs => Or.inl (hs.imp_left (fun he => he.trans hdone))) (fun _ _ _ hs => hs) ?_
    intro base' hb'
    rcases List.mem_append.mp hb' with hb'|hb'
    · exact Or.inl hb'
    · rw [List.mem_singleton.mp hb']
      -- the published flush number covers the first attempt
      obtain ⟨e,he,heb⟩ := h.remembered base (remembered_of_known hb)
      exact Or.inr ⟨e,he,heb,hk e he ((h.flushed _ (Or.inl rfl)).2 e he (hdup base hb e he heb))⟩

theorem GroupSound.synced (h : GroupSound g) (hs : g.store.SyncedTo g'.store)
    (placed : g'.placed=g.placed) (appender : g'.appender=g.appender) (returned : g'.returned=g.returned)
    (hc : ∀seq,g'.committer=.synced (.ok seq) ∨ g'.committer=.resynced seq →
      seq=g.store.requestedFlushSeq ∨ g.committer=.synced (.ok seq) ∨ g.committer=.resynced seq) :
    GroupSound g' := by
  obtain ⟨hl,hall⟩ := h.log.synced hs
  refine h.other hl (fun e he _ => hall e he) hs.pending hs.highWater hs.requested placed
    (fun base hb => hs.producers ▸ hb) ?_ ?_ (fun base hb => Or.inl (returned ▸ hb))
  · intro seq hf
    rcases hf with hf|hf
    · exact Or.inl (Or.inl (hf.trans hs.completed))
    · rcases hc seq hf with rfl|hg
      · exact Or.inr ⟨rfl,hall⟩
      · exact Or.inl (Or.inr hg)
  · intro task base seq ha
    unfold CommitGroup.Awaits at ha ⊢
    rwa [appender] at ha

theorem GroupSound.quiet (h : GroupSound g) (active : g'.store.active=g.store.active)
    (hw : g'.store.highWater=g.store.highWater) (hd : g'.store.dir=g.store.dir)
    (hp : g'.store.pendingFlushRecords=g.store.pendingFlushRecords)
    (hq : g'.store.requestedFlushSeq=g.store.requestedFlushSeq)
    (hm : g'.store.producerStates=g.store.producerStates) (placed : g'.placed=g.placed)
    (hf : ∀seq,g'.Flushed seq → g.Flushed seq)
    (ha : ∀task base seq,g'.Awaits task base seq → g.Awaits task base seq)
    (hr : ∀base∈g'.returned,base∈g.returned ∨ ∃e∈g.placed,e.base=base ∧ e.Covered g.store.dir) :
    GroupSound g' :=
  h.other (h.log.congr active hw hd) (fun _ _ hc => hd.symm ▸ hc) hp hw hq placed (fun _ hb => hm ▸ hb)
    (fun seq hs => Or.inl (hf seq hs)) ha (fun base hb => hd.symm ▸ hr base hb)

theorem flushed_complete {q : Nat} (h : g.Flushed seq)
    (hq : q=max g.store.completedFlushSeq seq) : g.Flushed q := by
  rcases max_choice g.store.completedFlushSeq seq with hm|hm
  · exact Or.inl (hq.trans hm)
  · rw [hq,hm]
    exact h

theorem GroupSound.publish (h : GroupSound g) {err : Option StorageError}
    (hseq : g.Flushed seq) (hg :
      g'={g with store := complete {g.store with flushErr := err} seq,committer := .idle}) :
    GroupSound g' := by
  subst hg
  refine h.quiet rfl rfl rfl rfl rfl rfl rfl (fun q hf => ?_) (fun _ _ _ ha => ha) (fun _ hb => Or.inl hb)
  rcases hf with hf|hf|hf
  · exact flushed_complete hseq hf
  · cases hf
  · cases hf

theorem groupSound_look (h : GroupSound g) {base : Int}
    (hw : g.appender task=.waiting base seq) : GroupSound (g.look task base seq) := by
  have idle {g' : CommitGroup} (hg : g'.appender=Function.update g.appender task .idle) (task' : Nat)
      (base' : Int) (seq' : Nat) (hs : g'.Awaits task' base' seq') : g.Awaits task' base' seq' := by
    rcases awaits_update hg hs with hs|⟨_,hx|hx⟩
    · exact hs
    · cases hx
    · cases hx
  unfold CommitGroup.look
  split_ifs with he hle
  · exact h.quiet rfl rfl rfl rfl rfl rfl rfl (fun _ hs => hs) (idle rfl) (fun _ hb => Or.inl hb)
  · refine h.quiet rfl rfl rfl rfl rfl rfl rfl (fun _ hs => hs) (idle rfl) (fun base' hb => ?_)
    rcases List.mem_append.mp hb with hb|hb
    · exact Or.inl hb
    · rw [List.mem_singleton.mp hb]
      obtain ⟨e,he,heb,hse⟩ := h.awaiting task base seq (Or.inr hw)
      exact Or.inr ⟨e,he,heb,(h.flushed _ (Or.inl rfl)).2 e he (hse.trans hle)⟩
  · exact h

theorem GroupSound.keep (h : GroupSound g) (store : g'.store=g.store)
    (placed : g'.placed=g.placed) (appender : g'.appender=g.appender) (returned : g'.returned=g.returned)
    (hc : ∀seq,g'.committer≠.synced (.ok seq) ∧ g'.committer≠.resynced seq) : GroupSound g' :=
  h.quiet (by rw [store]) (by rw [store]) (by rw [store]) (by rw [store]) (by rw [store]) (by rw [store]) placed
    (fun seq hf => Or.inl (store ▸ hf.resolve_right (fun hf => hf.elim (hc seq).1 (hc seq).2)))
    (fun task base seq ha => by unfold CommitGroup.Awaits at ha ⊢; rwa [appender] at ha)
    (fun base hb => Or.inl (returned ▸ hb))

theorem GroupSound.stall (h : GroupSound g) (e : StorageError)
    (store : g'.store=latch g.store e) (placed : g'.placed=g.placed) (appender : g'.appender=g.appender)
    (returned : g'.returned=g.returned) (hc : g'.committer=.probing) : GroupSound g' := by
  refine h.quiet (by rw [store]; rfl) (by rw [store]; rfl) (by rw [store]; rfl) (by rw [store]; rfl)
    (by rw [store]; rfl) (by rw [store]; rfl) placed ?_
    (fun task base seq ha => by unfold CommitGroup.Awaits at ha ⊢; rwa [appender] at ha)
    (fun base hb => Or.inl (returned ▸ hb))
  rintro seq (hf|hf|hf)
  · rw [store] at hf
    exact Or.inl hf
  · rw [hc] at hf
    cases hf
  · rw [hc] at hf
    cases hf

theorem groupSound_step {op : GroupOp} (h : GroupSound g)
    (hok : FlushOk g op) (hs : g.exec op=some g') : GroupSound g' := by
  cases op with
  | append task c =>
    simp only [CommitGroup.exec] at hs
    split at hs
    · obtain ⟨⟨s,r⟩,ha,rfl⟩ := Option.map_eq_some_iff.mp hs
      exact groupSound_append h hok ha
    · cases hs
  | send task =>
    simp only [CommitGroup.exec] at hs
    split at hs
    · rename_i base seq ht
      cases hs
      refine h.quiet rfl rfl rfl rfl rfl rfl rfl (fun _ hf => hf) (fun task' base' seq' ha => ?_)
        (fun _ hb => Or.inl hb)
      rcases awaits_update rfl ha with ha|⟨rfl,hx|hx⟩
      · exact ha
      · cases hx
      · cases hx
        exact Or.inl ht
    · cases hs
  | check task =>
    simp only [CommitGroup.exec] at hs
    split at hs
    · rename_i base seq ht
      cases hs
      exact groupSound_look h ht
    · cases hs
  | receive | target =>
    simp only [CommitGroup.exec] at hs
    split at hs
    · cases hs
      exact h.keep rfl rfl rfl rfl (fun seq => ⟨Committer.noConfusion,Committer.noConfusion⟩)
    · cases hs
  | compare =>
    simp only [CommitGroup.exec] at hs
    split at hs
    · cases hs
      refine h.keep rfl rfl rfl rfl (fun seq => ?_)
      dsimp only
      split_ifs <;> exact ⟨Committer.noConfusion,Committer.noConfusion⟩
    · cases hs
  | sync env =>
    simp only [CommitGroup.exec] at hs
    split at hs
    · split at hs
      · rename_i s e hc
        cases hs
        obtain rfl := commitLocked_error hc
        exact h.keep rfl rfl rfl rfl (fun seq => ⟨by simp,by simp⟩)
      · rename_i s seq cp hc
        cases hs
        obtain ⟨hseq,hsync⟩ := commit_synced hc
        refine h.synced hsync rfl rfl rfl (fun q hq => Or.inl ?_)
        rcases hq with hq|hq
        · cases hq
          exact hseq
        · cases hq
    · cases hs
  | settle =>
    simp only [CommitGroup.exec] at hs
    split at hs
    · rename_i seq hc
      cases hs
      exact h.publish (Or.inr (Or.inl hc)) rfl
    · cases hs
      exact h.stall _ rfl rfl rfl rfl rfl
    · cases hs
  | elapse | crashTask =>
    simp only [CommitGroup.exec] at hs
    split at hs
    · cases hs
      exact h.stall _ rfl rfl rfl rfl rfl
    · cases hs
  | orphan env =>
    simp only [CommitGroup.exec] at hs
    split at hs
    · cases hs
    · split at hs
      · rename_i s e hc
        cases hs
        obtain rfl := commitLocked_error hc
        exact h.quiet rfl rfl rfl rfl rfl rfl rfl (fun _ hf => hf) (fun _ _ _ ha => ha) (fun _ hb => Or.inl hb)
      · rename_i s seq cp hc
        cases hs
        exact h.synced (commit_synced hc).2 rfl rfl rfl (fun q hq => Or.inr hq)
  | probe env =>
    simp only [CommitGroup.exec] at hs
    split at hs
    · rcases g.store.active.syncLog_cases env g.store.dir with ⟨ho,hl⟩|⟨e,hl⟩
      · rw [hl] at hs
        cases hs
        refine h.synced ⟨ho,rfl,rfl,rfl,rfl,rfl,rfl,rfl⟩ rfl rfl rfl (fun q hq => Or.inl ?_)
        rcases hq with hq|hq
        · cases hq
        · cases hq
          rfl
      · rw [hl] at hs
        cases hs
        exact h
    · cases hs
  | rearm =>
    simp only [CommitGroup.exec] at hs
    split at hs
    · rename_i seq hc
      cases hs
      exact h.publish (Or.inr (Or.inr hc)) rfl
    · cases hs

/-- The batches from before are as good as those that are placed and flushed in the run. -/
theorem Earlier.groupSound {crc : Crc32c} {s : Store} {f : LogFile} {fs : List Bytes}
    {earlier : List PlacedBatch}
    (h : Earlier s earlier) (tracks : Tracks crc s f fs) (opened : s.active.logOpen=true)
    (flush0 : s.pendingFlushRecords=0 ∧ s.completedFlushSeq≤ s.requestedFlushSeq) :
    GroupSound {store := s,placed := earlier} where
  log := by
    have hlog := tracks.logSound opened
    obtain ⟨top,file,based,filled,_,_⟩ := hlog.live opened
    exact ⟨fun _ => ⟨top,file,based,filled,h.within,fun e he => Or.inl (h.covered e he)⟩,hlog.dead,hlog.ranged⟩
  pending := flush0.1
  bases := h.bases
  distinct := h.distinct
  asked := fun e he => (h.flushed e he).trans flush0.2
  flushed := by
    rintro seq (rfl|hf|hf)
    · exact ⟨flush0.2,fun e he _ => h.covered e he⟩
    · cases hf
    · cases hf
  awaiting := by rintro task base seq (ha|ha) <;> cases ha
  remembered := h.remembered
  returned := fun base hb => absurd hb List.not_mem_nil

/-- From a partition as an open leaves it, whose windows remember covered batches only, in every
interleaving whose appends meet the condition: an append that has returned, a retry included, gave
the offset of the only such batch in a log, and a completed fsync covers its bytes. -/
theorem returned_appends_covered (crc : Crc32c) (s : Store) (f : LogFile) (fs : List Bytes)
    (open0 : Tracks crc s f fs ∧ s.active.logOpen=true)
    (flush0 : s.pendingFlushRecords=0 ∧ s.completedFlushSeq≤ s.requestedFlushSeq)
    (earlier : List PlacedBatch) (before : Earlier s earlier) (g : CommitGroup)
    (run : Reaches (fun g op g' => CommitGroup.exec g op=some g') FlushOk {store := s,placed := earlier} g) :
    ∀base∈g.returned,∃e∈g.placed,e.base=base ∧ e.Covered g.store.dir ∧
      ∀e'∈g.placed,e'.base=base → e'=e := by
  have hg : GroupSound g := run.invariant (before.groupSound open0.1 open0.2 flush0)
    (fun g op g' h hok hs => groupSound_step h hok hs)
  intro base hb
  obtain ⟨e,he,heb,hc⟩ := hg.returned base hb
  exact ⟨e,he,heb,hc,fun e' he' heb' => hg.distinct e' he' e he (heb'.trans heb.symm)⟩

def firstGroup : CommitGroup := {store := firstStore}

def firstAttempt : AppendCall := {batch := seqBatch 0 0}

def firstFlush : List GroupOp :=
  [.append 0 firstAttempt,.send 0,.receive,.target,.compare,.sync {},.settle,.check 0]

theorem firstStore_earlier : Earlier firstStore [] := by
  refine ⟨nofun,nofun,nofun,nofun,nofun,?_⟩
  rintro base ⟨pid,entry,hl,_⟩
  cases hl

/-- A retry after the flush of its first attempt. -/
theorem returned_append_covered_retried :
    ∃g1 g,runAll CommitGroup.exec firstFlush firstGroup=some g1 ∧
      CommitGroup.exec g1 (.append 1 firstAttempt)=some g ∧ g.returned=[0,0] ∧
      ∃e∈g.placed,e.base=0 ∧ e.Covered g.store.dir ∧ ∀e'∈g.placed,e'.base=0 → e'=e := by
  have hok : FlushOk firstGroup (.append 0 firstAttempt) := by
    refine ⟨rfl,fun _ _ _ => ⟨by decide +kernel,by decide +kernel⟩,fun base hb => ?_⟩
    have hadmission : admission firstGroup.store.toPartitionInner firstAttempt.epoch firstAttempt.batch=
        .admitted true := by decide +kernel
    rw [hadmission] at hb
    cases hb
  obtain ⟨g1,hg1,hseq,hknown,g,hg,hret⟩ : ∃g1∈runAll CommitGroup.exec firstFlush firstGroup,
      (∀e∈g1.placed,e.seq≤g1.store.completedFlushSeq) ∧
      admission g1.store.toPartitionInner firstAttempt.epoch firstAttempt.batch=.known 0 ∧
      ∃g∈CommitGroup.exec g1 (.append 1 firstAttempt),g.returned=[0,0] := by decide +kernel
  obtain ⟨g0,h0,h1⟩ := runAll_cons.mp hg1
  have hreach : Reaches (fun g op g' => CommitGroup.exec g op=some g') FlushOk firstGroup g1 :=
    runAll_reaches (fun _ _ _ h => h) _ (by simp [FlushOk]) firstGroup g0 g1 (.next _ .start hok h0) h1
  have hretry : FlushOk g1 (.append 1 firstAttempt) := by
    refine ⟨rfl,fun _ ha => ?_,fun _ _ e he _ => hseq e he⟩
    rw [hknown] at ha
    cases ha
  exact ⟨g1,g,hg1,hg,hret,returned_appends_covered castagnoli firstStore {} []
    ⟨firstStore_tracks castagnoli,rfl⟩ ⟨rfl,le_refl _⟩ [] firstStore_earlier g (.next _ hreach hretry hg) 0
    (by rw [hret]; simp)⟩

/-- A retry returns the offset while the first attempt still waits for its fsync; a batch that
counts no record does not even ask for one. -/
theorem retry_returns_before_fsync :
    (∃g,runAll CommitGroup.exec [.append 0 firstAttempt,.append 1 firstAttempt] firstGroup=some g ∧
      g.returned=[0] ∧ ∃e∈g.placed,e.base=0 ∧ ¬e.Covered g.store.dir) ∧
    ∃g,runAll CommitGroup.exec [.append 0 {batch := encodeBatch castagnoli {lastOffsetDelta := -1}}]
        firstGroup=some g ∧
      g.returned=[0] ∧ ∃e∈g.placed,e.base=0 ∧ ¬e.Covered g.store.dir :=
  ⟨exists_outcome (by decide +kernel),exists_outcome (by decide +kernel)⟩

end Kaas
