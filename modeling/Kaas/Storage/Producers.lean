import Kaas.Storage.Offsets

namespace Kaas

/-- What the history of a partition says about its idempotent producers. -/
inductive ProducerEvent
  | accepted (info : BatchProducerInfo) (base : Int)
  | duplicate (info : BatchProducerInfo) (base : Int)
  | fenced (pid epoch : Int)
  deriving DecidableEq, Repr

def Idempotent (info : BatchProducerInfo) : Prop := 0≤ info.producerId ∧ 0≤ info.firstSeq

instance (info : BatchProducerInfo) : Decidable (Idempotent info) :=
  inferInstanceAs (Decidable (0≤ info.producerId ∧ 0≤ info.firstSeq))

def producerEvents (batch : Bytes) (r : Except StorageError Appended) : List ProducerEvent :=
  match parseBatchProducerInfo batch with
  | none => []
  | some info => match r with
    | .error _ => []
    | .ok (.duplicate base) => [.duplicate info base]
    | .ok (.stored assigned _ _) => if Idempotent info then [.accepted info assigned] else []

structure ProducerLog where
  store : Store
  events : List ProducerEvent := []

inductive ProducerCall
  | append (c : AppendCall)
  | fence (pid newEpoch : Int)

def ProducerLog.step : ProducerCall → ProducerLog → Option ProducerLog
  | .append c,l => match appendLocked c.cfg c.env c.epoch c.batch l.store with
    | none => none
    | some (s,r) => some ⟨s,l.events++producerEvents c.batch r⟩
  | .fence pid newEpoch,l =>
    some ⟨{l.store with producerStates := fenceProducer l.store.producerStates pid newEpoch},
      l.events++[.fenced pid newEpoch]⟩

/-- An idempotent batch counts its records upwards without leaving `i32`, and its producer
epoch is not negative. -/
def SafeProducer (_ : ProducerLog) : ProducerCall → Prop
  | .append c => ∀info,parseBatchProducerInfo c.batch=some info → Idempotent info →
      0≤lastOffsetDelta c.batch ∧ baseSequence c.batch+lastOffsetDelta c.batch<2^31 ∧ 0≤ info.epoch
  | .fence _ _ => True

def acceptedOf (events : List ProducerEvent) (pid epoch : Int) : List RecentBatch :=
  events.filterMap (fun ev => match ev with
    | .accepted info base =>
      if info.producerId=pid ∧ info.epoch=epoch then some ⟨info.firstSeq,info.lastSeq,base⟩ else none
    | _ => none)

def ProducerEvent.Claims (pid epoch : Int) : ProducerEvent → Prop
  | .accepted info _ => info.producerId=pid ∧ info.epoch=epoch
  | .duplicate _ _ => False
  | .fenced p e => p=pid ∧ e=epoch

def seqRange (b : RecentBatch) : Int × Int := (b.firstSeq,b.lastSeq+1)

def WindowSound (events : List ProducerEvent) (pid : Int) : Option ProducerEntry → Prop
  | none => ∀ev∈events,∀epoch,¬ev.Claims pid epoch
  | some entry => (∀ev∈events,∀epoch,ev.Claims pid epoch → epoch≤entry.epoch) ∧ 0≤entry.epoch ∧
      entry.recent=lastN ringSize (acceptedOf events pid entry.epoch)

/-- What a history owes: contiguous sequences, honest duplicates, no epoch below a seen one. -/
structure HistorySound (events : List ProducerEvent) : Prop where
  contiguous : ∀pid epoch,∃hi,Contiguous 0 ((acceptedOf events pid epoch).map seqRange) hi
  ranged : ∀pid epoch,∀b∈acceptedOf events pid epoch,b.firstSeq≤b.lastSeq ∧ b.lastSeq<2^31
  duplicates : ∀pre info base post,events=pre++.duplicate info base::post →
    ⟨info.firstSeq,info.lastSeq,base⟩∈acceptedOf pre info.producerId info.epoch
  epochs : ∀pre info base post,events=pre++.accepted info base::post →
    ∀ev∈pre,∀epoch,ev.Claims info.producerId epoch → epoch≤ info.epoch

structure ProducersSound (l : ProducerLog) : Prop where
  windows : ∀pid,WindowSound l.events pid (l.store.producerStates.lookup pid)
  history : HistorySound l.events

theorem append_producers {c : AppendCall} {s s' : Store} {r : Except StorageError Appended}
    (h : appendLocked c.cfg c.env c.epoch c.batch s=some (s',r)) :
    (s'.producerStates=s.producerStates ∧ producerEvents c.batch r=[]) ∨
    (∃info base,parseBatchProducerInfo c.batch=some info ∧
      classify s.producerStates info=.duplicate base ∧ s'.producerStates=s.producerStates ∧
      producerEvents c.batch r=[.duplicate info base]) ∨
    ∃info,parseBatchProducerInfo c.batch=some info ∧ classify s.producerStates info=.accept ∧
      s'.producerStates=recordAccepted s.producerStates info s.highWater ∧
      producerEvents c.batch r=[.accepted info s.highWater] := by
  have silent (e : StorageError) : producerEvents c.batch (.error e)=[] := by
    unfold producerEvents
    split <;> rfl
  cases appendLocked_step h with
  | refused e _ => exact Or.inl ⟨rfl,silent e⟩
  | known base ha =>
    obtain ⟨info,hi,hc⟩ := classifyBatch_known (admission_classify ha (by simp))
    exact Or.inr (Or.inl ⟨info,base,hi,hc,rfl,by simp only [producerEvents,hi]⟩)
  | rollFailed accepted s1 e _ roll => exact Or.inl ⟨(rollIfDue_ledger roll).producers,silent e⟩
  | failed accepted s1 d e _ roll _ _ =>
    exact Or.inl ⟨(rollIfDue_ledger roll).producers,silent _⟩
  | stored accepted s1 d a ha roll long write =>
    have hp := (rollIfDue_ledger roll).producers
    have hw := (rollIfDue_ledger roll).highWater
    rcases classifyBatch_admitted (admission_classify ha (by simp)) with
      ⟨rfl,info,hi,hc⟩|⟨rfl,hn⟩
    · refine Or.inr (Or.inr ⟨info,hi,hc,?_,?_⟩)
      · rw [advance_accepted _ _ hi]
        change recordAccepted s1.producerStates info s1.highWater=_
        rw [hp,hw]
      · obtain ⟨h0,h1,_⟩ := classify_accept hc
        change producerEvents c.batch (.ok (.stored s1.highWater _ _))=_
        simp only [producerEvents,hi,hw,if_pos (show Idempotent info from ⟨h0,h1⟩)]
    · refine Or.inl ⟨hp,?_⟩
      change producerEvents c.batch (.ok (.stored s1.highWater _ _))=_
      unfold producerEvents
      split
      · rfl
      · rename_i info hi
        have hneg := classify_notIdempotent (hn info hi)
        simp only
        rw [if_neg (fun hid : Idempotent info => by
          rcases hneg with hlt|hlt
          · exact absurd hid.1 (not_le.mpr hlt)
          · exact absurd hid.2 (not_le.mpr hlt))]

theorem acceptedOf_append (xs ys : List ProducerEvent) (pid epoch : Int) :
    acceptedOf (xs++ys) pid epoch=acceptedOf xs pid epoch++acceptedOf ys pid epoch :=
  List.filterMap_append

theorem acceptedOf_accepted (info : BatchProducerInfo) (base pid epoch : Int) :
    acceptedOf [.accepted info base] pid epoch=
      if info.producerId=pid ∧ info.epoch=epoch then [⟨info.firstSeq,info.lastSeq,base⟩] else [] := by
  simp only [acceptedOf,List.filterMap_cons,List.filterMap_nil]
  split_ifs <;> rfl

variable {events : List ProducerEvent}

theorem acceptedOf_eq_nil {pid epoch : Int}
    (h : ∀ev∈events,¬ev.Claims pid epoch) : acceptedOf events pid epoch=[] := by
  refine List.filterMap_eq_nil_iff.mpr ?_
  intro ev hev
  have hc := h ev hev
  cases ev with
  | accepted info base => exact if_neg hc
  | duplicate info base => rfl
  | fenced p e => rfl

theorem concat_split {α : Type} {xs pre post : List α} {x y : α} (h : xs++[x]=pre++y::post) :
    (pre=xs ∧ y=x) ∨ ∃post',xs=pre++y::post' := by
  rcases List.eq_nil_or_concat post with rfl|⟨post',z,rfl⟩
  · obtain ⟨h1,h2⟩ := List.append_inj' h (by simp)
    exact Or.inl ⟨h1.symm,(List.cons.inj h2).1.symm⟩
  · have hz : xs++[x]=(pre++y::post')++[z] := by simpa using h
    exact Or.inr ⟨post',(List.append_inj' hz (by simp)).1⟩

theorem HistorySound.nonempty (h : HistorySound events) (pid epoch : Int) :
    ∀r∈(acceptedOf events pid epoch).map seqRange,r.1<r.2 := by
  intro r hr
  obtain ⟨b,hb,rfl⟩ := List.mem_map.mp hr
  have := (h.ranged pid epoch b hb).1
  simp only [seqRange]
  omega

theorem HistorySound.fenced (h : HistorySound events) (pid epoch : Int) :
    HistorySound (events++[.fenced pid epoch]) where
  contiguous p e := by rw [acceptedOf_append]; simpa [acceptedOf] using h.contiguous p e
  ranged p e := by rw [acceptedOf_append]; simpa [acceptedOf] using h.ranged p e
  duplicates pre info base post he := by
    rcases concat_split he with ⟨_,hx⟩|⟨post',hx⟩
    · cases hx
    · exact h.duplicates pre info base post' hx
  epochs pre info base post he := by
    rcases concat_split he with ⟨_,hx⟩|⟨post',hx⟩
    · cases hx
    · exact h.epochs pre info base post' hx

theorem HistorySound.duplicate (h : HistorySound events) (info : BatchProducerInfo) (base : Int)
    (hm : ⟨info.firstSeq,info.lastSeq,base⟩∈acceptedOf events info.producerId info.epoch) :
    HistorySound (events++[.duplicate info base]) where
  contiguous p e := by rw [acceptedOf_append]; simpa [acceptedOf] using h.contiguous p e
  ranged p e := by rw [acceptedOf_append]; simpa [acceptedOf] using h.ranged p e
  duplicates pre info' base' post he := by
    rcases concat_split he with ⟨hp,hx⟩|⟨post',hx⟩
    · cases hx
      rw [hp]
      exact hm
    · exact h.duplicates pre info' base' post' hx
  epochs pre info' base' post he := by
    rcases concat_split he with ⟨_,hx⟩|⟨post',hx⟩
    · cases hx
    · exact h.epochs pre info' base' post' hx

theorem HistorySound.accepted (h : HistorySound events)
    (info : BatchProducerInfo) (base : Int) (hle : info.firstSeq≤ info.lastSeq ∧ info.lastSeq<2^31)
    (hc : Contiguous 0 ((acceptedOf events info.producerId info.epoch).map seqRange) info.firstSeq)
    (he : ∀ev∈events,∀epoch,ev.Claims info.producerId epoch → epoch≤ info.epoch) :
    HistorySound (events++[.accepted info base]) where
  contiguous p e := by
    rw [acceptedOf_append,acceptedOf_accepted]
    split_ifs with hpe
    · obtain ⟨rfl,rfl⟩ := hpe
      refine ⟨info.lastSeq+1,?_⟩
      rw [List.map_append]
      exact hc.concat (info.lastSeq+1)
    · simpa using h.contiguous p e
  ranged p e b hb := by
    rw [acceptedOf_append,acceptedOf_accepted] at hb
    rcases List.mem_append.mp hb with hb|hb
    · exact h.ranged p e b hb
    · split_ifs at hb
      · rw [List.mem_singleton.mp hb]
        exact hle
      · simp at hb
  duplicates pre info' base' post heq := by
    rcases concat_split heq with ⟨_,hx⟩|⟨post',hx⟩
    · cases hx
    · exact h.duplicates pre info' base' post' hx
  epochs pre info' base' post heq := by
    rcases concat_split heq with ⟨hp,hx⟩|⟨post',hx⟩
    · cases hx
      rw [hp]
      exact he
    · exact h.epochs pre info' base' post' hx

theorem WindowSound.other {pid : Int} {entry : Option ProducerEntry}
    (h : WindowSound events pid entry) (ev : ProducerEvent) (hev : ∀epoch,¬ev.Claims pid epoch) :
    WindowSound (events++[ev]) pid entry := by
  have claims : ∀x∈events++[ev],∀epoch,x.Claims pid epoch → x∈events := by
    intro x hx epoch hc
    rcases List.mem_append.mp hx with hx|hx
    · exact hx
    · rw [List.mem_singleton.mp hx] at hc
      exact absurd hc (hev epoch)
  cases entry with
  | none => exact fun x hx epoch hc => h x (claims x hx epoch hc) epoch hc
  | some entry =>
    refine ⟨fun x hx epoch hc => h.1 x (claims x hx epoch hc) epoch hc,h.2.1,?_⟩
    have hnil : acceptedOf [ev] pid entry.epoch=[] :=
      acceptedOf_eq_nil (fun x hx => by rw [List.mem_singleton.mp hx]; exact hev _)
    rw [acceptedOf_append,hnil,List.append_nil]
    exact h.2.2

theorem entryAt_window (events : List ProducerEvent) (states : ProducerStates) (pid epoch : Int)
    (h : WindowSound events pid (states.lookup pid)) :
    WindowSound events pid (some (entryAt states pid epoch)) := by
  unfold entryAt
  cases hl : states.lookup pid with
  | none =>
    rw [hl] at h
    have hnil (e : Int) : acceptedOf events pid e=[] := acceptedOf_eq_nil (fun ev hev => h ev hev e)
    simp only [Option.getD_none]
    split_ifs with he
    · exact ⟨fun ev hev e hc => absurd hc (h ev hev e),le_of_lt he,by simp [hnil,lastN]⟩
    · exact ⟨fun ev hev e hc => absurd hc (h ev hev e),le_refl _,by simp [hnil,lastN]⟩
  | some entry =>
    rw [hl] at h
    simp only [Option.getD_some]
    split_ifs with he
    · refine ⟨fun ev hev e hc => le_trans (h.1 ev hev e hc) (le_of_lt he),le_trans h.2.1 (le_of_lt he),?_⟩
      have hnil : acceptedOf events pid epoch=[] := acceptedOf_eq_nil
        (fun ev hev hc => absurd (h.1 ev hev epoch hc) (not_le.mpr he))
      simp [hnil,lastN]
    · exact h

theorem accept_continues {states : ProducerStates} {info : BatchProducerInfo}
    (hw : WindowSound events info.producerId (states.lookup info.producerId))
    (hs : HistorySound events) (hc : classify states info=.accept) (he : 0≤ info.epoch) :
    (entryAt states info.producerId info.epoch).epoch=info.epoch ∧
    (∀ev∈events,∀epoch,ev.Claims info.producerId epoch → epoch≤ info.epoch) ∧
    Contiguous 0 ((acceptedOf events info.producerId info.epoch).map seqRange) info.firstSeq := by
  obtain ⟨_,h0,hcase⟩ := classify_accept hc
  have hwin := entryAt_window events states info.producerId info.epoch hw
  have hepoch : (entryAt states info.producerId info.epoch).epoch=info.epoch := by
    unfold entryAt
    rcases hcase with ⟨hl,_⟩|⟨entry,hl,hcase⟩
    · rw [hl]
      simp only [Option.getD_none]
      split_ifs with hlt
      · rfl
      · exact le_antisymm he (not_lt.mp hlt)
    · rw [hl]
      simp only [Option.getD_some]
      split_ifs with hlt
      · rfl
      · rcases hcase with ⟨hlt',_⟩|⟨heq,_⟩|⟨heq,_⟩
        · exact absurd hlt' hlt
        · exact heq
        · exact heq
  refine ⟨hepoch,fun ev hev e hcl => by rw [← hepoch]; exact hwin.1 ev hev e hcl,?_⟩
  have start (hnil : acceptedOf events info.producerId info.epoch=[]) (hz : info.firstSeq=0) :
      Contiguous 0 ((acceptedOf events info.producerId info.epoch).map seqRange) info.firstSeq := by
    rw [hnil,hz]
    exact rfl
  rcases hcase with ⟨hl,hz⟩|⟨entry,hl,⟨hlt,hz⟩|⟨heq,hr,hz⟩|⟨heq,last,hlast,hnext⟩⟩
  · rw [hl] at hw
    exact start (acceptedOf_eq_nil (fun ev hev => hw ev hev _)) hz
  · rw [hl] at hw
    exact start (acceptedOf_eq_nil
      (fun ev hev hcl => absurd (hw.1 ev hev _ hcl) (not_le.mpr hlt))) hz
  · rw [hl] at hw
    refine start ?_ hz
    have hlen := congrArg List.length hw.2.2
    rw [hr,heq] at hlen
    simp only [List.length_nil,lastN,List.length_drop,ringSize] at hlen
    exact List.eq_nil_of_length_eq_zero (by omega)
  · rw [hl] at hw
    have hg : (acceptedOf events info.producerId info.epoch).getLast?=some last := by
      rw [← lastN_getLast? ringSize (by decide),← heq,← hw.2.2]
      exact hlast
    obtain ⟨hi,hcont⟩ := hs.contiguous info.producerId info.epoch
    have hend := hcont.getLast (seqRange last) (by rw [List.getLast?_map,hg]; rfl)
    have hb := hs.ranged _ _ last (List.mem_of_getLast? hg)
    have hpos := ((hcont.bounds (hs.nonempty _ _)).2 (seqRange last)
      (List.mem_map_of_mem (List.mem_of_getLast? hg))).1
    simp only [seqRange] at hend hpos
    have hfirst : info.firstSeq=last.lastSeq+1 := by
      unfold wrapI32 at hnext
      omega
    rw [hfirst,hend]
    exact hcont

theorem producersSound_step (l : ProducerLog) (c : ProducerCall) (l' : ProducerLog)
    (h : ProducersSound l) (hc : SafeProducer l c) (ht : l.step c=some l') : ProducersSound l' := by
  cases c with
  | fence pid newEpoch =>
    cases ht
    refine ⟨?_,h.history.fenced pid newEpoch⟩
    intro p
    by_cases hp : p=pid
    · subst hp
      simp only [fenceProducer_lookup]
      obtain ⟨h1,h2,h3⟩ := entryAt_window l.events l.store.producerStates p newEpoch (h.windows p)
      refine ⟨?_,h2,?_⟩
      · intro ev hev e hcl
        rcases List.mem_append.mp hev with hev|hev
        · exact h1 ev hev e hcl
        · rw [List.mem_singleton.mp hev] at hcl
          rw [← hcl.2]
          exact (entryAt_epoch _ _ _).1
      · rw [acceptedOf_append]
        simpa [acceptedOf] using h3
    · simp only [fenceProducer_lookup_ne _ _ hp]
      exact (h.windows p).other _ (fun e hcl => hp hcl.1.symm)
  | append c =>
    simp only [ProducerLog.step] at ht
    split at ht
    · cases ht
    · rename_i s r ha
      cases ht
      rcases append_producers ha with ⟨hs,hev⟩|⟨info,base,hi,hcl,hs,hev⟩|⟨info,hi,hcl,hs,hev⟩
      · refine ⟨?_,by rw [hev,List.append_nil]; exact h.history⟩
        intro p
        simp only [hs,hev,List.append_nil]
        exact h.windows p
      · obtain ⟨entry,hl,he,hm⟩ := classify_duplicate hcl
        have hw := h.windows info.producerId
        rw [hl] at hw
        have hm' : ⟨info.firstSeq,info.lastSeq,base⟩∈acceptedOf l.events info.producerId info.epoch := by
          rw [hw.2.2,he] at hm
          exact mem_of_mem_lastN hm
        refine ⟨?_,by rw [hev]; exact h.history.duplicate info base hm'⟩
        intro p
        simp only [hs,hev]
        exact (h.windows p).other _ (fun e hcl => hcl)
      · obtain ⟨h0,h1,_⟩ := classify_accept hcl
        obtain ⟨hd,hlt,he⟩ := hc info hi ⟨h0,h1⟩
        obtain ⟨hepoch,hclaims,hcont⟩ :=
          accept_continues (h.windows _) h.history hcl he
        have hlast : info.firstSeq≤ info.lastSeq ∧ info.lastSeq<2^31 := by
          unfold parseBatchProducerInfo at hi
          split_ifs at hi
          cases hi
          simp only [wrapI32] at h1 ⊢
          omega
        refine ⟨?_,by rw [hev]; exact h.history.accepted info _ hlast hcont hclaims⟩
        intro p
        simp only [hs,hev]
        by_cases hp : p=info.producerId
        · subst hp
          have hwin := entryAt_window l.events l.store.producerStates info.producerId info.epoch
            (h.windows _)
          rw [recordAccepted_lookup]
          refine ⟨?_,hwin.2.1,?_⟩
          · intro ev hm e hcl'
            simp only [hepoch]
            rcases List.mem_append.mp hm with hm|hm
            · exact hclaims ev hm e hcl'
            · rw [List.mem_singleton.mp hm] at hcl'
              exact le_of_eq hcl'.2.symm
          · simp only [hwin.2.2,hepoch]
            rw [lastN_concat (by decide),acceptedOf_append,acceptedOf_accepted,
              if_pos ⟨rfl,rfl⟩]
        · rw [recordAccepted_lookup_ne _ _ hp]
          exact (h.windows p).other _ (fun e hcl' => hp hcl'.1.symm)

/-- Over every history of appends and fences with non-negative producer epochs: the accepted
sequences of an epoch are contiguous from 0, a duplicate is an exact earlier range under its stored
offset, and no epoch below a seen one is accepted. -/
theorem producer_histories_sound (s : Store) (hs : s.producerStates=∅) (l : ProducerLog)
    (run : Reaches (fun l c l' => l.step c=some l') SafeProducer ⟨s,[]⟩ l) :
    (∀pid epoch,(∃hi,Contiguous 0 ((acceptedOf l.events pid epoch).map seqRange) hi) ∧
      ((acceptedOf l.events pid epoch).map seqRange).Pairwise (fun a b => a.2≤b.1)) ∧
    (∀pre info base post,l.events=pre++.duplicate info base::post →
      ⟨info.firstSeq,info.lastSeq,base⟩∈acceptedOf pre info.producerId info.epoch) ∧
    (∀pre info base post,l.events=pre++.accepted info base::post →
      ∀ev∈pre,∀epoch,ev.Claims info.producerId epoch → epoch≤ info.epoch) := by
  have h0 : ProducersSound ⟨s,[]⟩ := by
    refine ⟨fun pid => ?_,⟨fun _ _ => ⟨0,rfl⟩,by simp [acceptedOf],by simp,by simp⟩⟩
    simp only [hs]
    exact fun ev hev => by simp at hev
  have h := run.invariant h0 producersSound_step
  refine ⟨fun pid epoch => ⟨h.history.contiguous pid epoch,?_⟩,h.history.duplicates,h.history.epochs⟩
  obtain ⟨hi,hc⟩ := h.history.contiguous pid epoch
  exact hc.disjoint (h.history.nonempty pid epoch)

def firstOfProducer (epoch : Int) : ProducerCall :=
  .append {batch := encodeBatch castagnoli {producerId := 7,producerEpoch := epoch,baseSequence := 0}}

instance SafeProducer.decidable (l : ProducerLog) : (c : ProducerCall) → Decidable (SafeProducer l c)
  | .append c => inferInstanceAs (Decidable (∀info∈parseBatchProducerInfo c.batch,_ → _ ∧ _ ∧ _))
  | .fence _ _ => .isTrue trivial

/-- Two batches with a retry between them, a fence, a batch of the fenced epoch, and the first one
of the new epoch. -/
theorem producer_history_fenced :
    ∃l,runChecked (fun l c => ProducerLog.step c l) SafeProducer [.append {batch := seqBatch 0 0},
        .append {batch := seqBatch 0 0},.append {batch := seqBatch 1 1},.fence 7 1,
          .append {batch := seqBatch 3 0},
        firstOfProducer 1] ⟨firstStore,[]⟩=some l ∧
      l.events=[.accepted ⟨7,0,0,0⟩ 0,.duplicate ⟨7,0,0,0⟩ 0,.accepted ⟨7,0,1,2⟩ 1,.fenced 7 1,
        .accepted ⟨7,1,0,0⟩ 3] ∧
      ∃hi,Contiguous 0 ((acceptedOf l.events 7 0).map seqRange) hi :=
  runChecked_outcome (fun _ _ _ h => h) (by decide +kernel)
    fun l hrun hevents => ⟨hevents,((producer_histories_sound firstStore rfl l hrun).1 7 0).1⟩

/-- A batch at producer epoch -1 is filed under epoch 0: the first batch of epoch 0 is then
answered as its duplicate, though nothing of that epoch was accepted. -/
theorem negative_epoch_shadows_epoch_zero :
    ((ProducerLog.step (firstOfProducer (-1)) ⟨firstStore,[]⟩).bind
      (ProducerLog.step (firstOfProducer 0))).map ProducerLog.events=
        some [.accepted ⟨7,-1,0,0⟩ 0,.duplicate ⟨7,0,0,0⟩ 0] ∧
    acceptedOf [.accepted ⟨7,-1,0,0⟩ 0] 7 0=[] := by
  decide +kernel

end Kaas
