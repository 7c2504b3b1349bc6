import Kaas.Storage.Producers

namespace Kaas

structure Producer where
  pid : Int
  epoch : Int
  deriving DecidableEq, Repr

structure SequencedLog where
  store : Store
  sent : List (Bytes × Int) := []

def recordsIn (sent : List (Bytes × Int)) : Int := (sent.map (fun x => recordCount x.1)).sum

def acceptedBy (p : Producer) (batch : Bytes) (r : Except StorageError Appended) : List (Bytes × Int) :=
  (producerEvents batch r).filterMap (fun ev => match ev with
    | .accepted info base => if info.producerId=p.pid ∧ info.epoch=p.epoch then some (batch,base) else none
    | _ => none)

def SequencedLog.step (p : Producer) (t : SequencedLog) : ProducerCall → Option SequencedLog
  | .append c => (appendLocked c.cfg c.env c.epoch c.batch t.store).map
      (fun out => ⟨out.1,t.sent++acceptedBy p c.batch out.2⟩)
  | .fence pid newEpoch =>
    some {t with store := {t.store with producerStates := fenceProducer t.store.producerStates pid newEpoch}}

/-- The next batch of a producer that numbers its records consecutively modulo `2^31`. -/
structure InOrder (p : Producer) (t : SequencedLog) (batch : Bytes) : Prop where
  headed : 57≤batch.length
  pid : producerId batch=p.pid
  epoch : producerEpoch batch=p.epoch
  numbered : baseSequence batch=recordsIn t.sent%2^31
  counted : 0≤lastOffsetDelta batch

instance (p : Producer) (t : SequencedLog) (batch : Bytes) : Decidable (InOrder p t batch) :=
  decidable_of_iff (57≤batch.length ∧ producerId batch=p.pid ∧ producerEpoch batch=p.epoch ∧
      baseSequence batch=recordsIn t.sent%2^31 ∧ 0≤lastOffsetDelta batch)
    ⟨fun h => ⟨h.1,h.2.1,h.2.2.1,h.2.2.2.1,h.2.2.2.2⟩,fun h => ⟨h.headed,h.pid,h.epoch,h.numbered,h.counted⟩⟩

/-- The producer sends its next batch or one it has sent before. Batches of its earlier epochs and
markers may arrive in any number, and it is not fenced by a later epoch. -/
def Sequenced (p : Producer) (t : SequencedLog) : ProducerCall → Prop
  | .append c => ∀info,parseBatchProducerInfo c.batch=some info → Idempotent info → info.producerId=p.pid →
      (0≤ info.epoch ∧ info.epoch<p.epoch) ∨ InOrder p t c.batch ∨
        ∃x∈t.sent,parseBatchProducerInfo x.1=some info
  | .fence pid newEpoch => pid=p.pid → newEpoch≤p.epoch

def Unused (p : Producer) (states : ProducerStates) : Prop :=
  ∀entry,states.lookup p.pid=some entry → entry.epoch<p.epoch ∨ (entry.epoch=p.epoch ∧ entry.recent=[])

def recentOf (x : Bytes × Int) : RecentBatch :=
  ⟨baseSequence x.1,wrapI32 (baseSequence x.1+lastOffsetDelta x.1),x.2⟩

/-- What is known of the producer: its batches number their records from 0 on without a gap, all but
the last within `2^31`, and the window holds the newest of them. -/
structure SequencesKept (p : Producer) (t : SequencedLog) : Prop where
  unused : t.sent=[] → Unused p t.store.producerStates
  window : t.sent≠[] →
    t.store.producerStates.lookup p.pid=some ⟨p.epoch,lastN ringSize (t.sent.map recentOf)⟩
  parsed : ∀x∈t.sent,parseBatchProducerInfo x.1=
    some ⟨p.pid,p.epoch,baseSequence x.1,wrapI32 (baseSequence x.1+lastOffsetDelta x.1)⟩
  counted : ∀x∈t.sent,0≤lastOffsetDelta x.1
  numbered : ∀pre x post,t.sent=pre++x::post → baseSequence x.1=recordsIn pre ∧ recordsIn pre<2^31

@[simp] theorem recordsIn_nil : recordsIn []=0 := rfl

@[simp] theorem recordsIn_append (xs ys : List (Bytes × Int)) :
    recordsIn (xs++ys)=recordsIn xs+recordsIn ys := by
  simp [recordsIn]

@[simp] theorem recordsIn_cons (x : Bytes × Int) (xs : List (Bytes × Int)) :
    recordsIn (x::xs)=recordCount x.1+recordsIn xs := by
  simp [recordsIn]

theorem recordsIn_nonneg (xs : List (Bytes × Int)) (h : ∀x∈xs,0≤lastOffsetDelta x.1) : 0≤ recordsIn xs := by
  induction xs with
  | nil => simp
  | cons x xs ih =>
    have hx := h x (List.mem_cons_self ..)
    have := ih (fun y hy => h y (List.mem_cons_of_mem x hy))
    rw [recordsIn_cons,recordCount]
    omega

theorem parse_inOrder {p : Producer} {t : SequencedLog} {batch : Bytes} (h : InOrder p t batch) :
    parseBatchProducerInfo batch=
      some ⟨p.pid,p.epoch,baseSequence batch,wrapI32 (baseSequence batch+lastOffsetDelta batch)⟩ := by
  have hlong := h.headed
  unfold parseBatchProducerInfo
  rw [if_neg (by omega),h.pid,h.epoch]

section Window

variable {p : Producer} {t : SequencedLog}

theorem SequencesKept.place (h : SequencesKept p t) {x y : Bytes × Int} (hx : x∈t.sent)
    (hy : y∈t.sent) (he : baseSequence x.1=baseSequence y.1) : x=y := by
  obtain ⟨pre,post,hp⟩ := List.append_of_mem hx
  obtain ⟨pre',post',hp'⟩ := List.append_of_mem hy
  have hn := (h.numbered pre x post hp).1
  have hn' := (h.numbered pre' y post' hp').1
  have hpos (as : List (Bytes × Int)) (z : Bytes × Int) (bs : List (Bytes × Int)) (hs : t.sent=as++z::bs)
      (cs : List (Bytes × Int)) (hc : ∀c∈cs,c∈t.sent) : recordsIn as< recordsIn (as++z::cs) := by
    have hz := h.counted z (by rw [hs]; simp)
    have := recordsIn_nonneg cs (fun c hcm => h.counted c (hc c hcm))
    rw [recordsIn_append,recordsIn_cons,recordCount]
    omega
  rw [hp] at hp'
  rcases List.append_eq_append_iff.mp hp' with ⟨mid,rfl,hm⟩|⟨mid,rfl,hm⟩
  · cases mid with
    | nil => simpa using (List.cons.inj hm).1
    | cons z mid =>
      obtain ⟨rfl,_⟩ := List.cons.inj hm
      have := hpos pre x post hp mid (fun c hcm => by rw [hp]; simp_all)
      omega
  · cases mid with
    | nil => simpa using (List.cons.inj hm).1.symm
    | cons z mid =>
      obtain ⟨rfl,hr⟩ := List.cons.inj hm
      have := hpos pre' y (mid++x::post) (by rw [hp]; simp) mid (fun c hcm => by rw [hp]; simp_all)
      omega

theorem SequencesKept.retry (h : SequencesKept p t) (hp : 0≤p.pid) (x : Bytes × Int)
    (hx : x∈lastN ringSize t.sent) (info : BatchProducerInfo) (hi : parseBatchProducerInfo x.1=some info) :
    classify t.store.producerStates info=.duplicate x.2 := by
  have hmem := mem_of_mem_lastN hx
  have hwin := h.window (List.ne_nil_of_mem hmem)
  obtain ⟨pre,post,hs⟩ := List.append_of_mem hmem
  have hseq : 0≤baseSequence x.1 := by
    rw [(h.numbered pre x post hs).1]
    exact recordsIn_nonneg pre (fun c hc => h.counted c (by rw [hs]; simp [hc]))
  rw [h.parsed x hmem] at hi
  cases hi
  have hmap : lastN ringSize (t.sent.map recentOf)=(lastN ringSize t.sent).map recentOf := by
    simp [lastN]
  have hfind : (lastN ringSize (t.sent.map recentOf)).find? (fun rb => decide (rb.firstSeq=baseSequence x.1 ∧
      rb.lastSeq=wrapI32 (baseSequence x.1+lastOffsetDelta x.1)))=some (recentOf x) := by
    cases hf : (lastN ringSize (t.sent.map recentOf)).find? (fun rb => decide (rb.firstSeq=baseSequence x.1 ∧
        rb.lastSeq=wrapI32 (baseSequence x.1+lastOffsetDelta x.1))) with
    | none =>
      have hno := List.find?_eq_none.mp hf (recentOf x) (by rw [hmap]; exact List.mem_map_of_mem hx)
      simp [recentOf] at hno
    | some rb =>
      have hin := List.mem_of_find?_eq_some hf
      rw [hmap] at hin
      obtain ⟨y,hy,rfl⟩ := List.mem_map.mp hin
      have hr := List.find?_some hf
      have heq := of_decide_eq_true hr
      rw [h.place (mem_of_mem_lastN hy) hmem heq.1]
  unfold classify
  rw [if_neg (by dsimp only; omega),if_neg (by dsimp only; omega)]
  simp only [hwin,lt_irrefl,if_false,hfind]
  rfl

theorem SequencesKept.inOrder (h : SequencesKept p t) (hp : 0≤p.pid) {batch : Bytes}
    (hb : InOrder p t batch) : classify t.store.producerStates
        ⟨p.pid,p.epoch,baseSequence batch,wrapI32 (baseSequence batch+lastOffsetDelta batch)⟩=.accept ↔
      recordsIn t.sent<2^31 := by
  have hn := hb.numbered
  have hseq : 0≤baseSequence batch := by omega
  unfold classify
  rw [if_neg (by dsimp only; omega),if_neg (by dsimp only; omega)]
  dsimp only
  rcases List.eq_nil_or_concat t.sent with hnil|⟨pre,x,hs⟩
  · have hzero : baseSequence batch=0 := by rw [hn,hnil]; rfl
    have hfirst (info : BatchProducerInfo) (hz : info.firstSeq=0) : firstOfWindow info=.accept := if_pos hz
    refine iff_of_true ?_ (by rw [hnil]; decide)
    cases hl : t.store.producerStates.lookup p.pid with
    | none => exact hfirst _ hzero
    | some entry =>
      dsimp only
      rcases h.unused hnil entry hl with hlt|⟨he,hr⟩
      · rw [if_pos hlt]
        exact hfirst _ hzero
      · rw [if_neg (by omega),if_neg (by omega),hr]
        exact hfirst _ hzero
  · rw [List.concat_eq_append] at hs
    have hne : t.sent≠[] := by rw [hs]; simp
    have hlast : (lastN ringSize (t.sent.map recentOf)).getLast?=some (recentOf x) := by
      rw [lastN_getLast? _ (by decide),hs]
      simp
    obtain ⟨hx,hlow⟩ := h.numbered pre x [] (by rw [hs])
    have hcount := h.counted x (by rw [hs]; simp)
    have hnonneg := recordsIn_nonneg pre (fun c hc => h.counted c (by rw [hs]; simp [hc]))
    have hdelta := (lastOffsetDelta_range x.1).2
    have htotal : recordsIn t.sent=recordsIn pre+lastOffsetDelta x.1+1 := by
      rw [hs,recordsIn_append,recordsIn_cons,recordsIn_nil,recordCount]
      omega
    have hfresh (hlt : recordsIn t.sent<2^31) : (lastN ringSize (t.sent.map recentOf)).find? (fun rb =>
        decide (rb.firstSeq=baseSequence batch ∧
          rb.lastSeq=wrapI32 (baseSequence batch+lastOffsetDelta batch)))=none := by
      refine List.find?_eq_none.mpr (fun rb hrb hd => ?_)
      obtain ⟨y,hy,rfl⟩ := List.mem_map.mp (mem_of_mem_lastN hrb)
      obtain ⟨as,bs,hsplit⟩ := List.append_of_mem hy
      have hfirst : baseSequence y.1=baseSequence batch := (of_decide_eq_true hd).1
      have hy' := (h.numbered as y bs hsplit).1
      have hyc := h.counted y hy
      have hbs := recordsIn_nonneg bs (fun c hc => h.counted c (by rw [hsplit]; simp [hc]))
      have : recordsIn t.sent=recordsIn as+lastOffsetDelta y.1+1+recordsIn bs := by
        rw [hsplit,recordsIn_append,recordsIn_cons,recordCount]
        omega
      omega
    simp only [h.window hne,lt_irrefl,if_false]
    by_cases hlt : recordsIn t.sent<2^31
    · have hw : wrapI32 (recordsIn pre+lastOffsetDelta x.1)=recordsIn pre+lastOffsetDelta x.1 := by
        unfold wrapI32
        omega
      have hw' : wrapI32 (recordsIn pre+lastOffsetDelta x.1+1)=recordsIn pre+lastOffsetDelta x.1+1 := by
        unfold wrapI32
        omega
      refine iff_of_true ?_ hlt
      rw [hfresh hlt]
      simp only [hlast]
      rw [if_pos]
      simp only [recentOf,hx,hw,hw']
      omega
    · refine iff_of_false ?_ hlt
      split
      · simp
      · simp only [hlast]
        rw [if_neg]
        · simp
        · simp only [recentOf,hx]
          unfold wrapI32
          omega

theorem SequencesKept.old (h : SequencesKept p t) (x : Bytes × Int) (hx : x∈t.sent) (info : BatchProducerInfo)
    (hi : parseBatchProducerInfo x.1=some info) : classify t.store.producerStates info≠.accept := by
  intro hc
  rw [h.parsed x hx] at hi
  cases hi
  have hwin := h.window (List.ne_nil_of_mem hx)
  obtain ⟨_,hseq,hcases⟩ := classify_accept hc
  dsimp only at hseq hcases
  rcases List.eq_nil_or_concat t.sent with hnil|⟨pre,y,hs⟩
  · rw [hnil] at hx
    cases hx
  rw [List.concat_eq_append] at hs
  have hlast : (lastN ringSize (t.sent.map recentOf)).getLast?=some (recentOf y) := by
    rw [lastN_getLast? _ (by decide),hs]
    simp
  rcases hcases with ⟨hn,_⟩|⟨entry,he,hor⟩
  · rw [hwin] at hn
    cases hn
  · rw [hwin] at he
    cases he
    rcases hor with ⟨hlt,_⟩|⟨_,hnil,_⟩|⟨_,last,hl,hfirst⟩
    · exact absurd hlt (lt_irrefl _)
    · dsimp only at hnil
      rw [hnil] at hlast
      cases hlast
    · rw [hlast] at hl
      cases hl
      obtain ⟨hy,hlow⟩ := h.numbered pre y [] (by rw [hs])
      obtain ⟨as,bs,hsplit⟩ := List.append_of_mem hx
      have hx' := (h.numbered as x bs hsplit).1
      have hxc := h.counted x hx
      have hyc := h.counted y (by rw [hs]; simp)
      have hbs := recordsIn_nonneg bs (fun c hcm => h.counted c (by rw [hsplit]; simp [hcm]))
      have hpre := recordsIn_nonneg pre (fun c hcm => h.counted c (by rw [hs]; simp [hcm]))
      have hdelta := (lastOffsetDelta_range y.1).2
      have htotal : recordsIn as+lastOffsetDelta x.1+1+recordsIn bs=recordsIn pre+lastOffsetDelta y.1+1 := by
        have e1 : recordsIn t.sent=recordsIn as+(recordCount x.1+recordsIn bs) := by
          rw [hsplit,recordsIn_append,recordsIn_cons]
        have e2 : recordsIn t.sent=recordsIn pre+(recordCount y.1+0) := by
          rw [hs,recordsIn_append,recordsIn_cons,recordsIn_nil]
        unfold recordCount at e1 e2
        omega
      simp only [recentOf,hy] at hfirst
      unfold wrapI32 at hfirst
      omega

end Window

section Calls

variable {p : Producer} {t : SequencedLog}

theorem SequencesKept.same (h : SequencesKept p t) (s : Store)
    (hl : s.producerStates.lookup p.pid=t.store.producerStates.lookup p.pid) : SequencesKept p ⟨s,t.sent⟩ :=
  ⟨fun hn entry he => h.unused hn entry (hl ▸ he),fun hn => hl.trans (h.window hn),h.parsed,
    h.counted,h.numbered⟩

theorem SequencesKept.entry (h : SequencesKept p t) (he : 0≤p.epoch) :
    entryAt t.store.producerStates p.pid p.epoch=⟨p.epoch,lastN ringSize (t.sent.map recentOf)⟩ := by
  unfold entryAt
  by_cases hnil : t.sent=[]
  · have hempty : lastN ringSize (t.sent.map recentOf)=[] := by simp [hnil,lastN]
    rw [hempty]
    cases hl : t.store.producerStates.lookup p.pid with
    | none =>
      simp only [Option.getD_none]
      split_ifs with hlt
      · rfl
      · have : p.epoch=0 := by omega
        rw [this]
    | some entry =>
      simp only [Option.getD_some]
      rcases h.unused hnil entry hl with hlt|⟨heq,hr⟩
      · rw [if_pos hlt]
      · rw [if_neg (by omega),← heq,← hr]
  · rw [h.window hnil]
    simp

theorem SequencesKept.next (h : SequencesKept p t) (he : 0≤p.epoch) {batch : Bytes}
    (hb : InOrder p t batch) (hlt : recordsIn t.sent<2^31) (s : Store) (base : Int)
    (hs : s.producerStates=recordAccepted t.store.producerStates
      ⟨p.pid,p.epoch,baseSequence batch,wrapI32 (baseSequence batch+lastOffsetDelta batch)⟩ base) :
    SequencesKept p ⟨s,t.sent++[(batch,base)]⟩ := by
  have hnonneg := recordsIn_nonneg t.sent h.counted
  have hn := hb.numbered
  refine ⟨fun hnil => by simp at hnil,fun _ => ?_,fun x hx => ?_,fun x hx => ?_,fun pre x post hsplit => ?_⟩
  · have hlook := recordAccepted_lookup t.store.producerStates
      ⟨p.pid,p.epoch,baseSequence batch,wrapI32 (baseSequence batch+lastOffsetDelta batch)⟩ base
    dsimp only at hlook
    rw [h.entry he] at hlook
    rw [hs,hlook,lastN_concat (by decide)]
    simp [recentOf]
  · rcases List.mem_append.mp hx with hx|hx
    · exact h.parsed x hx
    · rw [List.mem_singleton.mp hx]
      exact parse_inOrder hb
  · rcases List.mem_append.mp hx with hx|hx
    · exact h.counted x hx
    · rw [List.mem_singleton.mp hx]
      exact hb.counted
  · rcases concat_split hsplit with ⟨rfl,rfl⟩|⟨post',hsent⟩
    · exact ⟨by dsimp only; omega,hlt⟩
    · exact h.numbered pre x post' hsent

theorem acceptedBy_accepted (p : Producer) {batch : Bytes} {r : Except StorageError Appended}
    {info : BatchProducerInfo} {base : Int} (h : producerEvents batch r=[.accepted info base]) :
    acceptedBy p batch r=if info.producerId=p.pid ∧ info.epoch=p.epoch then [(batch,base)] else [] := by
  unfold acceptedBy
  rw [h]
  split_ifs with hc <;> simp [hc]

theorem SequencesKept.earlier (h : SequencesKept p t) (info : BatchProducerInfo) (hpid : info.producerId=p.pid)
    (hlow : 0≤ info.epoch ∧ info.epoch<p.epoch) (hc : classify t.store.producerStates info=.accept) (s : Store)
    (base : Int) (hs : s.producerStates=recordAccepted t.store.producerStates info base) :
    SequencesKept p ⟨s,t.sent⟩ := by
  obtain ⟨_,_,hcases⟩ := classify_accept hc
  rw [hpid] at hcases
  have hnil : t.sent=[] := by
    by_contra hne
    rw [h.window hne] at hcases
    rcases hcases with ⟨hn,_⟩|⟨entry,he,hor⟩
    · cases hn
    · cases he
      rcases hor with ⟨hlt,_⟩|⟨heq,_⟩|⟨heq,_⟩
      · dsimp only at hlt
        omega
      · dsimp only at heq
        omega
      · dsimp only at heq
        omega
  have hepoch : (entryAt t.store.producerStates info.producerId info.epoch).epoch=info.epoch := by
    unfold entryAt
    rw [hpid]
    rcases hcases with ⟨hn,_⟩|⟨entry,he,hor⟩
    · rw [hn]
      simp only [Option.getD_none]
      split_ifs
      · rfl
      · dsimp only
        omega
    · rw [he]
      simp only [Option.getD_some]
      split_ifs
      · rfl
      · rcases hor with ⟨hlt,_⟩|⟨heq,_⟩|⟨heq,_⟩
        · contradiction
        · exact heq
        · exact heq
  refine ⟨fun _ entry hl => ?_,fun hne => absurd hnil hne,h.parsed,h.counted,h.numbered⟩
  have hlook := recordAccepted_lookup t.store.producerStates info base
  rw [hpid,← hs] at hlook
  rw [hlook] at hl
  cases hl
  rw [hpid] at hepoch
  exact Or.inl (by dsimp only; omega)

theorem sequencesKept_step (hp : 0≤p.pid ∧ 0≤p.epoch) (t : SequencedLog) (c : ProducerCall) (u : SequencedLog)
    (h : SequencesKept p t) (hok : Sequenced p t c) (hs : t.step p c=some u) : SequencesKept p u := by
  cases c with
  | append c =>
    obtain ⟨⟨s,r⟩,hcall,rfl⟩ := Option.map_eq_some_iff.mp hs
    rcases append_producers hcall with ⟨hsame,hev⟩|⟨info,base,_,_,hsame,hev⟩|⟨info,hi,hc,hrec,hev⟩
    · have hnone : acceptedBy p c.batch r=[] := by simp [acceptedBy,hev]
      rw [hnone,List.append_nil]
      exact h.same s (by rw [hsame])
    · have hnone : acceptedBy p c.batch r=[] := by simp [acceptedBy,hev]
      rw [hnone,List.append_nil]
      exact h.same s (by rw [hsame])
    · rw [acceptedBy_accepted p hev]
      by_cases hpid : info.producerId=p.pid
      · obtain ⟨h0,h1,_⟩ := classify_accept hc
        rcases hok info hi ⟨h0,h1⟩ hpid with hlow|hb|⟨x,hx,hxi⟩
        · rw [if_neg (by omega),List.append_nil]
          exact h.earlier info hpid hlow hc s _ hrec
        · have hinfo := parse_inOrder hb
          rw [hi] at hinfo
          cases hinfo
          rw [if_pos ⟨rfl,rfl⟩]
          exact h.next hp.2 hb ((h.inOrder hp.1 hb).mp hc) s _ hrec
        · exact absurd hc (h.old x hx info hxi)
      · rw [if_neg (by simp [hpid]),List.append_nil]
        exact h.same s (by rw [hrec,recordAccepted_lookup_ne _ _ (Ne.symm hpid)])
  | fence pid newEpoch =>
    cases hs
    by_cases hpid : p.pid=pid
    · have hle := hok hpid.symm
      rw [← hpid]
      refine ⟨fun hnil entry hl => ?_,fun hne => ?_,h.parsed,h.counted,h.numbered⟩
      · dsimp only at hl
        rw [fenceProducer_lookup,entryAt] at hl
        cases hl
        dsimp only at hnil ⊢
        split_ifs with hlt
        · rcases lt_or_eq_of_le hle with hlt'|heq
          · exact Or.inl hlt'
          · exact Or.inr ⟨heq,rfl⟩
        · cases hlook : t.store.producerStates.lookup p.pid with
          | none => exact (lt_or_eq_of_le hp.2).imp id (fun heq => ⟨heq,rfl⟩)
          | some entry => exact h.unused hnil entry hlook
      · dsimp only at hne ⊢
        rw [fenceProducer_lookup,entryAt,h.window hne]
        simp only [Option.getD_some]
        rw [if_neg (by omega)]
    · exact h.same _ (fenceProducer_lookup_ne _ _ hpid)

end Calls

/-- Whatever others write to the partition, the next batch of a producer that numbers its records
modulo `2^31` is accepted exactly as long as it has had fewer than `2^31` records accepted, and a
repeated batch in the window is answered with its offset. -/
theorem sequenced_batches_accepted_iff (p : Producer) (hp : 0≤p.pid ∧ 0≤p.epoch) (s : Store)
    (hs : Unused p s.producerStates) (t : SequencedLog)
    (run : Reaches (fun t c u => t.step p c=some u) (Sequenced p) ⟨s,[]⟩ t) :
    (∀batch,InOrder p t batch →
      (classifyBatch t.store.toPartitionInner batch=.admitted true ↔ recordsIn t.sent<2^31)) ∧
    (∀x∈lastN ringSize t.sent,∀batch,parseBatchProducerInfo batch=parseBatchProducerInfo x.1 →
      classifyBatch t.store.toPartitionInner batch=.known x.2) := by
  have h0 : SequencesKept p ⟨s,[]⟩ := ⟨fun _ => hs,fun hn => absurd rfl hn,by simp,by simp,by simp⟩
  have h := run.invariant h0 (sequencesKept_step hp)
  refine ⟨fun batch hb => ?_,fun x hx batch hb => ?_⟩
  · rw [← h.inOrder hp.1 hb]
    unfold classifyBatch
    rw [parse_inOrder hb]
    dsimp only
    split <;> simp_all
  · have hi := h.parsed x (mem_of_mem_lastN hx)
    have hd := h.retry hp.1 x hx _ hi
    unfold classifyBatch
    rw [hb,hi]
    dsimp only
    rw [hd]

/-- The batch behind record number 2147483647 is turned away: where the numbers wrap between two
batches, and where they wrap inside the one before. -/
theorem sequence_wrap_refused : ∃t u v,InOrder ⟨7,0⟩ ⟨firstStore,[]⟩ (seqBatch 0 2147483646) ∧
      SequencedLog.step ⟨7,0⟩ ⟨firstStore,[]⟩ (.append {batch := seqBatch 0 2147483646})=some t ∧
      InOrder ⟨7,0⟩ t (seqBatch 2147483647 0) ∧
      t.step ⟨7,0⟩ (.append {batch := seqBatch 2147483647 0})=some u ∧
      InOrder ⟨7,0⟩ u (seqBatch 0 0) ∧
      classifyBatch u.store.toPartitionInner (seqBatch 0 0)=.refused .outOfOrderSequence ∧
      InOrder ⟨7,0⟩ t (seqBatch 2147483647 1) ∧
      t.step ⟨7,0⟩ (.append {batch := seqBatch 2147483647 1})=some v ∧
      InOrder ⟨7,0⟩ v (seqBatch 1 0) ∧
      classifyBatch v.store.toPartitionInner (seqBatch 1 0)=.refused .outOfOrderSequence := by
  obtain ⟨t,ht,u,hu,v,hv,h1,h2,h3,h4,h5,h6⟩ :
      ∃t∈SequencedLog.step ⟨7,0⟩ ⟨firstStore,[]⟩ (.append {batch := seqBatch 0 2147483646}),
      ∃u∈t.step ⟨7,0⟩ (.append {batch := seqBatch 2147483647 0}),
      ∃v∈t.step ⟨7,0⟩ (.append {batch := seqBatch 2147483647 1}),
        InOrder ⟨7,0⟩ t (seqBatch 2147483647 0) ∧ InOrder ⟨7,0⟩ u (seqBatch 0 0) ∧
        classifyBatch u.store.toPartitionInner (seqBatch 0 0)=.refused .outOfOrderSequence ∧
        InOrder ⟨7,0⟩ t (seqBatch 2147483647 1) ∧ InOrder ⟨7,0⟩ v (seqBatch 1 0) ∧
        classifyBatch v.store.toPartitionInner (seqBatch 1 0)=.refused .outOfOrderSequence := by decide +kernel
  exact ⟨t,u,v,by decide +kernel,ht,h1,hu,h2,h3,h4,hv,h5,h6⟩

theorem sequenced_batches_two :
    ∃t,SequencedLog.step ⟨7,0⟩ ⟨firstStore,[]⟩ (.append {batch := seqBatch 0 4})=some t ∧
      Unused ⟨7,0⟩ firstStore.producerStates ∧
      classifyBatch t.store.toPartitionInner (seqBatch 5 0)=.admitted true ∧
      classifyBatch t.store.toPartitionInner (seqBatch 0 4)=.known 0 := by
  have hunused : Unused ⟨7,0⟩ firstStore.producerStates := by
    intro entry he
    rw [show firstStore.producerStates.lookup 7=none by decide] at he
    cases he
  have hfirst : InOrder ⟨7,0⟩ ⟨firstStore,[]⟩ (seqBatch 0 4) := by decide +kernel
  obtain ⟨t,ht,hb,hlt,hx⟩ : ∃t∈SequencedLog.step ⟨7,0⟩ ⟨firstStore,[]⟩
      (.append {batch := seqBatch 0 4}),InOrder ⟨7,0⟩ t (seqBatch 5 0) ∧ recordsIn t.sent<2^31 ∧
        (seqBatch 0 4,(0 : Int))∈lastN ringSize t.sent := by decide +kernel
  have hreach : Reaches (fun t c u => SequencedLog.step ⟨7,0⟩ t c=some u) (Sequenced ⟨7,0⟩) ⟨firstStore,[]⟩ t :=
    .next (.append {batch := seqBatch 0 4}) .start (fun _ _ _ _ => Or.inr (Or.inl hfirst)) ht
  obtain ⟨hnext,hretry⟩ := sequenced_batches_accepted_iff ⟨7,0⟩ (by decide) firstStore hunused t hreach
  exact ⟨t,ht,hunused,(hnext _ hb).mpr hlt,hretry _ hx _ rfl⟩

end Kaas
