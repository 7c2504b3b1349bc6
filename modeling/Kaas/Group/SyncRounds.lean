import Kaas.Group.Generations

namespace Kaas

def ConsumerGroup.syncView (g : ConsumerGroup) :=
  (g.generationId,g.currentSync,g.rounds,g.nextRound,g.awake,g.published,g.synced,g.rebalances,g.leaderId)

theorem syncView_removed_all (mids : List String) (g : ConsumerGroup) :
    (mids.foldl ConsumerGroup.removeMember g).syncView=g.syncView ∧
      (mids.foldl ConsumerGroup.removeMember g).state=g.state :=
  List.foldlRecOn (motive := fun t : ConsumerGroup => t.syncView=g.syncView ∧ t.state=g.state) mids
    _ ⟨rfl,rfl⟩ (fun _ ih _ _ => ih)

/-- A property of the rounds, the calls and the state; `C` is what a completion needs of the
generation and `S` what a sync needs. -/
structure SyncInvariant (P : ConsumerGroup → Prop) (C : Int → Prop)
    (S : ConsumerGroup → SyncRequest → Prop) : Prop where
  same : ∀{g h : ConsumerGroup},P g → h.syncView=g.syncView → h.state=g.state → P h
  /-- in the other states no round is open -/
  idle : ∀{g h : ConsumerGroup},P g → h.syncView=g.syncView → h.state≠.completingRebalance →
    h.state≠.stable → P h
  takeSync : ∀{g : ConsumerGroup},P g → P g.takeSync
  complete : ∀{g : ConsumerGroup},P g → C g.generationId → ∀early,P (g.completeRebalance early)
  sync : ∀{g : ConsumerGroup},P g → ∀req,S g req → P (g.sync req).1
  finish : ∀{g : ConsumerGroup},P g → ∀i,P (g.finishSync i)

namespace SyncInvariant

variable {P : ConsumerGroup → Prop} {C : Int → Prop} {S : ConsumerGroup → SyncRequest → Prop}
  (I : SyncInvariant P C S) {g : ConsumerGroup} (h : P g)

include I h

theorem afterRemoval : P g.afterRemoval := by
  unfold ConsumerGroup.afterRemoval
  split_ifs
  · exact I.idle h rfl nofun nofun
  · exact I.idle h rfl nofun nofun
  · exact h

theorem sessionExpired (mid : String) : P (g.sessionExpired mid) := by
  unfold ConsumerGroup.sessionExpired
  split_ifs
  · apply I.afterRemoval
    exact I.same h rfl rfl
  · exact h

theorem leave (mids : List String) : P (g.leave mids).1 := by
  apply I.afterRemoval
  rw [ConsumerGroup.leaveOne_fold]
  refine List.foldlRecOn (motive := P) mids _ h (fun t ih mid _ => ?_)
  split_ifs
  · exact I.same ih rfl rfl
  · exact ih

theorem shutdown : P g.shutdown := by
  obtain ⟨hview,hstate⟩ := syncView_removed_all g.members.keys g
  have hgone : P (g.members.keys.foldl ConsumerGroup.removeMember g).abortRebalance :=
    I.same (I.same h hview hstate) rfl rfl
  exact I.idle (I.takeSync hgone) rfl nofun nofun

theorem rebalanceExpired (hc : C g.generationId) (early : Bool) : P (g.rebalanceExpired early) := by
  unfold ConsumerGroup.rebalanceExpired ConsumerGroup.evictNonRejoiningMembers
  split_ifs
  · exact I.complete h hc early
  · obtain ⟨hview,hstate⟩ := syncView_removed_all ((g.members.entries.filter
      (fun e => decide (e.1∉g.joinWaiters) && e.2.groupInstanceId.isNone)).map (·.1)) g
    exact I.complete (I.same h hview hstate) ((congrArg (fun v => C v.1) hview).mpr hc) early
  · exact h

theorem beginRebalance (isNew : Bool) :
    P (g.beginRebalance isNew) ∧ (g.beginRebalance isNew).generationId=g.generationId := by
  have started : P ({g with state := .preparingRebalance}.startRebalanceTimer false) := I.idle h rfl nofun nofun
  unfold ConsumerGroup.beginRebalance
  split
  · exact ⟨I.idle h rfl nofun nofun,rfl⟩
  · exact ⟨I.takeSync started,rfl⟩
  · exact ⟨I.takeSync started,rfl⟩
  · split_ifs
    · exact ⟨I.same h rfl rfl,rfl⟩
    · exact ⟨h,rfl⟩
  · exact ⟨h,rfl⟩

theorem join (hc : C g.generationId) (req : JoinRequest) (n : Nat) : P (g.join req n).1 := by
  have henrolled : P ((g.upsert (memberIdOf req n) req).resetHeartbeatTimer (memberIdOf req n)) :=
    I.same h rfl rfl
  unfold ConsumerGroup.join
  simp only
  split_ifs
  · exact henrolled
  · obtain ⟨hbegun,hgen⟩ := I.beginRebalance henrolled (decide (memberIdOf req n∉g.members))
    unfold ConsumerGroup.park ConsumerGroup.maybeCompleteRebalance
    split_ifs
    · exact I.same hbegun rfl rfl
    · apply I.complete
      · exact I.same hbegun rfl rfl
      · rw [hgen]
        exact hc
    · exact I.same hbegun rfl rfl

theorem exec {op : ConsumerOp} (hc : MayComplete op → C g.generationId)
    (hs : ∀req,op=.sync req → S g req) : P (g.exec op) := by
  have hm := exec_move g op
  generalize g.exec op=t at hm ⊢
  cases hm with
  | idle => exact h
  | join req n => exact I.join h (hc trivial) req n
  | sync req => exact I.sync h req (hs req rfl)
  | finishSync i => exact I.finish h i
  | heartbeat mid generation => exact I.same h rfl rfl
  | leave mids => exact I.leave h mids
  | shutdown => exact I.shutdown h
  | tick ms | wakeRebalance => exact I.same h rfl rfl
  | rebalanceTimer | lateRebalance =>
    apply I.rebalanceExpired
    · exact I.same h rfl rfl
    · exact hc trivial
  | wakeSession mid => exact I.same h rfl rfl
  | sessionTimer mid | lateSession mid =>
    apply I.sessionExpired
    exact I.same h rfl rfl

end SyncInvariant

/-- What the leader supplied for a member: the last of its assignments that names the member. -/
def assignedTo (assignments : List SyncAssignment) (m : String) : Bytes :=
  assignments.foldl (fun b a => if a.memberId=m then a.assignment else b) []

abbrev Assignments := AList (fun _ : String => Bytes)

def readFor (stored : Assignments) (m : String) : Bytes := (stored.lookup m).getD []

theorem readFor_inserts (assignments : List SyncAssignment) (stored : Assignments) (m : String) :
    readFor (assignments.foldl (fun s a => s.insert a.memberId a.assignment) stored) m=
      assignments.foldl (fun b a => if a.memberId=m then a.assignment else b) (readFor stored m) := by
  induction assignments generalizing stored with
  | nil => rfl
  | cons a as ih =>
    rw [List.foldl_cons,List.foldl_cons,ih]
    congr 1
    unfold readFor
    split_ifs with h
    · rw [← h,AList.lookup_insert]
      rfl
    · rw [AList.lookup_insert_ne (Ne.symm h)]

theorem readFor_fill (mids : List String) (stored : Assignments) (m : String) :
    readFor (mids.foldl (fun s mid => if mid∈s then s else s.insert mid []) stored) m=readFor stored m := by
  induction mids generalizing stored with
  | nil => rfl
  | cons mid mids ih =>
    rw [List.foldl_cons,ih]
    split_ifs with h
    · rfl
    · unfold readFor
      by_cases hm : m=mid
      · rw [hm,AList.lookup_insert,AList.lookup_eq_none.mpr h]
        rfl
      · rw [AList.lookup_insert_ne hm]

theorem readFor_store (stored : Assignments) (assignments : List SyncAssignment)
    (mids : List String) (m : String) : readFor (storeAssignments stored assignments mids) m=
      assignments.foldl (fun b a => if a.memberId=m then a.assignment else b) (readFor stored m) := by
  unfold storeAssignments
  rw [readFor_fill,readFor_inserts]

theorem readFor_store_same {stored : Assignments} {assignments : List SyncAssignment}
    (h : ∀a∈assignments,stored.lookup a.memberId=some a.assignment) (mids : List String) (m : String) :
    readFor (storeAssignments stored assignments mids) m=readFor stored m := by
  rw [readFor_store]
  refine List.foldlRecOn (motive := fun b => b=readFor stored m) assignments _ rfl (fun b hb a ha => ?_)
  split_ifs with hm
  · unfold readFor
    rw [← hm,h a ha]
    rfl
  · exact hb

def SyncRound.Over (r : SyncRound) : Prop := r.delivered=true ∨ r.canceled=true

def Delivers (published : List Publication) (r : SyncRound) : Prop :=
  r.delivered=true → r.canceled=false ∧ ∃p∈published,p.generationId=r.generationId ∧
    ∀m,readFor r.assignments m=assignedTo p.assignments m

structure HeapSound (rounds : Nat → SyncRound) (next : Nat) (awake : List SyncCall)
    (published : List Publication) : Prop where
  delivered : ∀k,Delivers published (rounds k)
  awake : ∀c∈awake,c.round<next ∧ c.generationId=(rounds c.round).generationId ∧ (rounds c.round).Over
  parked : ∀k,∀c∈(rounds k).waiters,c.round=k ∧ k<next ∧ c.generationId=(rounds k).generationId

section Heap

variable {rounds : Nat → SyncRound} {next : Nat} {awake : List SyncCall} {published : List Publication}
  (h : HeapSound rounds next awake published) {k : Nat} {r : SyncRound}

include h

theorem HeapSound.update (hk : k<next) (hgen : r.generationId=(rounds k).generationId)
    (hdel : Delivers published r)
    (hover : (rounds k).Over → r.Over) (hwait : ∀c∈r.waiters,c.round=k ∧ c.generationId=r.generationId)
    {woken : List SyncCall} (hwoken : ∀c∈woken,c.round=k ∧ c.generationId=r.generationId)
    (hgo : woken≠[] → r.Over) : HeapSound (Function.update rounds k r) next (awake++woken) published := by
  refine ⟨fun j => ?_,fun c hc => ?_,fun j c hc => ?_⟩
  · by_cases hj : j=k
    · rw [hj,Function.update_self]
      exact hdel
    · rw [Function.update_of_ne hj]
      exact h.delivered j
  · rcases List.mem_append.mp hc with hc|hc
    · obtain ⟨h1,h2,h3⟩ := h.awake c hc
      by_cases hj : c.round=k
      · rw [hj] at h2 h3 ⊢
        rw [Function.update_self]
        exact ⟨hk,h2.trans hgen.symm,hover h3⟩
      · rw [Function.update_of_ne hj]
        exact ⟨h1,h2,h3⟩
    · obtain ⟨h1,h2⟩ := hwoken c hc
      rw [h1,Function.update_self]
      exact ⟨hk,h2,hgo (List.ne_nil_of_mem hc)⟩
  · by_cases hj : j=k
    · rw [hj] at hc ⊢
      rw [Function.update_self] at hc ⊢
      obtain ⟨h1,h2⟩ := hwait c hc
      exact ⟨h1,hk,h2⟩
    · rw [Function.update_of_ne hj] at hc ⊢
      exact h.parked j c hc

theorem HeapSound.fresh (generation : Int) :
    HeapSound (Function.update rounds next {generationId := generation}) (next+1) awake published := by
  refine ⟨fun j => ?_,fun c hc => ?_,fun j c hc => ?_⟩
  · by_cases hj : j=next
    · rw [hj,Function.update_self]
      exact fun hd => by cases hd
    · rw [Function.update_of_ne hj]
      exact h.delivered j
  · obtain ⟨h1,h2,h3⟩ := h.awake c hc
    rw [Function.update_of_ne h1.ne]
    exact ⟨h1.trans (Nat.lt_succ_self next),h2,h3⟩
  · by_cases hj : j=next
    · rw [hj,Function.update_self] at hc
      cases hc
    · rw [Function.update_of_ne hj] at hc ⊢
      obtain ⟨h1,h2,h3⟩ := h.parked j c hc
      exact ⟨h1,h2.trans (Nat.lt_succ_self next),h3⟩

theorem HeapSound.publish (p : Publication) : HeapSound rounds next awake (published++[p]) := by
  refine ⟨fun j hd => ?_,h.awake,h.parked⟩
  obtain ⟨hc,q,hq,hrest⟩ := h.delivered j hd
  exact ⟨hc,q,List.mem_append_left _ hq,hrest⟩

end Heap

def Answered (published : List Publication) (s : SyncCall × SyncOutcome) : Prop :=
  s.2.errorCode=ErrorCode.none →
    ∃p∈published,p.generationId=s.1.generationId ∧ s.2.assignment=assignedTo p.assignments s.1.memberId

/-- The leader of a generation publishes once for it, in the round the generation was given. -/
structure RoundsSound (g : ConsumerGroup) : Prop where
  heap : HeapSound g.rounds g.nextRound g.awake g.published
  nonneg : 0≤g.generationId
  current : ∀k∈g.currentSync,k<g.nextRound ∧ (g.rounds k).generationId=g.generationId
  completing : g.state=.completingRebalance →
    (∀k∈g.currentSync,(g.rounds k).delivered=false ∧ (g.rounds k).canceled=false ∧ (g.rounds k).assignments=∅) ∧
    (∀p∈g.published,p.generationId<g.generationId) ∧
    ∃rb∈g.rebalances,rb.generationId=g.generationId ∧ rb.leader=g.leaderId
  stable : g.state=.stable → ∀k∈g.currentSync,(g.rounds k).delivered=true
  ordered : g.published.Pairwise (fun a b => a.generationId<b.generationId)
  past : ∀p∈g.published,p.generationId≤g.generationId
  byLeader : ∀p∈g.published,∃rb∈g.rebalances,rb.generationId=p.generationId ∧ rb.leader=p.leader
  synced : ∀s∈g.synced,Answered g.published s

theorem roundsSound_new : RoundsSound {} where
  heap := ⟨fun _ h => (by cases h),List.forall_mem_nil _,fun _ => List.forall_mem_nil _⟩
  nonneg := le_refl _
  current _ h := by cases h
  completing h := by cases h
  stable h := by cases h
  ordered := List.Pairwise.nil
  past := List.forall_mem_nil _
  byLeader := List.forall_mem_nil _
  synced := List.forall_mem_nil _

theorem RoundsSound.of_view {g h : ConsumerGroup} (r : RoundsSound g) (view : h.syncView=g.syncView)
    (state : h.state=g.state ∨ h.state≠.completingRebalance ∧ h.state≠.stable) : RoundsSound h := by
  simp only [ConsumerGroup.syncView,Prod.mk.injEq] at view
  obtain ⟨h1,h2,h3,h4,h5,h6,h7,h8,h9⟩ := view
  refine ⟨?_,h1 ▸ r.nonneg,?_,fun hs => ?_,fun hs => ?_,h6 ▸ r.ordered,?_,?_,?_⟩
  · rw [h3,h4,h5,h6]
    exact r.heap
  · rw [h1,h2,h3,h4]
    exact r.current
  · rw [h1,h2,h3,h6,h8,h9]
    exact r.completing (state.elim (fun he => he ▸ hs) (fun hn => absurd hs hn.1))
  · rw [h2,h3]
    exact r.stable (state.elim (fun he => he ▸ hs) (fun hn => absurd hs hn.2))
  · rw [h1,h6]
    exact r.past
  · rw [h6,h8]
    exact r.byLeader
  · rw [h6,h7]
    exact r.synced

theorem RoundsSound.same {g h : ConsumerGroup} (r : RoundsSound g) (view : h.syncView=g.syncView)
    (state : h.state=g.state) : RoundsSound h := r.of_view view (Or.inl state)

theorem RoundsSound.idle {g h : ConsumerGroup} (r : RoundsSound g) (view : h.syncView=g.syncView)
    (completing : h.state≠.completingRebalance) (stable : h.state≠.stable) : RoundsSound h :=
  r.of_view view (Or.inr ⟨completing,stable⟩)

section Steps

variable {g : ConsumerGroup} (r : RoundsSound g)

include r

theorem RoundsSound.takeSync : RoundsSound g.takeSync := by
  have hheap : HeapSound g.takeSync.rounds g.nextRound g.takeSync.awake g.published := by
    cases hc : g.currentSync with
    | none =>
      unfold ConsumerGroup.takeSync
      simp only [hc]
      exact r.heap
    | some k =>
      unfold ConsumerGroup.takeSync cancelSync
      simp only [hc]
      obtain ⟨hk,_⟩ := r.current k hc
      have hparked : ∀c∈(g.rounds k).waiters,c.round=k ∧ c.generationId=(g.rounds k).generationId := by
        intro c hmem
        obtain ⟨h1,_,h3⟩ := r.heap.parked k c hmem
        exact ⟨h1,h3⟩
      split_ifs with hover
      · exact r.heap.update hk rfl (r.heap.delivered k) id hparked (List.forall_mem_nil _)
          (fun hn => absurd rfl hn)
      · have hnot : (g.rounds k).delivered≠true := by
          intro hd
          rw [hd] at hover
          exact hover rfl
        exact r.heap.update (r := {g.rounds k with canceled := true, waiters := []}) hk rfl
          (fun hd => absurd hd hnot)
          (fun _ => Or.inr rfl) (List.forall_mem_nil _) hparked (fun _ => Or.inr rfl)
  exact ⟨hheap,r.nonneg,fun _ h => (by cases h),fun hs => ⟨fun _ h => (by cases h),(r.completing hs).2⟩,
    fun _ _ h => (by cases h),r.ordered,r.past,r.byLeader,r.synced⟩

theorem RoundsSound.completeRebalance (hlt : g.generationId<2^31-1) (early : Bool) :
    RoundsSound (g.completeRebalance early) := by
  have h0 := r.nonneg
  have hnext : wrapI32 (g.generationId+1)=g.generationId+1 := wrapI32_of_lt (by omega) (by omega)
  have hgen : (g.completeRebalance early).generationId=g.generationId+1 := hnext
  have hround : (g.completeRebalance early).rounds g.nextRound={generationId := wrapI32 (g.generationId+1)} :=
    Function.update_self ..
  have hcurrent {k : Nat} (hk : k∈(g.completeRebalance early).currentSync) : k=g.nextRound :=
    (Option.some.inj hk).symm
  refine ⟨r.heap.fresh _,?_,fun k hk => ?_,fun _ => ⟨fun k hk => ?_,fun p hp => ?_,?_⟩,
    fun hs => (by cases hs),r.ordered,
    fun p hp => ?_,fun p hp => ?_,r.synced⟩
  · rw [hgen]
    omega
  · rw [hcurrent hk,hround]
    exact ⟨Nat.lt_succ_self _,rfl⟩
  · rw [hcurrent hk,hround]
    exact ⟨rfl,rfl,rfl⟩
  · rw [hgen]
    have := r.past p hp
    omega
  · exact ⟨_,List.mem_append_right _ List.mem_cons_self,rfl,rfl⟩
  · rw [hgen]
    have := r.past p hp
    omega
  · obtain ⟨rb,hrb,hrest⟩ := r.byLeader p hp
    exact ⟨rb,List.mem_append_left _ hrb,hrest⟩

theorem RoundsSound.publish_current {k : Nat} (hk : k∈g.currentSync)
    (assignments : List SyncAssignment) : ∀j∈(g.publish k assignments).currentSync,
      (j<g.nextRound ∧ ((g.publish k assignments).rounds j).generationId=g.generationId) ∧
        ((g.publish k assignments).rounds j).delivered=true := by
  intro j hj
  obtain rfl : j=k := Option.some.inj (hj.symm.trans hk)
  obtain ⟨hlt,hgen⟩ := r.current j hk
  have hround : (g.publish j assignments).rounds j=publishedRound (g.rounds j) assignments g.members.keys :=
    Function.update_self ..
  rw [hround]
  exact ⟨⟨hlt,hgen⟩,rfl⟩

theorem RoundsSound.publish {k : Nat} (hk : k∈g.currentSync) (hs : g.state=.completingRebalance)
    (assignments : List SyncAssignment) : RoundsSound (g.publish k assignments) := by
  obtain ⟨hfresh,hbefore,rb,hrb,hrbg,hrbl⟩ := r.completing hs
  obtain ⟨_,hcanceled,hempty⟩ := hfresh k hk
  obtain ⟨hlt,hgen⟩ := r.current k hk
  have hpub : (g.publish k assignments).published=g.published++[⟨g.generationId,g.leaderId,
    assignments⟩] := if_pos hs
  have hmem : (⟨g.generationId,g.leaderId,assignments⟩ : Publication)∈(g.publish k assignments).published := by
    rw [hpub]
    exact List.mem_append_right _ List.mem_cons_self
  have hheap : HeapSound (g.publish k assignments).rounds g.nextRound
      (g.publish k assignments).awake (g.publish k assignments).published := by
    rw [hpub]
    refine (r.heap.publish _).update (r := publishedRound (g.rounds k) assignments g.members.keys) hlt rfl
      (fun _ => ⟨hcanceled,_,hpub ▸ hmem,hgen.symm,fun m => ?_⟩) (fun _ => Or.inl rfl) (List.forall_mem_nil _)
      (fun c hc => ?_) (fun _ => Or.inl rfl)
    · unfold publishedRound
      rw [readFor_store,hempty]
      rfl
    · obtain ⟨h1,_,h3⟩ := r.heap.parked k c hc
      exact ⟨h1,h3⟩
  refine ⟨hheap,r.nonneg,fun j hj => (r.publish_current hk assignments j hj).1,fun he => (by cases he),
    fun _ j hj => (r.publish_current hk assignments j hj).2,?_,fun p hp => ?_,fun p hp => ?_,fun s hmems => ?_⟩
  · rw [hpub]
    refine List.pairwise_append.mpr ⟨r.ordered,List.pairwise_singleton _ _,fun a ha b hb => ?_⟩
    rw [List.mem_singleton.mp hb]
    exact hbefore a ha
  · rw [hpub] at hp
    rcases List.mem_append.mp hp with hold|hnew
    · exact r.past p hold
    · rw [List.mem_singleton.mp hnew]
      exact le_refl _
  · rw [hpub] at hp
    rcases List.mem_append.mp hp with hold|hnew
    · exact r.byLeader p hold
    · rw [List.mem_singleton.mp hnew]
      exact ⟨rb,hrb,hrbg,hrbl⟩
  · intro hok
    obtain ⟨p,hp,hrest⟩ := r.synced s hmems hok
    refine ⟨p,?_,hrest⟩
    rw [hpub]
    exact List.mem_append_left _ hp

theorem RoundsSound.publish_again {k : Nat} (hk : k∈g.currentSync) (hs : g.state=.stable)
    {assignments : List SyncAssignment}
    (hsame : ∀a∈assignments,(g.rounds k).assignments.lookup a.memberId=some a.assignment) :
    RoundsSound (g.publish k assignments) := by
  obtain ⟨hlt,_⟩ := r.current k hk
  have hdel := r.stable hs k hk
  have hpub : (g.publish k assignments).published=g.published := if_neg (by rw [hs]; exact nofun)
  have hheap : HeapSound (g.publish k assignments).rounds g.nextRound
      (g.publish k assignments).awake (g.publish k assignments).published := by
    rw [hpub]
    refine r.heap.update (r := publishedRound (g.rounds k) assignments g.members.keys) hlt rfl (fun _ => ?_)
      (fun _ => Or.inl rfl) (List.forall_mem_nil _) (fun c hc => ?_) (fun _ => Or.inl rfl)
    · obtain ⟨hc,p,hp,hpg,hread⟩ := r.heap.delivered k hdel
      exact ⟨hc,p,hp,hpg,fun m => (readFor_store_same hsame _ m).trans (hread m)⟩
    · obtain ⟨h1,_,h3⟩ := r.heap.parked k c hc
      exact ⟨h1,h3⟩
  exact ⟨hheap,r.nonneg,fun j hj => (r.publish_current hk assignments j hj).1,fun he => (by cases he),
    fun _ j hj => (r.publish_current hk assignments j hj).2,hpub ▸ r.ordered,hpub ▸ r.past,hpub ▸ r.byLeader,
    hpub ▸ r.synced⟩

theorem RoundsSound.await {k : Nat} (hk : k∈g.currentSync) {call : SyncCall} (hround : call.round=k)
    (hcall : call.generationId=g.generationId) : RoundsSound (g.await k call) := by
  obtain ⟨hlt,hgen⟩ := r.current k hk
  unfold ConsumerGroup.await
  split_ifs with hover
  · refine ⟨⟨r.heap.delivered,fun c hc => ?_,r.heap.parked⟩,r.nonneg,r.current,r.completing,
      r.stable,r.ordered,r.past,r.byLeader,r.synced⟩
    rcases List.mem_append.mp hc with hold|hnew
    · exact r.heap.awake c hold
    · rw [List.mem_singleton.mp hnew,hround]
      exact ⟨hlt,hcall.trans hgen.symm,Bool.or_eq_true _ _ |>.mp hover⟩
  · have hwait : ∀c∈(g.rounds k).waiters++[call],c.round=k ∧ c.generationId=(g.rounds k).generationId := by
      intro c hc
      rcases List.mem_append.mp hc with hold|hnew
      · obtain ⟨h1,_,h3⟩ := r.heap.parked k c hold
        exact ⟨h1,h3⟩
      · rw [List.mem_singleton.mp hnew]
        exact ⟨hround,hcall.trans hgen.symm⟩
    have hheap := r.heap.update (r := {g.rounds k with waiters := (g.rounds k).waiters++[call]}) hlt rfl
      (r.heap.delivered k) id hwait (List.forall_mem_nil _) (fun hn => absurd rfl hn)
    rw [List.append_nil] at hheap
    -- everything but the waiters of the round is as it was
    have hfields (j : Nat) : ((Function.update g.rounds k
      {g.rounds k with waiters := (g.rounds k).waiters++[call]}) j).generationId=
        (g.rounds j).generationId ∧
        ((Function.update g.rounds k {g.rounds k with waiters := (g.rounds k).waiters++[call]})
          j).delivered=(g.rounds j).delivered ∧
        ((Function.update g.rounds k {g.rounds k with waiters := (g.rounds k).waiters++[call]})
          j).canceled=(g.rounds j).canceled ∧
        ((Function.update g.rounds k {g.rounds k with waiters := (g.rounds k).waiters++[call]}) j).assignments=
          (g.rounds j).assignments := by
      by_cases hj : j=k
      · rw [hj,Function.update_self]
        exact ⟨rfl,rfl,rfl,rfl⟩
      · rw [Function.update_of_ne hj]
        exact ⟨rfl,rfl,rfl,rfl⟩
    refine ⟨hheap,r.nonneg,fun j hj => ?_,fun hs => ⟨fun j hj => ?_,(r.completing hs).2⟩,
      fun hs j hj => ?_,r.ordered,r.past,
      r.byLeader,r.synced⟩
    · obtain ⟨h1,h2⟩ := r.current j hj
      exact ⟨h1,(hfields j).1.trans h2⟩
    · obtain ⟨h1,h2,h3⟩ := (r.completing hs).1 j hj
      exact ⟨(hfields j).2.1.trans h1,(hfields j).2.2.1.trans h2,(hfields j).2.2.2.trans h3⟩
    · exact (hfields j).2.1.trans (r.stable hs j hj)

theorem RoundsSound.finishSync (i : Nat) : RoundsSound (g.finishSync i) := by
  unfold ConsumerGroup.finishSync
  split
  · exact r
  · rename_i call hcall
    refine ⟨⟨r.heap.delivered,fun c hc => r.heap.awake c (List.mem_of_mem_eraseIdx hc),
      r.heap.parked⟩,r.nonneg,r.current,
      r.completing,r.stable,r.ordered,r.past,r.byLeader,fun s hs => ?_⟩
    rcases List.mem_append.mp hs with hold|hnew
    · exact r.synced s hold
    · rw [List.mem_singleton.mp hnew]
      intro hok
      obtain ⟨_,hgen,hover⟩ := r.heap.awake call (List.mem_of_getElem? hcall)
      unfold ConsumerGroup.syncOutcome at hok ⊢
      split_ifs at hok ⊢ with hcancel
      · cases hok
      · obtain ⟨_,p,hp,hpg,hread⟩ := r.heap.delivered _ (hover.resolve_right hcancel)
        exact ⟨p,hp,hpg.trans hgen.symm,hread call.memberId⟩

theorem RoundsSound.sync (req : SyncRequest) (hsame : g.state=.stable → req.memberId=g.leaderId →
    req.generationId=g.generationId → ∀k∈g.currentSync,∀a∈req.assignments,
        (g.rounds k).assignments.lookup a.memberId=some a.assignment) :
    RoundsSound (g.sync req).1 := by
  rcases ConsumerGroup.sync_cases g req with ⟨h,_⟩|⟨k,call,hc,hround,_,hstate,hcall,hgen,h⟩
  · rw [h]
    exact r
  · rw [h]
    split_ifs with hleader
    · have hpublished : RoundsSound (g.publish k req.assignments) := by
        rcases hstate with hcomp|hstable
        · exact r.publish hc hcomp req.assignments
        · exact r.publish_again hc hstable (hsame hstable hleader hgen k hc)
      exact hpublished.await hc hround hcall
    · exact r.await hc hround hcall

end Steps

/-- A sync of the leader in a stable group supplies what is stored, and the generation can still be
counted up. -/
def LeaderSettled (g : ConsumerGroup) : ConsumerOp → Prop
  | .sync req => g.state=.stable → req.memberId=g.leaderId → req.generationId=g.generationId →
      ∀k∈g.currentSync,∀a∈req.assignments,
        (g.rounds k).assignments.lookup a.memberId=some a.assignment
  | .join _ _ => g.generationId<2^31-1
  | .rebalanceTimer => g.generationId<2^31-1
  | .lateRebalance => g.generationId<2^31-1
  | _ => True

instance (g : ConsumerGroup) (op : ConsumerOp) : Decidable (LeaderSettled g op) :=
  match op with
  | .sync req => inferInstanceAs (Decidable (g.state=.stable → req.memberId=g.leaderId →
      req.generationId=g.generationId → ∀k∈g.currentSync,∀a∈req.assignments,
        (g.rounds k).assignments.lookup a.memberId=some a.assignment))
  | .join _ _ => inferInstanceAs (Decidable (g.generationId<2^31-1))
  | .rebalanceTimer => inferInstanceAs (Decidable (g.generationId<2^31-1))
  | .lateRebalance => inferInstanceAs (Decidable (g.generationId<2^31-1))
  | .finishSync _ | .heartbeat _ _ | .leave _ | .shutdown | .tick _ | .wakeRebalance
  | .wakeSession _ | .sessionTimer _ | .lateSession _ => .isTrue trivial

theorem roundsSound_invariant : SyncInvariant RoundsSound (fun generation => generation<2^31-1)
    (fun g req => LeaderSettled g (.sync req)) where
  same r := r.same
  idle r := r.idle
  takeSync r := r.takeSync
  complete r := r.completeRebalance
  sync r := r.sync
  finish r := r.finishSync

theorem LeaderSettled.countable {g : ConsumerGroup} {op : ConsumerOp} (ok : LeaderSettled g op)
    (hop : MayComplete op) : g.generationId<2^31-1 := by
  cases op with
  | join req n => exact ok
  | rebalanceTimer => exact ok
  | lateRebalance => exact ok
  | _ => cases hop

/-- In every run in which the leader of a stable group does not change its assignments and the
generation is below its bound, each generation is published at most once, by its leader, and every
success of a member carries what was published for it. -/
theorem sync_outcomes_agree {g : ConsumerGroup} (hrun : Reaches GroupStep LeaderSettled {} g) :
    g.published.Pairwise (fun a b => a.generationId<b.generationId) ∧
    (∀p∈g.published,∃rb∈g.rebalances,rb.generationId=p.generationId ∧ rb.leader=p.leader) ∧
    (∀s∈g.synced,s.2.errorCode=ErrorCode.none →
      ∃p∈g.published,p.generationId=s.1.generationId ∧ s.2.assignment=assignedTo p.assignments s.1.memberId) ∧
    ∀s∈g.synced,∀t∈g.synced,s.2.errorCode=ErrorCode.none → t.2.errorCode=ErrorCode.none →
      s.1.memberId=t.1.memberId → s.1.generationId=t.1.generationId → s.2.assignment=t.2.assignment := by
  have r := hrun.invariant roundsSound_new (fun t op u ih ok step => by
    obtain rfl := step
    exact roundsSound_invariant.exec ih ok.countable (fun _ he => he ▸ ok))
  refine ⟨r.ordered,r.byLeader,r.synced,fun s hs t ht hok hok' hm hg => ?_⟩
  obtain ⟨p,hp,hpg,hpa⟩ := r.synced s hs hok
  obtain ⟨q,hq,hqg,hqa⟩ := r.synced t ht hok'
  have hnodup : (g.published.map (·.generationId)).Nodup :=
    List.pairwise_map.mpr (r.ordered.imp (fun hlt => hlt.ne))
  have hsame := List.inj_on_of_nodup_map hnodup hp hq (hpg.trans (hg.trans hqg.symm))
  rw [hpa,hqa,hsame,hm]

theorem sync_outcomes_agree_retry : ∃g,Reaches GroupStep LeaderSettled {} g ∧ g.synced.length=3 ∧
    ∀s∈g.synced,s.2.errorCode=ErrorCode.none → ∃p∈g.published,p.generationId=s.1.generationId ∧
        s.2.assignment=assignedTo p.assignments s.1.memberId := by
  refine runChecked_finds_and (f := ConsumerGroup.exec) (fun _ _ => rfl)
    (twoMembers++[.sync ⟨"a",1,[⟨"a",[7]⟩]⟩,
    .sync ⟨"b",1,[]⟩,.finishSync 0,.finishSync 0,.finishSync 0]) (by decide +kernel)
    fun _ hreach _ => (sync_outcomes_agree hreach).2.2.1

/-- A second sync of the leader in the stable group replaces what a member has been told. -/
theorem leader_replaces_assignment : ∃g,Reaches GroupStep (fun _ _ => True) {} g ∧
    ∃s∈g.synced,∃t∈g.synced,s.2.errorCode=ErrorCode.none ∧ t.2.errorCode=ErrorCode.none ∧
      s.1.memberId=t.1.memberId ∧ s.1.generationId=t.1.generationId ∧ s.2.assignment≠t.2.assignment := by
  refine runChecked_finds (f := ConsumerGroup.exec) (fun _ _ => rfl) (twoMembers++[.sync ⟨"b",1,[]⟩,
    .finishSync 1,.sync ⟨"a",1,[⟨"b",[9]⟩]⟩,.sync ⟨"b",1,[]⟩,.finishSync 2]) ?_
  decide +kernel

end Kaas
