import Kaas.Group.SyncRounds

namespace Kaas

/-! What a parked request waits for, and what becomes of it at a shutdown. -/

def RoundsClosed (g : ConsumerGroup) : Prop := ∀k,(g.rounds k).Over → (g.rounds k).waiters=[]

theorem RoundsClosed.of_rounds {g h : ConsumerGroup} (c : RoundsClosed g)
    (same : h.rounds=g.rounds) : RoundsClosed h := by
  intro k
  rw [same]
  exact c k

section Closed

variable {g : ConsumerGroup} (c : RoundsClosed g)

include c

theorem RoundsClosed.update {k : Nat} {r : SyncRound} (hr : r.Over → r.waiters=[]) :
    RoundsClosed {g with rounds := Function.update g.rounds k r} := by
  intro j hover
  change (Function.update g.rounds k r j).Over at hover
  change (Function.update g.rounds k r j).waiters=[]
  by_cases hj : j=k
  · rw [hj,Function.update_self] at hover ⊢
    exact hr hover
  · rw [Function.update_of_ne hj] at hover ⊢
    exact c j hover

theorem RoundsClosed.takeSync : RoundsClosed g.takeSync := by
  cases hc : g.currentSync with
  | none =>
    refine c.of_rounds ?_
    unfold ConsumerGroup.takeSync
    simp only [hc]
  | some k =>
    refine (c.update (k := k) (r := (cancelSync (g.rounds k)).1) ?_).of_rounds ?_
    · unfold cancelSync
      split_ifs
      · exact c k
      · exact fun _ => rfl
    · unfold ConsumerGroup.takeSync
      simp only [hc]

theorem waiters_takeSync {k : Nat} (hk : (g.rounds k).waiters≠[] → g.currentSync=some k) :
    (g.takeSync.rounds k).waiters=[] := by
  unfold ConsumerGroup.takeSync
  simp only
  cases hc : g.currentSync with
  | none =>
    by_contra hn
    rw [hc] at hk
    cases hk hn
  | some j =>
    simp only
    by_cases hj : k=j
    · rw [hj,Function.update_self]
      unfold cancelSync
      split_ifs with hover
      · exact c j (Bool.or_eq_true _ _ |>.mp hover)
      · rfl
    · rw [Function.update_of_ne hj]
      by_contra hn
      have := hk hn
      rw [hc] at this
      exact hj (Option.some.inj this).symm

theorem RoundsClosed.completeRebalance (early : Bool) : RoundsClosed (g.completeRebalance early) :=
  (c.update (k := g.nextRound) (r := {generationId := wrapI32 (g.generationId+1)}) (fun _ => rfl)).of_rounds rfl

theorem RoundsClosed.publish (k : Nat) (assignments : List SyncAssignment) :
    RoundsClosed (g.publish k assignments) :=
  (c.update (k := k) (r := publishedRound (g.rounds k) assignments g.members.keys) (fun _ => rfl)).of_rounds rfl

theorem RoundsClosed.await (k : Nat) (call : SyncCall) : RoundsClosed (g.await k call) := by
  unfold ConsumerGroup.await
  split_ifs with hover
  · exact c.of_rounds rfl
  · refine (c.update (k := k) (r := {g.rounds k with waiters := (g.rounds k).waiters++[call]})
      fun ho => ?_).of_rounds rfl
    exact absurd (Bool.or_eq_true _ _ |>.mpr ho) hover

theorem RoundsClosed.sync (req : SyncRequest) : RoundsClosed (g.sync req).1 := by
  rcases ConsumerGroup.sync_cases g req with ⟨h,_⟩|⟨k,call,_,_,_,_,_,_,h⟩
  · rw [h]
    exact c
  · rw [h]
    split_ifs
    · exact (c.publish k req.assignments).await k call
    · exact c.await k call

end Closed

theorem roundsClosed_invariant : SyncInvariant RoundsClosed (fun _ => True) (fun _ _ => True) where
  same c view _ := c.of_rounds (congrArg (fun v => v.2.2.1) view)
  idle c view _ _ := c.of_rounds (congrArg (fun v => v.2.2.1) view)
  takeSync c := c.takeSync
  complete c _ early := c.completeRebalance early
  sync c req _ := c.sync req
  finish c i := by
    unfold ConsumerGroup.finishSync
    split
    · exact c
    · exact c.of_rounds rfl

/-- Every parked request has an event that answers it: a join the armed timer of the rebalance that
is being prepared, a sync the leader of the generation whose round it waits in. -/
structure Pending (g : ConsumerGroup) : Prop where
  roster : Roster g
  closed : RoundsClosed g
  joins : g.joinWaiters≠[] → g.state=.preparingRebalance
  armed : g.state=.preparingRebalance → Timer.Armed g.rebalanceHandle
  syncs : ∀k,(g.rounds k).waiters≠[] → g.currentSync=some k ∧ g.state=.completingRebalance
  leader : g.state=.completingRebalance → g.leaderId∈g.members
  ended : g.state=.stable → ∀k∈g.currentSync,(g.rounds k).Over

/-- A JoinGroup finds no parked one of its member, the timer of a rebalance does not fire before
anybody has joined again, and the leader does not go while its members wait for its assignments. -/
def PendingOk (g : ConsumerGroup) : ConsumerOp → Prop
  | .join req n => memberIdOf req n∉g.joinWaiters
  | .rebalanceTimer => g.state=.preparingRebalance → g.joinWaiters≠[]
  | .leave mids => g.state=.completingRebalance → g.leaderId∉mids
  | .sessionTimer mid => g.state=.completingRebalance → mid≠g.leaderId
  | .lateSession mid => g.state=.completingRebalance → mid≠g.leaderId
  | _ => True

instance (g : ConsumerGroup) (op : ConsumerOp) : Decidable (PendingOk g op) :=
  match op with
  | .join req n => inferInstanceAs (Decidable (memberIdOf req n∉g.joinWaiters))
  | .rebalanceTimer => inferInstanceAs (Decidable (g.state=.preparingRebalance → g.joinWaiters≠[]))
  | .leave mids => inferInstanceAs (Decidable (g.state=.completingRebalance → g.leaderId∉mids))
  | .sessionTimer mid => inferInstanceAs (Decidable (g.state=.completingRebalance → mid≠g.leaderId))
  | .lateSession mid => inferInstanceAs (Decidable (g.state=.completingRebalance → mid≠g.leaderId))
  | .sync _ | .finishSync _ | .heartbeat _ _ | .shutdown | .tick _ | .wakeRebalance | .lateRebalance
  | .wakeSession _ => .isTrue trivial

theorem pending_new : Pending {} where
  roster := roster_new
  closed := fun _ _ => rfl
  joins h := absurd rfl h
  armed h := by cases h
  syncs _ h := absurd rfl h
  leader h := by cases h
  ended h := by cases h

def ConsumerGroup.waitView (g : ConsumerGroup) :=
  (g.state,g.rebalanceHandle,g.currentSync,g.rounds,g.leaderId)

theorem Timer.armed_wake {t : Option Timer} (h : Timer.Armed t) (now : Nat) :
    Timer.Armed (Timer.wake now t) := by
  cases t with
  | none => cases h
  | some t =>
    unfold Timer.Armed Timer.wake at *
    simp only [Option.map_some,Option.any_some] at h ⊢
    split_ifs
    · rfl
    · exact h

section Pending

variable {g : ConsumerGroup} (p : Pending g)

theorem pending_completed {t : ConsumerGroup} (r : Roster t) (c : RoundsClosed t) (hw : t.joinWaiters≠[])
    (hsyncs : ∀k,(t.rounds k).waiters=[]) (early : Bool) : Pending (t.completeRebalance early) := by
  refine ⟨ConsumerGroup.roster_completeRebalance r early,c.completeRebalance early,
    fun h => absurd rfl h,fun h => (by cases h),fun k hk => ?_,fun _ => ?_,fun h => (by cases h)⟩
  · refine absurd ?_ hk
    change (Function.update t.rounds t.nextRound _ k).waiters=[]
    by_cases hj : k=t.nextRound
    · rw [hj,Function.update_self]
    · rw [Function.update_of_ne hj]
      exact hsyncs k
  · obtain ⟨first,rest,hcons⟩ := List.exists_cons_of_ne_nil hw
    change t.joinWaiters.head?.getD t.leaderId∈t.members
    rw [hcons]
    exact r.current first (hcons ▸ List.mem_cons_self)

theorem Pending.of_view {h : ConsumerGroup} (p : Pending g) (r : Roster h)
    (view : h.waitView=g.waitView) (waiters : h.joinWaiters≠[] → g.joinWaiters≠[])
    (members : g.state=.completingRebalance → g.leaderId∈g.members → g.leaderId∈h.members) : Pending h := by
  simp only [ConsumerGroup.waitView,Prod.mk.injEq] at view
  obtain ⟨h1,h2,h3,h4,h5⟩ := view
  refine ⟨r,p.closed.of_rounds h4,fun hw => ?_,?_,?_,?_,?_⟩
  · rw [h1]
    exact p.joins (waiters hw)
  · rw [h1,h2]
    exact p.armed
  · rw [h1,h3,h4]
    exact p.syncs
  · rw [h1,h5]
    exact fun hs => members hs (p.leader hs)
  · rw [h1,h3,h4]
    exact p.ended

include p

theorem Pending.no_syncs (h : g.state≠.completingRebalance) (k : Nat) : (g.rounds k).waiters=[] := by
  by_contra hn
  exact h (p.syncs k hn).2

theorem Pending.removeMember {mid : String} (h : g.state=.completingRebalance → mid≠g.leaderId) :
    Pending (g.removeMember mid) := by
  refine p.of_view (ConsumerGroup.roster_removeMember p.roster mid) rfl (fun hw hn => hw ?_) (fun hs hl => ?_)
  · change g.joinWaiters.erase mid=[]
    rw [hn]
    rfl
  · exact show g.leaderId∈g.members.erase mid from AList.mem_erase.mpr ⟨(h hs).symm,hl⟩

theorem Pending.afterRemoval : Pending g.afterRemoval := by
  have hr := (ConsumerGroup.afterRemoval_keeps p.roster).1
  have hc : RoundsClosed g.afterRemoval := roundsClosed_invariant.afterRemoval p.closed
  unfold ConsumerGroup.afterRemoval at hr hc ⊢
  split_ifs at hr hc ⊢ with hempty hstable
  · have hnone (m : String) : m∉g.members := fun hm => by
      have := AList.mem_keys.mp hm
      rw [hempty] at this
      cases this
    refine ⟨hr,hc,fun hw => ?_,fun h => (by cases h),fun k hk => ?_,fun h => (by cases h),fun h => (by cases h)⟩
    · obtain ⟨m,hm⟩ := List.exists_mem_of_ne_nil _ hw
      exact absurd (p.roster.current m hm) (hnone m)
    · exact absurd (p.leader (p.syncs k hk).2) (hnone _)
  · refine ⟨hr,hc,fun _ => rfl,fun _ => rfl,fun k hk => ?_,fun h => (by cases h),fun h => (by cases h)⟩
    exact absurd (p.no_syncs (by rw [hstable]; exact nofun) k) hk
  · exact p

theorem Pending.leave {mids : List String} (h : g.state=.completingRebalance → g.leaderId∉mids) :
    Pending (g.leave mids).1 := by
  apply Pending.afterRemoval
  rw [ConsumerGroup.leaveOne_fold]
  have hfold := List.foldlRecOn
    (motive := fun t : ConsumerGroup => Pending t ∧ t.state=g.state ∧ t.leaderId=g.leaderId) mids
    (fun g mid => if mid∈g.members then g.removeMember mid else g) ⟨p,rfl,rfl⟩ (fun t ih mid hmid => by
      split_ifs
      · refine ⟨ih.1.removeMember fun hs he => ?_,ih.2⟩
        rw [ih.2.1] at hs
        rw [ih.2.2] at he
        exact h hs (he ▸ hmid)
      · exact ih)
  exact hfold.1

theorem Pending.sessionExpired {mid : String} (h : g.state=.completingRebalance → mid≠g.leaderId) :
    Pending (g.sessionExpired mid) := by
  unfold ConsumerGroup.sessionExpired
  split_ifs
  · exact (p.removeMember h).afterRemoval
  · exact p

theorem Pending.shutdown : Pending g.shutdown := by
  obtain ⟨hr,_,hw⟩ := ConsumerGroup.shutdown_keeps p.roster
  have hc := roundsClosed_invariant.shutdown p.closed
  obtain ⟨hview,_⟩ := syncView_removed_all g.members.keys g
  simp only [ConsumerGroup.syncView,Prod.mk.injEq] at hview
  obtain ⟨_,hsync,hrounds,_⟩ := hview
  have hgone : RoundsClosed (g.members.keys.foldl ConsumerGroup.removeMember g).abortRebalance :=
    p.closed.of_rounds hrounds
  have hnone (k : Nat) : (g.shutdown.rounds k).waiters=[] := by
    refine waiters_takeSync hgone fun hk => ?_
    change (g.members.keys.foldl ConsumerGroup.removeMember g).currentSync=some k
    change ((g.members.keys.foldl ConsumerGroup.removeMember g).rounds k).waiters≠[] at hk
    rw [hrounds] at hk
    rw [hsync]
    exact (p.syncs k hk).1
  exact ⟨hr,hc,fun h => absurd hw h,fun h => (by cases h),fun k hk => absurd (hnone k) hk,fun h => (by cases h),
    fun h => (by cases h)⟩

theorem Pending.rebalanceExpired (early : Bool) (handle : Option Timer) (late : Nat)
    (h : g.joinWaiters=[] → g.state=.preparingRebalance → Timer.Armed handle) :
    Pending ({g with rebalanceHandle := handle, lateRebalances := late}.rebalanceExpired early) := by
  have hr : Roster {g with rebalanceHandle := handle, lateRebalances := late} := p.roster.of_roll rfl
  unfold ConsumerGroup.rebalanceExpired
  split_ifs with hcond
  · obtain ⟨he,_,hw⟩ := ConsumerGroup.evicted hr
    have hrounds : (ConsumerGroup.evictNonRejoiningMembers
        {g with rebalanceHandle := handle, lateRebalances := late}).rounds=g.rounds := by
      unfold ConsumerGroup.evictNonRejoiningMembers
      split_ifs
      · rfl
      · exact congrArg (fun v => v.2.2.1) (syncView_removed_all _ _).1
    refine pending_completed he (p.closed.of_rounds hrounds) (by rw [hw]; exact hcond.2) (fun k => ?_) early
    rw [hrounds]
    exact p.no_syncs (by rw [show g.state=_ from hcond.1]; exact nofun) k
  · refine ⟨hr,p.closed.of_rounds rfl,p.joins,fun hs => h ?_ hs,p.syncs,p.leader,p.ended⟩
    by_contra hn
    exact hcond ⟨hs,hn⟩

theorem Pending.beginRebalance (isNew : Bool) (h : g.state≠.dead) :
    Pending (g.beginRebalance isNew) ∧ (g.beginRebalance isNew).state=.preparingRebalance := by
  have hstarted : RoundsClosed ({g with state := .preparingRebalance}.startRebalanceTimer false) :=
    p.closed.of_rounds rfl
  have hcanceled (k : Nat) :
      ((({g with state := .preparingRebalance}.startRebalanceTimer false).takeSync).rounds k).waiters=[] :=
    waiters_takeSync hstarted (fun hk => (p.syncs k hk).1)
  unfold ConsumerGroup.beginRebalance
  split
  · rename_i hs
    refine ⟨⟨p.roster.of_roll rfl,p.closed.of_rounds rfl,fun _ => rfl,fun _ => rfl,fun k hk => ?_,
      fun he => (by cases he),
      fun he => (by cases he)⟩,rfl⟩
    exact absurd (p.no_syncs (by rw [hs]; exact nofun) k) hk
  · exact ⟨⟨p.roster.of_roll rfl,hstarted.takeSync,fun _ => rfl,fun _ => rfl,
      fun k hk => absurd (hcanceled k) hk,fun he => (by cases he),fun he => (by cases he)⟩,rfl⟩
  · exact ⟨⟨p.roster.of_roll rfl,hstarted.takeSync,fun _ => rfl,fun _ => rfl,
      fun k hk => absurd (hcanceled k) hk,fun he => (by cases he),fun he => (by cases he)⟩,rfl⟩
  · rename_i hs
    split_ifs
    · exact ⟨⟨p.roster.of_roll rfl,p.closed.of_rounds rfl,p.joins,fun _ => rfl,p.syncs,p.leader,p.ended⟩,hs⟩
    · exact ⟨p,hs⟩
  · rename_i hs
    exact absurd hs h

theorem Pending.join {req : JoinRequest} {n : Nat} (ok : memberIdOf req n∉g.joinWaiters) :
    Pending (g.join req n).1 := by
  have hr := ConsumerGroup.roster_resetHeartbeatTimer
    (ConsumerGroup.roster_upsert p.roster (memberIdOf req n) req) (memberIdOf req n)
  have henrolled : Pending ((g.upsert (memberIdOf req n) req).resetHeartbeatTimer (memberIdOf req n)) :=
    p.of_view hr rfl id (fun _ hl => (Members.mem_modify ..).mpr ((AList.mem_insert _).mpr (Or.inr hl)))
  unfold ConsumerGroup.join
  simp only
  split_ifs with hdead
  · exact henrolled
  · obtain ⟨hbegun,hstate⟩ := henrolled.beginRebalance (decide (memberIdOf req n∉g.members)) hdead
    have hparked := ConsumerGroup.roster_joined p.roster req (decide (memberIdOf req n∉g.members)) ok
    have hwait : Pending {((g.upsert (memberIdOf req n) req).resetHeartbeatTimer (memberIdOf req n)).beginRebalance
        (decide (memberIdOf req n∉g.members)) with joinWaiters := _} :=
      ⟨hparked,hbegun.closed.of_rounds rfl,fun _ => hstate,hbegun.armed,hbegun.syncs,hbegun.leader,hbegun.ended⟩
    unfold ConsumerGroup.park ConsumerGroup.maybeCompleteRebalance
    split_ifs
    · exact hwait
    · refine pending_completed hparked hwait.closed
        (List.append_ne_nil_of_right_ne_nil _ (List.cons_ne_nil _ _)) ?_ true
      exact hwait.no_syncs (by rw [hstate]; exact nofun)
    · exact hwait

theorem Pending.publish {k : Nat} (hk : g.currentSync=some k) (assignments : List SyncAssignment)
    (h : g.state=.completingRebalance ∨ g.state=.stable) : Pending (g.publish k assignments) := by
  have hround : (g.publish k assignments).rounds k=publishedRound (g.rounds k) assignments g.members.keys :=
    Function.update_self ..
  refine ⟨p.roster.of_roll rfl,p.closed.publish k assignments,fun hw => ?_,fun hs => (by cases hs),
    fun j hj => ?_,
    fun hs => (by cases hs),fun _ j hj => ?_⟩
  · have hs := p.joins hw
    rcases h with h|h
    · rw [h] at hs
      cases hs
    · rw [h] at hs
      cases hs
  · by_cases hjk : j=k
    · rw [hjk,hround] at hj
      exact absurd rfl hj
    · have hold : (g.publish k assignments).rounds j=g.rounds j := Function.update_of_ne hjk ..
      rw [hold] at hj
      have := (p.syncs j hj).1
      rw [hk] at this
      exact absurd (Option.some.inj this).symm hjk
  · obtain rfl : k=j := Option.some.inj (hk.symm.trans hj)
    rw [hround]
    exact Or.inl rfl

theorem Pending.await {k : Nat} (hk : g.currentSync=some k) (call : SyncCall)
    (h : g.state=.completingRebalance ∨ g.state=.stable) : Pending (g.await k call) := by
  have hc := p.closed.await k call
  unfold ConsumerGroup.await at hc ⊢
  split_ifs at hc ⊢ with hover
  · exact p.of_view (p.roster.of_roll rfl) rfl id (fun _ hl => hl)
  · have hs : g.state=.completingRebalance := by
      refine h.resolve_right fun hstable => hover ?_
      exact (Bool.or_eq_true _ _).mpr (p.ended hstable k hk)
    refine ⟨p.roster.of_roll rfl,hc,p.joins,p.armed,fun j hj => ?_,p.leader,fun hstable => ?_⟩
    · by_cases hjk : j=k
      · rw [hjk]
        exact ⟨hk,hs⟩
      · change (Function.update g.rounds k _ j).waiters≠[] at hj
        rw [Function.update_of_ne hjk] at hj
        exact p.syncs j hj
    · rw [show g.state=_ from hstable] at hs
      cases hs

theorem Pending.sync (req : SyncRequest) : Pending (g.sync req).1 := by
  rcases ConsumerGroup.sync_cases g req with ⟨h,_⟩|⟨k,call,hk,_,_,hstate,_,_,h⟩
  · rw [h]
    exact p
  · rw [h]
    split_ifs
    · exact (p.publish hk req.assignments hstate).await hk call (Or.inr rfl)
    · exact p.await hk call hstate

theorem pending_exec {op : ConsumerOp} (ok : PendingOk g op) : Pending (g.exec op) := by
  have hm := exec_move g op
  generalize g.exec op=h at hm ⊢
  cases hm with
  | idle => exact p
  | join req n => exact p.join ok
  | sync req => exact p.sync req
  | finishSync i =>
    unfold ConsumerGroup.finishSync
    split
    · exact p
    · exact p.of_view (p.roster.of_roll rfl) rfl id (fun _ hl => hl)
  | heartbeat mid generation =>
    exact p.of_view (ConsumerGroup.roster_resetHeartbeatTimer p.roster mid) rfl id
      (fun _ hl => (Members.mem_modify ..).mpr hl)
  | leave mids => exact p.leave ok
  | shutdown => exact p.shutdown
  | tick ms => exact p.of_view (p.roster.of_roll rfl) rfl id (fun _ hl => hl)
  | wakeRebalance =>
    refine ⟨p.roster.of_roll rfl,p.closed.of_rounds rfl,p.joins,fun hs => ?_,p.syncs,p.leader,p.ended⟩
    exact Timer.armed_wake (p.armed hs) g.now
  | rebalanceTimer => exact p.rebalanceExpired false _ g.lateRebalances (fun hw hs => absurd hw (ok hs))
  | lateRebalance => exact p.rebalanceExpired true g.rebalanceHandle _ (fun _ hs => p.armed hs)
  | wakeSession mid =>
    exact p.of_view (ConsumerGroup.roster_session p.roster mid _ _) rfl id
      (fun _ hl => (Members.mem_modify ..).mpr hl)
  | sessionTimer mid =>
    apply Pending.sessionExpired
    · exact p.of_view (ConsumerGroup.roster_session p.roster mid _ _) rfl id
        (fun _ hl => (Members.mem_modify ..).mpr hl)
    · exact ok
  | lateSession mid =>
    apply Pending.sessionExpired
    · exact p.of_view (p.roster.of_roll rfl) rfl id (fun _ hl => hl)
    · exact ok

end Pending

/-- In every run in which no member joins while its JoinGroup is parked, no timer fires with nobody
parked and no leader goes while its assignments are awaited: a parked join has an armed timer, and a
parked sync waits in the current round for a leader that is still a member. -/
theorem no_request_stranded {g : ConsumerGroup} (hrun : Reaches GroupStep PendingOk {} g) :
    (g.joinWaiters≠[] → g.state=.preparingRebalance ∧ Timer.Armed g.rebalanceHandle) ∧
    ∀k,(g.rounds k).waiters≠[] → g.currentSync=some k ∧ g.leaderId∈g.members := by
  have p := hrun.invariant pending_new (fun t op u ih ok step => by
    obtain rfl := step
    exact pending_exec ih ok)
  refine ⟨fun hw => ⟨p.joins hw,p.armed (p.joins hw)⟩,fun k hk => ?_⟩
  obtain ⟨hsync,hs⟩ := p.syncs k hk
  exact ⟨hsync,p.leader hs⟩

theorem no_request_stranded_waiting :
    (∃g,Reaches GroupStep PendingOk {} g ∧ (g.rounds 0).waiters≠[] ∧ g.currentSync=some 0 ∧
      g.leaderId∈g.members) ∧
    ∃g,Reaches GroupStep PendingOk {} g ∧ g.joinWaiters≠[] ∧ Timer.Armed g.rebalanceHandle := by
  refine ⟨?_,?_⟩
  · obtain ⟨g,hreach,hw⟩ : ∃g,Reaches GroupStep PendingOk {} g ∧ (g.rounds 0).waiters≠[] := by
      refine runChecked_finds (f := ConsumerGroup.exec) (fun _ _ => rfl)
        [joinAs "a",joinAs "b",.tick 3000,.wakeRebalance,.rebalanceTimer,.sync ⟨"b",1,[]⟩] ?_
      decide +kernel
    exact ⟨g,hreach,hw,(no_request_stranded hreach).2 0 hw⟩
  · obtain ⟨g,hreach,hw⟩ : ∃g,Reaches GroupStep PendingOk {} g ∧ g.joinWaiters≠[] := by
      refine runChecked_finds (f := ConsumerGroup.exec) (fun _ _ => rfl) (twoMembers++[joinAs "b"]) ?_
      decide +kernel
    exact ⟨g,hreach,hw,((no_request_stranded hreach).1 hw).2⟩

def threeMembers : List ConsumerOp :=
  [joinAs "a",joinAs "b",joinAs "c",.tick 3000,.wakeRebalance,.rebalanceTimer,.sync ⟨"a",1,[]⟩]

/-- A timer that fires before anybody has joined again leaves the next join parked without one. And
a leader that leaves after the rebalance strands the sync that waits for it, over the next rebalance
as well. -/
theorem stranded_requests :
    (∃g,Reaches GroupStep (fun _ _ => True) {} g ∧ g.state=.preparingRebalance ∧ g.joinWaiters≠[] ∧
      ¬Timer.Armed g.rebalanceHandle) ∧
    (∃g,Reaches GroupStep (fun _ _ => True) {} g ∧ (g.rounds 0).waiters≠[] ∧ g.leaderId∉g.members) ∧
    ∃g,Reaches GroupStep (fun _ _ => True) {} g ∧ (g.rounds 0).waiters≠[] ∧ g.currentSync≠some 0 := by
  refine ⟨?_,?_,?_⟩
  · refine runChecked_finds (f := ConsumerGroup.exec) (fun _ _ => rfl)
      (threeMembers++[.leave ["c"],.tick 30000,.wakeRebalance,.rebalanceTimer,joinAs "a"]) ?_
    decide +kernel
  · refine runChecked_finds (f := ConsumerGroup.exec) (fun _ _ => rfl) [joinAs "a",joinAs "b",
      .tick 3000,.wakeRebalance,.rebalanceTimer,.sync ⟨"b",1,[]⟩,.leave ["a"]] ?_
    decide +kernel
  · refine runChecked_finds (f := ConsumerGroup.exec) (fun _ _ => rfl) [joinAs "a",joinAs "b",
      .tick 3000,.wakeRebalance,.rebalanceTimer,.sync ⟨"b",1,[]⟩,.leave ["a","b"],joinAs "a"] ?_
    decide +kernel

end Kaas
