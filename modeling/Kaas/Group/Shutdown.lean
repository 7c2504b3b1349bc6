import Kaas.Group.Parked

namespace Kaas

/-! A group object after `shutdown`. -/

/-- Every parked join is the only one of a current member, and every parked sync waits in the
current round. -/
structure Settled (g : ConsumerGroup) : Prop where
  nodup : g.joinWaiters.Nodup
  current : ∀m∈g.joinWaiters,m∈g.members
  syncs : ∀k,(g.rounds k).waiters≠[] → g.currentSync=some k

structure Gone (g : ConsumerGroup) : Prop where
  dead : g.state=.dead
  members : ∀m,m∉g.members
  joins : g.joinWaiters=[]
  syncs : ∀k,(g.rounds k).waiters=[]

def NoMembership (_ : ConsumerGroup) : ConsumerOp → Prop
  | .join _ _ | .leave _ => False
  | _ => True

instance (g : ConsumerGroup) (op : ConsumerOp) : Decidable (NoMembership g op) :=
  match op with
  | .join _ _ | .leave _ => .isFalse id
  | .sync _ | .finishSync _ | .heartbeat _ _ | .shutdown | .tick
    _ | .wakeRebalance | .rebalanceTimer | .lateRebalance
  | .wakeSession _ | .sessionTimer _ | .lateSession _ => .isTrue trivial

theorem mem_waiters_removed_all (mids : List String) {g : ConsumerGroup} (h : g.joinWaiters.Nodup)
    (m : String) :
    m∈(mids.foldl ConsumerGroup.removeMember g).joinWaiters ↔ m∈g.joinWaiters ∧ m∉mids := by
  induction mids generalizing g with
  | nil => simp
  | cons mid mids ih =>
    have hw : (g.removeMember mid).joinWaiters=g.joinWaiters.erase mid := rfl
    rw [List.foldl_cons,ih (hw ▸ h.erase mid),hw,h.mem_erase_iff,List.mem_cons]
    tauto

theorem gone_shutdown {g : ConsumerGroup} (c : RoundsClosed g) (s : Settled g) : Gone g.shutdown := by
  obtain ⟨hview,_⟩ := syncView_removed_all g.members.keys g
  simp only [ConsumerGroup.syncView,Prod.mk.injEq] at hview
  obtain ⟨_,hsync,hrounds,_⟩ := hview
  refine ⟨rfl,fun m hm => AList.notMem_empty m hm,List.eq_nil_iff_forall_not_mem.mpr fun m hm => ?_,fun k => ?_⟩
  · obtain ⟨hw,hkeys⟩ := (mem_waiters_removed_all g.members.keys s.nodup m).mp hm
    exact hkeys (AList.mem_keys.mp (s.current m hw))
  · refine waiters_takeSync (g := (g.members.keys.foldl ConsumerGroup.removeMember g).abortRebalance)
      (c.of_rounds hrounds) fun hk => ?_
    change ((g.members.keys.foldl ConsumerGroup.removeMember g).rounds k).waiters≠[] at hk
    change (g.members.keys.foldl ConsumerGroup.removeMember g).currentSync=some k
    rw [hrounds] at hk
    rw [hsync]
    exact s.syncs k hk

section Gone

variable {g : ConsumerGroup} (x : Gone g)

include x

theorem Gone.settled : Settled g :=
  ⟨by rw [x.joins]; exact List.nodup_nil,by rw [x.joins]; exact List.forall_mem_nil _,fun k hk => absurd (x.syncs k) hk⟩

theorem Gone.sync (req : SyncRequest) : (g.sync req).1=g ∧ ∃o,(g.sync req).2=some o ∧
    o.errorCode≠ErrorCode.none := by
  rcases ConsumerGroup.sync_cases g req with h|⟨_,_,_,_,hm,_⟩
  · exact h
  · exact absurd hm (x.members _)

theorem Gone.heartbeat (mid : String) (generation : Int) :
    (g.heartbeat mid generation).1=g ∧ (g.heartbeat mid generation).2≠ErrorCode.none := by
  unfold ConsumerGroup.heartbeat
  rw [if_pos (Or.inr x.dead)]
  exact ⟨rfl,show ErrorCode.unknownMemberId≠ErrorCode.none by decide⟩

theorem Gone.join (req : JoinRequest) (n : Nat) : ∃o,(g.join req n).2=some o ∧ o.errorCode≠ErrorCode.none := by
  unfold ConsumerGroup.join
  simp only
  rw [if_pos x.dead]
  exact ⟨_,rfl,show ErrorCode.unknownMemberId≠ErrorCode.none by decide⟩

theorem Gone.leave (mids : List String) : ∀a∈(g.leave mids).2,a.2≠ErrorCode.none := by
  have hfold := List.foldlRecOn (motive := fun r : ConsumerGroup × List (String × Int) =>
    r.1=g ∧ ∀a∈r.2,a.2≠ErrorCode.none) mids ConsumerGroup.leaveOne (b := (g,[])) ⟨rfl,List.forall_mem_nil _⟩
    (fun r ih mid _ => by
      unfold ConsumerGroup.leaveOne
      rw [ih.1,if_neg (x.members mid)]
      refine ⟨rfl,fun a ha => ?_⟩
      rcases List.mem_append.mp ha with hold|hnew
      · exact ih.2 a hold
      · rw [List.mem_singleton.mp hnew]
        exact show ErrorCode.unknownMemberId≠ErrorCode.none by decide)
  exact hfold.2

theorem Gone.rebalanceExpired (early : Bool) (handle : Option Timer) (late : Nat) :
    Gone ({g with rebalanceHandle := handle, lateRebalances := late}.rebalanceExpired early) := by
  have hnot : g.state≠.preparingRebalance := by
    rw [x.dead]
    exact nofun
  unfold ConsumerGroup.rebalanceExpired
  rw [if_neg (fun h => hnot h.1)]
  exact ⟨x.dead,x.members,x.joins,x.syncs⟩

theorem gone_exec (c : RoundsClosed g) {op : ConsumerOp} (ok : NoMembership g op) : Gone (g.exec op) := by
  have hmodify (mid : String) (f : GroupMember → GroupMember) : ∀m,m∉g.members.modify mid f :=
    fun m hm => x.members m ((Members.mem_modify ..).mp hm)
  have hm := exec_move g op
  generalize g.exec op=h at hm ⊢
  cases hm with
  | idle => exact x
  | join req n => cases ok
  | leave mids => cases ok
  | sync req =>
    rw [(x.sync req).1]
    exact x
  | finishSync i =>
    unfold ConsumerGroup.finishSync
    split
    · exact x
    · exact ⟨x.dead,x.members,x.joins,x.syncs⟩
  | heartbeat mid generation => exact ⟨x.dead,hmodify _ _,x.joins,x.syncs⟩
  | shutdown => exact gone_shutdown c x.settled
  | tick ms | wakeRebalance => exact ⟨x.dead,x.members,x.joins,x.syncs⟩
  | rebalanceTimer => exact x.rebalanceExpired false _ g.lateRebalances
  | lateRebalance => exact x.rebalanceExpired true g.rebalanceHandle _
  | wakeSession mid => exact ⟨x.dead,hmodify _ _,x.joins,x.syncs⟩
  | sessionTimer mid =>
    unfold ConsumerGroup.sessionExpired
    rw [if_neg (hmodify _ _ mid)]
    exact ⟨x.dead,hmodify _ _,x.joins,x.syncs⟩
  | lateSession mid =>
    unfold ConsumerGroup.sessionExpired
    rw [if_neg (x.members mid)]
    exact ⟨x.dead,x.members,x.joins,x.syncs⟩

end Gone

/-- From every state whose parked requests are in place: after the shutdown, and as long as nobody
joins or leaves, the group stays dead and empty, and every request on it is answered with an
error. -/
theorem shutdown_is_final {g h : ConsumerGroup} (hrun : Reaches GroupStep (fun _ _ => True) {} g)
    (hs : Settled g) (hafter : Reaches GroupStep NoMembership g.shutdown h) :
    (h.state=.dead ∧ (∀m,m∉h.members) ∧ h.joinWaiters=[] ∧ ∀k,(h.rounds k).waiters=[]) ∧
    (∀req n,∃o,(h.join req n).2=some o ∧ o.errorCode≠ErrorCode.none) ∧
    (∀req,∃o,(h.sync req).2=some o ∧ o.errorCode≠ErrorCode.none) ∧
    (∀mid generation,(h.heartbeat mid generation).2≠ErrorCode.none) ∧
    ∀mids,∀a∈(h.leave mids).2,a.2≠ErrorCode.none := by
  have hclosed : RoundsClosed g := hrun.invariant (fun _ _ => rfl) (fun t op u ih _ step => by
    obtain rfl := step
    exact roundsClosed_invariant.exec ih (fun _ => trivial) (fun _ _ => trivial))
  have hkeep (t : ConsumerGroup) (op : ConsumerOp) (u : ConsumerGroup) (ih : RoundsClosed t ∧
      Gone t) (ok : NoMembership t op) (step : GroupStep t op u) : RoundsClosed u ∧ Gone u := by
    obtain rfl := step
    exact ⟨roundsClosed_invariant.exec ih.1 (fun _ => trivial) (fun _ _ => trivial),gone_exec ih.2 ih.1 ok⟩
  obtain ⟨_,x⟩ := hafter.invariant ⟨roundsClosed_invariant.shutdown hclosed,gone_shutdown hclosed hs⟩ hkeep
  exact ⟨⟨x.dead,x.members,x.joins,x.syncs⟩,x.join,fun req => (x.sync req).2,
    fun mid gen => (x.heartbeat mid gen).2,x.leave⟩

theorem shutdown_is_final_parked : ∃g h,Reaches GroupStep (fun _ _ => True) {} g ∧
    g.joinWaiters=["a"] ∧ Settled g ∧
    Reaches GroupStep NoMembership g.shutdown h ∧ h.state=.dead := by
  have hone : Reaches GroupStep (fun _ _ => True) {} (ConsumerGroup.exec {} (joinAs "a")) :=
    .next _ .start trivial rfl
  have hs : Settled (ConsumerGroup.exec {} (joinAs "a")) :=
    ⟨by decide +kernel,by decide +kernel,fun _ hk => absurd rfl hk⟩
  obtain ⟨h,hafter,_⟩ : ∃h,
    Reaches GroupStep NoMembership (ConsumerGroup.exec {} (joinAs "a")).shutdown h ∧ True := by
    refine runChecked_finds (f := ConsumerGroup.exec) (fun _ _ => rfl) [.heartbeat "a" 0,.sync ⟨"a",0,[]⟩] ?_
    decide +kernel
  exact ⟨_,h,hone,by decide +kernel,hs,hafter,(shutdown_is_final hone hs hafter).1.1⟩

/-- A LeaveGroup makes a dead group empty again. A JoinGroup on it is refused, but leaves a member
behind; when its session is over the group is empty, and the next members are let in. -/
theorem shutdown_is_undone :
    (∃h,Reaches GroupStep (fun _ _ => True) (ConsumerGroup.shutdown {}) h ∧ h.state=.empty ∧ h.joins=[]) ∧
    (∃h,Reaches GroupStep (fun _ _ => True) (ConsumerGroup.shutdown {}) h ∧ h.state=.dead ∧ "a"∈h.members) ∧
    ∃h,Reaches GroupStep (fun _ _ => True) (ConsumerGroup.shutdown {}) h ∧
      ∃o∈h.joins,o.errorCode=ErrorCode.none := by
  refine ⟨?_,?_,?_⟩
  · refine runChecked_finds (f := ConsumerGroup.exec) (fun _ _ => rfl) [.leave ["a"]] ?_
    decide +kernel
  · refine runChecked_finds (f := ConsumerGroup.exec) (fun _ _ => rfl) [joinAs "a"] ?_
    decide +kernel
  · refine runChecked_finds (f := ConsumerGroup.exec) (fun _ _ => rfl) [joinAs "a",.tick 30000,
      .wakeSession "a",.sessionTimer "a",joinAs "a",.tick 3000,.wakeRebalance,.rebalanceTimer] ?_
    decide +kernel

end Kaas
