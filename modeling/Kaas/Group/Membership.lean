import Kaas.Group.Rebalance

namespace Kaas

theorem Members.mem_modify (members : Members) (mid m : String) (f : GroupMember → GroupMember) :
    m∈members.modify mid f ↔ m∈members := by
  unfold Members.modify
  cases h : members.lookup mid with
  | none => rfl
  | some mem =>
    rw [AList.mem_insert]
    refine ⟨fun hm => hm.elim (fun he => ?_) id,Or.inr⟩
    rw [he]
    exact AList.lookup_isSome.mp (by rw [h]; rfl)

theorem Members.lookup_modify {members : Members} {mid m : String} {f : GroupMember → GroupMember}
    {mem : GroupMember}
    (h : (members.modify mid f).lookup m=some mem) : ∃old,members.lookup m=some old ∧
    (mem=old ∨ mem=f old) := by
  unfold Members.modify at h
  cases hl : members.lookup mid with
  | none =>
    rw [hl] at h
    exact ⟨mem,h,Or.inl rfl⟩
  | some old =>
    rw [hl] at h
    by_cases hm : m=mid
    · subst hm
      simp only [AList.lookup_insert] at h
      exact ⟨old,hl,Or.inr (Option.some.inj h).symm⟩
    · simp only [AList.lookup_insert_ne hm] at h
      exact ⟨mem,h,Or.inl rfl⟩

def ConsumerGroup.roll (g : ConsumerGroup) : List String × Members × (String → Option JoinRequest) :=
  (g.joinWaiters,g.members,g.latest)

def ConsumerGroup.ledger (g : ConsumerGroup) : Int × List Rebalance × String × List JoinOutcome :=
  (g.generationId,g.rebalances,g.leaderId,g.joins)

/-- Every parked join is the only one of a current member, and a member is as its latest JoinGroup
has it. -/
structure Roster (g : ConsumerGroup) : Prop where
  nodup : g.joinWaiters.Nodup
  current : ∀m∈g.joinWaiters,m∈g.members
  enrolled : ∀m mem,g.members.lookup m=some mem →
    ∃req,g.latest m=some req ∧ mem.protocols=req.protocols ∧ mem.groupInstanceId=req.groupInstanceId

theorem Roster.of_roll {g h : ConsumerGroup} (r : Roster g) (same : h.roll=g.roll) : Roster h := by
  obtain ⟨hw,hrest⟩ := Prod.mk.inj same
  obtain ⟨hm,hl⟩ := Prod.mk.inj hrest
  refine ⟨hw ▸ r.nodup,?_,?_⟩
  · rw [hw,hm]
    exact r.current
  · rw [hm,hl]
    exact r.enrolled

/-- No rebalance has completed in between; who was answered has got an error. -/
structure Uncompleted (g h : ConsumerGroup) : Prop where
  generation : h.generationId=g.generationId
  rebalances : h.rebalances=g.rebalances
  leader : h.leaderId=g.leaderId
  refused : ∃es,h.joins=g.joins++es ∧ ∀o∈es,o.errorCode≠ErrorCode.none

theorem Uncompleted.of_ledger {g h : ConsumerGroup} (same : h.ledger=g.ledger) : Uncompleted g h := by
  obtain ⟨hg,hrest⟩ := Prod.mk.inj same
  obtain ⟨hr,hrest⟩ := Prod.mk.inj hrest
  obtain ⟨hl,hj⟩ := Prod.mk.inj hrest
  exact ⟨hg,hr,hl,[],by rw [hj,List.append_nil],List.forall_mem_nil _⟩

theorem Uncompleted.trans {g h i : ConsumerGroup} (a : Uncompleted g h) (b : Uncompleted h i) :
    Uncompleted g i := by
  obtain ⟨es,hes,herr⟩ := a.refused
  obtain ⟨fs,hfs,hferr⟩ := b.refused
  refine ⟨b.generation.trans a.generation,b.rebalances.trans a.rebalances,b.leader.trans a.leader,es++fs,?_,?_⟩
  · rw [hfs,hes,List.append_assoc]
  · exact fun o ho => (List.mem_append.mp ho).elim (herr o) (hferr o)

def SoloJoin (g : ConsumerGroup) : ConsumerOp → Prop
  | .join req n => memberIdOf req n∉g.joinWaiters
  | _ => True

namespace ConsumerGroup

variable {g : ConsumerGroup}

theorem uncompleted_removeMember (g : ConsumerGroup) (mid : String) : Uncompleted g (g.removeMember mid) := by
  refine ⟨rfl,rfl,rfl,if mid∈g.joinWaiters then [unknownMember mid] else [],?_,?_⟩
  · unfold removeMember
    split_ifs
    · rfl
    · exact (List.append_nil _).symm
  · intro o ho
    split_ifs at ho
    · rw [List.mem_singleton.mp ho]
      exact show ErrorCode.unknownMemberId≠ErrorCode.none by decide
    · cases ho

theorem roster_removeMember (h : Roster g) (mid : String) : Roster (g.removeMember mid) := by
  refine ⟨h.nodup.erase mid,fun m hm => ?_,fun m mem hl => ?_⟩
  · obtain ⟨hne,hw⟩ := h.nodup.mem_erase_iff.mp hm
    exact show m∈g.members.erase mid from AList.mem_erase.mpr ⟨hne,h.current m hw⟩
  · have hne : m≠mid := by
      rintro rfl
      rw [show (g.removeMember m).members=g.members.erase m from rfl,AList.lookup_erase] at hl
      cases hl
    rw [show (g.removeMember mid).members=g.members.erase mid from rfl,AList.lookup_erase_ne hne] at hl
    exact h.enrolled m mem hl

theorem removed_all (mids : List String) {g : ConsumerGroup} (h : Roster g) :
    Roster (mids.foldl removeMember g) ∧ Uncompleted g (mids.foldl removeMember g) := by
  refine List.foldlRecOn (motive := fun t => Roster t ∧ Uncompleted g t) mids removeMember
    ⟨h,.of_ledger rfl⟩ (fun h ih mid _ => ?_)
  exact ⟨roster_removeMember ih.1 mid,ih.2.trans (uncompleted_removeMember h mid)⟩

theorem mem_removed_all (mids : List String) (g : ConsumerGroup) (m : String) :
    m∈(mids.foldl removeMember g).members ↔ m∈g.members ∧ m∉mids := by
  induction mids generalizing g with
  | nil => simp
  | cons mid mids ih =>
    rw [List.foldl_cons,ih]
    have hmem : m∈(g.removeMember mid).members ↔ m≠mid ∧ m∈g.members := AList.mem_erase
    rw [hmem,List.mem_cons]
    tauto

theorem waiters_removed_all {mids : List String} {g : ConsumerGroup}
    (h : ∀mid∈mids,mid∉g.joinWaiters) : (mids.foldl removeMember g).joinWaiters=g.joinWaiters := by
  induction mids generalizing g with
  | nil => rfl
  | cons mid mids ih =>
    have hsame : (g.removeMember mid).joinWaiters=g.joinWaiters :=
      List.erase_of_not_mem (h mid List.mem_cons_self)
    rw [List.foldl_cons,ih,hsame]
    intro m hm
    rw [hsame]
    exact h m (List.mem_cons_of_mem mid hm)

theorem afterRemoval_keeps (h : Roster g) : Roster g.afterRemoval ∧ Uncompleted g g.afterRemoval := by
  unfold afterRemoval
  split_ifs
  · exact ⟨h.of_roll rfl,.of_ledger rfl⟩
  · exact ⟨h.of_roll rfl,.of_ledger rfl⟩
  · exact ⟨h,.of_ledger rfl⟩

theorem leaveOne_fold (mids : List String) (g : ConsumerGroup) (out : List (String × Int)) :
    (mids.foldl leaveOne (g,out)).1=(mids.foldl
      (fun g mid => if mid∈g.members then g.removeMember mid else g) g) := by
  induction mids generalizing g out with
  | nil => rfl
  | cons mid mids ih =>
    rw [List.foldl_cons,List.foldl_cons]
    unfold leaveOne
    split_ifs
    · exact ih _ _
    · exact ih _ _

theorem leave_keeps (h : Roster g) (mids : List String) : Roster (g.leave mids).1 ∧
    Uncompleted g (g.leave mids).1 := by
  have hfold : Roster (mids.foldl leaveOne (g,[])).1 ∧ Uncompleted g (mids.foldl leaveOne (g,[])).1 := by
    rw [leaveOne_fold]
    refine List.foldlRecOn (motive := fun t => Roster t ∧ Uncompleted g t) mids _ ⟨h,.of_ledger rfl⟩
      (fun t ih mid _ => ?_)
    split_ifs
    · exact ⟨roster_removeMember ih.1 mid,ih.2.trans (uncompleted_removeMember t mid)⟩
    · exact ih
  have hafter := afterRemoval_keeps hfold.1
  exact ⟨hafter.1,hfold.2.trans hafter.2⟩

theorem shutdown_keeps (h : Roster g) :
    Roster g.shutdown ∧ Uncompleted g g.shutdown ∧ g.shutdown.joinWaiters=[] := by
  obtain ⟨hr,hu⟩ := removed_all g.members.keys h
  have hnone (m : String) : m∉(g.members.keys.foldl removeMember g).members := by
    rw [mem_removed_all]
    exact fun hm => hm.2 (AList.mem_keys.mp hm.1)
  have hwait : (g.members.keys.foldl removeMember g).joinWaiters=[] :=
    List.eq_nil_iff_forall_not_mem.mpr (fun m hm => hnone m (hr.current m hm))
  have hw : g.shutdown.joinWaiters=[] := hwait
  refine ⟨⟨?_,?_,?_⟩,⟨hu.generation,hu.rebalances,hu.leader,hu.refused⟩,hw⟩
  · rw [hw]
    exact List.nodup_nil
  · rw [hw]
    exact fun _ hm => by cases hm
  · exact fun m mem hl => by cases hl

theorem sessionExpired_keeps (h : Roster g) (mid : String) :
    Roster (g.sessionExpired mid) ∧ Uncompleted g (g.sessionExpired mid) := by
  unfold sessionExpired
  split_ifs
  · have hafter := afterRemoval_keeps (roster_removeMember h mid)
    exact ⟨hafter.1,(uncompleted_removeMember g mid).trans hafter.2⟩
  · exact ⟨h,.of_ledger rfl⟩

theorem roster_session (h : Roster g) (mid : String) (t : GroupMember → Option Timer) (late : List String) :
    Roster {g with members := g.members.modify mid (fun m => {m with heartbeat := t m}), lateSessions := late} := by
  refine ⟨h.nodup,fun m hm => (Members.mem_modify ..).mpr (h.current m hm),fun m mem hl => ?_⟩
  obtain ⟨old,hold,hmem⟩ := Members.lookup_modify hl
  obtain ⟨req,hreq,hp,hi⟩ := h.enrolled m old hold
  rcases hmem with rfl|rfl
  · exact ⟨req,hreq,hp,hi⟩
  · exact ⟨req,hreq,hp,hi⟩

theorem roster_resetHeartbeatTimer (h : Roster g) (mid : String) : Roster (g.resetHeartbeatTimer mid) :=
  roster_session h mid _ _

theorem heartbeat_cases (g : ConsumerGroup) (mid : String) (generation : Int) :
    (g.heartbeat mid generation).1=g ∨ (g.heartbeat mid generation).1=g.resetHeartbeatTimer mid := by
  unfold heartbeat
  by_cases hm : mid∈g.members
  · rw [if_neg (not_not_intro hm)]
    split_ifs
    · exact Or.inl rfl
    · exact Or.inl rfl
    · exact Or.inr rfl
    · exact Or.inr rfl
  · rw [if_pos hm,ite_self]
    exact Or.inl rfl

theorem roster_upsert (h : Roster g) (mid : String) (req : JoinRequest) : Roster (g.upsert mid req) := by
  refine ⟨h.nodup,fun m hm => (AList.mem_insert _).mpr (Or.inr (h.current m hm)),fun m mem hl => ?_⟩
  by_cases hm : m=mid
  · subst hm
    rw [show (g.upsert m req).members=g.members.insert m _ from rfl,AList.lookup_insert] at hl
    obtain rfl := Option.some.inj hl
    exact ⟨req,Function.update_self ..,rfl,rfl⟩
  · rw [show (g.upsert mid req).members=g.members.insert mid _ from rfl,AList.lookup_insert_ne hm] at hl
    obtain ⟨old,hold,hrest⟩ := h.enrolled m mem hl
    exact ⟨old,(Function.update_of_ne hm ..).trans hold,hrest⟩

theorem beginRebalance_keeps (h : Roster g) (isNew : Bool) :
    Roster (g.beginRebalance isNew) ∧ Uncompleted g (g.beginRebalance isNew) ∧
      (g.beginRebalance isNew).joinWaiters=g.joinWaiters ∧ (g.beginRebalance isNew).members=g.members := by
  unfold beginRebalance
  split
  · exact ⟨h.of_roll rfl,.of_ledger rfl,rfl,rfl⟩
  · exact ⟨h.of_roll rfl,.of_ledger rfl,rfl,rfl⟩
  · exact ⟨h.of_roll rfl,.of_ledger rfl,rfl,rfl⟩
  · split_ifs
    · exact ⟨h.of_roll rfl,.of_ledger rfl,rfl,rfl⟩
    · exact ⟨h,.of_ledger rfl,rfl,rfl⟩
  · exact ⟨h,.of_ledger rfl,rfl,rfl⟩

theorem roster_park {mid : String} (h : Roster g) (hw : mid∉g.joinWaiters) (hm : mid∈g.members) :
    Roster {g with joinWaiters := g.joinWaiters++[mid]} := by
  refine ⟨List.nodup_append.mpr ⟨h.nodup,List.nodup_singleton mid,?_⟩,fun m hmem => ?_,h.enrolled⟩
  · rintro a ha b hb rfl
    exact hw (List.mem_singleton.mp hb ▸ ha)
  · rcases List.mem_append.mp hmem with hold|hnew
    · exact h.current m hold
    · exact List.mem_singleton.mp hnew ▸ hm

theorem roster_joined (h : Roster g) {mid : String} (req : JoinRequest) (isNew : Bool)
    (hw : mid∉g.joinWaiters) :
    Roster {((g.upsert mid req).resetHeartbeatTimer mid).beginRebalance isNew with
      joinWaiters := (((g.upsert mid req).resetHeartbeatTimer mid).beginRebalance
        isNew).joinWaiters++[mid]} := by
  have henrolled := roster_resetHeartbeatTimer (roster_upsert h mid req) mid
  obtain ⟨hr,_,hsame,hm⟩ := beginRebalance_keeps henrolled isNew
  refine roster_park hr (by rw [hsame]; exact hw) ?_
  rw [hm]
  exact (Members.mem_modify ..).mpr ((AList.mem_insert _).mpr (Or.inl rfl))

theorem await_same (k : Nat) (call : SyncCall) : (g.await k call).roll=g.roll ∧
    (g.await k call).ledger=g.ledger := by
  unfold await
  split_ifs
  · exact ⟨rfl,rfl⟩
  · exact ⟨rfl,rfl⟩

theorem sync_cases (g : ConsumerGroup) (req : SyncRequest) :
    ((g.sync req).1=g ∧ ∃o,(g.sync req).2=some o ∧ o.errorCode≠ErrorCode.none) ∨
    ∃k call,g.currentSync=some k ∧ call.round=k ∧ req.memberId∈g.members ∧
      (g.state=.completingRebalance ∨ g.state=.stable) ∧ call.generationId=g.generationId ∧
      req.generationId=g.generationId ∧
      (g.sync req).1=(if req.memberId=g.leaderId then g.publish k req.assignments else g).await k call := by
  unfold sync
  by_cases hm : req.memberId∉g.members
  · rw [if_pos hm]
    exact Or.inl ⟨rfl,_,rfl,by decide⟩
  rw [if_neg hm]
  by_cases hgen : req.generationId≠g.generationId
  · rw [if_pos hgen]
    exact Or.inl ⟨rfl,_,rfl,by decide⟩
  rw [if_neg hgen]
  by_cases hs : g.state≠.completingRebalance ∧ g.state≠.stable
  · rw [if_pos hs]
    exact Or.inl ⟨rfl,_,rfl,by decide⟩
  rw [if_neg hs]
  cases hc : g.currentSync with
  | none => exact Or.inl ⟨rfl,_,rfl,by decide⟩
  | some k =>
    have hstate : g.state=.completingRebalance ∨ g.state=.stable := by
      by_contra hn
      exact hs (not_or.mp hn)
    exact Or.inr ⟨k,_,rfl,rfl,not_not.mp hm,hstate,not_not.mp hgen,not_not.mp hgen,rfl⟩

theorem sync_same (req : SyncRequest) : (g.sync req).1.roll=g.roll ∧ (g.sync req).1.ledger=g.ledger := by
  rcases sync_cases g req with ⟨h,_⟩|⟨k,call,_,_,_,_,_,_,h⟩
  · rw [h]
    exact ⟨rfl,rfl⟩
  · rw [h]
    split_ifs
    · exact await_same (g := g.publish k req.assignments) k call
    · exact await_same k call

theorem roster_completeRebalance (h : Roster g) (early : Bool) : Roster (g.completeRebalance early) :=
  ⟨List.nodup_nil,fun _ hm => (by cases hm),h.enrolled⟩

theorem evicted (h : Roster g) : Roster g.evictNonRejoiningMembers ∧ Uncompleted g g.evictNonRejoiningMembers ∧
    g.evictNonRejoiningMembers.joinWaiters=g.joinWaiters := by
  unfold evictNonRejoiningMembers
  split_ifs
  · exact ⟨h,.of_ledger rfl,rfl⟩
  · obtain ⟨hr,hu⟩ := removed_all _ h
    refine ⟨hr,hu,waiters_removed_all fun mid hmid => ?_⟩
    obtain ⟨e,he,rfl⟩ := List.mem_map.mp hmid
    have hcond := (List.mem_filter.mp he).2
    rw [Bool.and_eq_true,decide_eq_true_eq] at hcond
    exact hcond.1

end ConsumerGroup

/-- What an operation does to the group once its guards have been looked at. -/
inductive GroupMove (g : ConsumerGroup) : ConsumerOp → ConsumerGroup → Prop
  | idle (op : ConsumerOp) : GroupMove g op g
  | join (req : JoinRequest) (n : Nat) : GroupMove g (.join req n) (g.join req n).1
  | sync (req : SyncRequest) : GroupMove g (.sync req) (g.sync req).1
  | finishSync (i : Nat) : GroupMove g (.finishSync i) (g.finishSync i)
  | heartbeat (mid : String) (generation : Int) :
    GroupMove g (.heartbeat mid generation) (g.resetHeartbeatTimer mid)
  | leave (mids : List String) : GroupMove g (.leave mids) (g.leave mids).1
  | shutdown : GroupMove g .shutdown g.shutdown
  | tick (ms : Nat) : GroupMove g (.tick ms) {g with now := g.now+ms}
  | wakeRebalance : GroupMove g .wakeRebalance g.wakeRebalance
  | rebalanceTimer : GroupMove g .rebalanceTimer
      ({g with rebalanceHandle := Timer.finish g.rebalanceHandle}.rebalanceExpired false)
  | lateRebalance : GroupMove g .lateRebalance
    ({g with lateRebalances := g.lateRebalances-1}.rebalanceExpired true)
  | wakeSession (mid : String) : GroupMove g (.wakeSession mid) (g.wakeSession mid)
  | sessionTimer (mid : String) : GroupMove g (.sessionTimer mid) ({g with
      members := g.members.modify mid
        (fun m => {m with heartbeat := Timer.finish m.heartbeat})}.sessionExpired mid)
  | lateSession (mid : String) : GroupMove g (.lateSession mid)
      ({g with lateSessions := g.lateSessions.erase mid}.sessionExpired mid)

theorem exec_move (g : ConsumerGroup) (op : ConsumerOp) : GroupMove g op (g.exec op) := by
  cases op with
  | join req n => exact .join req n
  | sync req => exact .sync req
  | finishSync i => exact .finishSync i
  | heartbeat mid generation =>
    change GroupMove g _ (g.heartbeat mid generation).1
    rcases ConsumerGroup.heartbeat_cases g mid generation with h|h
    · rw [h]
      exact .idle _
    · rw [h]
      exact .heartbeat mid generation
  | leave mids => exact .leave mids
  | shutdown => exact .shutdown
  | tick ms => exact .tick ms
  | wakeRebalance => exact .wakeRebalance
  | rebalanceTimer =>
    unfold ConsumerGroup.exec ConsumerGroup.rebalanceTimer
    simp only
    split_ifs
    · exact .rebalanceTimer
    · exact .idle _
  | lateRebalance =>
    unfold ConsumerGroup.exec ConsumerGroup.lateRebalance
    simp only
    split_ifs
    · exact .idle _
    · exact .lateRebalance
  | wakeSession mid => exact .wakeSession mid
  | sessionTimer mid =>
    unfold ConsumerGroup.exec ConsumerGroup.sessionTimer
    simp only
    split_ifs
    · exact .idle _
    · exact .sessionTimer mid
  | lateSession mid =>
    unfold ConsumerGroup.exec ConsumerGroup.lateSession
    simp only
    split_ifs
    · exact .lateSession mid
    · exact .idle _

def MayComplete : ConsumerOp → Prop
  | .join _ _ | .rebalanceTimer | .lateRebalance => True
  | _ => False

/-- How an operation changes the group: up to a state in which nothing has completed, and from there
perhaps by a completed rebalance, early only when there are as many parked joins as members. -/
structure GroupChange (g : ConsumerGroup) (op : ConsumerOp) (h : ConsumerGroup) : Prop where
  before : ∃t,Roster t ∧ Uncompleted g t ∧ (h=t ∨ MayComplete op ∧ ∃early,t.joinWaiters≠[] ∧
    (early=true → t.members.keys.length≤t.joinWaiters.length ∨
      op=.lateRebalance ∧ g.state=.preparingRebalance ∧ g.joinWaiters≠[]) ∧
    h=t.completeRebalance early)

section Change

variable {g : ConsumerGroup} (r : Roster g)

theorem GroupChange.of_uncompleted {op : ConsumerOp} {h : ConsumerGroup} (hr : Roster h)
    (hu : Uncompleted g h) : GroupChange g op h := ⟨h,hr,hu,Or.inl rfl⟩

include r

theorem change_join (req : JoinRequest) (n : Nat) (ok : memberIdOf req n∉g.joinWaiters) :
    GroupChange g (.join req n) (g.join req n).1 := by
  have henrolled := ConsumerGroup.roster_resetHeartbeatTimer
    (ConsumerGroup.roster_upsert r (memberIdOf req n) req) (memberIdOf req n)
  unfold ConsumerGroup.join
  simp only
  split_ifs
  · exact .of_uncompleted henrolled (.of_ledger rfl)
  · obtain ⟨_,hu,_⟩ := ConsumerGroup.beginRebalance_keeps henrolled (decide (memberIdOf req n∉g.members))
    have hparked := ConsumerGroup.roster_joined r req (decide (memberIdOf req n∉g.members)) ok
    refine ⟨_,hparked,⟨hu.generation,hu.rebalances,hu.leader,hu.refused⟩,?_⟩
    unfold ConsumerGroup.park ConsumerGroup.maybeCompleteRebalance
    split_ifs with h1 h2
    · exact Or.inl rfl
    · exact Or.inr ⟨trivial,true,List.append_ne_nil_of_right_ne_nil _ (List.cons_ne_nil _ _),
        fun _ => Or.inl h2.2,rfl⟩
    · exact Or.inl rfl

theorem change_sync (req : SyncRequest) : GroupChange g (.sync req) (g.sync req).1 :=
  .of_uncompleted (r.of_roll (ConsumerGroup.sync_same req).1) (.of_ledger (ConsumerGroup.sync_same req).2)

theorem change_expired (op : ConsumerOp) (hop : MayComplete op) (early : Bool)
    (handle : Option Timer) (late : Nat) (hearly : early=true → op=.lateRebalance) :
    GroupChange g op ({g with rebalanceHandle := handle, lateRebalances := late}.rebalanceExpired early) := by
  have hr : Roster {g with rebalanceHandle := handle, lateRebalances := late} := r.of_roll rfl
  unfold ConsumerGroup.rebalanceExpired
  split_ifs with h
  · obtain ⟨he,hu,hw⟩ := ConsumerGroup.evicted hr
    refine ⟨_,he,⟨hu.generation,hu.rebalances,hu.leader,hu.refused⟩,Or.inr ⟨hop,early,?_,fun h1 => ?_,rfl⟩⟩
    · rw [hw]
      exact h.2
    · exact Or.inr ⟨hearly h1,h⟩
  · exact .of_uncompleted hr (.of_ledger rfl)

theorem change_exec (op : ConsumerOp) (ok : SoloJoin g op) : GroupChange g op (g.exec op) := by
  have hm := exec_move g op
  generalize g.exec op=h at hm ⊢
  cases hm with
  | idle => exact .of_uncompleted r (.of_ledger rfl)
  | join req n => exact change_join r req n ok
  | sync req => exact change_sync r req
  | finishSync i =>
    unfold ConsumerGroup.finishSync
    split
    · exact .of_uncompleted r (.of_ledger rfl)
    · exact .of_uncompleted (r.of_roll rfl) (.of_ledger rfl)
  | heartbeat mid generation =>
    exact .of_uncompleted (ConsumerGroup.roster_resetHeartbeatTimer r mid) (.of_ledger rfl)
  | leave mids =>
    obtain ⟨hr,hu⟩ := ConsumerGroup.leave_keeps r mids
    exact .of_uncompleted hr hu
  | shutdown =>
    obtain ⟨hr,hu,_⟩ := ConsumerGroup.shutdown_keeps r
    exact .of_uncompleted hr hu
  | tick ms | wakeRebalance => exact .of_uncompleted (r.of_roll rfl) (.of_ledger rfl)
  | rebalanceTimer =>
    exact change_expired r .rebalanceTimer trivial false _ g.lateRebalances (fun h => by cases h)
  | lateRebalance => exact change_expired r .lateRebalance trivial true g.rebalanceHandle _ (fun _ => rfl)
  | wakeSession mid => exact .of_uncompleted (ConsumerGroup.roster_session r mid _ _) (.of_ledger rfl)
  | sessionTimer mid =>
    have hr : Roster {g with
        members := g.members.modify mid (fun m => {m with heartbeat := Timer.finish m.heartbeat})} :=
      ConsumerGroup.roster_session r mid _ _
    obtain ⟨hr',hu⟩ := ConsumerGroup.sessionExpired_keeps hr mid
    exact .of_uncompleted hr' ⟨hu.generation,hu.rebalances,hu.leader,hu.refused⟩
  | lateSession mid =>
    have hr : Roster {g with lateSessions := g.lateSessions.erase mid} := r.of_roll rfl
    obtain ⟨hr',hu⟩ := ConsumerGroup.sessionExpired_keeps hr mid
    exact .of_uncompleted hr' ⟨hu.generation,hu.rebalances,hu.leader,hu.refused⟩

theorem roster_exec (op : ConsumerOp) (ok : SoloJoin g op) : Roster (g.exec op) := by
  obtain ⟨t,ht,_,heq|⟨_,early,_,_,heq⟩⟩ := (change_exec r op ok).before
  · rw [heq]
    exact ht
  · rw [heq]
    exact ConsumerGroup.roster_completeRebalance ht early

end Change

theorem roster_new : Roster {} := ⟨List.nodup_nil,fun _ hm => (by cases hm),fun _ _ hl => (by cases hl)⟩

end Kaas
