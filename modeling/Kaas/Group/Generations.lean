import Kaas.Group.Membership
import Mathlib.Data.List.Nodup

namespace Kaas

/-! What the members of a generation are told. -/

/-- Everybody gets the generation, the leader and the protocol; the leader is one of them and gets
the list of them, with the metadata of their latest JoinGroup. -/
structure GenerationAgreed (r : Rebalance) : Prop where
  success : ∀o∈r.outcomes,o.errorCode=ErrorCode.none ∧ o.generationId=r.generationId ∧ o.leader=r.leader
  protocol : ∀o∈r.outcomes,∀o'∈r.outcomes,o'.protocolType=o.protocolType ∧ o'.protocolName=o.protocolName
  leader : ∃o∈r.outcomes,o.memberId=r.leader
  nodup : (r.outcomes.map (·.memberId)).Nodup
  list : ∀o∈r.outcomes,o.memberId=r.leader → o.members.map (·.memberId)=r.outcomes.map (·.memberId)
  metadata : ∀o∈r.outcomes,∀e∈o.members,∃req,r.latest e.memberId=some req ∧
    e.metadata=metadataFor req.protocols o.protocolName ∧ e.groupInstanceId=req.groupInstanceId

def EarlyFull (r : Rebalance) : Prop := r.early=true → ∀m∈r.members,∃o∈r.outcomes,o.memberId=m

variable {o : JoinOutcome} {op : ConsumerOp}

section Completion

variable {g : ConsumerGroup} (r : Roster g)

theorem outcomesFor_members (g : ConsumerGroup) (leader protocolName : String) :
    (g.outcomesFor leader protocolName).map (·.memberId)=g.joinWaiters := by
  unfold ConsumerGroup.outcomesFor
  rw [List.map_map]
  exact List.map_id' g.joinWaiters

theorem mem_outcomesFor {leader protocolName : String} (ho : o∈g.outcomesFor leader protocolName) :
    o.errorCode=ErrorCode.none ∧ o.generationId=wrapI32 (g.generationId+1) ∧ o.leader=leader ∧
      o.protocolType=g.protocolType ∧ o.protocolName=protocolName ∧
      o.members=if o.memberId=leader then g.joinWaiters.map (joinedMember g.members protocolName) else [] := by
  obtain ⟨w,_,rfl⟩ := List.mem_map.mp ho
  exact ⟨rfl,rfl,rfl,rfl,rfl,rfl⟩

include r

theorem joinedMember_latest {protocolName w : String} (hw : w∈g.joinWaiters) :
    ∃req,g.latest w=some req ∧
      (joinedMember g.members protocolName w).metadata=metadataFor req.protocols protocolName ∧
      (joinedMember g.members protocolName w).groupInstanceId=req.groupInstanceId := by
  obtain ⟨mem,hmem⟩ := Option.isSome_iff_exists.mp (AList.lookup_isSome.mpr (r.current w hw))
  obtain ⟨req,hreq,hp,hi⟩ := r.enrolled w mem hmem
  refine ⟨req,hreq,?_,?_⟩
  · unfold joinedMember
    rw [hmem,← hp]
    rfl
  · unfold joinedMember
    rw [hmem,← hi]
    rfl

theorem agreed_completeRebalance (hw : g.joinWaiters≠[]) (early : Bool) :
    ∀rb∈(g.completeRebalance early).rebalances,rb∈g.rebalances ∨ GenerationAgreed rb := by
  intro rb hrb
  rcases List.mem_append.mp hrb with hold|hnew
  · exact Or.inl hold
  refine Or.inr ?_
  rw [List.mem_singleton.mp hnew]
  have hids := outcomesFor_members g (g.joinWaiters.head?.getD g.leaderId)
    ((selectProtocol g.members g.joinWaiters).getD "")
  obtain ⟨first,rest,hcons⟩ := List.exists_cons_of_ne_nil hw
  refine ⟨fun o ho => ?_,fun o ho o' ho' => ?_,?_,?_,fun o ho hlead => ?_,fun o ho e he => ?_⟩
  · obtain ⟨h1,h2,h3,_⟩ := mem_outcomesFor ho
    exact ⟨h1,h2,h3⟩
  · obtain ⟨_,_,_,h4,h5,_⟩ := mem_outcomesFor ho
    obtain ⟨_,_,_,h4',h5',_⟩ := mem_outcomesFor ho'
    exact ⟨h4'.trans h4.symm,h5'.trans h5.symm⟩
  · have hfirst : g.joinWaiters.head?.getD g.leaderId∈(g.outcomesFor (g.joinWaiters.head?.getD g.leaderId)
        ((selectProtocol g.members g.joinWaiters).getD "")).map (·.memberId) := by
      rw [hids,hcons]
      exact List.mem_cons_self
    exact List.mem_map.mp hfirst
  · simp only
    rw [hids]
    exact r.nodup
  · obtain ⟨_,_,_,_,_,h6⟩ := mem_outcomesFor ho
    simp only
    rw [h6,if_pos hlead,hids,List.map_map]
    exact List.map_id' g.joinWaiters
  · obtain ⟨_,_,_,_,h5,h6⟩ := mem_outcomesFor ho
    rw [h6] at he
    split_ifs at he
    · obtain ⟨w,hwm,rfl⟩ := List.mem_map.mp he
      rw [h5]
      exact joinedMember_latest r hwm
    · cases he

theorem all_parked (hlen : g.members.keys.length≤g.joinWaiters.length) : ∀m∈g.members.keys,m∈g.joinWaiters := by
  have hsub : g.joinWaiters⊆g.members.keys := fun m hm => AList.mem_keys.mp (r.current m hm)
  have hperm := (List.subperm_of_subset r.nodup hsub).perm_of_length_le hlen
  exact fun m hm => hperm.mem_iff.mpr hm

theorem earlyFull_completeRebalance {early : Bool}
    (hlen : early=true → g.members.keys.length≤g.joinWaiters.length) :
    ∀rb∈(g.completeRebalance early).rebalances,rb∈g.rebalances ∨ EarlyFull rb := by
  intro rb hrb
  rcases List.mem_append.mp hrb with hold|hnew
  · exact Or.inl hold
  refine Or.inr fun hearly m hm => ?_
  rw [List.mem_singleton.mp hnew] at hearly hm ⊢
  have hw := all_parked r (hlen hearly) m hm
  rw [← outcomesFor_members g (g.joinWaiters.head?.getD g.leaderId)
    ((selectProtocol g.members g.joinWaiters).getD "")] at hw
  exact List.mem_map.mp hw

end Completion

/-- A JoinGroup finds no parked one of its member, and no rebalance task that was aborted behind its
sleep meets a later rebalance. -/
def SoloTimely (g : ConsumerGroup) : ConsumerOp → Prop
  | .join req n => memberIdOf req n∉g.joinWaiters
  | .lateRebalance => ¬(g.state=.preparingRebalance ∧ g.joinWaiters≠[])
  | _ => True

instance (g : ConsumerGroup) (op : ConsumerOp) : Decidable (SoloTimely g op) :=
  match op with
  | .join req n => inferInstanceAs (Decidable (memberIdOf req n∉g.joinWaiters))
  | .lateRebalance => inferInstanceAs (Decidable (¬(g.state=.preparingRebalance ∧ g.joinWaiters≠[])))
  | .sync _ | .finishSync _ | .heartbeat _ _ | .leave _ | .shutdown | .tick _ | .wakeRebalance | .rebalanceTimer
  | .wakeSession _ | .sessionTimer _ | .lateSession _ => .isTrue trivial

theorem SoloTimely.solo {g : ConsumerGroup} (h : SoloTimely g op) : SoloJoin g op := by
  cases op with
  | join req n => exact h
  | _ => trivial

theorem earlyFull_exec {g : ConsumerGroup} (r : Roster g) (ok : SoloTimely g op)
    (h : ∀rb∈g.rebalances,EarlyFull rb) : ∀rb∈(g.exec op).rebalances,EarlyFull rb := by
  obtain ⟨t,ht,hu,heq|⟨_,early,_,hearly,heq⟩⟩ := (change_exec r op ok.solo).before
  · rw [heq,hu.rebalances]
    exact h
  · have hlen : early=true → t.members.keys.length≤t.joinWaiters.length := by
      intro he
      rcases hearly he with hlen|⟨rfl,hlate⟩
      · exact hlen
      · exact absurd hlate ok
    rw [heq]
    intro rb hrb
    rcases earlyFull_completeRebalance ht hlen rb hrb with hold|hnew
    · rw [hu.rebalances] at hold
      exact h rb hold
    · exact hnew

/-- In every run in which no member joins while its JoinGroup is parked and no aborted task
completes a rebalance, only members have a parked join, at most one each, and a rebalance that
completed before its timer had all of them. -/
theorem parked_joins_sound {g : ConsumerGroup} (hrun : Reaches GroupStep SoloTimely {} g) :
    (∀m∈g.joinWaiters,m∈g.members) ∧ g.joinWaiters.Nodup ∧ ∀rb∈g.rebalances,EarlyFull rb := by
  have hkeep (t : ConsumerGroup) (op : ConsumerOp) (u : ConsumerGroup)
    (ih : Roster t ∧ ∀rb∈t.rebalances,EarlyFull rb)
      (ok : SoloTimely t op) (step : GroupStep t op u) : Roster u ∧ ∀rb∈u.rebalances,EarlyFull rb := by
    obtain rfl := step
    exact ⟨roster_exec ih.1 op ok.solo,earlyFull_exec ih.1 ok ih.2⟩
  have h := hrun.invariant ⟨roster_new,List.forall_mem_nil _⟩ hkeep
  exact ⟨h.1.current,h.1.nodup,h.2⟩

def joinAs (mid : String) : ConsumerOp :=
  .join {memberId := mid,protocols := [⟨"range",[1]⟩]} 0

def twoMembers : List ConsumerOp :=
  [joinAs "a",joinAs "b",.tick 3000,.wakeRebalance,.rebalanceTimer,.sync ⟨"a",1,[⟨"a",[7]⟩]⟩]

theorem parked_joins_sound_rejoin : ∃g,Reaches GroupStep SoloTimely {} g ∧ (∃rb∈g.rebalances,rb.early=true) ∧
    (∀m∈g.joinWaiters,m∈g.members) ∧ g.joinWaiters.Nodup ∧ ∀rb∈g.rebalances,EarlyFull rb := by
  refine runChecked_finds_and (f := ConsumerGroup.exec) (fun _ _ => rfl)
    (twoMembers++[joinAs "b",joinAs "a"]) (by decide +kernel)
    fun _ hreach _ => parked_joins_sound hreach

/-- A member that joins again while it is parked has two waiters; one of them stays when it leaves;
and the two stand for the join of another member. -/
theorem repeated_joins_unsound :
    (∃g,Reaches GroupStep (fun _ _ => True) {} g ∧ ¬g.joinWaiters.Nodup) ∧
    (∃g,Reaches GroupStep (fun _ _ => True) {} g ∧ ∃m∈g.joinWaiters,m∉g.members) ∧
    ∃g,Reaches GroupStep (fun _ _ => True) {} g ∧
      ∃rb∈g.rebalances,rb.early=true ∧ ∃m∈rb.members,∀o∈rb.outcomes,o.memberId≠m := by
  refine ⟨?_,?_,?_⟩
  · refine runChecked_finds (f := ConsumerGroup.exec) (fun _ _ => rfl) [joinAs "a",joinAs "a"] ?_
    decide +kernel
  · refine runChecked_finds (f := ConsumerGroup.exec) (fun _ _ => rfl) [joinAs "a",joinAs "a",.leave ["a"]] ?_
    decide +kernel
  · refine runChecked_finds (f := ConsumerGroup.exec) (fun _ _ => rfl) (twoMembers++[joinAs "a",joinAs "a"]) ?_
    decide +kernel

/-- A JoinGroup finds no parked one of its member, and the generation can still be counted up. -/
def FreshGeneration (g : ConsumerGroup) : ConsumerOp → Prop
  | .join req n => memberIdOf req n∉g.joinWaiters ∧ g.generationId<2^31-1
  | .rebalanceTimer => g.generationId<2^31-1
  | .lateRebalance => g.generationId<2^31-1
  | _ => True

instance (g : ConsumerGroup) (op : ConsumerOp) : Decidable (FreshGeneration g op) :=
  match op with
  | .join req n => inferInstanceAs (Decidable (memberIdOf req n∉g.joinWaiters ∧ g.generationId<2^31-1))
  | .rebalanceTimer => inferInstanceAs (Decidable (g.generationId<2^31-1))
  | .lateRebalance => inferInstanceAs (Decidable (g.generationId<2^31-1))
  | .sync _ | .finishSync _ | .heartbeat _ _ | .leave _ | .shutdown | .tick _ | .wakeRebalance
  | .wakeSession _ | .sessionTimer _ | .lateSession _ => .isTrue trivial

theorem FreshGeneration.solo {g : ConsumerGroup} (h : FreshGeneration g op) : SoloJoin g op := by
  cases op with
  | join req n => exact h.1
  | _ => trivial

/-- The generations go up one by one, and what was handed out as a success is what the rebalances
had for it. -/
structure HandedOut (g : ConsumerGroup) : Prop where
  nonneg : 0≤g.generationId
  past : ∀rb∈g.rebalances,rb.generationId≤g.generationId
  ordered : g.rebalances.Pairwise (fun a b => a.generationId<b.generationId)
  answered : g.joins.filter (fun o => o.errorCode==ErrorCode.none)=g.rebalances.flatMap (·.outcomes)
  agreed : ∀rb∈g.rebalances,GenerationAgreed rb

theorem wrapI32_of_lt {x : Int} (h0 : 0≤x) (h : x<2^31) : wrapI32 x=x := by
  unfold wrapI32
  omega

theorem HandedOut.success_iff {g : ConsumerGroup} (h : HandedOut g) :
    o∈g.joins ∧ o.errorCode=ErrorCode.none ↔ ∃rb∈g.rebalances,o∈rb.outcomes := by
  rw [← List.mem_flatMap,← h.answered,List.mem_filter,beq_iff_eq]

theorem HandedOut.unique {g : ConsumerGroup} (h : HandedOut g) {a b : Rebalance}
    (ha : a∈g.rebalances) (hb : b∈g.rebalances) (he : a.generationId=b.generationId) : a=b := by
  have hnodup : (g.rebalances.map (·.generationId)).Nodup :=
    List.pairwise_map.mpr (h.ordered.imp (fun hlt => hlt.ne))
  exact List.inj_on_of_nodup_map hnodup ha hb he

theorem HandedOut.mem_of_generation {g : ConsumerGroup} (h : HandedOut g) {rb : Rebalance}
    (hrb : rb∈g.rebalances) (hmem : o∈g.joins) (hok : o.errorCode=ErrorCode.none)
    (hgen : o.generationId=rb.generationId) : o∈rb.outcomes := by
  obtain ⟨rb',hrb',ho⟩ := h.success_iff.mp ⟨hmem,hok⟩
  have hsame := h.unique hrb' hrb (((h.agreed rb' hrb').success o ho).2.1.symm.trans hgen)
  exact hsame ▸ ho

theorem HandedOut.uncompleted {g h : ConsumerGroup} (ho : HandedOut g) (hu : Uncompleted g h) :
    HandedOut h := by
  obtain ⟨es,hes,herr⟩ := hu.refused
  refine ⟨hu.generation ▸ ho.nonneg,?_,hu.rebalances ▸ ho.ordered,?_,hu.rebalances ▸ ho.agreed⟩
  · rw [hu.rebalances,hu.generation]
    exact ho.past
  · have hnone : es.filter (fun o => o.errorCode==ErrorCode.none)=[] := by
      rw [List.filter_eq_nil_iff]
      intro o hmem
      rw [beq_iff_eq]
      exact herr o hmem
    rw [hes,List.filter_append,hnone,List.append_nil,hu.rebalances]
    exact ho.answered

theorem HandedOut.completed {g : ConsumerGroup} (ho : HandedOut g) (r : Roster g) (hw : g.joinWaiters≠[])
    (hlt : g.generationId<2^31-1) (early : Bool) : HandedOut (g.completeRebalance early) := by
  have hnext : wrapI32 (g.generationId+1)=g.generationId+1 :=
    wrapI32_of_lt (by have := ho.nonneg; omega) (by omega)
  have hgen : (g.completeRebalance early).generationId=g.generationId+1 := hnext
  refine ⟨?_,fun rb hrb => ?_,?_,?_,fun rb hrb => ?_⟩
  · rw [hgen]
    have := ho.nonneg
    omega
  · rw [hgen]
    rcases List.mem_append.mp hrb with hold|hnew
    · have := ho.past rb hold
      omega
    · rw [List.mem_singleton.mp hnew]
      exact hnext.le
  · refine List.pairwise_append.mpr ⟨ho.ordered,List.pairwise_singleton _ _,fun a ha b hb => ?_⟩
    have hpast := ho.past a ha
    rw [List.mem_singleton.mp hb]
    change a.generationId<wrapI32 (g.generationId+1)
    omega
  · change (g.joins++_).filter _=(g.rebalances++[_]).flatMap _
    rw [List.filter_append,ho.answered,List.flatMap_append,List.flatMap_singleton]
    congr 1
    refine List.filter_eq_self.mpr fun o hmem => ?_
    rw [beq_iff_eq]
    exact (mem_outcomesFor hmem).1
  · rcases agreed_completeRebalance r hw early rb hrb with hold|hnew
    · exact ho.agreed rb hold
    · exact hnew

theorem FreshGeneration.countable {g : ConsumerGroup} (h : FreshGeneration g op)
    (hop : MayComplete op) : g.generationId<2^31-1 := by
  cases op with
  | join req n => exact h.2
  | rebalanceTimer => exact h
  | lateRebalance => exact h
  | _ => cases hop

theorem handedOut_exec {g : ConsumerGroup} (r : Roster g) (ok : FreshGeneration g op)
    (ho : HandedOut g) : HandedOut (g.exec op) := by
  obtain ⟨t,ht,hu,heq|⟨hop,early,hw,_,heq⟩⟩ := (change_exec r op ok.solo).before
  · rw [heq]
    exact ho.uncompleted hu
  · rw [heq]
    exact (ho.uncompleted hu).completed ht hw (hu.generation ▸ ok.countable hop) early

/-- Over every run in which no member joins while its JoinGroup is parked and the generation is
below its bound: the generations go up, all successes of one agree on its leader, one of them, and
its protocol, and the leader's list has each once, with its latest metadata. -/
theorem generations_agree {g : ConsumerGroup} (hrun : Reaches GroupStep FreshGeneration {} g) :
    (g.rebalances.Pairwise (fun a b => a.generationId<b.generationId) ∧
      (∀rb∈g.rebalances,∀o∈rb.outcomes,o.generationId=rb.generationId) ∧
      g.joins.filter (fun o => o.errorCode==ErrorCode.none)=g.rebalances.flatMap (·.outcomes)) ∧
    ∀o∈g.joins,o.errorCode=ErrorCode.none →
      (∀o'∈g.joins,o'.errorCode=ErrorCode.none → o'.generationId=o.generationId →
        o'.leader=o.leader ∧ o'.protocolType=o.protocolType ∧ o'.protocolName=o.protocolName) ∧
      (∃l∈g.joins,l.errorCode=ErrorCode.none ∧ l.generationId=o.generationId ∧ l.memberId=o.leader) ∧
      (o.memberId=o.leader → (o.members.map (·.memberId)).Nodup ∧
        (∀m,m∈o.members.map (·.memberId) ↔
          ∃o'∈g.joins,o'.errorCode=ErrorCode.none ∧ o'.generationId=o.generationId ∧ o'.memberId=m) ∧
        ∃rb∈g.rebalances,rb.generationId=o.generationId ∧ ∀e∈o.members,∃req,rb.latest e.memberId=some req ∧
          e.metadata=metadataFor req.protocols o.protocolName ∧ e.groupInstanceId=req.groupInstanceId) := by
  have hkeep (t : ConsumerGroup) (op : ConsumerOp) (u : ConsumerGroup) (ih : Roster t ∧ HandedOut t)
      (ok : FreshGeneration t op) (step : GroupStep t op u) : Roster u ∧ HandedOut u := by
    obtain rfl := step
    exact ⟨roster_exec ih.1 op ok.solo,handedOut_exec ih.1 ok ih.2⟩
  obtain ⟨_,ho⟩ := hrun.invariant
    ⟨roster_new,le_refl _,List.forall_mem_nil _,List.Pairwise.nil,rfl,List.forall_mem_nil _⟩ hkeep
  refine ⟨⟨ho.ordered,fun rb hrb o hmem => ((ho.agreed rb hrb).success o hmem).2.1,ho.answered⟩,
    fun o hmem hok => ?_⟩
  obtain ⟨rb,hrb,hout⟩ := ho.success_iff.mp ⟨hmem,hok⟩
  have hagreed := ho.agreed rb hrb
  obtain ⟨_,hgen,hlead⟩ := hagreed.success o hout
  have back {o' : JoinOutcome} (ho' : o'∈rb.outcomes) :
      o'∈g.joins ∧ o'.errorCode=ErrorCode.none ∧ o'.generationId=o.generationId := by
    have hin := ho.success_iff.mpr ⟨rb,hrb,ho'⟩
    exact ⟨hin.1,hin.2,(hagreed.success o' ho').2.1.trans hgen.symm⟩
  refine ⟨fun o' hmem' hok' hgen' => ?_,?_,
    fun hself => ⟨?_,fun m => ?_,rb,hrb,hgen.symm,hagreed.metadata o hout⟩⟩
  · have ho' := ho.mem_of_generation hrb hmem' hok' (hgen'.trans hgen)
    exact ⟨(hagreed.success o' ho').2.2.trans hlead.symm,hagreed.protocol o hout o' ho'⟩
  · obtain ⟨l,hl,hlid⟩ := hagreed.leader
    obtain ⟨h1,h2,h3⟩ := back hl
    exact ⟨l,h1,h2,h3,hlid.trans hlead.symm⟩
  · rw [hagreed.list o hout (hself.trans hlead)]
    exact hagreed.nodup
  · rw [hagreed.list o hout (hself.trans hlead)]
    refine ⟨fun hm => ?_,fun ⟨o',hmem',hok',hgen',hid⟩ => ?_⟩
    · obtain ⟨o',ho',hid⟩ := List.mem_map.mp hm
      obtain ⟨h1,h2,h3⟩ := back ho'
      exact ⟨o',h1,h2,h3,hid⟩
    · exact List.mem_map.mpr ⟨o',ho.mem_of_generation hrb hmem' hok' (hgen'.trans hgen),hid⟩

theorem generations_agree_two : ∃g,Reaches GroupStep FreshGeneration {} g ∧ g.rebalances.length=2 ∧
    g.rebalances.Pairwise (fun a b => a.generationId<b.generationId) := by
  refine runChecked_finds_and (f := ConsumerGroup.exec) (fun _ _ => rfl)
    (twoMembers++[joinAs "b",joinAs "a"]) (by decide +kernel)
    fun _ hreach _ => (generations_agree hreach).1.1

/-- A member that joins twice while it is parked stands twice in the list of its generation's
leader. -/
theorem repeated_joins_in_list : ∃g,Reaches GroupStep (fun _ _ => True) {} g ∧
    ∃o∈g.joins,o.errorCode=ErrorCode.none ∧ o.memberId=o.leader ∧ ¬(o.members.map (·.memberId)).Nodup := by
  refine runChecked_finds (f := ConsumerGroup.exec) (fun _ _ => rfl)
    [joinAs "a",joinAs "a",.tick 3000,.wakeRebalance,.rebalanceTimer] ?_
  decide +kernel

end Kaas
