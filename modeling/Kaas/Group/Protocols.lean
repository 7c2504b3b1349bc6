import Mathlib.Data.List.Find
import Kaas.Group.Generations

namespace Kaas

/-! Which protocol a generation is given. -/

def listed (latest : String → Option JoinRequest) (m name : String) : Bool :=
  ((latest m).map (fun req => req.protocols.any (fun p => p.name==name))).getD false

namespace Rebalance

def parked (r : Rebalance) : List String := r.outcomes.map (·.memberId)

/-- Whatever is selected is listed by every member, and nobody is told an empty name where nothing
is common. -/
structure Negotiated (r : Rebalance) : Prop where
  supported : ∀o∈r.outcomes,∀m∈r.members,listed r.latest m o.protocolName
  named : (¬∃name,∀m∈r.members,listed r.latest m name) → ∀o∈r.outcomes,o.errorCode=ErrorCode.none →
    o.protocolName≠""

/-- The first parked join lists a protocol that every member lists, and whatever it lists before
that one is missing from the request of some parked join. -/
def Compatible (r : Rebalance) : Prop :=
  ∃first req before p after,r.parked.head?=some first ∧ r.latest first=some req ∧
    req.protocols=before++p::after ∧
    (∀m∈r.members,listed r.latest m p.name) ∧ ∀q∈before,∃m∈r.parked,¬listed r.latest m q.name

end Rebalance

section Selection

variable {g : ConsumerGroup} (r : Roster g)
include r

theorem listed_member {w : String} (hw : w∈g.members) (name : String) :
    ((g.members.lookup w).map (fun m => m.protocols.any (fun mp => mp.name==name))).getD false=
      listed g.latest w name := by
  obtain ⟨mem,hmem⟩ := Option.isSome_iff_exists.mp (AList.lookup_isSome.mpr hw)
  obtain ⟨req,hreq,hp,_⟩ := r.enrolled w mem hmem
  unfold listed
  rw [hmem,hreq,Option.map_some,Option.map_some,hp]

/-- The name selected is the first one of the first waiter's latest request that the latest requests
of the other waiters list. -/
theorem selectProtocol_latest {first : String} {rest : List String} (hw : g.joinWaiters=first::rest) :
    ∃req,g.latest first=some req ∧ selectProtocol g.members g.joinWaiters=
      (req.protocols.find? (fun p => (first::rest).all (listed g.latest · p.name))).map (·.name) := by
  have hin (w : String) (h : w∈first::rest) : w∈g.members := r.current w (hw ▸ h)
  obtain ⟨leader,hleader⟩ :=
    Option.isSome_iff_exists.mp (AList.lookup_isSome.mpr (hin first List.mem_cons_self))
  obtain ⟨req,hreq,hp,_⟩ := r.enrolled first leader hleader
  refine ⟨req,hreq,?_⟩
  rw [hw,selectProtocol,hleader,Option.bind_some,hp]
  congr 1
  refine List.find?_congr (fun p hmem => ?_)
  have hown : listed g.latest first p.name=true := by
    unfold listed
    rw [hreq]
    exact List.any_eq_true.mpr ⟨p,hmem,beq_self_eq_true _⟩
  rw [List.all_cons,hown,Bool.true_and]
  rw [Bool.eq_iff_iff,List.all_eq_true,List.all_eq_true]
  exact forall₂_congr (fun w h => by rw [listed_member r (hin w (List.mem_cons_of_mem _ h))])

theorem negotiated_completeRebalance (hw : g.joinWaiters≠[]) (early : Bool) :
    ∀rb∈(g.completeRebalance early).rebalances,rb∈g.rebalances ∨ (rb.Negotiated ↔ rb.Compatible) := by
  intro rb hrb
  rcases List.mem_append.mp hrb with hold|hnew
  · exact Or.inl hold
  obtain ⟨first,rest,hcons⟩ := List.exists_cons_of_ne_nil hw
  have hparked : rb.parked=first::rest := by
    rw [List.mem_singleton.mp hnew,← hcons]
    exact outcomesFor_members g _ _
  have hmem (m : String) (h : m∈first::rest) : m∈rb.members := by
    rw [← hcons] at h
    rw [List.mem_singleton.mp hnew]
    exact AList.mem_keys.mp (r.current m h)
  have hlatest : rb.latest=g.latest := by rw [List.mem_singleton.mp hnew]
  have hname (o : JoinOutcome) (ho : o∈rb.outcomes) :
      o.protocolName=(selectProtocol g.members g.joinWaiters).getD "" := by
    rw [List.mem_singleton.mp hnew] at ho
    exact (mem_outcomesFor ho).2.2.2.2.1
  obtain ⟨req,hreq,hsel⟩ := selectProtocol_latest r hcons
  rw [← hlatest] at hreq hsel
  refine Or.inr ⟨fun h => ?_,fun ⟨f,req',before,p,after,hf,hreq',hsplit,hall,hbefore⟩ => ?_⟩
  · -- what the first waiter is told is a name all waiters list, so the search ends at one
    obtain ⟨o,ho,_⟩ := List.mem_map.mp (hparked ▸ List.mem_cons_self : first∈rb.parked)
    have hlist := h.supported o ho
    have hfirst := hlist first (hmem first List.mem_cons_self)
    unfold listed at hfirst
    rw [hreq] at hfirst
    obtain ⟨q,hq,hqname⟩ := List.any_eq_true.mp hfirst
    have hfits : (first::rest).all (listed rb.latest · q.name)=true := by
      rw [List.all_eq_true,eq_of_beq hqname]
      exact fun m hm => hlist m (hmem m hm)
    have hsome : (req.protocols.find? (fun p => (first::rest).all (listed rb.latest · p.name))).isSome :=
      List.find?_isSome.mpr ⟨q,hq,hfits⟩
    obtain ⟨p,hfound⟩ := Option.isSome_iff_exists.mp hsome
    obtain ⟨_,before,after,hsplit,hbefore⟩ := List.find?_eq_some_iff_append.mp hfound
    refine ⟨first,req,before,p,after,by rw [hparked]; rfl,hreq,hsplit,fun m hm => ?_,fun q hq => ?_⟩
    · have hp := hlist m hm
      rwa [hname o ho,hsel,hfound] at hp
    · rw [hparked]
      have hnot := hbefore q hq
      rw [Bool.not_eq_true',List.all_eq_false] at hnot
      exact hnot
  · -- the search passes over what some waiter does not list and takes the name all members list
    rw [hparked] at hf
    cases hf
    rw [hreq] at hreq'
    cases hreq'
    have hfound : req.protocols.find? (fun p => (first::rest).all (listed rb.latest · p.name))=some p := by
      refine List.find?_eq_some_iff_append.mpr ⟨?_,before,after,hsplit,fun q hq => ?_⟩
      · exact List.all_eq_true.mpr (fun m hm => hall m (hmem m hm))
      · rw [Bool.not_eq_true',List.all_eq_false,← hparked]
        exact hbefore q hq
    have hlist (o : JoinOutcome) (ho : o∈rb.outcomes) (m : String) (hm : m∈rb.members) :
        listed rb.latest m o.protocolName := by
      rw [hname o ho,hsel,hfound]
      exact hall m hm
    exact ⟨hlist,fun hnone o ho _ => absurd ⟨o.protocolName,hlist o ho⟩ hnone⟩

end Selection

/-- In every run in which no member joins while its JoinGroup is parked, what a rebalance selects is
listed by every member, and nobody is told an empty name, exactly when the first protocol common to
the parked joins' requests, in the order of the first of them, is listed by the members that did not
join again too. -/
theorem negotiated_iff {g : ConsumerGroup} (hrun : Reaches GroupStep SoloJoin {} g) :
    ∀rb∈g.rebalances,rb.Negotiated ↔ rb.Compatible := by
  have hkeep (t : ConsumerGroup) (op : ConsumerOp) (u : ConsumerGroup)
      (ih : Roster t ∧ ∀rb∈t.rebalances,rb.Negotiated ↔ rb.Compatible) (ok : SoloJoin t op)
        (step : GroupStep t op u) :
      Roster u ∧ ∀rb∈u.rebalances,rb.Negotiated ↔ rb.Compatible := by
    obtain rfl := step
    refine ⟨roster_exec ih.1 op ok,fun rb hrb => ?_⟩
    obtain ⟨v,hv,hu,heq|⟨_,early,hw,_,heq⟩⟩ := (change_exec ih.1 op ok).before
    · rw [heq,hu.rebalances] at hrb
      exact ih.2 rb hrb
    · rw [heq] at hrb
      rcases negotiated_completeRebalance hv hw early rb hrb with hold|hnew
      · exact ih.2 rb (hu.rebalances ▸ hold)
      · exact hnew
  exact (hrun.invariant ⟨roster_new,List.forall_mem_nil _⟩ hkeep).2

def joinWith (mid : String) (instanceId : Option String) (names : List String) : ConsumerOp :=
  .join {memberId := mid,groupInstanceId := instanceId,protocols := names.map (⟨·,[1]⟩)} 0

instance SoloJoin.decidable (g : ConsumerGroup) (op : ConsumerOp) : Decidable (SoloJoin g op) :=
  match op with
  | .join req n => inferInstanceAs (Decidable (memberIdOf req n∉g.joinWaiters))
  | .sync _ | .finishSync _ | .heartbeat _ _ | .leave _ | .shutdown | .tick _ | .wakeRebalance | .rebalanceTimer
  | .lateRebalance | .wakeSession _ | .sessionTimer _ | .lateSession _ => .isTrue trivial

theorem negotiated_iff_second : ∃g,Reaches GroupStep SoloJoin {} g ∧
    ∃rb∈g.rebalances,rb.Negotiated ∧ ∀o∈rb.outcomes,o.protocolName="range" := by
  obtain ⟨g,hreach,rb,hrb,hhead,hreq,hall,hbefore,hname⟩ : ∃g,Reaches GroupStep SoloJoin {} g ∧
    ∃rb∈g.rebalances,
      rb.parked.head?=some "a" ∧ (rb.latest "a").map (·.protocols)=some [⟨"sticky",[1]⟩,⟨"range",[1]⟩] ∧
        (∀m∈rb.members,listed rb.latest m "range") ∧ (∃m∈rb.parked,¬listed rb.latest m "sticky") ∧
        ∀o∈rb.outcomes,o.protocolName="range" := by
    refine runChecked_finds (f := ConsumerGroup.exec) (fun _ _ => rfl) [joinWith "a" none ["sticky","range"],
      joinWith "b" none ["roundrobin","range"],.tick 3000,.wakeRebalance,.rebalanceTimer] ?_
    decide +kernel
  obtain ⟨req,hlatest,hprotocols⟩ := Option.map_eq_some_iff.mp hreq
  have hcompatible : rb.Compatible :=
    ⟨"a",req,[⟨"sticky",[1]⟩],⟨"range",[1]⟩,[],hhead,hlatest,hprotocols,hall,
      List.forall_mem_singleton.mpr hbefore⟩
  exact ⟨g,hreach,rb,hrb,(negotiated_iff hreach rb hrb).mpr hcompatible,hname⟩

/-- Two members that list nothing in common both join with an empty protocol name; a static member
that misses a rebalance stays in a group whose protocol it does not list. -/
theorem empty_protocol_joined : (∃g,Reaches GroupStep SoloJoin {} g ∧ ∃rb∈g.rebalances,
      rb.members.map (fun m => (rb.latest m).map (fun q => q.protocols.map (·.name)))=[some
        ["range"],some ["sticky"]] ∧
      rb.outcomes.map (fun o => (o.errorCode,o.protocolName))=[(ErrorCode.none,""),(ErrorCode.none,"")]) ∧
    ∃g,Reaches GroupStep SoloJoin {} g ∧ ∃rb∈g.rebalances,∃o∈rb.outcomes,o.protocolName="sticky" ∧
      ∃m∈rb.members,m∉rb.parked ∧ listed rb.latest m o.protocolName=false := by
  refine ⟨?_,?_⟩
  · refine runChecked_finds (f := ConsumerGroup.exec) (fun _ _ => rfl) [joinWith "a" none ["sticky"],
      joinWith "b" none ["range"],.tick 3000,.wakeRebalance,.rebalanceTimer] ?_
    decide +kernel
  · refine runChecked_finds (f := ConsumerGroup.exec) (fun _ _ => rfl) [joinWith "s" (some "i") ["range"],
      joinWith "a" none ["range"],.tick 3000,.wakeRebalance,.rebalanceTimer,joinWith "a" none ["sticky"],
      .tick 30000,.wakeRebalance,.rebalanceTimer] ?_
    decide +kernel

end Kaas
