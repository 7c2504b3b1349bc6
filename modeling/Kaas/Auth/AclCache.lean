import Mathlib.Logic.Function.Basic
import Kaas.Auth.Acls
import Kaas.Framework.Run

namespace Kaas

structure AclQuery where
  principal : Principal
  resource : Resource
  op : Operation
deriving DecidableEq

def AclQuery.decide (q : AclQuery) (rules : List AclRule) : Bool :=
  evaluate rules q.principal q.resource q.op

structure CacheKey where
  principal : String
  resType : String
  resName : String
  op : Operation
deriving DecidableEq

def AclQuery.key (q : AclQuery) : CacheKey where
  principal := q.principal.asPrincipalString
  resType := q.resource.kind.asStr
  resName := q.resource.name
  op := q.op

variable {q : AclQuery} {i : Nat} {allowed : Bool}

theorem AclQuery.decide_of_key {q' : AclQuery} (h : q.key=q'.key) (rules : List AclRule) :
    q.decide rules=q'.decide rules := by
  obtain ⟨p,res,op⟩ := q
  obtain ⟨p',res',op'⟩ := q'
  simp only [AclQuery.key,CacheKey.mk.injEq] at h
  obtain ⟨hp,hk,hn,rfl⟩ := h
  have hcovers (r : AclRule) : r.covers p res op=r.covers p' res' op := by
    simp only [AclRule.covers,matchesResource,hp,hk,hn]
  rw [Bool.eq_iff_iff]
  simp only [AclQuery.decide,evaluate_iff,hcovers]

structure CachedDecision where
  allowed : Bool
  expiresAt : Nat
deriving DecidableEq

def cacheTtl : Nat := 5000000000

/-- Where a call of `authorize` stands between its atomic steps. -/
inductive CallPhase
  | entered
  | missed
  | decided (allowed : Bool)
  | returned (allowed : Bool)
deriving DecidableEq

structure AuthorizeCall where
  query : AclQuery
  phase : CallPhase
deriving DecidableEq

/-- The engine with every call of `authorize` under way or returned; `clearing` counts the reloads
that have stored their rules and not yet cleared the cache. -/
structure AclEngine where
  rules : List AclRule := []
  cache : CacheKey → Option CachedDecision := fun _ => none
  now : Nat := 0
  calls : Nat → Option AuthorizeCall := fun _ => none
  clearing : Nat := 0

inductive AclOp
  | tick (elapsed : Nat)
  | enter (i : Nat) (q : AclQuery)
  | lookup (i : Nat)
  | evaluate (i : Nat)
  | insert (i : Nat)
  | swap (file : Option (List AclEntry))
  | clear

namespace AclEngine

variable (e : AclEngine)

def setPhase (i : Nat) (c : AuthorizeCall) (phase : CallPhase) : Nat → Option AuthorizeCall :=
  Function.update e.calls i (some { c with phase := phase })

def cached (k : CacheKey) : Option Bool :=
  match e.cache k with
  | some d => if e.now< d.expiresAt then some d.allowed else none
  | none => none

def lookup (i : Nat) (c : AuthorizeCall) : AclEngine :=
  { e with calls := e.setPhase i c (match e.cached c.query.key with
    | some allowed => .returned allowed
    | none => .missed) }

def evaluateCall (i : Nat) (c : AuthorizeCall) : AclEngine :=
  { e with calls := e.setPhase i c (.decided (c.query.decide e.rules)) }

def insertCall (i : Nat) (c : AuthorizeCall) (allowed : Bool) : AclEngine :=
  { e with
    cache := Function.update e.cache c.query.key (some ⟨allowed,e.now+cacheTtl⟩)
    calls := e.setPhase i c (.returned allowed) }

/-- One atomic step; a step that is not due leaves the engine as it is. -/
def exec (e : AclEngine) : AclOp → AclEngine
  | .tick elapsed => { e with now := e.now+elapsed }
  | .enter i q => match e.calls i with
    | none => { e with calls := Function.update e.calls i (some ⟨q,.entered⟩) }
    | some _ => e
  | .lookup i => match e.calls i with
    | some ⟨q,.entered⟩ => e.lookup i ⟨q,.entered⟩
    | _ => e
  | .evaluate i => match e.calls i with
    | some ⟨q,.missed⟩ => e.evaluateCall i ⟨q,.missed⟩
    | _ => e
  | .insert i => match e.calls i with
    | some ⟨q,.decided allowed⟩ => e.insertCall i ⟨q,.decided allowed⟩ allowed
    | _ => e
  | .swap file => { e with rules := loadRules file,clearing := e.clearing+1 }
  | .clear => if e.clearing=0 then e else { e with cache := fun _ => none,clearing := e.clearing-1 }

def reload (file : Option (List AclEntry)) : AclEngine := (e.exec (.swap file)).exec .clear

def authorize (i : Nat) (q : AclQuery) : AclEngine :=
  (((e.exec (.enter i q)).exec (.lookup i)).exec (.evaluate i)).exec (.insert i)

def answer (i : Nat) : Option Bool :=
  match e.calls i with
  | some ⟨_,.returned allowed⟩ => some allowed
  | _ => none

end AclEngine

theorem AclEngine.authorize_reload {e : AclEngine} (hi : e.calls i=none) (file : Option (List AclEntry))
    (q : AclQuery) : ((e.reload file).authorize i q).answer i=some (q.decide (loadRules file)) := by
  simp [reload,authorize,answer,exec,hi,AclEngine.lookup,cached,setPhase,evaluateCall,insertCall]

def AclStep (e : AclEngine) (op : AclOp) (e' : AclEngine) : Prop := e'=e.exec op

theorem AclStep.taken (e : AclEngine) (op : AclOp) : AclStep e op (e.exec op) := rfl

def AclOp.isReload : AclOp → Bool
  | .swap _ => true
  | .clear => true
  | _ => false

/-- A call inserts what the rules in force say, or a reload has yet to clear the cache. -/
def AclEngine.insertTimely (e : AclEngine) : AclOp → Bool
  | .insert i => match e.calls i with
    | some ⟨q,.decided allowed⟩ => allowed==q.decide e.rules || decide (0< e.clearing)
    | _ => true
  | _ => true

def InsertTimely (e : AclEngine) (op : AclOp) : Prop := e.insertTimely op=true

instance (e : AclEngine) (op : AclOp) : Decidable (InsertTimely e op) :=
  inferInstanceAs (Decidable (_=true))

theorem InsertTimely.insert {e : AclEngine} (h : InsertTimely e (.insert i))
    (hc : e.calls i=some ⟨q,.decided allowed⟩) :
    allowed=q.decide e.rules ∨ 0< e.clearing := by
  simpa [InsertTimely,AclEngine.insertTimely,hc] using h

def CacheFresh (e : AclEngine) : Prop :=
  e.clearing=0 → ∀(q : AclQuery) (d : CachedDecision),e.cache q.key=some d → d.allowed=q.decide e.rules

theorem cacheFresh_insert {e : AclEngine} (h : CacheFresh e) {c : AuthorizeCall}
    (hin : allowed=c.query.decide e.rules ∨ 0< e.clearing) : CacheFresh (e.insertCall i c allowed) := by
  intro h0 q d hd
  have hnow : allowed=c.query.decide e.rules := hin.resolve_right (Nat.not_lt.mpr (Nat.le_of_eq h0))
  by_cases hk : q.key=c.query.key
  · have hd' : Function.update e.cache c.query.key (some ⟨allowed,e.now+cacheTtl⟩) q.key=some d := hd
    rw [hk,Function.update_self] at hd'
    obtain rfl := Option.some.inj hd'
    exact hnow.trans (AclQuery.decide_of_key hk e.rules).symm
  · have hd' : Function.update e.cache c.query.key (some ⟨allowed,e.now+cacheTtl⟩) q.key=some d := hd
    rw [Function.update_of_ne hk] at hd'
    exact h h0 q d hd'

theorem cacheFresh_exec {e : AclEngine} (h : CacheFresh e) {op : AclOp} (hok : InsertTimely e op) :
    CacheFresh (e.exec op) := by
  cases op with
  | tick elapsed => exact h
  | enter i q | lookup i | evaluate i =>
    simp only [AclEngine.exec]
    split <;> exact h
  | insert i =>
    simp only [AclEngine.exec]
    split
    · rename_i q allowed hc
      exact cacheFresh_insert h (hok.insert hc)
    · exact h
  | swap file => exact nofun
  | clear =>
    simp only [AclEngine.exec]
    split
    · exact h
    · exact fun _ _ _ hd => nomatch hd

def CallSound (rules : List AclRule) (q : AclQuery) (c : AuthorizeCall) : Prop :=
  c.query=q ∧ ∀allowed,c.phase=.decided allowed ∨ c.phase=.returned allowed → allowed=q.decide rules

/-- A call under way under rules that no reload is changing. -/
structure CallFresh (inForce : List AclRule) (i : Nat) (q : AclQuery) (e : AclEngine) : Prop where
  rules : e.rules=inForce
  settled : e.clearing=0
  cache : CacheFresh e
  call : ∃c,e.calls i=some c ∧ CallSound inForce q c

theorem callSound_setPhase {rules : List AclRule} {e : AclEngine} {j : Nat}
    {c : AuthorizeCall} {phase : CallPhase} (h : ∃c,e.calls i=some c ∧ CallSound rules q c)
    (hc : e.calls j=some c)
    (hs : c.query=q → ∀allowed,phase=.decided allowed ∨ phase=.returned allowed → allowed=q.decide rules) :
    ∃c',e.setPhase j c phase i=some c' ∧ CallSound rules q c' := by
  obtain ⟨ci,hi,hq,hsound⟩ := h
  by_cases hij : i=j
  · subst hij
    obtain rfl : c=ci := Option.some.inj (hc.symm.trans hi)
    exact ⟨_,Function.update_self ..,hq,hs hq⟩
  · exact ⟨ci,(Function.update_of_ne hij ..).trans hi,hq,hsound⟩

theorem AclEngine.cached_sound {e : AclEngine} (h : CacheFresh e) (h0 : e.clearing=0)
    (hc : e.cached q.key=some allowed) : allowed=q.decide e.rules := by
  unfold AclEngine.cached at hc
  split at hc
  · rename_i d hd
    split at hc
    · obtain rfl := Option.some.inj hc
      exact h h0 q d hd
    · cases hc
  · cases hc

theorem callFresh_exec {rules : List AclRule} {e : AclEngine} (h : CallFresh rules i q e)
    {op : AclOp} (hok : InsertTimely e op) (hno : op.isReload=false) : CallFresh rules i q (e.exec op) := by
  cases op with
  | tick elapsed => exact ⟨h.rules,h.settled,h.cache,h.call⟩
  | enter j q' =>
    simp only [AclEngine.exec]
    split
    · rename_i hj
      refine ⟨h.rules,h.settled,h.cache,?_⟩
      obtain ⟨c,hc,hs⟩ := h.call
      have hij : i≠j := fun hij => by rw [hij,hj] at hc; cases hc
      exact ⟨c,(Function.update_of_ne hij ..).trans hc,hs⟩
    · exact h
  | lookup j =>
    simp only [AclEngine.exec]
    split
    · rename_i q' hj
      refine ⟨h.rules,h.settled,h.cache,callSound_setPhase h.call hj fun hq allowed hp => ?_⟩
      obtain rfl : q'=q := hq
      rw [← h.rules]
      cases hc : e.cached q'.key with
      | none => simp [hc] at hp
      | some found =>
        simp only [hc,reduceCtorEq,CallPhase.returned.injEq,false_or] at hp
        exact hp ▸ e.cached_sound h.cache h.settled hc
    · exact h
  | evaluate j =>
    simp only [AclEngine.exec]
    split
    · rename_i q' hj
      refine ⟨h.rules,h.settled,h.cache,callSound_setPhase h.call hj fun hq allowed hp => ?_⟩
      obtain rfl : q'=q := hq
      simp only [reduceCtorEq,CallPhase.decided.injEq,or_false] at hp
      rw [← hp,h.rules]
    · exact h
  | insert j =>
    simp only [AclEngine.exec]
    split
    · rename_i q' allowed hj
      have hin := hok.insert hj
      refine ⟨h.rules,h.settled,cacheFresh_insert h.cache hin,
        callSound_setPhase h.call hj fun hq found hp => ?_⟩
      obtain rfl : q'=q := hq
      simp only [reduceCtorEq,CallPhase.returned.injEq,false_or] at hp
      rw [← hp,← h.rules]
      exact hin.resolve_right (Nat.not_lt.mpr (Nat.le_of_eq h.settled))
    · exact h
  | swap file => cases hno
  | clear => cases hno

/-- A call of `authorize` with no reload under way gives the decision of the rules in force, over
all interleavings in which decisions are inserted timely. A deny among them is never overridden. -/
theorem authorize_is_fresh {s t : AclEngine} {i : Nat} {q : AclQuery} {allowed : Bool}
    (hrun : Reaches AclStep InsertTimely {} s) (hidle : s.clearing=0) (hnew : s.calls i=none)
    (hcall : Reaches AclStep (fun e op => InsertTimely e op ∧
    op.isReload=false) (s.exec (.enter i q)) t) (hret : t.answer i=some allowed) :
    allowed=q.decide s.rules ∧
      ((∃r∈s.rules,r.covers q.principal q.resource q.op=true ∧ r.deny=true) → allowed=false) := by
  have hs : CacheFresh s :=
    hrun.invariant (fun _ _ _ hd => nomatch hd) fun e op e' h hok he => he ▸ cacheFresh_exec h hok
  have hstart : CallFresh s.rules i q (s.exec (.enter i q)) := by
    have hexec : s.exec (.enter i q)={ s with calls := Function.update s.calls i (some ⟨q,.entered⟩) } := by
      simp only [AclEngine.exec,hnew]
    rw [hexec]
    exact ⟨rfl,hidle,hs,_,Function.update_self ..,rfl,by simp⟩
  have ht : CallFresh s.rules i q t :=
    hcall.invariant hstart fun e op e' h hok he => he ▸ callFresh_exec h hok.1 hok.2
  obtain ⟨⟨q',phase⟩,hc,-,hsound⟩ := ht.call
  have hphase : phase=.returned allowed := by
    simp only [AclEngine.answer,hc] at hret
    cases phase with
    | returned found => exact congrArg _ (Option.some.inj hret)
    | entered => cases hret
    | missed => cases hret
    | decided found => cases hret
  have hdec : allowed=q.decide s.rules := hsound allowed (.inr hphase)
  refine ⟨hdec,?_⟩
  rintro ⟨r,hr,hcov,hdeny⟩
  exact hdec.trans (evaluate_of_deny hr hcov hdeny)

def aliceReads : AclQuery := ⟨⟨"alice",.user⟩,⟨.topic,"orders"⟩,.read⟩

def ordersEntry (permission : String) : AclEntry :=
  ⟨"User:alice",⟨"topic","orders","literal"⟩,["Read"],permission⟩

theorem authorize_is_fresh_deny :
    ∃s t : AclEngine,Reaches AclStep InsertTimely {} s ∧ s.clearing=0 ∧ s.calls 1=none ∧
      Reaches AclStep (fun e op => InsertTimely e op ∧ op.isReload=false) (s.exec (.enter 1 aliceReads)) t ∧
      t.answer 1=some false ∧ false=aliceReads.decide s.rules := by
  have hfound : ∃s,Reaches AclStep InsertTimely {} s ∧ s.clearing=0 ∧ s.calls 1=none ∧
      ∃t∈runChecked (fun e op => some (AclEngine.exec e op)) (fun e op => InsertTimely e op ∧ op.isReload=false)
        [.lookup 1,.evaluate 1,.insert 1] (s.exec (.enter 1 aliceReads)),t.answer 1=some false :=
    runChecked_finds AclStep.taken
      [.swap (some [ordersEntry "Allow"]),.clear,.enter 0 aliceReads,.lookup 0,.evaluate 0,
        .insert 0,.swap (some [ordersEntry "Deny"]),.clear] (by decide +kernel)
  obtain ⟨s,hrun,hidle,hnew,hthen⟩ := hfound
  obtain ⟨t,hcall,hret⟩ := runChecked_finds AclStep.taken _ hthen
  exact ⟨s,t,hrun,hidle,hnew,hcall,hret,(authorize_is_fresh hrun hidle hnew hcall hret).1⟩

/-- A call evaluates under the old rules, a reload stores a deny and clears the cache, and the call
then inserts what it had decided: the next call, long after, is still allowed. -/
theorem stale_allow_outlives_reload :
    ∃s t : AclEngine,Reaches AclStep (fun _ _ => True) {} s ∧ s.clearing=0 ∧ s.calls 1=none ∧
      Reaches AclStep (fun _ op => op.isReload=false) (s.exec (.enter 1 aliceReads)) t ∧
      t.answer 1=some true ∧ aliceReads.decide s.rules=false ∧
      (∃r∈s.rules,r.covers aliceReads.principal aliceReads.resource aliceReads.op=true ∧ r.deny=true) := by
  have hfound : ∃s,Reaches AclStep (fun _ _ => True) {} s ∧ s.clearing=0 ∧ s.calls 1=none ∧
      aliceReads.decide s.rules=false ∧
      (∃r∈s.rules,r.covers aliceReads.principal aliceReads.resource aliceReads.op=true ∧ r.deny=true) ∧
      ∃t∈runChecked (fun e op => some (AclEngine.exec e op)) (fun _ op => op.isReload=false)
        [.lookup 1] (s.exec (.enter 1 aliceReads)),t.answer 1=some true :=
    runChecked_finds AclStep.taken
      [.swap (some [ordersEntry "Allow"]),.clear,.enter 0 aliceReads,.lookup 0,.evaluate 0,
        .swap (some [ordersEntry "Deny"]),.clear,.insert 0,.tick 1000] (by decide +kernel)
  obtain ⟨s,hrun,hidle,hnew,hdeny,hrule,hthen⟩ := hfound
  obtain ⟨t,hcall,hret⟩ := runChecked_finds AclStep.taken _ hthen
  exact ⟨s,t,hrun,hidle,hnew,hcall,hret,hdeny,hrule⟩

end Kaas
