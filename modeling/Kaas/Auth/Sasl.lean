import Kaas.Math.BigEndian
import Kaas.Auth.Acls
import Kaas.Framework.Run

namespace Kaas

/-- The engine of one listener. `χ` is the state of an exchange and `ε` all that the engine reads
besides it: credentials, nonces, keys, the clock. -/
structure AuthEngine (χ ε : Type) where
  requiresPreAuth : Bool
  mechanisms : List String
  newSaslExchange : ε → String → Except String χ
  step : ε → χ → Bytes → Except String (χ × Bytes × Bool)
  principal : χ → Option Principal
  sessionLifetimeMs : χ → Int

structure VersionRange where
  min : Int
  max : Int

/-- A listener with its engine, the registered handlers and the decoders of the two SASL
requests. -/
structure Listener (χ ε : Type) where
  engine : AuthEngine χ ε
  slots : Nat → Option VersionRange
  decodeHandshake : Int → Bytes → Option String
  decodeAuthenticate : Int → Bytes → Option Bytes

structure SaslExchange (χ : Type) where
  mechanism : String
  state : χ

structure ConnState (χ : Type) where
  isTls : Bool
  principal : Option Principal := none
  saslDone : Bool := false
  saslMechanism : Option String := none
  saslState : Option (SaslExchange χ) := none
  sessionDeadline : Option Nat := none

inductive ConnEvent
  | stamped (principal : Option Principal)
  | ran (apiKey : Int) (now : Nat)
  | stepped (mechanism : String)
  | done (principal : Option Principal) (deadline : Option Nat)
  | refused (principal : Option Principal)
deriving DecidableEq

structure ConnWorld (χ : Type) where
  conn : ConnState χ
  now : Nat := 0
  log : List ConnEvent := []

structure ConnRequest (ε : Type) where
  apiKey : Int
  apiVersion : Int
  body : Bytes
  env : ε
  took : Nat

inductive ConnReply
  | error (code : Int)
  | handshake (code : Int) (mechanisms : List String)
  | authenticate (code : Int) (message : Option String) (authBytes : Bytes) (sessionLifetimeMs : Int)
  | handled

def preAuthKeys : List Int := [17,18,36]

def isPreAuth (apiKey : Int) : Bool := preAuthKeys.contains apiKey

def reusableCredentialMechs : List String := ["PLAIN","OAUTHBEARER"]

def saslEncodeErr (code : Int) (message : String) : ConnReply := .authenticate code (some message) [] 0

/-- `Instant::now` plus the lifetime in milliseconds; a lifetime that is not positive bounds
nothing. -/
def sessionDeadlineOf (now : Nat) (lifetimeMs : Int) : Option Nat :=
  if 0<lifetimeMs then some (now+lifetimeMs.toNat*1000000) else none

def samePrincipal : Option Principal → Option Principal → Bool
  | some old,some new => old.name=new.name
  | none,none => true
  | _,_ => false

section Handlers

variable {χ ε : Type} (L : Listener χ ε)

def SaslHandshakeHandler.handle (conn : ConnState χ) (version : Int) (body : Bytes) : ConnState χ × ConnReply :=
  match L.decodeHandshake version body with
  | none => (conn,.error 35)
  | some mechanism =>
    if L.engine.mechanisms.contains mechanism then
      ({ conn with saslMechanism := some mechanism },.handshake 0 L.engine.mechanisms)
    else (conn,.handshake 33 L.engine.mechanisms)

/-- The exchange is made on the first call; without a handshake it is SCRAM. -/
def openExchange (conn : ConnState χ) (env : ε) : Except String (ConnState χ) :=
  match conn.saslState with
  | some _ => .ok conn
  | none =>
    let mechanism := conn.saslMechanism.getD "SCRAM-SHA-512"
    match L.engine.newSaslExchange env mechanism with
    | .ok state => .ok { conn with saslState := some ⟨mechanism,state⟩ }
    | .error err => .error err

/-- The end of an exchange that reported done, at time `now`; the exchange is consumed. -/
def finishExchange (conn : ConnState χ) (state : χ) (msg : Bytes) (now : Nat) :
    ConnState χ × List ConnEvent × ConnReply :=
  let principal := L.engine.principal state
  let lifetime := L.engine.sessionLifetimeMs state
  if conn.saslDone && !samePrincipal conn.principal principal then
    (conn,[.refused principal],saslEncodeErr 58 "re-authentication cannot change the principal")
  else
    ({ conn with
      principal := principal
      saslDone := true
      sessionDeadline := sessionDeadlineOf now lifetime },
      [.done principal (sessionDeadlineOf now lifetime)],.authenticate 0 none msg lifetime)

/-- The exchange is taken out, stepped, and put back only when it goes on. -/
def stepExchange (conn : ConnState χ) (env : ε) (authBytes : Bytes) (now : Nat) :
    ConnState χ × List ConnEvent × ConnReply :=
  match conn.saslState with
  | none => (conn,[],saslEncodeErr 13 "missing SASL state")
  | some ex =>
    let taken : ConnState χ := { conn with saslState := none }
    match L.engine.step env ex.state authBytes with
    | .error err => (taken,[.stepped ex.mechanism],saslEncodeErr 58 err)
    | .ok (state,msg,true) =>
      let (finished,events,reply) := finishExchange L taken state msg now
      (finished,.stepped ex.mechanism::events,reply)
    | .ok (state,msg,false) =>
      ({ taken with saslState := some { ex with state := state } },[.stepped
        ex.mechanism],.authenticate 0 none msg 0)

def SaslAuthenticateHandler.handle (conn : ConnState χ) (version : Int) (body : Bytes) (env : ε)
    (now : Nat) : ConnState χ × List ConnEvent × ConnReply :=
  match L.decodeAuthenticate version body with
  | none => (conn,[],.error 35)
  | some authBytes =>
    let mech := conn.saslMechanism.getD ""
    if reusableCredentialMechs.contains mech && !conn.isTls then
      (conn,[],saslEncodeErr 13 (mech++" mechanism requires TLS"))
    else match openExchange L conn env with
      | .error err => (conn,[],saslEncodeErr 33 err)
      | .ok opened => stepExchange L opened env authBytes now

def sessionExpired (conn : ConnState χ) (now : Nat) : Bool :=
  match conn.sessionDeadline with
  | some deadline => deadline≤now
  | none => false

/-- The pre-auth gate, the handler's slot and the version it is called with. -/
def preAuthGate (w : ConnWorld χ) (apiKey apiVersion : Int) : Except Int Int :=
  if L.engine.requiresPreAuth && !w.conn.saslDone && !isPreAuth apiKey then .error 31
  else if sessionExpired w.conn w.now && !isPreAuth apiKey then .error 58
  else if apiKey<0 ∨ 96≤apiKey then .error 35
  else match L.slots apiKey.toNat with
    | none => .error 35
    | some slot =>
      if apiVersion<slot.min ∨ slot.max<apiVersion then
        if apiKey=18 then .ok slot.max else .error 35
      else .ok apiVersion

/-- The handler of an admitted request; only the two SASL handlers write to the connection's
state. -/
def serve (w : ConnWorld χ) (r : ConnRequest ε) (version : Int) : ConnState χ × List ConnEvent × ConnReply :=
  if r.apiKey=17 then
    let (conn,reply) := SaslHandshakeHandler.handle L w.conn version r.body
    (conn,[],reply)
  else if r.apiKey=36 then SaslAuthenticateHandler.handle L w.conn version r.body r.env (w.now+r.took)
  else (w.conn,[],.handled)

def dispatchRequest (w : ConnWorld χ) (r : ConnRequest ε) : ConnWorld χ × ConnReply :=
  match preAuthGate L w r.apiKey r.apiVersion with
  | .error code => (w,.error code)
  | .ok version =>
    let (conn,events,reply) := serve L w r version
    (⟨conn,w.now+r.took,w.log++.ran r.apiKey w.now::events⟩,reply)

inductive ConnOp (ε : Type)
  | tick (elapsed : Nat)
  | request (r : ConnRequest ε)

def ConnWorld.exec (w : ConnWorld χ) : ConnOp ε → ConnWorld χ
  | .tick elapsed => { w with now := w.now+elapsed }
  | .request r => (dispatchRequest L w r).1

def ConnStep (w : ConnWorld χ) (op : ConnOp ε) (w' : ConnWorld χ) : Prop := w'=w.exec L op

theorem ConnStep.taken (w : ConnWorld χ) (op : ConnOp ε) : ConnStep L w op (w.exec L op) := rfl

/-- A connection as `serve_conn` starts it; a client certificate counts only under TLS. -/
def acceptConn (isTls : Bool) (mtls : Option Principal) : ConnWorld χ :=
  match isTls,mtls with
  | true,some principal =>
    { conn := { isTls := true,principal := some principal,saslDone := true }
      log := [.stamped (some principal)] }
  | _,_ => { conn := { isTls := isTls } }

end Handlers

def ConnEvent.success : ConnEvent → Option (Option Principal)
  | .stamped principal => some principal
  | .done principal _ => some principal
  | _ => none

def ConnEvent.nextDeadline (deadline : Option Nat) : ConnEvent → Option Nat
  | .done _ next => next
  | _ => deadline

/-- The session deadline in force after a history: that of the last exchange that was done. -/
def deadlineAfter (log : List ConnEvent) : Option Nat := log.foldl ConnEvent.nextDeadline none

/-- A handler other than the three pre-authentication ones runs only after a success, and within the
session. -/
def RunAllowed (before : List ConnEvent) : ConnEvent → Prop
  | .ran apiKey now => apiKey∉preAuthKeys →
      (∃e∈before,e.success.isSome=true) ∧ ∀deadline,deadlineAfter before=some deadline → now< deadline
  | _ => True

def MechAllowed (isTls : Bool) (mechanism : String) : Prop :=
  mechanism∈reusableCredentialMechs → isTls=true

theorem samePrincipal_name {old new : Option Principal} (h : samePrincipal old new=true) :
    old.map Principal.name=new.map Principal.name := by
  cases old <;> cases new <;> simp_all [samePrincipal]

variable {events : List ConnEvent}

section Changes

variable {χ ε : Type}

/-- What the handlers can do to a connection, with the events of it. -/
inductive ConnChange (conn : ConnState χ) : ConnState χ → List ConnEvent → Prop
  | unchanged : ConnChange conn conn []
  | picked (mechanism : String) : ConnChange conn { conn with saslMechanism := some mechanism } []
  | going (ex : SaslExchange χ) (allowed : MechAllowed conn.isTls ex.mechanism) :
      ConnChange conn { conn with saslState := some ex } [.stepped ex.mechanism]
  | failed (mechanism : String) (allowed : MechAllowed conn.isTls mechanism) :
      ConnChange conn { conn with saslState := none } [.stepped mechanism]
  | refused (mechanism : String) (allowed : MechAllowed conn.isTls mechanism) (principal : Option Principal) :
      ConnChange conn { conn with saslState := none } [.stepped mechanism,.refused principal]
  | done (mechanism : String) (allowed : MechAllowed conn.isTls mechanism) (principal : Option Principal)
      (deadline : Option Nat) (same : conn.saslDone=true → samePrincipal conn.principal principal=true) :
      ConnChange conn { conn with
        saslState := none
        principal := principal
        saslDone := true
        sessionDeadline := deadline } [.stepped mechanism,.done principal deadline]

theorem ConnChange.isTls {conn conn' : ConnState χ} (h : ConnChange conn conn' events) :
    conn'.isTls=conn.isTls := by
  cases h <;> rfl

variable (L : Listener χ ε) {conn : ConnState χ}

theorem openExchange_spec (hlive : ∀ex,conn.saslState=some ex → MechAllowed conn.isTls ex.mechanism)
    (hmech : MechAllowed conn.isTls (conn.saslMechanism.getD "")) {env : ε} {opened : ConnState χ}
    (h : openExchange L conn env=.ok opened) :
    ∃ex,opened={ conn with saslState := some ex } ∧ MechAllowed conn.isTls ex.mechanism := by
  unfold openExchange at h
  split at h
  · rename_i ex hex
    obtain rfl := Except.ok.inj h
    exact ⟨ex,by rw [← hex],hlive ex hex⟩
  · simp only at h
    split at h
    · obtain rfl := Except.ok.inj h
      refine ⟨_,rfl,?_⟩
      cases hm : conn.saslMechanism with
      | none => exact fun hin => absurd hin (show "SCRAM-SHA-512"∉reusableCredentialMechs by decide)
      | some mechanism => simpa [hm] using hmech
    · cases h

theorem stepExchange_change {ex : SaslExchange χ} (hex : MechAllowed conn.isTls ex.mechanism)
    (env : ε) (authBytes : Bytes) (now : Nat) :
    ConnChange conn (stepExchange L { conn with saslState := some ex } env authBytes now).1
      (stepExchange L { conn with saslState := some ex } env authBytes now).2.1 := by
  simp only [stepExchange]
  split
  · exact .failed _ hex
  · rename_i state msg _
    simp only [finishExchange]
    split
    · exact .refused _ hex _
    · rename_i hsame
      refine .done _ hex _ _ fun hdone => ?_
      simpa [hdone] using hsame
  · exact .going { ex with state := _ } hex

theorem authenticate_change (hlive : ∀ex,conn.saslState=some ex →
    MechAllowed conn.isTls ex.mechanism) (version : Int) (body : Bytes) (env : ε) (now : Nat) :
    ConnChange conn (SaslAuthenticateHandler.handle L conn version body env now).1
      (SaslAuthenticateHandler.handle L conn version body env now).2.1 := by
  unfold SaslAuthenticateHandler.handle
  split
  · exact .unchanged
  · simp only
    split
    · exact .unchanged
    · rename_i htls
      have hmech : MechAllowed conn.isTls (conn.saslMechanism.getD "") := by
        intro hin
        simpa [hin] using htls
      split
      · exact .unchanged
      · rename_i opened hopen
        obtain ⟨ex,rfl,hex⟩ := openExchange_spec L hlive hmech hopen
        exact stepExchange_change L hex ..

theorem serve_change {w : ConnWorld χ}
    (hlive : ∀ex,w.conn.saslState=some ex → MechAllowed w.conn.isTls ex.mechanism)
    (r : ConnRequest ε) (version : Int) :
    ConnChange w.conn (serve L w r version).1 (serve L w r version).2.1 := by
  unfold serve
  split
  · simp only [SaslHandshakeHandler.handle]
    split
    · exact .unchanged
    · split
      · exact .picked _
      · exact .unchanged
  · split
    · exact authenticate_change L hlive ..
    · exact .unchanged

structure ConnSound (w : ConnWorld χ) : Prop where
  deadline : w.conn.sessionDeadline=deadlineAfter w.log
  authenticated : w.conn.saslDone=true → ∃e∈w.log,e.success.isSome=true
  names : ∀e∈w.log,∀principal,e.success=some principal →
    w.conn.saslDone=true ∧ w.conn.principal.map Principal.name=principal.map Principal.name
  live : ∀ex,w.conn.saslState=some ex → MechAllowed w.conn.isTls ex.mechanism
  stepped : ∀mechanism,.stepped mechanism∈w.log → MechAllowed w.conn.isTls mechanism
  lawful : Lawful RunAllowed w.log

theorem deadlineAfter_append (log more : List ConnEvent) :
    deadlineAfter (log++more)=more.foldl ConnEvent.nextDeadline (deadlineAfter log) :=
  List.foldl_append

theorem foldl_nextDeadline (h : ∀e∈events,∀d,e.nextDeadline d=d) (d : Option Nat) :
    events.foldl ConnEvent.nextDeadline d=d := by
  induction events with
  | nil => rfl
  | cons e events ih =>
    rw [List.foldl_cons,h e (List.mem_cons_self ..)]
    exact ih fun e he => h e (List.mem_cons_of_mem _ he)

theorem ConnSound.quiet {w : ConnWorld χ} (h : ConnSound w) {conn : ConnState χ} {now : Nat}
    (hconn : (conn.isTls,conn.principal,conn.saslDone,conn.sessionDeadline)=
      (w.conn.isTls,w.conn.principal,w.conn.saslDone,w.conn.sessionDeadline))
    (hlive : ∀ex,conn.saslState=some ex → MechAllowed w.conn.isTls ex.mechanism)
    (hquiet : ∀e∈events,e.success=none ∧ ∀d,e.nextDeadline d=d)
    (hstep : ∀mechanism,.stepped mechanism∈events → MechAllowed w.conn.isTls mechanism)
    (hlaw : Lawful RunAllowed (w.log++events)) : ConnSound ⟨conn,now,w.log++events⟩ := by
  simp only [Prod.mk.injEq] at hconn
  obtain ⟨htls,hp,hd,hdl⟩ := hconn
  refine ⟨?_,?_,?_,?_,?_,hlaw⟩
  · rw [deadlineAfter_append,foldl_nextDeadline fun e he => (hquiet e he).2]
    exact hdl.trans h.deadline
  · intro hdone
    obtain ⟨e,he,hs⟩ := h.authenticated (hd.symm.trans hdone)
    exact ⟨e,List.mem_append_left _ he,hs⟩
  · intro e he principal hs
    rcases List.mem_append.mp he with he | he
    · simp only [hd,hp]
      exact h.names e he principal hs
    · rw [(hquiet e he).1] at hs
      cases hs
  · simpa only [htls] using hlive
  · intro mechanism hm
    simp only [htls]
    rcases List.mem_append.mp hm with hm | hm
    · exact h.stepped mechanism hm
    · exact hstep mechanism hm

theorem ConnSound.done {w : ConnWorld χ} (h : ConnSound w) {mechanism : String}
    (hm : MechAllowed w.conn.isTls mechanism) {principal : Option Principal} {deadline : Option Nat}
    {now : Nat} (hsame : w.conn.saslDone=true → samePrincipal w.conn.principal principal=true)
    (hlaw : Lawful RunAllowed (w.log++[.stepped mechanism,.done principal deadline])) :
    ConnSound (χ := χ) ⟨{ w.conn with
      saslState := none
      principal := principal
      saslDone := true
      sessionDeadline := deadline },now,w.log++[.stepped mechanism,.done principal deadline]⟩ := by
  refine ⟨?_,fun _ => ?_,?_,nofun,?_,hlaw⟩
  · rw [deadlineAfter_append]
    rfl
  · exact ⟨.done principal deadline,by simp,rfl⟩
  · intro e he p hs
    refine ⟨rfl,?_⟩
    rcases List.mem_append.mp he with he | he
    · obtain ⟨hdone,hname⟩ := h.names e he p hs
      exact (samePrincipal_name (hsame hdone)).symm.trans hname
    · rcases List.mem_pair.mp he with rfl | rfl
      · cases hs
      · obtain rfl := Option.some.inj hs
        rfl
  · intro m hmem
    rcases List.mem_append.mp hmem with hmem | hmem
    · exact h.stepped m hmem
    · obtain rfl : m=mechanism := by simpa using hmem
      exact hm

theorem connSound_change {w : ConnWorld χ} (h : ConnSound w) {conn : ConnState χ} (now : Nat)
    (hc : ConnChange w.conn conn events) : ConnSound ⟨conn,now,w.log++events⟩ := by
  have hlaw (hfree : ∀e∈events,∀before,RunAllowed before e) : Lawful RunAllowed (w.log++events) :=
    h.lawful.append events hfree
  cases hc with
  | unchanged | picked mechanism => exact h.quiet rfl h.live nofun nofun (hlaw nofun)
  | going ex allowed =>
    refine h.quiet rfl ?_ ?_ ?_ (hlaw ?_)
    · intro ex' hex
      obtain rfl := Option.some.inj hex
      exact allowed
    · simp [ConnEvent.success,ConnEvent.nextDeadline]
    · simpa using allowed
    · simp [RunAllowed]
  | failed mechanism allowed | refused mechanism allowed principal =>
    refine h.quiet rfl nofun ?_ ?_ (hlaw ?_)
    · simp [ConnEvent.success,ConnEvent.nextDeadline]
    · simpa using allowed
    · simp [RunAllowed]
  | done mechanism allowed principal deadline same =>
    exact h.done allowed same (hlaw (by simp [RunAllowed]))

theorem gate_allowed {w : ConnWorld χ} (h : ConnSound w) (hpre : L.engine.requiresPreAuth=true)
    {apiKey apiVersion version : Int} (hgate : preAuthGate L w apiKey apiVersion=.ok version) :
    RunAllowed w.log (.ran apiKey w.now) := by
  intro hkey
  have hk : isPreAuth apiKey=false := by simpa [isPreAuth] using hkey
  unfold preAuthGate at hgate
  rw [hpre,hk] at hgate
  have hdone : w.conn.saslDone=true := by
    by_contra hno
    rw [if_pos (by simpa using hno)] at hgate
    cases hgate
  have hlive : sessionExpired w.conn w.now=false := by
    rw [if_neg (by simp [hdone])] at hgate
    by_contra hno
    rw [if_pos (by simpa using hno)] at hgate
    cases hgate
  refine ⟨h.authenticated hdone,fun deadline hd => ?_⟩
  simpa [sessionExpired,h.deadline,hd] using hlive

theorem connSound_exec {w : ConnWorld χ} (h : ConnSound w) (hpre : L.engine.requiresPreAuth=true)
    (op : ConnOp ε) : ConnSound (w.exec L op) := by
  cases op with
  | tick elapsed => exact ⟨h.deadline,h.authenticated,h.names,h.live,h.stepped,h.lawful⟩
  | request r =>
    simp only [ConnWorld.exec,dispatchRequest]
    cases hgate : preAuthGate L w r.apiKey r.apiVersion with
    | error code => exact h
    | ok version =>
      have hran : ConnSound ⟨w.conn,w.now,w.log++[.ran r.apiKey w.now]⟩ := by
        refine h.quiet rfl h.live ?_ ?_ (h.lawful.snoc (gate_allowed L h hpre hgate))
        · simp [ConnEvent.success,ConnEvent.nextDeadline]
        · simp
      have := connSound_change hran (w.now+r.took) (serve_change L h.live r version)
      simpa using this

theorem connSound_accept (isTls : Bool) (mtls : Option Principal) :
    ConnSound (acceptConn isTls mtls : ConnWorld χ) := by
  cases isTls with
  | false => exact ⟨rfl,nofun,nofun,nofun,nofun,.nil⟩
  | true =>
    cases mtls with
    | none => exact ⟨rfl,nofun,nofun,nofun,nofun,.nil⟩
    | some principal =>
      refine ⟨rfl,fun _ => ⟨_,List.mem_singleton.mpr rfl,rfl⟩,?_,nofun,?_,?_⟩
      · intro e he p hs
        obtain rfl := List.mem_singleton.mp he
        obtain rfl := Option.some.inj hs
        exact ⟨rfl,rfl⟩
      · intro m hm
        cases List.mem_singleton.mp hm
      · exact Lawful.snoc .nil trivial

theorem isTls_exec {w : ConnWorld χ} (h : ConnSound w) (op : ConnOp ε) :
    (w.exec L op).conn.isTls=w.conn.isTls := by
  cases op with
  | tick elapsed => rfl
  | request r =>
    simp only [ConnWorld.exec,dispatchRequest]
    cases preAuthGate L w r.apiKey r.apiVersion with
    | error code => rfl
    | ok version => exact (serve_change L h.live r version).isTls

end Changes

/-- On every connection that requires authentication, whatever the exchanges do: other handlers than
the three run only after a success or under a client certificate, and within the session; all
successes have the principal's name; and no reusable credential is stepped without TLS. -/
theorem sasl_gate_holds {χ ε : Type} (L : Listener χ ε) (hpre : L.engine.requiresPreAuth=true)
    (isTls : Bool) (mtls : Option Principal) {w : ConnWorld χ}
    (hrun : Reaches (ConnStep L) (fun _ _ => True) (acceptConn isTls mtls) w) :
    (∀before after apiKey now,w.log=before++.ran apiKey now::after → apiKey∉preAuthKeys →
      (∃e∈before,e.success.isSome=true) ∧ ∀deadline,deadlineAfter before=some deadline → now< deadline) ∧
    (∀e∈w.log,∀principal,e.success=some principal →
      w.conn.principal.map Principal.name=principal.map Principal.name) ∧
    (∀mechanism,.stepped mechanism∈w.log → mechanism∈reusableCredentialMechs → isTls=true) := by
  have htls : (acceptConn isTls mtls : ConnWorld χ).conn.isTls=isTls := by
    cases isTls <;> cases mtls <;> rfl
  have hkeep (w : ConnWorld χ) (op : ConnOp ε) (w' : ConnWorld χ)
    (hw : ConnSound w ∧ w.conn.isTls=isTls) (_ : True)
      (hstep : ConnStep L w op w') : ConnSound w' ∧ w'.conn.isTls=isTls := by
    obtain ⟨hs,ht⟩ := hw
    subst hstep
    exact ⟨connSound_exec L hs hpre op,(isTls_exec L hs op).trans ht⟩
  obtain ⟨hs,ht⟩ := hrun.invariant ⟨connSound_accept isTls mtls,htls⟩ hkeep
  refine ⟨fun before after apiKey now hl hk => hs.lawful.split hl hk,?_,?_⟩
  · exact fun e he principal hp => (hs.names e he principal hp).2
  · exact fun mechanism hm hin => ht ▸ hs.stepped mechanism hm hin

def oneStepListener : Listener Unit Unit where
  engine := {
    requiresPreAuth := true
    mechanisms := ["SCRAM-SHA-512","PLAIN"]
    newSaslExchange := fun _ _ => .ok ()
    step := fun _ _ _ => .ok ((),[],true)
    principal := fun _ => some ⟨"alice",.user⟩
    sessionLifetimeMs := fun _ => 1000 }
  slots := fun _ => some ⟨0,12⟩
  decodeHandshake := fun _ _ => some "PLAIN"
  decodeAuthenticate := fun _ body => some body

def connRequest (apiKey : Int) : ConnOp Unit := .request ⟨apiKey,1,[],(),5⟩

theorem sasl_gate_holds_plain :
    ∃w,Reaches (ConnStep oneStepListener) (fun _ _ => True) (acceptConn true none) w ∧
      w.log=[.ran 17 0,.ran 36 5]++[.stepped "PLAIN",
        .done (some ⟨"alice",.user⟩) (some 1000000010)]++ .ran 3 10::[] ∧
      10< 1000000010 ∧ w.conn.principal.map Principal.name=some "alice" := by
  obtain ⟨w,hw⟩ : ∃w,w=[connRequest 3,connRequest 17,connRequest 36,connRequest 3].foldl
      (fun w op => ConnWorld.exec oneStepListener w op) (acceptConn true none) := ⟨_,rfl⟩
  have hrun : Reaches (ConnStep oneStepListener) (fun _ _ => True) (acceptConn true none) w := by
    rw [hw]
    exact foldl_reaches (ConnStep.taken oneStepListener) _ _
  have hlog : w.log=[.ran 17 0,.ran 36 5]++[.stepped "PLAIN",
      .done (some ⟨"alice",.user⟩) (some 1000000010)]++ .ran 3 10::[] := by
    rw [hw]
    decide +kernel
  obtain ⟨hrule,hnames,-⟩ := sasl_gate_holds oneStepListener rfl true none hrun
  have hin := (hrule _ _ 3 10 hlog (by decide)).2 1000000010 rfl
  have hname := hnames (.done (some ⟨"alice",.user⟩) (some 1000000010)) (by simp [hlog]) _ rfl
  exact ⟨w,hrun,hlog,hin,hname⟩

end Kaas
