import Kaas.Math.BigEndian
import Mathlib.Data.List.Induction

namespace Kaas

/-! The SCRAM exchange of the server. A message is its text, or none where it is not UTF-8; the hash
functions are arbitrary and base64 is known by what the exchange needs of it. -/

abbrev ScramText := List Char

inductive ScramError where
  | malformedSaslMessage
  | badCredentials
  | base64
  deriving DecidableEq, Repr

structure ScramCreds where
  salt : Bytes
  iterations : Int
  storedKey : Bytes
  serverKey : Bytes
  deriving DecidableEq, Repr

structure ScramEnv where
  encode : Bytes → ScramText
  encodeNoPad : Bytes → ScramText
  decode : ScramText → Option Bytes
  hmac : Bytes → ScramText → Bytes
  hash : Bytes → Bytes
  lookupScram : ScramText → Option ScramCreds
  decode_encode : ∀b,decode (encode b)=some b
  encode_comma : ∀b,','∉encode b
  encodeNoPad_comma : ∀b,','∉encodeNoPad b

inductive ScramState where
  | start
  | awaitFinal
  | done
  deriving DecidableEq, Repr

structure ScramExchange where
  state : ScramState := .start
  username : ScramText := []
  clientFirstBare : ScramText := []
  serverFirst : ScramText := []
  storedKey : Bytes := []
  serverKey : Bytes := []
  fullNonce : ScramText := []
  principal : Option ScramText := none
  deriving DecidableEq, Repr

def parseAttr : ScramText → Option (Char × ScramText)
  | key:: '='::value => if key.toNat<128 then some (key,value) else none
  | _ => none

def parseAttrs (s : ScramText) : List (Char × ScramText) := (s.splitOn ',').filterMap parseAttr

def lastValue (key : Char) : List (Char × ScramText) → Option ScramText
  | [] => none
  | x::rest => (lastValue key rest).or (if x.1=key then some x.2 else none)

def attrOf (key : Char) (s : ScramText) : Option ScramText := lastValue key (parseAttrs s)

def afterHeader : ScramText → Option ScramText
  | ',':: ','::rest => some rest
  | _::rest => afterHeader rest
  | [] => none

/-- What stands before the last `,p=`, and what after it. -/
def splitProof : ScramText → Option (ScramText × ScramText)
  | [] => none
  | c::rest =>
    ((splitProof rest).map fun x => (c::x.1,x.2)).or
      (if c= ',' ∧ rest.take 2=['p','='] then some ([],rest.drop 2) else none)

def serverFirstText (env : ScramEnv) (nonce : ScramText) (creds : ScramCreds) : ScramText :=
  'r':: '='::nonce++ ',':: 's':: '='::env.encode creds.salt++ ',':: 'i'::
    '='::(toString creds.iterations).toList

def authMessage (first serverFirst final : ScramText) : ScramText := first++ ','::serverFirst++ ','::final

def xorBytes (a b : Bytes) : Bytes := List.zipWith (fun x y => x ^^^ y) a b

section Model

variable (env : ScramEnv)

def handleClientFirst (x : ScramExchange) (msg : Option ScramText) (suffix : Bytes) :
    ScramExchange × Except ScramError (ScramText × Bool) :=
  match msg.bind afterHeader with
  | none => (x,.error .malformedSaslMessage)
  | some bare =>
    match attrOf 'n' bare with
    | none => ({x with clientFirstBare := bare},.error .malformedSaslMessage)
    | some username =>
      match attrOf 'r' bare with
      | none => ({x with clientFirstBare := bare},.error .malformedSaslMessage)
      | some clientNonce =>
        match env.lookupScram username with
        | none => ({x with clientFirstBare := bare,username := username},.error .badCredentials)
        | some creds =>
          let nonce := clientNonce++env.encodeNoPad suffix
          let serverFirst := serverFirstText env nonce creds
          ({x with clientFirstBare := bare,username := username,storedKey := creds.storedKey,
                   serverKey := creds.serverKey,
                   fullNonce := nonce,serverFirst := serverFirst,state := .awaitFinal},.ok (serverFirst,false))

def handleClientFinal (x : ScramExchange) (msg : Option ScramText) :
    ScramExchange × Except ScramError (ScramText × Bool) :=
  match msg.bind splitProof with
  | none => (x,.error .malformedSaslMessage)
  | some (withoutProof,proofText) =>
    match attrOf 'r' withoutProof with
    | none => (x,.error .malformedSaslMessage)
    | some nonce =>
      if nonce≠x.fullNonce then (x,.error .badCredentials)
      else match env.decode proofText with
        | none => (x,.error .base64)
        | some proof =>
          let auth := authMessage x.clientFirstBare x.serverFirst withoutProof
          let sig := env.hmac x.storedKey auth
          if proof.length≠sig.length then (x,.error .badCredentials)
          else if env.hash (xorBytes proof sig)≠x.storedKey then (x,.error .badCredentials)
          else ({x with principal := some x.username,state := .done},
            .ok ('v':: '='::env.encode (env.hmac x.serverKey auth),true))

/-- A message, with the bytes the nonce source would give. -/
def scramStep (x : ScramExchange) (m : Option ScramText × Bytes) :
    ScramExchange × Except ScramError (ScramText × Bool) :=
  match x.state with
  | .start => handleClientFirst env x m.1 m.2
  | .awaitFinal => handleClientFinal env x m.1
  | .done => (x,.error .malformedSaslMessage)

def runScram (msgs : List (Option ScramText × Bytes)) : ScramExchange :=
  msgs.foldl (fun x m => (scramStep env x m).1) {}

end Model

section Texts

theorem afterHeader_flag {flag : ScramText} (h : ','∉flag) (bare : ScramText) :
    afterHeader (flag++ ',':: ','::bare)=some bare := by
  induction flag with
  | nil => rfl
  | cons c flag ih =>
    have hc : c≠ ',' := (List.ne_of_not_mem_cons h).symm
    rw [List.cons_append,afterHeader]
    · exact ih (List.not_mem_of_not_mem_cons h)
    · intro rest hrest
      exact absurd hrest hc

theorem splitProof_none {s : ScramText} (h : ','∉s) : splitProof s=none := by
  induction s with
  | nil => rfl
  | cons c rest ih =>
    have hc : c≠ ',' := (List.ne_of_not_mem_cons h).symm
    rw [splitProof,ih (List.not_mem_of_not_mem_cons h),if_neg fun hp => hc hp.1]
    rfl

theorem splitProof_proof {proof : ScramText} (h : ','∉proof) (w : ScramText) :
    splitProof (w++ ',':: 'p':: '='::proof)=some (w,proof) := by
  induction w with
  | nil =>
    have hnone : splitProof ('p':: '='::proof)=none := splitProof_none (by simpa using h)
    rw [List.nil_append,splitProof,hnone]
    rfl
  | cons c w ih => rw [List.cons_append,splitProof,ih]; rfl

theorem splitProof_eq {s w proof : ScramText} (h : splitProof s=some (w,proof)) :
    s=w++ ',':: 'p':: '='::proof := by
  induction s generalizing w with
  | nil => cases h
  | cons c rest ih =>
    rw [splitProof,Option.or_eq_some_iff] at h
    rcases h with h|⟨-,h⟩
    · obtain ⟨⟨w',proof'⟩,hrest,heq⟩ := Option.map_eq_some_iff.mp h
      obtain ⟨rfl,rfl⟩ := Prod.mk.inj heq
      rw [ih hrest,List.cons_append]
    · split_ifs at h with hp
      obtain ⟨rfl,rfl⟩ := Prod.mk.inj (Option.some.inj h)
      have htake := List.take_append_drop 2 rest
      rw [hp.2] at htake
      rw [← htake,hp.1]
      rfl

theorem lastValue_none {key : Char} {l : List (Char × ScramText)} (h : ∀x∈l,x.1≠key) :
    lastValue key l=none := by
  induction l with
  | nil => rfl
  | cons x l ih =>
    rw [lastValue,ih fun y hy => h y (List.mem_cons_of_mem x hy),if_neg (h x List.mem_cons_self)]
    rfl

theorem parseAttr_key {s : ScramText} {x : Char × ScramText} (h : parseAttr s=some x) : s=x.1:: '='::x.2 := by
  unfold parseAttr at h
  split at h
  · split_ifs at h
    cases h
    rfl
  · cases h

theorem xorBytes_cancel {key sig : Bytes} (h : sig.length=key.length) :
    xorBytes (xorBytes key sig) sig=key := by
  induction key generalizing sig with
  | nil => rfl
  | cons k key ih =>
    cases sig with
    | nil => cases h
    | cons c sig =>
      have hx : k ^^^ c ^^^ c=k := by rw [UInt8.xor_assoc,UInt8.xor_self,UInt8.xor_zero]
      have hrest := ih (Nat.succ.inj h)
      unfold xorBytes at hrest ⊢
      rw [List.zipWith_cons_cons,List.zipWith_cons_cons,hx,hrest]

end Texts

section Soundness

variable {env : ScramEnv} {x : ScramExchange} {msg : Option ScramText} {suffix : Bytes}

/-- A client-first message that is answered, and the texts it fixes. -/
structure Opens (env : ScramEnv) (first bare username clientNonce : ScramText) (creds : ScramCreds) : Prop where
  header : afterHeader first=some bare
  name : attrOf 'n' bare=some username
  nonce : attrOf 'r' bare=some clientNonce
  stored : env.lookupScram username=some creds

theorem handleClientFirst_cases (env : ScramEnv) (x : ScramExchange) (msg : Option ScramText) (suffix : Bytes) :
    ((∃e,(handleClientFirst env x msg suffix).2=.error e) ∧
      (handleClientFirst env x msg suffix).1.state=x.state ∧
      (handleClientFirst env x msg suffix).1.principal=x.principal) ∨
    ∃first bare username clientNonce creds,msg=some first ∧
      Opens env first bare username clientNonce creds ∧ handleClientFirst env x msg suffix=
        ({x with clientFirstBare := bare,username := username,storedKey := creds.storedKey,serverKey := creds.serverKey,
                 fullNonce := clientNonce++env.encodeNoPad suffix,
                 serverFirst := serverFirstText env (clientNonce++env.encodeNoPad suffix) creds,
                   state := .awaitFinal},
          .ok (serverFirstText env (clientNonce++env.encodeNoPad suffix) creds,false)) := by
  unfold handleClientFirst
  cases hbare : msg.bind afterHeader with
  | none => exact Or.inl ⟨⟨_,rfl⟩,rfl,rfl⟩
  | some bare =>
    obtain ⟨first,rfl,hheader⟩ := Option.bind_eq_some_iff.mp hbare
    dsimp only
    cases hname : attrOf 'n' bare with
    | none => exact Or.inl ⟨⟨_,rfl⟩,rfl,rfl⟩
    | some username =>
      dsimp only
      cases hnonce : attrOf 'r' bare with
      | none => exact Or.inl ⟨⟨_,rfl⟩,rfl,rfl⟩
      | some clientNonce =>
        dsimp only
        cases hcreds : env.lookupScram username with
        | none => exact Or.inl ⟨⟨_,rfl⟩,rfl,rfl⟩
        | some creds => exact Or.inr ⟨first,bare,username,clientNonce,creds,rfl,⟨hheader,hname,hnonce,hcreds⟩,rfl⟩

/-- The proof in a final message that a stored key and the texts before it ask for. -/
def Proves (env : ScramEnv) (storedKey : Bytes) (bare serverFirst nonce final : ScramText) : Prop :=
  ∃withoutProof proofText proof,final=withoutProof++ ',':: 'p':: '='::proofText ∧
    attrOf 'r' withoutProof=some nonce ∧ env.decode proofText=some proof ∧
    proof.length=(env.hmac storedKey (authMessage bare serverFirst withoutProof)).length ∧
    env.hash (xorBytes proof (env.hmac storedKey (authMessage bare serverFirst withoutProof)))=storedKey

theorem handleClientFinal_cases (env : ScramEnv) (x : ScramExchange) (msg : Option ScramText) :
    (∃e,handleClientFinal env x msg=(x,.error e)) ∨
    ∃final out,msg=some final ∧ Proves env x.storedKey x.clientFirstBare x.serverFirst x.fullNonce final ∧
      handleClientFinal env x msg=({x with principal := some x.username,state := .done},.ok (out,true)) := by
  unfold handleClientFinal
  cases hsplit : msg.bind splitProof with
  | none => exact Or.inl ⟨_,rfl⟩
  | some parts =>
    obtain ⟨final,rfl,hfinal⟩ := Option.bind_eq_some_iff.mp hsplit
    obtain ⟨withoutProof,proofText⟩ := parts
    dsimp only
    cases hnonce : attrOf 'r' withoutProof with
    | none => exact Or.inl ⟨_,rfl⟩
    | some nonce =>
      dsimp only
      by_cases heq : nonce=x.fullNonce
      · rw [if_neg (not_not.mpr heq)]
        cases hdecode : env.decode proofText with
        | none => exact Or.inl ⟨_,rfl⟩
        | some proof =>
          dsimp only
          split_ifs with hlen hhash
          · exact Or.inl ⟨_,rfl⟩
          · exact Or.inl ⟨_,rfl⟩
          · refine Or.inr ⟨final,_,rfl,
              ⟨withoutProof,proofText,proof,splitProof_eq hfinal,heq ▸ hnonce,hdecode,?_,?_⟩,rfl⟩
            · exact not_not.mp hlen
            · exact not_not.mp hhash
      · rw [if_pos heq]
        exact Or.inl ⟨_,rfl⟩

def Opened (env : ScramEnv) (msgs : List (Option ScramText × Bytes)) (x : ScramExchange) : Prop :=
  ∃pre post first suffix bare username clientNonce creds,msgs=pre++(some first,suffix)::post ∧
    Opens env first bare username clientNonce creds ∧
    (scramStep env (runScram env pre) (some first,suffix)).2=.ok (x.serverFirst,false) ∧
    x.clientFirstBare=bare ∧ x.username=username ∧ x.storedKey=creds.storedKey ∧
    x.fullNonce=clientNonce++env.encodeNoPad suffix ∧
    x.serverFirst=serverFirstText env (clientNonce++env.encodeNoPad suffix) creds

theorem runScram_snoc (env : ScramEnv) (msgs : List (Option ScramText × Bytes)) (m : Option ScramText × Bytes) :
    runScram env (msgs++[m])=(scramStep env (runScram env msgs) m).1 := by
  unfold runScram
  rw [List.foldl_append]
  rfl

theorem Opened.later {msgs : List (Option ScramText × Bytes)} (h : Opened env msgs x)
    (m : Option ScramText × Bytes) : Opened env (msgs++[m]) x := by
  obtain ⟨pre,post,first,suffix,bare,username,clientNonce,creds,rfl,h⟩ := h
  exact ⟨pre,post++[m],first,suffix,bare,username,clientNonce,creds,
    by rw [List.append_assoc,List.cons_append],h⟩

theorem scramStep_start (env : ScramEnv) (h : x.state=.start) (m : Option ScramText × Bytes) :
    scramStep env x m=handleClientFirst env x m.1 m.2 := by
  unfold scramStep
  rw [h]

theorem scramStep_awaitFinal (env : ScramEnv) (h : x.state=.awaitFinal)
    (m : Option ScramText × Bytes) : scramStep env x m=handleClientFinal env x m.1 := by
  unfold scramStep
  rw [h]

theorem scramStep_done (env : ScramEnv) (h : x.state=.done) (m : Option ScramText × Bytes) :
    scramStep env x m=(x,.error .malformedSaslMessage) := by
  unfold scramStep
  rw [h]

theorem runScram_opened (env : ScramEnv) (msgs : List (Option ScramText × Bytes)) :
    ((runScram env msgs).state=.awaitFinal → Opened env msgs (runScram env msgs)) ∧
      ((runScram env msgs).principal≠none → (runScram env msgs).state=.done) := by
  induction msgs using List.reverseRecOn with
  | nil => exact ⟨nofun,fun h => absurd rfl h⟩
  | append_singleton msgs m ih =>
    rw [runScram_snoc]
    cases hstate : (runScram env msgs).state with
    | start =>
      have hnone : (runScram env msgs).principal=none := by
        by_contra hsome
        rw [ih.2 hsome] at hstate
        cases hstate
      have hstep := scramStep_start env hstate m
      rcases handleClientFirst_cases env (runScram env msgs) m.1 m.2 with
        ⟨-,hs,hp⟩|⟨first,bare,username,clientNonce,creds,hm,hopens,heq⟩
      · rw [hstep,hs,hp,hstate,hnone]
        exact ⟨nofun,fun h => absurd rfl h⟩
      · rw [heq] at hstep
        rw [hstep]
        refine ⟨fun _ => ?_,fun h => absurd hnone h⟩
        have hm' : m=(some first,m.2) := by rw [← hm]
        rw [hm'] at hstep
        exact ⟨msgs,[],first,m.2,bare,username,clientNonce,creds,
          by rw [← hm'],hopens,by rw [hstep],rfl,rfl,rfl,rfl,rfl⟩
    | awaitFinal =>
      rw [scramStep_awaitFinal env hstate]
      rcases handleClientFinal_cases env (runScram env msgs) m.1 with ⟨e,heq⟩|⟨final,out,-,-,heq⟩
      · rw [heq]
        exact ⟨fun h => (ih.1 h).later m,ih.2⟩
      · rw [heq]
        exact ⟨nofun,fun _ => rfl⟩
    | done =>
      rw [scramStep_done env hstate]
      exact ⟨fun h => (ih.1 h).later m,ih.2⟩

/-- The exchange holds an answered client-first message, and its final one proves the key stored for
the principal over both and the answer. -/
def Proven (env : ScramEnv) (msgs : List (Option ScramText × Bytes)) (m : Option ScramText × Bytes) : Prop :=
  ∃pre post first suffix bare username clientNonce creds serverFirst final,
    msgs=pre++(some first,suffix)::post ∧ Opens env first bare username clientNonce creds ∧
    (scramStep env (runScram env pre) (some first,suffix)).2=.ok (serverFirst,false) ∧ m.1=some final ∧
    Proves env creds.storedKey bare serverFirst (clientNonce++env.encodeNoPad suffix) final ∧
    (scramStep env (runScram env msgs) m).1.principal=some username

theorem done_proves {msgs : List (Option ScramText × Bytes)} {m : Option ScramText × Bytes}
    {out : ScramText} (h : (scramStep env (runScram env msgs) m).2=.ok (out,true)) : Proven env msgs m := by
  cases hstate : (runScram env msgs).state with
  | start =>
    rw [scramStep_start env hstate] at h
    rcases handleClientFirst_cases env (runScram env msgs) m.1 m.2 with ⟨⟨e,he⟩,-⟩|⟨_,_,_,_,_,-,-,heq⟩
    · cases he.symm.trans h
    · rw [heq] at h
      cases h
  | awaitFinal =>
    rw [scramStep_awaitFinal env hstate] at h
    rcases handleClientFinal_cases env (runScram env msgs) m.1 with ⟨e,heq⟩|⟨final,_,hm,hproves,heq⟩
    · cases (congrArg Prod.snd heq).symm.trans h
    · obtain ⟨pre,post,first,suffix,bare,username,clientNonce,creds,hmsgs,hopens,hans,hbare,hname,
        hkey,hnonce,-⟩ :=
        (runScram_opened env msgs).1 hstate
      rw [hkey,hbare,hnonce] at hproves
      refine ⟨pre,post,first,suffix,bare,username,clientNonce,creds,_,final,hmsgs,hopens,hans,hm,hproves,?_⟩
      rw [scramStep_awaitFinal env hstate,heq,← hname]
  | done =>
    rw [scramStep_done env hstate] at h
    cases h

end Soundness

section Client

/-- A client's side: its flag, the texts it chooses, and the key it proves. No text but the
username may hold a comma. -/
structure ScramClient where
  flag : ScramText
  username : ScramText
  nonce : ScramText
  binding : ScramText
  firstExtensions : List (Char × ScramText)
  finalExtensions : List (Char × ScramText)
  key : Bytes
  flag_comma : ','∉flag
  nonce_comma : ','∉nonce
  binding_comma : ','∉binding
  firstExtensions_free : ∀x∈firstExtensions,x.1≠ 'n' ∧ x.1≠ 'r' ∧ x.1≠ ',' ∧ ','∉x.2
  finalExtensions_free : ∀x∈finalExtensions,x.1≠ 'c' ∧ x.1≠ 'r' ∧ x.1≠ ',' ∧ ','∉x.2

def escapeName (name : ScramText) : ScramText :=
  name.flatMap fun c => if c= ',' then ['=','2','C'] else if c= '=' then ['=','3','D'] else [c]

def attrText (x : Char × ScramText) : ScramText := x.1:: '='::x.2

def attrsText (attrs : List (Char × ScramText)) : ScramText := [','].intercalate (attrs.map attrText)

namespace ScramClient

def firstBare (c : ScramClient) : ScramText :=
  attrsText (('n',escapeName c.username)::('r',c.nonce)::c.firstExtensions)

def first (c : ScramClient) : ScramText := c.flag++ ',':: ','::c.firstBare

def withoutProof (c : ScramClient) (nonce : ScramText) : ScramText :=
  attrsText (('c',c.binding)::('r',nonce)::c.finalExtensions)

def final (c : ScramClient) (env : ScramEnv) (nonce serverFirst : ScramText) : ScramText :=
  c.withoutProof nonce++ ',':: 'p':: '='::
    env.encode (xorBytes c.key
      (env.hmac (env.hash c.key) (authMessage c.firstBare serverFirst (c.withoutProof nonce))))

end ScramClient

theorem escapeName_comma (name : ScramText) : ','∉escapeName name := by
  unfold escapeName
  rw [List.mem_flatMap]
  rintro ⟨c,-,hc⟩
  split_ifs at hc with h1 h2
  · simp at hc
  · simp at hc
  · exact h1 (List.mem_singleton.mp hc).symm

theorem escapeName_cons (c : Char) (name : ScramText) :
    escapeName (c::name)=(if c= ',' then ['=','2','C'] else if c= '=' then ['=','3',
      'D'] else [c])++escapeName name :=
  List.flatMap_cons

theorem length_le_escapeName (name : ScramText) : name.length ≤ (escapeName name).length := by
  induction name with
  | nil => exact le_rfl
  | cons c name ih =>
    rw [escapeName_cons,List.length_append,List.length_cons]
    split_ifs <;> simp only [List.length_cons,List.length_nil] <;> omega

theorem escapeName_eq_self (name : ScramText) : escapeName name=name ↔ ','∉name ∧ '='∉name := by
  induction name with
  | nil => exact ⟨fun _ => ⟨List.not_mem_nil,List.not_mem_nil⟩,fun _ => rfl⟩
  | cons c name ih =>
    rw [escapeName_cons,List.mem_cons,List.mem_cons,not_or,not_or]
    split_ifs with hcomma heq
    · exact ⟨fun h => absurd ((List.cons.inj h).1.trans hcomma) (by decide),fun h => absurd hcomma.symm h.1.1⟩
    · -- three characters stand for one, and the rest does not get shorter
      refine ⟨fun h => ?_,fun h => absurd heq.symm h.2.1⟩
      have hlen := congrArg List.length h
      have hle := length_le_escapeName name
      simp only [List.length_append,List.length_cons,List.length_nil] at hlen
      omega
    · rw [List.singleton_append,List.cons_inj_right,ih]
      exact ⟨fun h => ⟨⟨Ne.symm hcomma,h.1⟩,Ne.symm heq,h.2⟩,fun h => ⟨h.1.2,h.2.2⟩⟩

theorem parseAttrs_attrsText {attrs : List (Char × ScramText)} (hne : attrs≠[])
    (h : ∀x∈attrs,x.1≠ ',' ∧ ','∉x.2) :
    parseAttrs (attrsText attrs)=(attrs.map attrText).filterMap parseAttr := by
  unfold parseAttrs attrsText
  rw [List.splitOn_intercalate ',' _ (by simpa using hne)]
  intro l hl
  obtain ⟨x,hx,rfl⟩ := List.mem_map.mp hl
  have hcomma := h x hx
  simp only [attrText,List.mem_cons,not_or]
  exact ⟨hcomma.1.symm,by decide,hcomma.2⟩

/-- The first two attributes, with extensions behind them that use other keys. -/
theorem attrOf_attrsText {k l : Char} {v w : ScramText} {ext : List (Char × ScramText)}
    (hk : k≠ ',' ∧ ','∉v) (hl : l≠ ',' ∧ ','∉w) (hascii : k.toNat<128 ∧ l.toNat<128) (hne : k≠l)
    (hext : ∀x∈ext,x.1≠k ∧ x.1≠l ∧ x.1≠ ',' ∧ ','∉x.2) :
    attrOf k (attrsText ((k,v)::(l,w)::ext))=some v ∧ attrOf l (attrsText ((k,v)::(l,w)::ext))=some w := by
  have hall : ∀x∈(k,v)::(l,w)::ext,x.1≠ ',' ∧ ','∉x.2 := by
    intro x hx
    rcases List.mem_cons.mp hx with rfl|hx
    · exact hk
    · rcases List.mem_cons.mp hx with rfl|hx
      · exact hl
      · exact (hext x hx).2.2
  have hkeys : ∀x∈(ext.map attrText).filterMap parseAttr,x∈ext := by
    intro x hx
    obtain ⟨part,hpart,hparse⟩ := List.mem_filterMap.mp hx
    obtain ⟨y,hy,rfl⟩ := List.mem_map.mp hpart
    have heq := parseAttr_key hparse
    obtain ⟨h1,h2⟩ := List.cons.inj heq
    have hxy : y=x := Prod.ext h1 (List.cons.inj h2).2
    rwa [← hxy]
  have hone {y : Char × ScramText} (hy : y.1.toNat<128) : parseAttr (attrText y)=some y := by
    rw [attrText,parseAttr,if_pos hy]
  unfold attrOf
  rw [parseAttrs_attrsText (List.cons_ne_nil _ _) hall,List.map_cons,List.map_cons,
    List.filterMap_cons_some (hone (y := (k,v)) hascii.1),List.filterMap_cons_some (hone (y := (l,w)) hascii.2)]
  refine ⟨?_,?_⟩
  · rw [lastValue,lastValue,lastValue_none fun x hx => (hext x (hkeys x hx)).1,if_neg hne.symm,if_pos rfl]
    rfl
  · rw [lastValue,lastValue,lastValue_none fun x hx => (hext x (hkeys x hx)).2.1,if_pos rfl]
    rfl

theorem ScramClient.first_opens (c : ScramClient) : afterHeader c.first=some c.firstBare ∧
    attrOf 'n' c.firstBare=some (escapeName c.username) ∧ attrOf 'r' c.firstBare=some c.nonce := by
  refine ⟨afterHeader_flag c.flag_comma _,?_⟩
  exact attrOf_attrsText ⟨by decide,escapeName_comma _⟩ ⟨by decide,c.nonce_comma⟩ (by decide) (by decide)
    c.firstExtensions_free

theorem ScramClient.first_answered (c : ScramClient) {env : ScramEnv} {creds : ScramCreds}
    (x : ScramExchange) (suffix : Bytes)
    (h : env.lookupScram (escapeName c.username)=some creds) :
    handleClientFirst env x (some c.first) suffix=
      ({x with clientFirstBare := c.firstBare,username := escapeName c.username,storedKey := creds.storedKey,
               serverKey := creds.serverKey,fullNonce := c.nonce++env.encodeNoPad suffix,
               serverFirst := serverFirstText env (c.nonce++env.encodeNoPad suffix) creds,state := .awaitFinal},
        .ok (serverFirstText env (c.nonce++env.encodeNoPad suffix) creds,false)) := by
  obtain ⟨hheader,hname,hnonce⟩ := c.first_opens
  unfold handleClientFirst
  simp only [Option.bind_some,hheader,hname,hnonce,h]

theorem ScramClient.final_accepted (c : ScramClient) {env : ScramEnv} {x : ScramExchange}
    (hkey : x.storedKey=env.hash c.key)
    (hlen : ∀text,(env.hmac x.storedKey text).length=c.key.length)
    (hbare : x.clientFirstBare=c.firstBare) (hnonce : ','∉x.fullNonce) :
    ∃out,handleClientFinal env x (some (c.final env x.fullNonce x.serverFirst))=
      ({x with principal := some x.username,state := .done},.ok (out,true)) := by
  have hsplit := splitProof_proof (env.encode_comma (xorBytes c.key (env.hmac (env.hash c.key)
    (authMessage c.firstBare x.serverFirst (c.withoutProof x.fullNonce))))) (c.withoutProof x.fullNonce)
  have hr : attrOf 'r' (c.withoutProof x.fullNonce)=some x.fullNonce :=
    (attrOf_attrsText ⟨by decide,c.binding_comma⟩ ⟨by decide,hnonce⟩ (by decide) (by decide)
      c.finalExtensions_free).2
  have hsig := hlen (authMessage c.firstBare x.serverFirst (c.withoutProof x.fullNonce))
  rw [hkey] at hsig
  have hxor := xorBytes_cancel hsig
  unfold handleClientFinal
  rw [ScramClient.final,Option.bind_some,hsplit]
  simp only [hr,ne_eq,not_true_eq_false,if_false,env.decode_encode,hbare,hkey,hxor]
  have hproof : (xorBytes c.key (env.hmac (env.hash c.key)
      (authMessage c.firstBare x.serverFirst (c.withoutProof x.fullNonce)))).length=
      (env.hmac (env.hash c.key)
        (authMessage c.firstBare x.serverFirst (c.withoutProof x.fullNonce))).length := by
    rw [xorBytes,List.length_zipWith,hsig,min_self]
  rw [if_neg (not_not.mpr hproof)]
  exact ⟨_,rfl⟩

end Client

/-- Who is let in after a client's first message is who its escaped name says. -/
theorem ScramClient.principal_escaped (c : ScramClient) {env : ScramEnv} {suffix : Bytes}
    {m : Option ScramText × Bytes}
    {out : ScramText} (h : (scramStep env (scramStep env {} (some c.first,suffix)).1 m).2=.ok (out,true)) :
    (scramStep env (scramStep env {} (some c.first,suffix)).1 m).1.principal=some (escapeName c.username) := by
  have hrun : (scramStep env (runScram env [(some c.first,suffix)]) m).2=.ok (out,true) := h
  obtain ⟨pre,post,first,_,bare,username,_,_,_,_,hmsgs,hopens,_,_,_,hprincipal⟩ := done_proves hrun
  have hpre : pre=[] := by
    have hlen := congrArg List.length hmsgs
    rw [List.length_append,List.length_singleton,List.length_cons] at hlen
    exact List.length_eq_zero_iff.mp (by omega)
  rw [hpre,List.nil_append] at hmsgs
  cases hmsgs
  obtain ⟨hheader,hname,_⟩ := c.first_opens
  cases hheader.symm.trans hopens.header
  cases hname.symm.trans hopens.name
  exact hprincipal

/-- Done is reported only for a proof of the stored key over this exchange's messages, and a client
with the right key is let in exactly where its name needs no escape. -/
theorem scram_exchange (env : ScramEnv) :
    (∀msgs m out,(scramStep env (runScram env msgs) m).2=.ok (out,true) → Proven env msgs m) ∧
    (∀msgs,(runScram env msgs).principal≠none → (runScram env msgs).state=.done) ∧
    ∀(c : ScramClient) (creds : ScramCreds) (suffix suffix' : Bytes),
      env.lookupScram c.username=some creds → creds.storedKey=env.hash c.key →
      (∀text,(env.hmac creds.storedKey text).length=c.key.length) →
      let opened := scramStep env {} (some c.first,suffix)
      let closed serverFirst :=
        scramStep env opened.1 (some (c.final env (c.nonce++env.encodeNoPad suffix) serverFirst),suffix')
      (∃serverFirst out,opened.2=.ok (serverFirst,false) ∧ (closed serverFirst).2=.ok (out,true) ∧
        (closed serverFirst).1.principal=some c.username) ↔ ','∉c.username ∧ '='∉c.username := by
  refine ⟨fun msgs m out h => done_proves h,fun msgs => (runScram_opened env msgs).2,?_⟩
  intro c creds suffix suffix' hlookup hkey hlen opened closed
  rw [← escapeName_eq_self]
  refine ⟨fun ⟨serverFirst,out,_,hdone,hprincipal⟩ => ?_,fun hname => ?_⟩
  · exact Option.some.inj ((c.principal_escaped hdone).symm.trans hprincipal)
  let nonce := c.nonce++env.encodeNoPad suffix
  let serverFirst := serverFirstText env nonce creds
  have hopened : opened=_ := c.first_answered {} suffix (hname.symm ▸ hlookup)
  have hnonce : ','∉nonce := by
    intro h
    rcases List.mem_append.mp h with h|h
    · exact c.nonce_comma h
    · exact env.encodeNoPad_comma suffix h
  let x : ScramExchange := ⟨.awaitFinal,escapeName c.username,c.firstBare,serverFirst,
    creds.storedKey,creds.serverKey,nonce,none⟩
  obtain ⟨out,haccepted⟩ := c.final_accepted (x := x) hkey hlen rfl hnonce
  have hclosed : closed serverFirst=handleClientFinal env x (some (c.final env nonce serverFirst)) := by
    have hx : opened.1=x := congrArg Prod.fst hopened
    change scramStep env opened.1 _=_
    rw [hx]
    rfl
  refine ⟨serverFirst,out,congrArg Prod.snd hopened,?_,?_⟩
  · rw [hclosed,haccepted]
  · rw [hclosed,haccepted]
    exact congrArg some hname

/-- One user, under any base64 code. -/
def oneUserEnv (env : ScramEnv) (name : ScramText) : ScramEnv :=
  {env with
    hmac := fun _ text => [UInt8.ofNat text.length]
    hash := fun b => b.map (·+1)
    lookupScram := fun u => if u=name then some ⟨[1],4096,[8],[9]⟩ else none}

def oneUserClient (name : ScramText) : ScramClient where
  flag := ['n']
  username := name
  nonce := ['x']
  binding := ['b','i','w','s']
  firstExtensions := []
  finalExtensions := []
  key := [7]
  flag_comma := by decide
  nonce_comma := by decide
  binding_comma := by decide
  firstExtensions_free := nofun
  finalExtensions_free := nofun

theorem scram_exchange_plain : let c := oneUserClient ['b','o','b']
    c.first="n,,n=bob,r=x".toList ∧ ∀base : ScramEnv,
      let env := oneUserEnv base ['b','o','b']
      let opened := scramStep env {} (some c.first,[5])
      ∃serverFirst,opened.2=.ok (serverFirst,false) ∧
        (scramStep env opened.1 (some (c.final env ('x'::env.encodeNoPad [5]) serverFirst),[])).1.principal=
          some ['b','o','b'] := by
  refine ⟨rfl,fun base => ?_⟩
  obtain ⟨serverFirst,_,hopened,_,hprincipal⟩ := ((scram_exchange (oneUserEnv base ['b','o','b'])).2.2
    (oneUserClient ['b','o','b']) ⟨[1],4096,[8],[9]⟩ [5] [] rfl rfl (fun _ => rfl)).mpr (by decide)
  exact ⟨serverFirst,hopened,hprincipal⟩

/-- A name with a comma comes as `=2C`, and that text is looked up as it is. -/
theorem escaped_name_refused : let c := oneUserClient ['a',',','b']
    c.first="n,,n=a=2Cb,r=x".toList ∧ ∀base : ScramEnv,
      let env := oneUserEnv base ['a',',','b']
      env.lookupScram c.username=some ⟨[1],4096,[8],[9]⟩ ∧ env.hash c.key=[8] ∧
        (scramStep env {} (some c.first,[5])).2=.error .badCredentials :=
  ⟨rfl,fun _ => ⟨rfl,rfl,rfl⟩⟩

end Kaas
