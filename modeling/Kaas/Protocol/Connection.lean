import Kaas.Codec.Primitives

namespace Kaas.Protocol

open Codec

inductive HeaderVersion
  | v0
  | v1
  | v2
  deriving DecidableEq

structure RequestHeader where
  apiKey : I16
  apiVersion : I16
  correlationId : I32
  clientId : Option String

structure ApiSpec where
  minVersion : I16
  maxVersion : I16
  requestHdr : I16 → HeaderVersion

inductive FrameError
  | disconnected
  | tooLarge (got max : Nat)
  | negativeSize (n : Int)
  | io
  deriving DecidableEq

inductive ProtoError
  | frame (e : FrameError)
  | codec (e : CodecError)
  | shortFrame (got : Nat)
  | io
  deriving DecidableEq

def decodeRequestHeader (version : HeaderVersion) : Read RequestHeader := do
  let apiKey ← readI16
  let apiVersion ← readI16
  let correlationId ← readI32
  let clientId ← Decoder.gated (version≠.v0) (readNullableStr false) none
  let _ ← readTags (version=.v2)
  return ⟨apiKey,apiVersion,correlationId,clientId⟩

def encodeRequestHeader (hdr : RequestHeader) (version : HeaderVersion) : Wire := .all [
  writeI16 hdr.apiKey,
  writeI16 hdr.apiVersion,
  writeI32 hdr.correlationId,
  .gated (version≠.v0) (writeNullableStr false hdr.clientId),
  writeTags (version=.v2)]

def encodeResponseHeader (correlationId : I32) (version : HeaderVersion) : Bytes :=
  beBytes 4 correlationId.toNat++if version=.v0 then [] else writeUvarint 0

/-- An end of the stream inside the size counts as a disconnect, inside the body as an error. -/
def readFrameWithLimit (max : Nat) : Decoder FrameError Bytes := do
  let sz ← Decoder.take .disconnected 4
  let n := (BitVec.ofNat 32 (beNat sz)).toInt
  if n<0 then Decoder.fail (.negativeSize n)
  else if max<n.toNat then Decoder.fail (.tooLarge n.toNat max)
  else Decoder.take .io n.toNat

def writeFrame (body : Bytes) : Option Bytes :=
  if body.length<2^31 then some (beBytes 4 body.length++body) else none

def writeResponse (correlationId : I32) (body : Bytes) (version : HeaderVersion) : Option Bytes :=
  writeFrame (encodeResponseHeader correlationId version++body)

section Loop

variable {σ : Type} (lookup : I16 → Option ApiSpec) (max : Nat)
  (dispatch : σ → RequestHeader → Bytes → σ × Bytes × HeaderVersion)

def requestVersion (apiKey apiVersion : I16) : HeaderVersion :=
  match lookup apiKey with
  | some spec =>
    if spec.minVersion.toInt≤apiVersion.toInt ∧
      apiVersion.toInt≤ spec.maxVersion.toInt then spec.requestHdr apiVersion
    else .v1
  | none => .v1

/-- By the key and the version of the API, which the frame starts with. -/
def frameVersion (frame : Bytes) : HeaderVersion :=
  requestVersion lookup (BitVec.ofNat 16 (beNat (slice frame 0 2))) (BitVec.ofNat 16 (beNat (slice frame 2 4)))

def readRequest : Decoder ProtoError (RequestHeader × Bytes) := fun raw =>
  match readFrameWithLimit max raw with
  | .error e => .error (.frame e)
  | .ok (frame,rest) =>
    if frame.length<4 then .error (.shortFrame frame.length)
    else match decodeRequestHeader (frameVersion lookup frame) frame with
      | .error e => .error (.codec e)
      | .ok request => .ok (request,rest)

/-- The loop over the bytes of a peer that closes behind them: the state of the broker, what is
sent, and how it ends. After `n` requests it is cancelled. -/
def requestLoop : Nat → σ → Bytes → σ × Bytes × Except ProtoError Unit
  | 0,s,_ => (s,[],.ok ())
  | n+1,s,raw => match readRequest lookup max raw with
    | .error (.frame .disconnected) => (s,[],.ok ())
    | .error e => (s,[],.error e)
    | .ok ((hdr,body),rest) =>
      let (s',answer,version) := dispatch s hdr body
      match writeResponse hdr.correlationId answer version with
      | none => (s',[],.error .io)
      | some response =>
        let (t,sent,r) := requestLoop n s' rest
        (t,response++sent,r)

/-- Requests dispatched one after another, each answered under its correlation id. -/
def serve : σ → List (RequestHeader × Bytes) → σ × List (Option Bytes)
  | s,[] => (s,[])
  | s,(hdr,body)::rs =>
    let (s',answer,version) := dispatch s hdr body
    let (t,answers) := serve s' rs
    (t,writeResponse hdr.correlationId answer version::answers)

/-- A request as a client frames it, under the header version of its API. -/
structure Sent (r : RequestHeader × Bytes) (frame : Bytes) : Prop where
  fits : ∀x∈r.1.clientId,FitsStr false x
  named : requestVersion lookup r.1.apiKey r.1.apiVersion=.v0 → r.1.clientId=none
  framed : ∃h,encodeRequestHeader r.1 (requestVersion lookup r.1.apiKey r.1.apiVersion)=.ok h ∧
    (h++r.2).length≤ max ∧ writeFrame (h++r.2)=some frame

end Loop

theorem writeFrame_read {body frame : Bytes} {max : Nat} (hw : writeFrame body=some frame)
    (hmax : body.length≤ max)
    (rest : Bytes) : readFrameWithLimit max (frame++rest)=.ok (body,rest) := by
  unfold writeFrame at hw
  split_ifs at hw with hlen
  cases hw
  have hnat : (BitVec.ofNat 32 (beNat (beBytes 4 body.length))).toInt=body.length := by
    have h : (BitVec.ofNat 32 body.length).toNat=body.length := Nat.mod_eq_of_lt (by omega)
    rw [beNat_beBytes,Nat.mod_eq_of_lt (by omega),BitVec.toInt_eq_toNat_of_lt (by omega),h]
  obtain ⟨_,⟨⟩,hsize⟩ := Writes.take FrameError.disconnected (beBytes 4 body.length)
  obtain ⟨_,⟨⟩,hbody⟩ := Writes.take FrameError.io body
  rw [beBytes_length] at hsize
  unfold readFrameWithLimit
  change Decoder.next _ _ _=_
  rw [Decoder.next,List.append_assoc,hsize]
  dsimp only
  rw [hnat,if_neg (by omega),if_neg (by omega)]
  exact hbody rest

theorem writes_requestHeader {hdr : RequestHeader} {version : HeaderVersion}
    (hfits : ∀x∈hdr.clientId,FitsStr false x) (hnamed : version=.v0 → hdr.clientId=none) :
    Writes (encodeRequestHeader hdr version) (decodeRequestHeader version) hdr := by
  refine (writes_i16 hdr.apiKey).step ((writes_i16 hdr.apiVersion).step ((writes_i32 hdr.correlationId).step
    ((writes_nullableStr hfits).gated.step (writes_tags.silent fun _ => ?_).one)))
  have h : (if version≠.v0 then hdr.clientId else none)=hdr.clientId := by
    split_ifs with hv
    · rfl
    · exact (hnamed (not_not.mp hv)).symm
  rw [h]
  rfl

section Requests

variable {σ : Type} {lookup : I16 → Option ApiSpec} {max : Nat}

theorem frameVersion_eq (apiKey apiVersion : I16) (b rest : Bytes) :
    frameVersion lookup (beBytes 2 apiKey.toNat++(beBytes 2 apiVersion.toNat++b)++rest)=
      requestVersion lookup apiKey apiVersion := by
  have hval (v : I16) : BitVec.ofNat 16 (beNat (beBytes 2 v.toNat))=v := by
    obtain ⟨_,⟨⟩,h⟩ := writes_i16 v
    exact congrArg Prod.fst (Except.ok.inj (h []))
  exact congrArg₂ (requestVersion lookup) (hval apiKey) (hval apiVersion)

theorem Sent.read {r : RequestHeader × Bytes} {frame : Bytes} (h : Sent lookup max r frame)
    (rest : Bytes) : readRequest lookup max (frame++rest)=.ok (r,rest) := by
  obtain ⟨b,hb,hmax,hw⟩ := h.framed
  obtain ⟨_,hb',hread⟩ := writes_requestHeader h.fits h.named
  cases hb.symm.trans hb'
  obtain ⟨t,rfl⟩ : ∃t,b=beBytes 2 r.1.apiKey.toNat++(beBytes 2 r.1.apiVersion.toNat++t) := by
    change Except.map _ (Except.map _ (Encoding.all _))=_ at hb
    generalize Encoding.all _=w at hb
    cases w with
    | error e => cases hb
    | ok t => exact ⟨t,(Except.ok.inj hb).symm⟩
  rw [readRequest,writeFrame_read hw hmax]
  dsimp only
  rw [if_neg (by simp; omega),frameVersion_eq,hread]

/-- Requests sent one behind another are answered one by one in their order, each under its own
correlation id and with what the dispatcher made of it, however the connection ends. -/
theorem pipelined_requests_answered (dispatch : σ → RequestHeader → Bytes → σ × Bytes × HeaderVersion)
    {rs : List (RequestHeader × Bytes)} {frames : List Bytes} (hsent : List.Forall₂ (Sent lookup max) rs frames)
    {tail : Bytes} {e : ProtoError} (htail : readRequest lookup max tail=.error e) (n : Nat) (s t : σ)
    (responses : List Bytes) (hserve : serve dispatch s (rs.take n)=(t,responses.map some)) :
    requestLoop lookup max dispatch n s (frames.flatten++tail)=
      (t,responses.flatten,if n≤rs.length ∨ e=.frame .disconnected then .ok () else .error e) := by
  have hnone (s : σ) (responses : List Bytes) (h : serve dispatch s []=(t,responses.map some)) :
    s=t ∧ responses=[] :=
    ⟨congrArg Prod.fst h,List.map_eq_nil_iff.mp (congrArg Prod.snd h).symm⟩
  induction hsent generalizing n s responses with
  | nil =>
    rw [List.take_nil] at hserve
    obtain ⟨rfl,rfl⟩ := hnone s responses hserve
    cases n with
    | zero => rfl
    | succ n =>
      rw [List.flatten_nil,List.nil_append,requestLoop,htail]
      by_cases he : e=.frame .disconnected <;> simp [he]
  | cons hr hrs ih =>
    cases n with
    | zero =>
      obtain ⟨rfl,rfl⟩ := hnone s responses hserve
      simp [requestLoop]
    | succ n =>
      obtain ⟨ht,hall⟩ := Prod.mk.inj hserve
      cases responses with
      | nil => cases hall
      | cons response responses =>
        obtain ⟨hw,hall⟩ := List.cons.inj hall
        rw [List.flatten_cons,List.append_assoc,requestLoop,hr.read]
        dsimp only
        rw [hw]
        dsimp only
        rw [ih n _ responses (Prod.ext ht hall)]
        simp

end Requests

/-- Two requests of different clients, answered by a dispatcher that counts them. -/
theorem pipelined_requests_answered_two :
    requestLoop (fun _ => some ⟨0,3,fun _ => .v2⟩) 64 (fun s _ body => (s+1,s::body,.v1)) 9 0
      ([0,0,0,13,0,18,0,3,0,0,0,7,0,1,99,0,1]++[0,0,0,13,0,3,0,2,0,0,0,8,255,255,0,4,5]++[0])=
      (2,[0,0,0,7,0,0,0,7,0,0,1]++[0,0,0,8,0,0,0,8,0,1,4,5],.ok ()) := by
  have hfirst : Sent (fun _ => some ⟨0,3,fun _ => .v2⟩) 64 (⟨18,3,7,some "c"⟩,[1])
      [0,0,0,13,0,18,0,3,0,0,0,7,0,1,99,0,1] :=
    ⟨by decide +kernel,by decide,_,by rfl,by decide +kernel,by decide +kernel⟩
  have hsecond : Sent (fun _ => some ⟨0,3,fun _ => .v2⟩) 64 (⟨3,2,8,none⟩,[4,5])
      [0,0,0,13,0,3,0,2,0,0,0,8,255,255,0,4,5] :=
    ⟨by decide +kernel,by decide,_,by rfl,by decide +kernel,by decide +kernel⟩
  -- one byte behind the requests is not a length: the peer is taken to be gone
  have htail : readRequest (fun _ => some ⟨0,3,fun _ => .v2⟩) 64 [0]=.error (.frame .disconnected) := rfl
  exact pipelined_requests_answered _ (.cons hfirst (.cons hsecond .nil)) htail 9 0 2
    [[0,0,0,7,0,0,0,7,0,0,1],[0,0,0,8,0,0,0,8,0,1,4,5]] rfl

end Kaas.Protocol
