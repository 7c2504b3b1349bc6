import Mathlib.Algebra.Order.Floor.Ring
import Mathlib.Data.Rat.Floor
import Mathlib.Tactic.Linarith
import Mathlib.Tactic.Ring

namespace Kaas

/-! Token buckets, with exact numbers for the code's floats. -/

structure Quotas where
  producerMaxByteRatePerBroker : Option Int := none
  consumerMaxByteRatePerBroker : Option Int := none
  deriving DecidableEq, Repr

structure TokenBucket (K : Type) where
  producerTokens : K
  consumerTokens : K
  lastRefill : K
  producerRate : K
  consumerRate : K

structure QuotaCheck (K : Type) where
  now : K
  bytes : Nat
  producer : Bool

section Model

variable {K : Type} [Field K] [LinearOrder K] [FloorRing K]

/-- Bytes in a second; 0 is no limit. -/
def quotaRate (q : Option Quotas) (producer : Bool) : K :=
  (((if producer then q.bind (·.producerMaxByteRatePerBroker) else q.bind
    (·.consumerMaxByteRatePerBroker)).getD 0 :
    Int) : K)

def newBucket (now : K) (q : Option Quotas) : TokenBucket K :=
  ⟨quotaRate q true,quotaRate q false,now,quotaRate q true,quotaRate q false⟩

namespace TokenBucket

def rate (b : TokenBucket K) (producer : Bool) : K := if producer then b.producerRate else b.consumerRate

def tokens (b : TokenBucket K) (producer : Bool) : K := if producer then b.producerTokens else b.consumerTokens

def setTokens (b : TokenBucket K) (producer : Bool) (x : K) : TokenBucket K :=
  if producer then {b with producerTokens := x} else {b with consumerTokens := x}

end TokenBucket

/-- The time to come back to zero, in milliseconds and within an i32. -/
def throttleMs (tokens rate : K) : Int :=
  if 0≤tokens then 0
  else
    let ms : Int := ⌈-tokens/rate*1000⌉
    if ms≤0 then 0 else if 2^31-1≤ ms then 2^31-1 else ms

/-- `check` for one principal, whose bucket is made on the first call. -/
def check (q : Option Quotas) (s : Option (TokenBucket K)) (c : QuotaCheck K) : TokenBucket K × Int :=
  let b := s.getD (newBucket c.now q)
  let elapsed := max 0 (c.now-b.lastRefill)
  let b := {b with lastRefill := c.now}
  if b.rate c.producer=0 then (b,0)
  else
    let filled := b.tokens c.producer+b.rate c.producer*elapsed
    let capped := if b.rate c.producer<filled then b.rate c.producer else filled
    let left := capped-(c.bytes : K)
    (b.setTokens c.producer left,throttleMs left (b.rate c.producer))

def quotaTrace (q : Option Quotas) : Option (TokenBucket K) → List (QuotaCheck K) → List (QuotaCheck K × Int)
  | _,[] => []
  | s,c::cs => (c,(check q s c).2)::quotaTrace q (some (check q s c).1) cs

/-- The bytes of the checks of a direction that were not throttled, between two times. -/
def freeBytes (producer : Bool) (start stop : K) (trace : List (QuotaCheck K × Int)) : K :=
  ((trace.filter fun x => x.1.producer=producer ∧ x.2=0 ∧ start≤x.1.now ∧ x.1.now≤ stop).map
    fun x => (x.1.bytes : K)).sum

/-- Every check of the other direction comes at the time of the last refill, or when this direction
is full. -/
def Calm (q : Option Quotas) (producer : Bool) : Option (TokenBucket K) → List (QuotaCheck K) → Prop
  | _,[] => True
  | s,c::cs => (c.producer≠producer → ∀b∈s,c.now=b.lastRefill ∨ b.tokens producer=b.rate producer) ∧
      Calm q producer (some (check q s c).1) cs

end Model

section Checks

variable {K : Type} [Field K]

theorem newBucket_rate (now : K) (q : Option Quotas) (producer : Bool) :
    (newBucket now q).rate producer=quotaRate q producer := by
  cases producer <;> rfl

theorem newBucket_tokens (now : K) (q : Option Quotas) (producer : Bool) :
    (newBucket now q).tokens producer=quotaRate q producer := by
  cases producer <;> rfl

variable [LinearOrder K] [FloorRing K] {q : Option Quotas} {b : TokenBucket K} {c : QuotaCheck K}
    {producer : Bool}

theorem check_lastRefill (q : Option Quotas) (s : Option (TokenBucket K)) (c : QuotaCheck K) :
    (check q s c).1.lastRefill=c.now := by
  unfold check TokenBucket.setTokens
  dsimp only
  split_ifs <;> rfl

theorem check_rate (q : Option Quotas) (b : TokenBucket K) (c : QuotaCheck K) (producer : Bool) :
    (check q (some b) c).1.rate producer=b.rate producer := by
  unfold check TokenBucket.setTokens
  dsimp only
  split_ifs <;> rfl

theorem check_none (q : Option Quotas) (c : QuotaCheck K) :
    check q none c=check q (some (newBucket c.now q)) c := rfl

/-- A check of the other direction moves the time of the refill and nothing else. -/
theorem check_other (hc : c.producer≠producer) : (check q (some b) c).1.tokens producer=b.tokens producer := by
  unfold check TokenBucket.setTokens TokenBucket.tokens
  dsimp only
  cases hp : c.producer <;> cases producer <;> simp_all <;> split_ifs <;> rfl

theorem check_own (hc : c.producer=producer) (hr : b.rate producer≠0) :
    (check q (some b) c).1.tokens producer=
      min (b.rate producer) (b.tokens producer+b.rate producer*max 0 (c.now-b.lastRefill))-(c.bytes : K) ∧
    (check q (some b) c).2=throttleMs
      (min (b.rate producer) (b.tokens producer+b.rate producer*max 0 (c.now-b.lastRefill))-(c.bytes : K))
      (b.rate producer) := by
  subst hc
  have hcap (x y : K) : (if x<y then x else y)=min x y := by
    split_ifs with h
    · exact (min_eq_left h.le).symm
    · exact (min_eq_right (not_lt.mp h)).symm
  have hr' : ¬({b with lastRefill := c.now} : TokenBucket K).rate c.producer=0 := hr
  unfold check
  dsimp only [Option.getD_some]
  rw [if_neg hr',hcap]
  refine ⟨?_,rfl⟩
  unfold TokenBucket.setTokens TokenBucket.tokens
  cases c.producer <;> rfl

theorem check_unlimited (hc : c.producer=producer) (hr : b.rate producer=0) :
    (check q (some b) c).1.tokens producer=b.tokens producer ∧ (check q (some b) c).2=0 := by
  subst hc
  have hr' : ({b with lastRefill := c.now} : TokenBucket K).rate c.producer=0 := hr
  unfold check
  dsimp only [Option.getD_some]
  rw [if_pos hr']
  exact ⟨rfl,rfl⟩

theorem throttleMs_zero [IsStrictOrderedRing K] {tokens rate : K} (hr : 0<rate)
    (h : throttleMs tokens rate=0) : 0≤tokens := by
  unfold throttleMs at h
  dsimp only at h
  split_ifs at h with h1 h2 h3
  · exact h1
  · have hpos : 0 < -tokens/rate*1000 := by
      have hneg : 0 < -tokens := by linarith
      positivity
    exact absurd (Int.ceil_pos.mpr hpos) (not_lt.mpr h2)
  · norm_num at h
  · exact absurd h.le h2

end Checks

section Directions

variable {K : Type} [Field K] [LinearOrder K] [IsStrictOrderedRing K] [FloorRing K] {q : Option Quotas}
  {s s' : Option (TokenBucket K)} {b b' : TokenBucket K} {c : QuotaCheck K} {producer : Bool}

/-- Two buckets that answer alike in a direction: a full one does not care when it was refilled. -/
structure Alike (q : Option Quotas) (producer : Bool) (b b' : TokenBucket K) : Prop where
  rate : b.rate producer=quotaRate q producer
  rate' : b'.rate producer=quotaRate q producer
  tokens : b.tokens producer=b'.tokens producer
  refill : b.lastRefill=b'.lastRefill ∨ b.tokens producer=quotaRate q producer

/-- The bucket of the whole run against that of the run without the other direction, which may not
be there yet. -/
def Agree (q : Option Quotas) (producer : Bool) (s : Option (TokenBucket K)) : Option (TokenBucket K) → Prop
  | some b' => ∃b,s=some b ∧ Alike q producer b b'
  | none => ∀b∈s,b.rate producer=quotaRate q producer ∧ b.tokens producer=quotaRate q producer

omit [IsStrictOrderedRing K] in
theorem Agree.buckets (h : Agree q producer s s') (c : QuotaCheck K) :
    ∃b b',check q s c=check q (some b) c ∧ check q s' c=check q (some b') c ∧ Alike q producer b b' := by
  cases s' with
  | some b' =>
    obtain ⟨b,rfl,hb⟩ := h
    exact ⟨b,b',rfl,rfl,hb⟩
  | none =>
    have hr := newBucket_rate c.now q producer
    cases s with
    | none => exact ⟨_,_,check_none q c,check_none q c,hr,hr,rfl,Or.inl rfl⟩
    | some b =>
      obtain ⟨hb,hfull⟩ := h b rfl
      have ht := newBucket_tokens c.now q producer
      exact ⟨b,_,rfl,check_none q c,hb,hr,hfull.trans ht.symm,Or.inr hfull⟩

omit [FloorRing K] in
theorem Alike.level (h : Alike q producer b b') (hq : (0 : K)≤quotaRate q producer) (now : K) :
    min (b.rate producer) (b.tokens producer+b.rate producer*max 0 (now-b.lastRefill))=
      min (b'.rate producer) (b'.tokens producer+b'.rate producer*max 0 (now-b'.lastRefill)) := by
  rw [h.rate,h.rate',← h.tokens]
  rcases h.refill with hl|hfull
  · rw [hl]
  · have hcap (e : K) : min (quotaRate q producer)
        (quotaRate q producer+quotaRate q producer*max 0 e)= quotaRate q producer :=
      min_eq_left (le_add_of_nonneg_right (mul_nonneg hq (le_max_left 0 e)))
    rw [hfull,hcap,hcap]

theorem Alike.own (h : Alike q producer b b') (hq : (0 : K)≤quotaRate q producer)
    (hc : c.producer=producer) : (check q (some b) c).2=(check q (some b') c).2 ∧
      Alike q producer (check q (some b) c).1 (check q (some b') c).1 := by
  have hlast : (check q (some b) c).1.lastRefill=(check q (some b') c).1.lastRefill :=
    (check_lastRefill q _ c).trans (check_lastRefill q _ c).symm
  have hrate := (check_rate q b c producer).trans h.rate
  have hrate' := (check_rate q b' c producer).trans h.rate'
  by_cases hr : (quotaRate q producer : K)=0
  · obtain ⟨ht,ha⟩ := check_unlimited (q := q) hc (h.rate.trans hr)
    obtain ⟨ht',ha'⟩ := check_unlimited (q := q) hc (h.rate'.trans hr)
    exact ⟨ha.trans ha'.symm,hrate,hrate',(ht.trans h.tokens).trans ht'.symm,Or.inl hlast⟩
  · obtain ⟨ht,ha⟩ := check_own (q := q) hc (h.rate.trans_ne hr)
    obtain ⟨ht',ha'⟩ := check_own (q := q) hc (h.rate'.trans_ne hr)
    have hlevel := h.level hq c.now
    refine ⟨?_,hrate,hrate',?_,Or.inl hlast⟩
    · rw [ha,ha',hlevel,h.rate,h.rate']
    · rw [ht,ht',hlevel]

omit [IsStrictOrderedRing K] in
/-- A check of the other direction, where it does no harm. -/
theorem Agree.other (h : Agree q producer s s') (hc : c.producer≠producer)
    (hcalm : ∀b∈s,c.now=b.lastRefill ∨ b.tokens producer=b.rate producer) :
    Agree q producer (some (check q s c).1) s' := by
  cases s' with
  | some b' =>
    obtain ⟨b,rfl,hb⟩ := h
    have ht : (check q (some b) c).1.tokens producer=b.tokens producer := check_other hc
    refine ⟨_,rfl,(check_rate q b c producer).trans hb.rate,hb.rate',ht.trans hb.tokens,?_⟩
    rw [check_lastRefill,ht]
    rcases hcalm b rfl with hnow|hfull
    · rw [hnow]
      exact hb.refill
    · exact Or.inr (hfull.trans hb.rate)
  | none =>
    rintro b₁ hb₁
    obtain rfl := Option.some.inj hb₁
    cases s with
    | none =>
      rw [check_none,check_rate,check_other hc]
      exact ⟨newBucket_rate _ _ _,newBucket_tokens _ _ _⟩
    | some b =>
      rw [check_rate,check_other hc]
      exact h b rfl

theorem Agree.trace (hq : (0 : K)≤quotaRate q producer) (cs : List (QuotaCheck K)) :
    ∀{s s' : Option (TokenBucket K)},Agree q producer s s' → Calm q producer s cs →
      (quotaTrace q s cs).filter (fun x => x.1.producer=producer)=
        quotaTrace q s' (cs.filter fun c => c.producer=producer) := by
  induction cs with
  | nil => intro s s' _ _; rfl
  | cons c cs ih =>
    intro s s' h hcalm
    by_cases hc : c.producer=producer
    · obtain ⟨b,b',hs,hs',hb⟩ := h.buckets c
      obtain ⟨ha,hb⟩ := hb.own hq hc
      rw [← hs,← hs'] at ha hb
      have hnext : Agree q producer (some (check q s c).1) (some (check q s' c).1) := ⟨_,rfl,hb⟩
      have hrest := ih hnext hcalm.2
      rw [quotaTrace,List.filter_cons_of_pos (by simpa using hc),
        List.filter_cons_of_pos (by simpa using hc),quotaTrace,ha,
        hrest]
    · have hrest := ih (h.other hc (hcalm.1 hc)) hcalm.2
      rw [quotaTrace,List.filter_cons_of_neg (by simpa using hc),
        List.filter_cons_of_neg (by simpa using hc),hrest]

end Directions

section Bound

variable {K : Type} [Field K] [LinearOrder K] [IsStrictOrderedRing K] [FloorRing K] {q : Option Quotas}
  {s : Option (TokenBucket K)} {b : TokenBucket K} {c : QuotaCheck K} {producer : Bool} {start stop : K}

def freed (producer : Bool) (start stop : K) (c : QuotaCheck K) (answer : Int) : K :=
  if c.producer=producer ∧ answer=0 ∧ start≤c.now ∧ c.now≤ stop then c.bytes else 0

omit [IsStrictOrderedRing K] [FloorRing K] in
theorem freeBytes_cons (x : QuotaCheck K × Int) (trace : List (QuotaCheck K × Int)) :
    freeBytes producer start stop
      (x::trace)=freed producer start stop x.1 x.2+freeBytes producer start stop trace := by
  unfold freeBytes freed
  rw [List.filter_cons]
  split_ifs with h h' h'
  · rfl
  · exact absurd (of_decide_eq_true h) h'
  · exact absurd (decide_eq_true h') h
  · rw [zero_add]

theorem check_spends (q : Option Quotas) (c : QuotaCheck K) (start stop : K)
    (hr : 0<b.rate producer) : ∃level,level≤b.rate producer ⊔ b.tokens producer ∧
      level≤b.tokens producer+b.rate producer*max 0 (c.now-b.lastRefill) ∧
      (check q (some b) c).1.tokens producer≤level ∧
      (freed producer start stop c (check q (some b) c).2=0 ∨
        start≤c.now ∧ c.now≤ stop ∧ 0≤(check q (some b) c).1.tokens producer ∧
        (check q (some b) c).1.tokens producer+freed producer start stop c (check q (some b) c).2=level) := by
  by_cases hc : c.producer=producer
  · obtain ⟨ht,ha⟩ := check_own (q := q) hc hr.ne'
    refine ⟨_,(min_le_left _ _).trans le_sup_left,min_le_right _ _,?_,?_⟩
    · rw [ht]
      exact sub_le_self _ (Nat.cast_nonneg _)
    · by_cases h0 : (check q (some b) c).2=0
      · have hpos : 0≤(check q (some b) c).1.tokens producer := by
          rw [ht]
          exact throttleMs_zero hr (ha.symm.trans h0)
        unfold freed
        split_ifs with h
        · exact Or.inr ⟨h.2.2.1,h.2.2.2,hpos,by rw [ht,sub_add_cancel]⟩
        · exact Or.inl rfl
      · exact Or.inl (if_neg fun h => h0 h.2.1)
  · have hnonneg : 0≤b.rate producer*max 0 (c.now-b.lastRefill) := mul_nonneg hr.le (le_max_left _ _)
    refine ⟨b.tokens producer,le_sup_right,le_add_of_nonneg_right hnonneg,(check_other hc).le,?_⟩
    exact Or.inl (if_neg fun h => hc h.1)

/-- From a bucket on, no more goes through than it holds and earns until the end. -/
theorem freeBytes_within (q : Option Quotas) (start stop : K) {rate : K} (hr : 0<rate)
    (cs : List (QuotaCheck K)) :
    ∀{b : TokenBucket K},b.rate producer=rate → (∀c∈cs,b.lastRefill≤c.now) →
      cs.Pairwise (fun c d => c.now≤d.now) →
      freeBytes producer start stop (quotaTrace q (some b) cs)≤ max 0
        (b.tokens producer+rate*(stop-b.lastRefill)) := by
  induction cs with
  | nil => intro b _ _ _; exact le_max_left _ _
  | cons c cs ih =>
    intro b hb hlast hsorted
    obtain ⟨hc,hsorted⟩ := List.pairwise_cons.mp hsorted
    have hnext := ih ((check_rate q b c producer).trans hb) (by rwa [check_lastRefill]) hsorted
    rw [check_lastRefill] at hnext
    obtain ⟨level,-,hlevel,hleft,hspent⟩ := check_spends q c start stop (hb ▸ hr)
    rw [hb,max_eq_right (sub_nonneg.mpr (hlast c List.mem_cons_self))] at hlevel
    have hearned : level+rate*(stop-c.now)≤b.tokens producer+rate*(stop-b.lastRefill) := by
      calc
        _ ≤ b.tokens producer+rate*(c.now-b.lastRefill)+rate*(stop-c.now) := by linarith
        _ = b.tokens producer+rate*(stop-b.lastRefill) := by ring
    rw [quotaTrace,freeBytes_cons]
    rcases hspent with hzero|⟨-,hstop,hpos,hspent⟩
    · rw [hzero,zero_add]
      exact hnext.trans (max_le_max le_rfl (by linarith))
    · -- the rest of the run has only what this check left over
      have hrest : 0≤rate*(stop-c.now) := mul_nonneg hr.le (sub_nonneg.mpr hstop)
      rw [max_eq_right (by linarith)] at hnext
      exact le_max_of_le_right (by linarith)

theorem freeBytes_bucket {rate : K} (hr : 0<rate) (hle : start≤ stop) (cs : List (QuotaCheck K)) :
    ∀{b : TokenBucket K},b.rate producer=rate → b.tokens producer≤rate → cs.Pairwise (fun c d => c.now≤d.now) →
      freeBytes producer start stop (quotaTrace q (some b) cs)≤rate*(stop-start)+rate := by
  have htotal : 0≤rate*(stop-start) := mul_nonneg hr.le (sub_nonneg.mpr hle)
  induction cs with
  | nil => intro b _ _ _; exact add_nonneg htotal hr.le
  | cons c cs ih =>
    intro b hb hfull hsorted
    obtain ⟨hc,hsorted⟩ := List.pairwise_cons.mp hsorted
    have hrate := (check_rate q b c producer).trans hb
    obtain ⟨level,hlevel,-,hleft,hspent⟩ := check_spends q c start stop (hb ▸ hr)
    rw [hb,max_eq_left hfull] at hlevel
    rw [quotaTrace,freeBytes_cons]
    rcases hspent with hzero|⟨hstart,hstop,hpos,hspent⟩
    · rw [hzero,zero_add]
      exact ih hrate (hleft.trans hlevel) hsorted
    · have hnext := freeBytes_within q start stop hr cs hrate (by rwa [check_lastRefill]) hsorted
      have hrest : 0≤rate*(stop-c.now) := mul_nonneg hr.le (sub_nonneg.mpr hstop)
      have hmore : rate*(stop-c.now)≤rate*(stop-start) := mul_le_mul_of_nonneg_left (by linarith) hr.le
      rw [check_lastRefill,max_eq_right (by linarith)] at hnext
      linarith

theorem freeBytes_bound (hr : (0 : K)<quotaRate q producer) (hle : start≤ stop)
    {cs : List (QuotaCheck K)} (hsorted : cs.Pairwise fun c d => c.now≤d.now) :
    freeBytes producer start stop
      (quotaTrace q none cs)≤quotaRate q producer*(stop-start)+quotaRate q producer := by
  cases cs with
  | nil => exact add_nonneg (mul_nonneg hr.le (sub_nonneg.mpr hle)) hr.le
  | cons c cs =>
    have htokens := newBucket_tokens c.now q producer
    exact freeBytes_bucket hr hle (c::cs) (newBucket_rate c.now q producer) htokens.le hsorted

end Bound

section Results

variable {K : Type} [Field K] [LinearOrder K] [IsStrictOrderedRing K] [FloorRing K]

/-- Where the checks of the other direction are harmless, a direction is answered as if they were
not there; and a limited direction never lets through more than its rate and one second's worth. -/
theorem quota_directions (q : Option Quotas) (cs : List (QuotaCheck K)) (producer : Bool) :
    ((0 : K)≤quotaRate q producer → Calm q producer none cs →
      (quotaTrace q none cs).filter (fun x => x.1.producer=producer)=
        quotaTrace q none (cs.filter fun c => c.producer=producer)) ∧
    ((0 : K)<quotaRate q producer → cs.Pairwise (fun c d => c.now≤d.now) → ∀start t : K,0≤t →
      freeBytes producer start (start+t) (quotaTrace q none cs)≤quotaRate q producer*t+quotaRate q
        producer) := by
  refine ⟨?_,?_⟩
  · intro hq hcalm
    have hstart : Agree q producer (none : Option (TokenBucket K)) none := by
      intro b hb
      exact absurd hb (Option.not_mem_none b)
    exact hstart.trace hq cs hcalm
  · intro hr hsorted start t ht
    have h := freeBytes_bound hr (le_add_of_nonneg_right ht : start≤ start+t) hsorted
    rwa [add_sub_cancel_left] at h

end Results

def evenQuotas : Option Quotas := some ⟨some 100,some 100⟩

def fetchCheck (now : ℚ) (bytes : Nat) : QuotaCheck ℚ := ⟨now,bytes,false⟩

def produceCheck (now : ℚ) (bytes : Nat) : QuotaCheck ℚ := ⟨now,bytes,true⟩

theorem quota_directions_paired :
    let cs := [fetchCheck 0 50,produceCheck 0 200,fetchCheck 1 100,produceCheck 1 0]
    ((quotaTrace evenQuotas none cs).filter fun x => x.1.producer=false)=
        quotaTrace evenQuotas none [fetchCheck 0 50,fetchCheck 1 100] ∧
      freeBytes false 0 (0+1) (quotaTrace evenQuotas none cs)≤quotaRate evenQuotas false*1+quotaRate
        evenQuotas false := by
  intro cs
  have h := quota_directions evenQuotas cs false
  have hrate : (0 : ℚ)<quotaRate evenQuotas false := by norm_num [quotaRate,evenQuotas]
  have hcalm : Calm evenQuotas false none cs := by
    refine ⟨fun h => absurd rfl h,fun _ b hb => Or.inl ?_,fun h => absurd rfl h,fun _ b hb => Or.inl ?_,trivial⟩
    · obtain rfl := Option.some.inj hb
      exact (check_lastRefill evenQuotas _ (fetchCheck 0 50)).symm
    · obtain rfl := Option.some.inj hb
      exact (check_lastRefill evenQuotas _ (fetchCheck 1 100)).symm
  exact ⟨h.1 hrate.le hcalm,h.2 hrate (by norm_num [cs,fetchCheck,produceCheck]) 0 1 (by norm_num)⟩

/-- A produce check of no bytes throws away the second the fetch direction had earned. -/
theorem produce_check_throttles_fetch :
    ((quotaTrace evenQuotas none [fetchCheck 0 200,produceCheck 1 0,fetchCheck 1 0]).filter
        fun x => x.1.producer=false).map (·.2)=[1000,1000] ∧
      (quotaTrace evenQuotas none [fetchCheck 0 200,fetchCheck 1 0]).map (·.2)=[1000,0] := by
  decide +kernel

end Kaas
