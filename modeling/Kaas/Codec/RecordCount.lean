import Kaas.Framework.Run
import Kaas.Math.Framing
import Kaas.Storage.RecordBatch

namespace Kaas

/-- A `&[u8]`: no slice has more than `isize::MAX` bytes. -/
abbrev Slice := {b : Bytes // b.length<2^63}

def satU64 (n : Nat) : Nat := min n (2^64-1)

def satI64 (x : Int) : Int := max (-2^63) (min (2^63-1) x)

def usizeOf (x : Int) : Option Nat := if 0≤x then some x.toNat else none

def readBeI32 (b : Bytes) (off : Nat) : Option Int := if off+4≤b.length then some (i32At b off) else none

def tally (total records : Int) : Int := if 0<records then satI64 (total+records) else total

/-- The loop of `count_records_in_batches`; `none` is a panic, or a turn too many. -/
def countLoop (b : Bytes) : Nat → Int → Nat → Option Int
  | 0,_,_ => none
  | n+1,total,pos =>
    -- the one addition that is neither checked nor saturating
    if 2^64≤pos+61 then none
    else if pos+61≤b.length then
      (readBeI32 b (pos+8)).bind fun batchLen =>
        if batchLen<49 then some total
        else (usizeOf batchLen).elim (some total) fun len =>
          if b.length< satU64 (pos+satU64 (12+len)) then some total
          else (readBeI32 b (pos+57)).bind fun records =>
            countLoop b n (tally total records) (satU64 (pos+satU64 (12+len)))
    else some total

def countRecordsInBatches (b : Slice) : Option Int := countLoop b.1 (b.1.length+1) 0 0

inductive ErrorKind
  | unexpectedEof
  | interrupted
  | other
  deriving DecidableEq, Repr

/-- `R : Read + Seek`. A read into `n` bytes of buffer answers with the bytes it put there. -/
structure SeekReader (σ : Type) where
  seek : σ → Nat → σ × Except ErrorKind Unit
  read : σ → Nat → σ × Except ErrorKind Bytes

variable {σ : Type}

/-- `read_exact` into `n` bytes of which `buf` are filled; `none` when the calls allowed do not
suffice. -/
def SeekReader.readExact (r : SeekReader σ) (n : Nat) : Nat → σ → Bytes → Option (σ × Except ErrorKind Bytes)
  | 0,_,_ => none
  | k+1,s,buf =>
    if n≤buf.length then some (s,.ok buf)
    else match r.read s (n-buf.length) with
      | (s,.ok []) => some (s,.error .unexpectedEof)
      | (s,.ok got) => r.readExact n k s (buf++got)
      | (s,.error .interrupted) => r.readExact n k s buf
      | (s,.error e) => some (s,.error e)

/-- The loop of `count_records_in_batches_at`, with `calls` reads allowed for each header. -/
def countAtLoop (r : SeekReader σ) (calls stop : Nat) : Nat → Int → σ → Nat → Option (σ × Except ErrorKind Int)
  | 0,_,_,_ => none
  | n+1,total,s,cur =>
    if satU64 (cur+61)≤ stop then
      match r.seek s cur with
      | (s,.error e) => some (s,.error e)
      | (s,.ok ()) => match r.readExact 61 calls s [] with
        | none => none
        | some (s,.error e) => some (s,if e=.unexpectedEof then .ok total else .error e)
        | some (s,.ok hdr) =>
          (readBeI32 hdr 8).bind fun batchLen =>
            if batchLen<49 then some (s,.ok total)
            else (usizeOf batchLen).elim (some (s,.ok total)) fun len =>
              if stop< satU64 (cur+satU64 (12+len)) then some (s,.ok total)
              else (readBeI32 hdr 57).bind fun records =>
                countAtLoop r calls stop n (tally total records) s (satU64 (cur+satU64 (12+len)))
    else some (s,.ok total)

def countRecordsInBatchesAt (r : SeekReader σ) (calls : Nat) (s : σ) (pos length : Nat) :
    Option (σ × Except ErrorKind Int) :=
  countAtLoop r calls (satU64 (pos+length)) (length+1) 0 s pos

/-! What is counted: the records of the longest run of whole batches. -/

structure WholeBatch (raw : Bytes) : Prop where
  headed : 61≤ raw.length
  sized : batchLength raw=(raw.length : Int)-12

def numRecords (raw : Bytes) : Int := i32At raw 57

def recordSum (bs : List Bytes) : Int := (bs.map fun x => max 0 (numRecords x)).sum

structure LongestRun (b : Bytes) (bs : List Bytes) : Prop where
  whole : ∀x∈bs,WholeBatch x
  front : bs.flatten<+:b
  longest : ∀cs,(∀x∈cs,WholeBatch x) → cs.flatten<+:b → cs<+:bs

def nextBatch (xs : Bytes) : Except Unit (Bytes × Bytes) :=
  if 61≤xs.length ∧ 49≤batchLength xs ∧ 12+(batchLength xs).toNat≤xs.length then
    .ok (xs.take (12+(batchLength xs).toNat),xs.drop (12+(batchLength xs).toNat))
  else .error ()

theorem i32At_append {f : Bytes} {k : Nat} (hk : k+4≤f.length) (r : Bytes) : i32At (f++r) k=i32At f k := by
  unfold i32At
  rw [slice_append_left r k hk]

theorem nextBatch_ok {xs f r : Bytes} (h : nextBatch xs=.ok (f,r)) : xs=f++r ∧ WholeBatch f := by
  unfold nextBatch at h
  split_ifs at h with hc
  obtain ⟨rfl,rfl⟩ := Prod.mk.inj (Except.ok.inj h)
  have hl : (xs.take (12+(batchLength xs).toNat)).length=12+(batchLength xs).toNat :=
    List.length_take_of_le hc.2.2
  have hf := i32At_append (f := xs.take (12+(batchLength xs).toNat)) (k := 8) (by omega)
    (xs.drop (12+(batchLength xs).toNat))
  rw [List.take_append_drop] at hf
  refine ⟨(List.take_append_drop _ xs).symm,by omega,?_⟩
  rw [batchLength,← hf,hl]
  unfold batchLength at hc ⊢
  omega

theorem nextBatch_append {f : Bytes} (h : WholeBatch f) (r : Bytes) : nextBatch (f++r)=.ok (f,r) := by
  have hh := h.headed
  have hs : batchLength (f++r)=(f.length : Int)-12 := (i32At_append (by omega) r).trans h.sized
  have hn : 12+(batchLength (f++r)).toNat=f.length := by omega
  unfold nextBatch
  rw [hn,if_pos (by rw [List.length_append]; omega),List.take_left,List.drop_left]

def batchFraming : Framing UInt8 Unit where
  next := nextBatch
  sound h := ⟨(nextBatch_ok h).1,List.ne_nil_of_length_pos (by have := (nextBatch_ok h).2.headed; omega)⟩
  stable h r' := nextBatch_append (nextBatch_ok h).2 r'

theorem frame_iff_whole (f : Bytes) : batchFraming.Frame f ↔ WholeBatch f := by
  refine ⟨fun h => (nextBatch_ok h).2,fun h => ?_⟩
  have hn := nextBatch_append h []
  rwa [List.append_nil] at hn

theorem longestRun_of_splits {b t : Bytes} {bs : List Bytes} {e : Unit}
    (h : batchFraming.Splits b bs t e) : LongestRun b bs := by
  refine ⟨fun x hx => (frame_iff_whole x).mp (h.all_frames x hx),⟨t,h.eq_append.symm⟩,?_⟩
  rintro cs hc ⟨rest,rfl⟩
  -- the run behind `cs` completes it to the run of the whole input
  obtain ⟨gs,u,e',hr⟩ := Framing.splits_exists (F := batchFraming) rest
  have ha := hr.append cs (fun x hx => (frame_iff_whole x).mpr (hc x hx))
  exact ⟨gs,(h.unique ha).1.symm⟩

/-! One turn of either walk, at the bytes `ys` behind its position. -/

theorem i32At_drop (b : Bytes) (p k : Nat) : i32At (b.drop p) k=i32At b (p+k) := by
  unfold i32At slice
  rw [List.drop_drop,show k+4-k=4 by omega,show p+k+4-(p+k)=4 by omega]

theorem nextBatch_short {ys : Bytes} (h : ys.length<61) : nextBatch ys=.error () := by
  unfold nextBatch
  rw [if_neg (by omega)]

theorem walk_turn {ρ : Type} {ys : Bytes} {p stop : Nat} (hstop : stop<2^63) (hp : p+ys.length=stop)
    (hys : 61≤ys.length) (done : Option ρ) (next : Int → Nat → Option ρ) :
    ((some (i32At ys 8)).bind fun batchLen =>
      if batchLen<49 then done
      else (usizeOf batchLen).elim done fun len =>
        if stop< satU64 (p+satU64 (12+len)) then done
        else (some (i32At ys 57)).bind fun records => next records (satU64 (p+satU64 (12+len))))=
    (nextBatch ys).toOption.elim done fun fr => next (numRecords fr.1) (p+fr.1.length) := by
  have hr := (i32At_range ys 8).2
  rw [Option.bind_some]
  by_cases hl : i32At ys 8<49
  · have hn : nextBatch ys=.error () := if_neg (by unfold batchLength; omega)
    rw [if_pos hl,hn]
    rfl
  -- a length field below 2^31 saturates nothing
  have hsat : satU64 (p+satU64 (12+(i32At ys 8).toNat))=p+(12+(i32At ys 8).toNat) := by
    unfold satU64
    omega
  rw [if_neg hl,usizeOf,if_pos (by omega),Option.elim_some,hsat,Option.bind_some]
  by_cases hc : stop<p+(12+(i32At ys 8).toNat)
  · have hn : nextBatch ys=.error () := if_neg (by unfold batchLength; omega)
    rw [if_pos hc,hn]
    rfl
  · have hn : nextBatch ys=.ok (ys.take (12+(i32At ys 8).toNat),ys.drop (12+(i32At ys 8).toNat)) :=
      if_pos (by unfold batchLength; omega)
    have hl : (ys.take (12+(i32At ys 8).toNat)).length=12+(i32At ys 8).toNat :=
      List.length_take_of_le (by omega)
    have hrec := i32At_append (f := ys.take (12+(i32At ys 8).toNat)) (k := 57) (by omega)
      (ys.drop (12+(i32At ys 8).toNat))
    rw [List.take_append_drop] at hrec
    rw [if_neg hc,hn,hrec]
    simp only [Except.toOption,Option.elim_some,numRecords,hl]

theorem countLoop_succ {b : Bytes} {p : Nat} (hb : b.length<2^63) (hp : p≤b.length) (n : Nat) (total : Int) :
    countLoop b (n+1) total p=(nextBatch (b.drop p)).toOption.elim (some total) fun fr =>
      countLoop b n (tally total (numRecords fr.1)) (p+fr.1.length) := by
  have hlen : (b.drop p).length=b.length-p := List.length_drop
  rw [countLoop,if_neg (by omega)]
  by_cases hh : p+61≤b.length
  · rw [if_pos hh,readBeI32,readBeI32,if_pos (by omega),if_pos (by omega),← i32At_drop,← i32At_drop]
    exact walk_turn hb (by omega) (by omega) _ (fun records pos => countLoop b n (tally total records) pos)
  · rw [if_neg hh,nextBatch_short (by omega)]
    rfl

theorem drop_batch {b xs f r : Bytes} {p : Nat} (hp : p≤b.length) (hxs : b.drop p=xs)
    (h : nextBatch xs=.ok (f,r)) : p+f.length≤b.length ∧ b.drop (p+f.length)=r := by
  obtain ⟨rfl,_⟩ := nextBatch_ok h
  have hl := congrArg List.length hxs
  rw [List.length_drop,List.length_append] at hl
  rw [← List.drop_drop,hxs,List.drop_left]
  exact ⟨by omega,rfl⟩

theorem countLoop_splits {b xs t : Bytes} {fs : List Bytes} {e : Unit} (hb : b.length<2^63)
    (h : batchFraming.Splits xs fs t e) {p : Nat} (hp : p≤b.length) (hxs : b.drop p=xs) {n : Nat}
    (hn : fs.length<n)
    (total : Int) : countLoop b n total p=some
    (fs.foldl (fun total f => tally total (numRecords f)) total) := by
  induction h generalizing p n total with
  | stop xs e h =>
    obtain ⟨m,rfl⟩ : ∃m,n=m+1 := ⟨n-1,by omega⟩
    rw [countLoop_succ hb hp,hxs,show nextBatch xs=.error e from h]
    rfl
  | more xs f r fs t e h _ ih =>
    obtain ⟨m,rfl⟩ : ∃m,n=m+1 := ⟨n-1,by omega⟩
    obtain ⟨hp',hr⟩ := drop_batch hp hxs h
    rw [countLoop_succ hb hp,hxs,show nextBatch xs=.ok (f,r) from h]
    exact ih hp' hr (by simpa using hn) _

inductive IoCall
  | seek (n : Nat)
  | read (n : Nat)

namespace SeekReader

variable (r : SeekReader σ)

def called (s : σ) : IoCall → σ
  | .seek n => (r.seek s n).1
  | .read n => (r.read s n).1

variable {r} {n need : Nat} {s : σ} {buf : Bytes}

theorem readExact_more {got : Bytes} (hn : n-buf.length=need) (hpos : 0<need) (hne : got≠[])
    (hr : (r.read s need).2=.ok got) (k : Nat) :
    r.readExact n (k+1) s buf=r.readExact n k (r.called s (.read need)) (buf++got) := by
  rw [readExact,if_neg (by omega),hn,called]
  rcases hrd : r.read s need with ⟨s1,a⟩
  rw [hrd] at hr
  cases got with
  | nil => exact absurd rfl hne
  | cons c cs => cases hr; rfl

theorem readExact_again (hn : n-buf.length=need) (hpos : 0<need) (hr : (r.read s need).2=.error .interrupted)
    (k : Nat) : r.readExact n (k+1) s buf=r.readExact n k (r.called s (.read need)) buf := by
  rw [readExact,if_neg (by omega),hn,called]
  rcases hrd : r.read s need with ⟨s1,a⟩
  rw [hrd] at hr
  cases hr
  rfl

end SeekReader

theorem slice_split (b : Bytes) {i j : Nat} (k : Nat) (hij : i≤j) (hjk : j≤k) :
    slice b i j++slice b j k=slice b i k := by
  unfold slice
  rw [show k-i=(j-i)+(k-j) by omega,List.take_add,List.drop_drop,show i+(j-i)=j by omega]

theorem enough_succ {α : Type} {f g : Nat → α} {a : α} {N : Nat} (step : ∀k,f (k+1)=g k)
    (h : ∀k≥N,g k=a) : ∀k≥N+1,f k=a
  | k+1,hk => (step k).trans (h k (by omega))

/-- Within `data` a read gives at least one of the bytes asked for, or is interrupted, finitely
often in a row. What it does outside is left open. -/
structure ReaderOver (data : Bytes) (σ : Type) extends SeekReader σ where
  pos : σ → Nat
  patience : σ → Nat
  seeks : ∀s n,n≤data.length → (seek s n).2=.ok () ∧ pos (seek s n).1=n
  reads : ∀s n,0<n → pos s+n≤data.length →
    (∃k,0<k ∧ k≤n ∧ (read s n).2=.ok (slice data (pos s) (pos s+k)) ∧ pos (read s n).1=pos s+k) ∨
    (read s n).2=.error .interrupted ∧ pos (read s n).1=pos s ∧ patience (read s n).1<patience s

namespace ReaderOver

variable {data : Bytes} (o : ReaderOver data σ)

def Inside (s : σ) : IoCall → Prop
  | .seek n => n≤data.length
  | .read n => o.pos s+n≤data.length

/-- From `s` to `s'` by calls within the data only. -/
abbrev StaysInside : σ → σ → Prop := Reaches (fun s c s' => o.called s c=s') o.Inside

theorem readExact_fills {n need q : Nat} {s0 s : σ} {w : Bytes} (hneed : w.length+need=n)
    (hin : o.pos s+need≤data.length) (hq : o.patience s=q) (h0 : o.StaysInside s0 s) :
    ∃s' N,(∀k≥N,o.readExact n k s w=some (s',.ok (w++slice data (o.pos s) (o.pos s+need)))) ∧
      o.StaysInside s0 s' := by
  -- the bytes still missing, and at each of them the interruptions
  induction need using Nat.strongRecOn generalizing s w q with
  | ind need ih =>
    induction q using Nat.strongRecOn generalizing s with
    | ind q again =>
      obtain rfl|hpos := Nat.eq_zero_or_pos need
      · refine ⟨s,1,fun k hk => ?_,h0⟩
        obtain ⟨m,rfl⟩ : ∃m,k=m+1 := ⟨k-1,by omega⟩
        rw [SeekReader.readExact,if_pos (by omega)]
        simp [slice]
      have hn : n-w.length=need := by omega
      have h1 : o.StaysInside s0 (o.called s (.read need)) := .next (.read need) h0 hin rfl
      obtain ⟨m,hm,hmn,hok,hat⟩|⟨herr,hat,hless⟩ := o.reads s need hpos hin
      · have hl : (slice data (o.pos s) (o.pos s+m)).length=m := by
          rw [slice,List.length_take,List.length_drop]
          omega
        have hat' : o.pos (o.called s (.read need))=o.pos s+m := hat
        obtain ⟨s',N,hs',hr⟩ := ih (need-m) (by omega) (w := w++slice data (o.pos s) (o.pos s+m))
          (by rw [List.length_append]; omega) (by omega) rfl h1
        rw [hat',List.append_assoc,slice_split data _ (Nat.le_add_right _ m) (Nat.le_add_right _ _),
          show o.pos s+m+(need-m)=o.pos s+need by omega] at hs'
        exact ⟨s',N+1,enough_succ (o.readExact_more hn hpos (List.ne_nil_of_length_pos (by omega)) hok) hs',hr⟩
      · have hat' : o.pos (o.called s (.read need))=o.pos s := hat
        obtain ⟨s',N,hs',hr⟩ := again _ (hq ▸ hless) (by omega) rfl h1
        rw [hat'] at hs'
        exact ⟨s',N+1,enough_succ (o.readExact_again hn hpos herr) hs',hr⟩

variable (hb : data.length<2^63)
include hb

theorem countAtLoop_succ {p : Nat} (hp : p≤data.length) {s0 s : σ} (h0 : o.StaysInside s0 s) :
    ∃s' N,(∀calls≥N,∀n total,countAtLoop o.toSeekReader calls data.length (n+1) total s p=
      (nextBatch (data.drop p)).toOption.elim (some (s',.ok total)) fun fr =>
        countAtLoop o.toSeekReader calls data.length n (tally total (numRecords fr.1)) s' (p+fr.1.length)) ∧
      o.StaysInside s0 s' := by
  have hlen : (data.drop p).length=data.length-p := List.length_drop
  have hsat : satU64 (p+61)=p+61 := by
    unfold satU64
    omega
  by_cases hh : p+61≤data.length
  · obtain ⟨hok,hat⟩ := o.seeks s p hp
    have hat' : o.pos (o.called s (.seek p))=p := hat
    obtain ⟨s',N,hs',hr⟩ := o.readExact_fills (n := 61) (w := []) (Nat.zero_add 61) (by omega) rfl
      (.next (.seek p) h0 hp rfl)
    refine ⟨s',N,fun calls hc n total => ?_,hr⟩
    have hhdr : slice data p (p+61)=(data.drop p).take 61 := by rw [slice,Nat.add_sub_cancel_left]
    have hbe {k : Nat} (hk : k+4≤61) : readBeI32 ((data.drop p).take 61) k=some (i32At (data.drop p) k) := by
      unfold readBeI32 i32At
      rw [if_pos (by rw [List.length_take]; omega),slice_take _ k hk]
    have hread := hs' calls hc
    rw [hat',List.nil_append,hhdr] at hread
    rw [countAtLoop,hsat,if_pos hh]
    rcases hsk : o.seek s p with ⟨s1,a⟩
    rw [hsk] at hok
    cases hok
    rw [SeekReader.called,hsk] at hread
    simp only [hread]
    rw [hbe (by omega),hbe (by omega)]
    exact walk_turn hb (by omega) (by omega) _
      (fun records pos => countAtLoop o.toSeekReader calls data.length n (tally total records) s' pos)
  · refine ⟨s,0,fun calls _ n total => ?_,h0⟩
    rw [countAtLoop,hsat,if_neg hh,nextBatch_short (by omega)]
    rfl

theorem countAtLoop_splits {xs t : Bytes} {fs : List Bytes} {e : Unit}
    (h : batchFraming.Splits xs fs t e) {p : Nat}
    (hp : p≤data.length) (hxs : data.drop p=xs) {n : Nat} (hn : fs.length<n) (total : Int)
    {s0 s : σ} (h0 : o.StaysInside s0 s) :
    ∃s' N,(∀calls≥N,countAtLoop o.toSeekReader calls data.length n total s p=
      some (s',.ok (fs.foldl (fun total f => tally total (numRecords f)) total))) ∧ o.StaysInside s0 s' := by
  induction h generalizing p n total s with
  | stop xs e h =>
    obtain ⟨m,rfl⟩ : ∃m,n=m+1 := ⟨n-1,by omega⟩
    obtain ⟨s',N,hs',hr⟩ := o.countAtLoop_succ hb hp h0
    refine ⟨s',N,fun calls hc => ?_,hr⟩
    rw [hs' calls hc,hxs,show nextBatch xs=.error e from h]
    rfl
  | more xs f r fs t e h _ ih =>
    obtain ⟨m,rfl⟩ : ∃m,n=m+1 := ⟨n-1,by omega⟩
    obtain ⟨hp',hr⟩ := drop_batch hp hxs h
    obtain ⟨s1,N,hs1,h1⟩ := o.countAtLoop_succ hb hp h0
    obtain ⟨s',N',hs',h'⟩ := ih hp' hr (by simpa using hn) (tally total (numRecords f)) h1
    refine ⟨s',max N N',fun calls hc => ?_,h'⟩
    rw [hs1 calls (by omega),hxs,show nextBatch xs=.ok (f,r) from h]
    exact hs' calls (by omega)

end ReaderOver

theorem foldl_tally (bs : List Bytes) {total : Int} (h0 : 0≤total) :
    bs.foldl (fun total f => tally total (numRecords f)) (min (2^63-1) total)=min (2^63-1)
      (total+recordSum bs) := by
  induction bs generalizing total with
  | nil => simp [recordSum]
  | cons x bs ih =>
    have hx : tally (min (2^63-1) total) (numRecords x)=min (2^63-1) (total+max 0 (numRecords x)) := by
      unfold tally satI64
      split_ifs <;> omega
    have hs : recordSum (x::bs)=max 0 (numRecords x)+recordSum bs := by simp [recordSum]
    rw [List.foldl_cons,hx,ih (by omega),hs,add_assoc]

theorem count_of_splits {b : Slice} {t : Bytes} {bs : List Bytes} {e : Unit}
    (h : batchFraming.Splits b.1 bs t e) :
    countRecordsInBatches b=some (min (2^63-1) (recordSum bs)) := by
  have hl := h.length_le
  have hsum := foldl_tally bs (Int.le_refl 0)
  rw [Int.zero_add] at hsum
  rw [← hsum]
  exact countLoop_splits b.2 h (Nat.zero_le _) rfl (by omega) 0

/-- Both counters give the records of the longest run of whole batches, up to `i64::MAX`: the one in
memory without a panic, the other over every reader of the same bytes, with calls within them
only. -/
theorem record_counters (b : Slice) :
    ∃bs,LongestRun b.1 bs ∧ countRecordsInBatches b=some (min (2^63-1) (recordSum bs)) ∧
      ∀(σ : Type) (o : ReaderOver b.1 σ) (s : σ),∃s' N,
        (∀calls≥N,countRecordsInBatchesAt o.toSeekReader calls s 0 b.1.length=
          some (s',.ok (min (2^63-1) (recordSum bs)))) ∧ o.StaysInside s s' := by
  obtain ⟨bs,t,e,h⟩ := Framing.splits_exists (F := batchFraming) b.1
  refine ⟨bs,longestRun_of_splits h,count_of_splits h,fun σ o s => ?_⟩
  have hl := h.length_le
  have hb := b.2
  have hsat : satU64 (0+b.1.length)=b.1.length := by
    unfold satU64
    omega
  have hsum := foldl_tally bs (Int.le_refl 0)
  rw [Int.zero_add] at hsum
  unfold countRecordsInBatchesAt
  rw [← hsum,hsat]
  exact o.countAtLoop_splits hb h (Nat.zero_le _) rfl (by omega) 0 .start

def slowReader (data : Bytes) : ReaderOver data Nat where
  seek _ n := (n,.ok ())
  read s _ := (s+1,.ok (slice data s (s+1)))
  pos s := s
  patience _ := 0
  seeks _ _ _ := ⟨rfl,rfl⟩
  reads _ _ hn _ := .inl ⟨1,Nat.one_pos,hn,rfl,rfl⟩

def fullBatch : Bytes := List.replicate 8 0++beBytes 4 49++List.replicate 45 0++beBytes 4 (2^31-1)

theorem fullBatch_whole : WholeBatch fullBatch := ⟨by decide,by decide⟩

example : countRecordsInBatchesAt (slowReader (fullBatch++fullBatch.take 60)).toSeekReader 62 0 0
    121= some (61,.ok (2^31-1)) := by
  decide +kernel

/-- In 2^32+3 such batches the count stays at `i64::MAX`, below the sum. -/
theorem record_count_saturates :
    ∃(b : Slice) (bs : List Bytes),LongestRun b.1 bs ∧ countRecordsInBatches b=some (2^63-1) ∧
      2^63-1<recordSum bs := by
  have hlen (n : Nat) : (List.replicate n fullBatch).flatten.length=n*61 := by
    simp [show fullBatch.length=61 by decide]
  have hsum (n : Nat) : recordSum (List.replicate n fullBatch)=n*(2^31-1) := by
    simp [recordSum,show numRecords fullBatch=2^31-1 by decide]
  obtain ⟨n,hn⟩ : ∃n,n=2^32+3 := ⟨_,rfl⟩
  have hframes : ∀f∈List.replicate n fullBatch,batchFraming.Frame f := fun f hf =>
    (frame_iff_whole f).mpr (List.eq_of_mem_replicate hf ▸ fullBatch_whole)
  obtain ⟨e,he⟩ := Framing.splits_flatten hframes
  have hmax : 2^63-1<recordSum (List.replicate n fullBatch) := by
    rw [hsum]
    omega
  refine ⟨⟨_,by rw [hlen]; omega⟩,_,longestRun_of_splits he,?_,hmax⟩
  rw [count_of_splits he,min_eq_left hmax.le]

end Kaas
