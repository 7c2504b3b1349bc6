import Kaas.Framework.Run
import Kaas.Storage.Manifest
import Mathlib.Data.List.Nodup
import Mathlib.Logic.Function.Basic

namespace Kaas

def pidStride : Int := 2^40

def pidBlock : Int := 1000

def saturateI64 (x : Int) : Int := max (-2^63) (min x (2^63-1))

structure BlockFile where
  nextBlock : Int
  deriving DecidableEq, Repr

/-- What becomes of an atomic write: done, or reported as failed with the file replaced or not. -/
inductive BlockWrite
  | done
  | failed (replaced : Bool)
  deriving DecidableEq, Repr

def BlockWrite.apply (f : JsonFile BlockFile) (nextBlock : Int) : BlockWrite → JsonFile BlockFile
  | .failed false => f
  | _ => .present ⟨nextBlock⟩

structure ProducerIdAllocator where
  base : Int
  next : Int
  blockEnd : Int
  deriving DecidableEq, Repr

namespace ProducerIdAllocator

def readBlockFile (readable : Bool) (f : JsonFile BlockFile) : Option Int :=
  if readable then
    match f with
    | .absent => some 0
    | .corrupt => none
    | .present b => some (max b.nextBlock 0)
  else none

def baseOf (brokerId : Int) : Int := saturateI64 (saturateI64 (max brokerId 0+1)*pidStride)

/-- The new block end is written first and adopted whether the write has failed or not. -/
def reserve (a : ProducerIdAllocator) (f : JsonFile BlockFile) (write : BlockWrite) :
    ProducerIdAllocator × JsonFile BlockFile :=
  let newEnd := saturateI64 (a.blockEnd+pidBlock)
  ({a with blockEnd := newEnd},write.apply f newEnd)

def openAt (brokerId : Int) (readable : Bool) (f : JsonFile BlockFile) (write : BlockWrite) :
    Option (ProducerIdAllocator × JsonFile BlockFile) :=
  (readBlockFile readable f).map (fun persisted => reserve ⟨baseOf brokerId,persisted,persisted⟩ f write)

def reserveIfDue (a : ProducerIdAllocator) (f : JsonFile BlockFile) (write : BlockWrite) :
    ProducerIdAllocator × JsonFile BlockFile :=
  if a.blockEnd≤a.next then a.reserve f write else (a,f)

def handOut (a : ProducerIdAllocator) : ProducerIdAllocator × Int :=
  ({a with next := wrapI64 (a.next+1)},saturateI64 (a.base+a.next))

end ProducerIdAllocator

/-- Where `Broker::next_producer_id` takes its ids from: the allocator, or the counter in memory. -/
inductive PidSource
  | persisted (a : ProducerIdAllocator)
  | counter (next : Int)
  deriving DecidableEq, Repr

/-- The brokers of a cluster by their ids: the block files, the processes that run, the ids issued
with the broker each comes from, and the local values each broker is through with. -/
structure PidWorld where
  files : Int → JsonFile BlockFile := fun _ => .absent
  running : Int → Option PidSource := fun _ => none
  issued : List (Int × Int) := []
  spent : Int → Int := fun _ => 0

/-- A process may die in `boot` and in `next` behind the write of a block (`survives` is false), and
at any other time. -/
inductive PidOp
  | boot (broker : Int) (readable : Bool) (write : BlockWrite) (survives : Bool)
  | next (broker : Int) (write : BlockWrite) (survives : Bool)
  | crash (broker : Int)
  deriving DecidableEq, Repr

namespace PidWorld

def process (w : PidWorld) (broker : Int) (p : Option PidSource) : PidWorld :=
  {w with running := Function.update w.running broker p}

def store (w : PidWorld) (broker : Int) (f : JsonFile BlockFile) : PidWorld :=
  {w with files := Function.update w.files broker f}

def issue (w : PidWorld) (broker pid : Int) : PidWorld := {w with issued := w.issued++[(broker,pid)]}

def spend (w : PidWorld) (broker upTo : Int) : PidWorld :=
  {w with spent := Function.update w.spent broker upTo}

def exec (w : PidWorld) : PidOp → PidWorld
  | .boot broker readable write survives =>
    match w.running broker with
    | some _ => w
    | none =>
      match ProducerIdAllocator.openAt broker readable (w.files broker) write with
      | none => w.process broker (some (.counter 1))
      | some (a,f) => (w.store broker f).process broker (if survives then some (.persisted a) else none)
  | .next broker write survives =>
    match w.running broker with
    | none => w
    | some (.counter n) => (w.process broker (some (.counter (wrapI64 (n+1))))).issue broker n
    | some (.persisted a) =>
      let (b,f) := a.reserveIfDue (w.files broker) write
      if survives then
        let (c,pid) := b.handOut
        (((w.store broker f).process broker (some (.persisted c))).issue broker pid).spend broker (b.next+1)
      else (w.store broker f).process broker none
  | .crash broker => w.process broker none

end PidWorld

def PidStep (w : PidWorld) (op : PidOp) (w' : PidWorld) : Prop := w.exec op=w'

def PidWorld.stored (w : PidWorld) (broker : Int) : Int :=
  (ProducerIdAllocator.readBlockFile true (w.files broker)).getD 0

def PidSource.Unspent : PidSource → Prop
  | .persisted a => a.next<pidStride
  | .counter _ => True

instance (p : PidSource) : Decidable p.Unspent :=
  match p with
  | .persisted _ => inferInstanceAs (Decidable (_<_))
  | .counter _ => .isTrue trivial

/-- A block write replaces the file. A boot is one of a broker whose slice lies in the positive
`i64`s and that can read its block file. An id is issued from a slice that is not used up. -/
def PidOk (w : PidWorld) : PidOp → Prop
  | .boot broker readable write _ => w.running broker=none →
      0≤broker ∧ broker<2^23-1 ∧ readable=true ∧ w.files broker≠.corrupt ∧ write≠.failed false
  | .next broker write _ => write≠.failed false ∧ ∀p∈w.running broker,p.Unspent
  | .crash _ => True

instance (w : PidWorld) (op : PidOp) : Decidable (PidOk w op) :=
  match op with
  | .boot .. => inferInstanceAs (Decidable (_ → _))
  | .next .. => inferInstanceAs (Decidable (_ ∧ ∀p∈_,_))
  | .crash _ => .isTrue trivial

/-- The ids a process hands out next are behind those its broker is through with, in the broker's
own slice, and in a block that is in the file. -/
structure PidWorld.Drawing (w : PidWorld) (broker : Int) (a : ProducerIdAllocator) : Prop where
  slot : 0≤broker ∧ broker<2^23-1
  base : a.base=(broker+1)*pidStride
  behind : w.spent broker≤a.next
  nonneg : 0≤a.next
  block : a.blockEnd≤w.stored broker
  within : a.next<pidStride → a.next≤a.blockEnd

/-- An id issued comes from the slice of its broker and from the part of it that is spent. -/
def PidWorld.Spent (w : PidWorld) (x : Int × Int) : Prop :=
  (0≤x.1 ∧ x.1<2^23-1) ∧ ∃l,0≤l ∧ l<pidStride ∧ l<w.spent x.1 ∧ x.2=(x.1+1)*pidStride+l

structure PidWorld.Sound (w : PidWorld) : Prop where
  running : ∀broker p,w.running broker=some p → ∃a,p=.persisted a ∧ w.Drawing broker a
  kept : ∀broker,w.spent broker≤w.stored broker ∧ w.spent broker≤pidStride
  spent : ∀x∈w.issued,w.Spent x
  unique : (w.issued.map Prod.snd).Nodup

variable {broker : Int} {w : PidWorld}

theorem baseOf_slice (h0 : 0≤broker) (h1 : broker<2^23-1) :
    ProducerIdAllocator.baseOf broker=(broker+1)*pidStride := by
  unfold ProducerIdAllocator.baseOf saturateI64 pidStride
  omega

theorem slice_apart {b c l m : Int} (hl : 0≤l ∧ l<pidStride) (hm : 0≤ m ∧ m<pidStride)
    (h : (b+1)*pidStride+l=(c+1)*pidStride+m) : b=c ∧ l=m := by
  unfold pidStride at *
  omega

theorem readBlockFile_nonneg {readable : Bool} {f : JsonFile BlockFile} {n : Int}
    (h : ProducerIdAllocator.readBlockFile readable f=some n) :
    0≤n ∧ (ProducerIdAllocator.readBlockFile true f)=some n := by
  cases readable with
  | false => cases h
  | true =>
    refine ⟨?_,h⟩
    cases f with
    | absent => cases h; exact le_refl 0
    | corrupt => cases h
    | present b => cases h; exact le_max_right _ _

theorem stored_nonneg (w : PidWorld) (broker : Int) : 0≤w.stored broker := by
  unfold PidWorld.stored
  cases h : ProducerIdAllocator.readBlockFile true (w.files broker) with
  | none => exact le_refl 0
  | some n => exact (readBlockFile_nonneg h).1

theorem stored_store (w : PidWorld) (broker : Int) (f : JsonFile BlockFile) (b : Int) :
    (w.store broker f).stored b=
      if b=broker then (ProducerIdAllocator.readBlockFile true f).getD 0 else w.stored b := by
  unfold PidWorld.stored PidWorld.store
  dsimp only
  by_cases h : b=broker
  · rw [if_pos h,h,Function.update_self]
  · rw [if_neg h,Function.update_of_ne h]

/-- A write that replaces the file leaves the new block end in it. -/
theorem apply_stored {write : BlockWrite} (h : write≠.failed false) (f : JsonFile BlockFile)
    {n : Int} (hn : 0≤n) :
    (ProducerIdAllocator.readBlockFile true (write.apply f n)).getD 0=n := by
  have hfile : write.apply f n=.present ⟨n⟩ := by
    cases write with
    | done => rfl
    | failed replaced =>
      cases replaced with
      | false => exact absurd rfl h
      | true => rfl
  rw [hfile]
  exact max_eq_left hn

theorem PidWorld.Sound.process (h : w.Sound) (broker : Int) {f : JsonFile BlockFile}
    {p : Option PidSource} (hf : w.spent broker≤(w.store broker f).stored broker)
    (hp : ∀q,p=some q → ∃a,q=.persisted a ∧ (w.store broker f).Drawing broker a) :
    ((w.store broker f).process broker p).Sound := by
  refine ⟨?_,fun b => ?_,h.spent,h.unique⟩
  · intro b q hq
    have hq' : Function.update w.running broker p b=some q := hq
    by_cases hb : b=broker
    · subst hb
      rw [Function.update_self] at hq'
      obtain ⟨a,ha,hd⟩ := hp q hq'
      exact ⟨a,ha,hd.slot,hd.base,hd.behind,hd.nonneg,hd.block,hd.within⟩
    · rw [Function.update_of_ne hb] at hq'
      obtain ⟨a,ha,hd⟩ := h.running b q hq'
      refine ⟨a,ha,hd.slot,hd.base,hd.behind,hd.nonneg,?_,hd.within⟩
      change a.blockEnd≤(w.store broker f).stored b
      rw [stored_store,if_neg hb]
      exact hd.block
  · refine ⟨?_,(h.kept b).2⟩
    change w.spent b≤(w.store broker f).stored b
    by_cases hb : b=broker
    · subst hb
      exact hf
    · rw [stored_store,if_neg hb]
      exact (h.kept b).1

theorem store_same (w : PidWorld) (broker : Int) : w.store broker (w.files broker)=w := by
  unfold PidWorld.store
  rw [Function.update_eq_self]

theorem PidWorld.Sound.crash (h : w.Sound) (broker : Int) : (w.process broker none).Sound := by
  have hkept : w.spent broker≤(w.store broker (w.files broker)).stored broker := by
    rw [store_same]
    exact (h.kept broker).1
  have := h.process broker hkept (p := none) (by intro q hq; cases hq)
  rwa [store_same] at this

theorem PidWorld.Sound.boot (h : w.Sound) (broker : Int) (readable : Bool) (write : BlockWrite)
    (survives : Bool) (hok : PidOk w (.boot broker readable write survives)) :
    (w.exec (.boot broker readable write survives)).Sound := by
  cases hr : w.running broker with
  | some p =>
    simp only [PidWorld.exec,hr]
    exact h
  | none =>
    obtain ⟨h0,h1,rfl,hcorrupt,hwrite⟩ := hok hr
    cases hn : ProducerIdAllocator.readBlockFile true (w.files broker) with
    | none =>
      -- only a corrupt file is refused
      exfalso
      unfold ProducerIdAllocator.readBlockFile at hn
      cases hf : w.files broker with
      | corrupt => exact hcorrupt hf
      | absent | present b => rw [hf] at hn; cases hn
    | some n =>
      have hn0 := (readBlockFile_nonneg hn).1
      have hkept := h.kept broker
      rw [PidWorld.stored,hn,Option.getD_some] at hkept
      have hend : 0≤ saturateI64 (n+pidBlock) ∧ w.spent broker≤ saturateI64 (n+pidBlock) ∧
          (n<pidStride → n≤ saturateI64 (n+pidBlock)) := by
        unfold saturateI64 pidBlock pidStride at *
        omega
      have hstored : (w.store broker (write.apply (w.files broker) (saturateI64 (n+pidBlock)))).stored broker=
          saturateI64 (n+pidBlock) := by
        rw [stored_store,if_pos rfl,apply_stored hwrite _ hend.1]
      simp only [PidWorld.exec,hr,ProducerIdAllocator.openAt,hn,Option.map_some,ProducerIdAllocator.reserve]
      refine h.process broker (by rw [hstored]; exact hend.2.1) ?_
      intro q hq
      cases survives with
      | false => cases hq
      | true =>
        cases hq
        exact ⟨_,rfl,⟨h0,h1⟩,baseOf_slice h0 h1,hkept.1,hn0,by rw [hstored],hend.2.2⟩

theorem PidWorld.Sound.issue (h : w.Sound) {b : ProducerIdAllocator} (hd : w.Drawing broker b)
    (hlt : b.next<pidStride) (hblock : b.next<b.blockEnd) :
    (((w.process broker (some (.persisted b.handOut.1))).issue broker b.handOut.2).spend broker
      (b.next+1)).Sound := by
  have hbehind := hd.behind
  have hnonneg := hd.nonneg
  obtain ⟨hs0,hs1⟩ := hd.slot
  have hpid : b.handOut.2=(broker+1)*pidStride+b.next := by
    change saturateI64 (b.base+b.next)=_
    rw [hd.base]
    unfold saturateI64 pidStride at *
    omega
  have hnext : b.handOut.1.next=b.next+1 := by
    refine wrapI64_of_range _ ?_ ?_ <;> unfold pidStride at hlt <;> omega
  have hspent : ∀x∈w.issued,
    ((((w.process broker (some (.persisted b.handOut.1))).issue broker b.handOut.2).spend broker
      (b.next+1))).Spent x := by
    intro x hx
    obtain ⟨hslot,l,hl0,hl1,hl2,hxl⟩ := h.spent x hx
    refine ⟨hslot,l,hl0,hl1,?_,hxl⟩
    change l<Function.update w.spent broker (b.next+1) x.1
    by_cases hb : x.1=broker
    · rw [hb,Function.update_self]
      rw [hb] at hl2
      omega
    · rw [Function.update_of_ne hb]
      exact hl2
  constructor
  · intro c q hq
    have hq' : Function.update w.running broker (some (.persisted b.handOut.1)) c=some q := hq
    by_cases hc : c=broker
    · subst hc
      rw [Function.update_self] at hq'
      cases hq'
      refine ⟨_,rfl,hd.slot,hd.base,?_,by omega,hd.block,fun _ => ?_⟩
      · change Function.update w.spent c (b.next+1) c≤_
        rw [Function.update_self,hnext]
      · rw [hnext]
        exact hblock
    · rw [Function.update_of_ne hc] at hq'
      obtain ⟨a,ha,hda⟩ := h.running c q hq'
      refine ⟨a,ha,hda.slot,hda.base,?_,hda.nonneg,hda.block,hda.within⟩
      change Function.update w.spent broker (b.next+1) c≤_
      rw [Function.update_of_ne hc]
      exact hda.behind
  · intro c
    have hblockEnd := hd.block
    change Function.update w.spent broker (b.next+1) c≤w.stored c ∧
      Function.update w.spent broker (b.next+1) c≤pidStride
    by_cases hc : c=broker
    · subst hc
      rw [Function.update_self]
      omega
    · rw [Function.update_of_ne hc]
      exact h.kept c
  · intro x hx
    rcases List.mem_append.mp hx with hx|hx
    · exact hspent x hx
    · cases List.mem_singleton.mp hx
      refine ⟨hd.slot,b.next,hnonneg,hlt,?_,hpid⟩
      change b.next<Function.update w.spent broker (b.next+1) broker
      rw [Function.update_self]
      omega
  · change ((w.issued++[(broker,b.handOut.2)]).map Prod.snd).Nodup
    rw [List.map_append,List.nodup_append]
    refine ⟨h.unique,List.nodup_singleton _,?_⟩
    intro p hp q hq heq
    obtain ⟨x,hx,rfl⟩ := List.mem_map.mp hp
    cases List.mem_singleton.mp hq
    obtain ⟨hslot,l,hl0,hl1,hl2,hxl⟩ := h.spent x hx
    have := slice_apart ⟨hl0,hl1⟩ ⟨hnonneg,hlt⟩ (hxl.symm.trans (heq.trans hpid))
    rw [this.1] at hl2
    omega

/-- With its block reserved where that is due, a process has an id to hand out that is in the file's
part. -/
theorem reserveIfDue_draws {a : ProducerIdAllocator} {write : BlockWrite} (hd : w.Drawing broker a)
    (hwrite : write≠.failed false) (hlt : a.next<pidStride) :
    w.spent broker≤(w.store broker (a.reserveIfDue (w.files broker) write).2).stored broker ∧
    (w.store broker (a.reserveIfDue (w.files broker) write).2).Drawing broker
      (a.reserveIfDue (w.files broker) write).1 ∧
    (a.reserveIfDue (w.files broker) write).1.next=a.next ∧
    (a.reserveIfDue (w.files broker) write).1.next<(a.reserveIfDue (w.files broker) write).1.blockEnd := by
  have hbehind := hd.behind
  have hnonneg := hd.nonneg
  have hblock := hd.block
  have hwithin := hd.within hlt
  unfold ProducerIdAllocator.reserveIfDue
  split_ifs with hdue
  · have hend : saturateI64 (a.blockEnd+pidBlock)=a.next+pidBlock := by
      unfold saturateI64 pidBlock pidStride at *
      omega
    have hstored : (w.store broker (a.reserve (w.files broker) write).2).stored broker=a.next+pidBlock := by
      rw [stored_store,if_pos rfl,ProducerIdAllocator.reserve,hend]
      exact apply_stored hwrite _ (by unfold pidBlock; omega)
    have hpos : 0<pidBlock := by decide
    refine ⟨by rw [hstored]; omega,⟨hd.slot,hd.base,hbehind,hnonneg,?_,fun _ => ?_⟩,rfl,?_⟩
    · rw [hstored,ProducerIdAllocator.reserve,hend]
    all_goals
      simp only [ProducerIdAllocator.reserve,hend]
      omega
  · rw [store_same]
    exact ⟨by omega,hd,rfl,by dsimp only; omega⟩

theorem PidWorld.Sound.next (h : w.Sound) (broker : Int) (write : BlockWrite) (survives : Bool)
    (hok : PidOk w (.next broker write survives)) : (w.exec (.next broker write survives)).Sound := by
  cases hr : w.running broker with
  | none =>
    simp only [PidWorld.exec,hr]
    exact h
  | some p =>
    obtain ⟨a,rfl,hd⟩ := h.running broker p hr
    have hlt : a.next<pidStride := hok.2 _ hr
    obtain ⟨hfile,hd',hnext,hblock⟩ := reserveIfDue_draws hd hok.1 hlt
    have hreserved := h.process broker (p := none) hfile (by intro q hq; cases hq)
    simp only [PidWorld.exec,hr]
    cases survives with
    | false => exact hreserved
    | true =>
      have hissued := hreserved.issue ⟨hd'.slot,hd'.base,hd'.behind,hd'.nonneg,hd'.block,hd'.within⟩
        (hnext ▸ hlt) hblock
      simpa [PidWorld.process,PidWorld.store] using hissued

theorem pidSound_step (h : w.Sound) {op : PidOp} (hok : PidOk w op) : (w.exec op).Sound := by
  cases op with
  | boot broker readable write survives => exact h.boot broker readable write survives hok
  | next broker write survives => exact h.next broker write survives hok
  | crash broker => exact h.crash broker

/-- Whatever block files the brokers start from, no id is issued twice, on one broker or on two. -/
theorem producer_ids_unique {files : Int → JsonFile BlockFile} {w : PidWorld}
    (run : Reaches PidStep PidOk {files := files} w) : (w.issued.map Prod.snd).Nodup := by
  have hstart : PidWorld.Sound {files := files} := by
    refine ⟨?_,fun broker => ⟨stored_nonneg _ _,show (0 : Int)≤2^40 by decide⟩,?_,List.nodup_nil⟩
    · intro broker p hp
      cases hp
    · intro x hx
      cases hx
  have h : w.Sound := by
    refine run.invariant hstart ?_
    intro v op v' hv hok hstep
    cases hstep
    exact pidSound_step hv hok
  exact h.unique

theorem restarted_producer_ids_unique :
    ∃w,Reaches PidStep PidOk {} w ∧ w.issued=[(0,2^40),(1,2^41),(0,2^40+2000)] ∧
      (w.issued.map Prod.snd).Nodup := by
  refine runChecked_finds_and (f := PidWorld.exec) (fun _ _ => rfl) [
    .boot 0 true .done true,.boot 1 true .done true,.next 0 .done true,.next 1 .done true,.crash 0,
    .boot 0 true .done false,.boot 0 true .done true,.next 0 .done true] (by decide +kernel)
    fun _ hreach _ => producer_ids_unique hreach

def issuedBy (ops : List PidOp) : List (Int × Int) := (ops.foldl PidWorld.exec {}).issued

/-- An id comes twice when a broker restarts on a block that was not written, when its block file
cannot be read, when its slice is past the `i64`s, and when a negative id shares the first slice. -/
theorem producer_id_reissued :
    issuedBy [.boot 0 true (.failed false) true,.next 0 .done true,.crash 0,.boot 0 true .done true,
      .next 0 .done true]=[(0,2^40),(0,2^40)] ∧
    issuedBy [.boot 0 false .done true,.next 0 .done true,.crash 0,.boot 0 false .done true,
      .next 0 .done true]= [(0,1),(0,1)] ∧
    issuedBy [.boot 8388607 true .done true,.next 8388607 .done true,.next 8388607 .done true]=
      [(8388607,2^63-1),(8388607,2^63-1)] ∧
    issuedBy [.boot 0 true .done true,.boot (-1) true .done true,.next 0 .done true,
      .next (-1) .done true]= [(0,2^40),(-1,2^40)] ∧
    ¬∀w,Reaches PidStep (fun _ _ => True) {} w → (w.issued.map Prod.snd).Nodup := by
  have hfailed : issuedBy [.boot 0 true (.failed false) true,.next 0 .done true,.crash 0,
      .boot 0 true .done true,.next 0 .done true]=[(0,2^40),(0,2^40)] := by
    decide +kernel
  refine ⟨hfailed,by decide +kernel,by decide +kernel,by decide +kernel,?_⟩
  intro hall
  have hn := hall _ (foldl_reaches (f := PidWorld.exec) (fun _ _ => rfl)
    [.boot 0 true (.failed false) true,.next 0 .done true,.crash 0,
    .boot 0 true .done true,.next 0 .done true] {})
  change ((issuedBy _).map Prod.snd).Nodup at hn
  rw [hfailed] at hn
  exact absurd hn (by decide)

end Kaas
