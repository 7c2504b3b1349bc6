import Kaas.Group.OffsetStore
import Kaas.Storage.Tracking

namespace Kaas

/-! File stems as text: `{epoch:08x}-{base:020}` and its reader. -/

def toDigit (radix : Nat) (c : Char) : Option Nat :=
  let d := if '0'≤c ∧ c≤ '9' then some (c.toNat-48)
    else if 'a'≤c ∧ c≤ 'z' then some (c.toNat-87)
    else if 'A'≤c ∧ c≤ 'Z' then some (c.toNat-55)
    else none
  d.filter (· <radix)

def readDigits (radix : Nat) : Nat → List Char → Option Nat
  | acc,[] => some acc
  | acc,c::cs => (toDigit radix c).bind (fun d => readDigits radix (acc*radix+d) cs)

def parseHexU32 (s : List Char) : Option Nat :=
  let digits := if s.head?=some '+' then s.tail else s
  if digits=[] then none else (readDigits 16 0 digits).filter (· <2^32)

def parseI64 (s : List Char) : Option Int :=
  let (negative,digits) := splitSign s
  if digits=[] then none
  else (readDigits 10 0 digits).bind (fun n =>
    let x : Int := if negative then -n else n
    if -2^63≤x ∧ x<2^63 then some x else none)

def padTo (w : Nat) (ds : List Char) : List Char := List.replicate (w-ds.length) '0'++ds

def i64LowU32 (v : Int) : Nat := (v%2^32).toNat

def epochPrefixedStem (baseOffset epoch : Int) : List Char :=
  padTo 8 (Nat.toDigits 16 (i64LowU32 epoch))++ '-'::
    (if 0≤baseOffset then padTo 20 (Nat.toDigits 10 baseOffset.toNat)
     else '-'::padTo 19 (Nat.toDigits 10 (-baseOffset).toNat))

def splitOnce (s : List Char) : Option (List Char × List Char) :=
  if '-'∈s then some (s.takeWhile (·≠ '-'),(s.dropWhile (·≠ '-')).tail) else none

def parseSegmentStem (stem : List Char) : Option (Int × Int) :=
  match splitOnce stem with
  | some (epochPart,basePart) => do
    let epoch ← parseHexU32 epochPart
    let base ← parseI64 basePart
    return (base,(epoch : Int))
  | none => (parseI64 stem).map (·,0)

section Digits

variable {radix acc x y : Nat} {l m : List Char}

theorem toDigit_digitChar {d : Nat} (hr : radix≤16) (hd : d<radix) :
    toDigit radix (Nat.digitChar d)=some d := by
  have h16 : ∀d<16,(toDigit 16 (Nat.digitChar d)=some d) := by decide
  have h := h16 d (by omega)
  unfold toDigit at h ⊢
  obtain ⟨hsome,_⟩ := Option.filter_eq_some_iff.mp h
  rw [hsome]
  exact Option.filter_eq_some_iff.mpr ⟨rfl,decide_eq_true hd⟩

theorem readDigits_append (cs : List Char) :
    readDigits radix acc (l++cs)=(readDigits radix acc l).bind (fun v => readDigits radix v cs) := by
  induction l generalizing acc with
  | nil => rfl
  | cons c l ih =>
    rw [List.cons_append,readDigits,readDigits]
    cases toDigit radix c with
    | none => rfl
    | some d => exact ih

theorem readDigits_toDigits (h1 : 1<radix) (hr : radix≤16) (n : Nat) :
    readDigits radix 0 (Nat.toDigits radix n)=some n := by
  induction n using Nat.strongRecOn with
  | ind n ih =>
    by_cases hn : n<radix
    · rw [Nat.toDigits_of_lt_base hn,readDigits,toDigit_digitChar hr hn,Option.bind_some,readDigits,
        zero_mul,zero_add]
    · have hlow : n%radix<radix := Nat.mod_lt n (by omega)
      have hdiv : n/radix*radix+n%radix=n := Nat.div_add_mod' n radix
      rw [Nat.toDigits_of_base_le h1 (by omega),readDigits_append,ih _ (Nat.div_lt_self (by omega) h1),
        Option.bind_some,readDigits,toDigit_digitChar hr hlow,Option.bind_some,readDigits,hdiv]

theorem readDigits_zeros (h1 : 1<radix) (hr : radix≤16) (k : Nat) :
    readDigits radix 0 (List.replicate k '0')=some 0 := by
  induction k with
  | zero => rfl
  | succ k ih =>
    rw [List.replicate_succ,readDigits,show '0'=Nat.digitChar 0 from rfl,toDigit_digitChar hr (by omega),
      Option.bind_some,zero_mul]
    exact ih

theorem readDigits_padTo (h1 : 1<radix) (hr : radix≤16) (w n : Nat) :
    readDigits radix 0 (padTo w (Nat.toDigits radix n))=some n := by
  rw [padTo,readDigits_append,readDigits_zeros h1 hr,Option.bind_some,readDigits_toDigits h1 hr]

theorem readDigits_window (h : readDigits radix acc l=some x) :
    acc*radix^l.length≤x ∧ x<(acc+1)*radix^l.length := by
  induction l generalizing acc with
  | nil =>
    cases h
    simp
  | cons c l ih =>
    rw [readDigits] at h
    obtain ⟨d,hd,h⟩ := Option.bind_eq_some_iff.mp h
    obtain ⟨hlow,hhigh⟩ := ih h
    have hlt : d<radix := of_decide_eq_true (Option.filter_eq_some_iff.mp hd).2
    have hpow : radix^(c::l).length=radix*radix^l.length := by rw [List.length_cons,pow_succ,mul_comm]
    rw [hpow]
    constructor
    · calc acc*(radix*radix^l.length)=acc*radix*radix^l.length := by ring
        _≤(acc*radix+d)*radix^l.length := Nat.mul_le_mul_right _ (by omega)
        _≤x := hlow
    · calc x<(acc*radix+d+1)*radix^l.length := hhigh
        _≤(acc*radix+radix)*radix^l.length := Nat.mul_le_mul_right _ (by omega)
        _=(acc+1)*(radix*radix^l.length) := by ring

theorem toDigit_ten {c : Char} {d : Nat} (h : toDigit 10 c=some d) : c.toNat=48+d := by
  unfold toDigit at h
  obtain ⟨hd,hlt⟩ := Option.filter_eq_some_iff.mp h
  have hlt' := of_decide_eq_true hlt
  simp only [Char.le_def,UInt32.le_iff_toNat_le] at hd
  change (if 48≤c.toNat ∧ c.toNat≤57 then some (c.toNat-48) else if 97≤c.toNat ∧
    c.toNat≤122 then some (c.toNat-87)
    else if 65≤c.toNat ∧ c.toNat≤90 then some (c.toNat-55) else none)=some d at hd
  split_ifs at hd with h1 h2 h3 <;> cases hd <;> omega

theorem readDigits_lt_iff (hlen : l.length=m.length) (hl : readDigits 10 acc l=some x)
    (hm : readDigits 10 acc m=some y) : l< m ↔ x<y := by
  induction l generalizing acc m with
  | nil =>
    obtain rfl : m=[] := List.eq_nil_of_length_eq_zero hlen.symm
    cases hl
    cases hm
    simp
  | cons c l ih =>
    cases m with
    | nil => cases hlen
    | cons d m =>
      rw [readDigits] at hl hm
      obtain ⟨a,ha,hl⟩ := Option.bind_eq_some_iff.mp hl
      obtain ⟨b,hb,hm⟩ := Option.bind_eq_some_iff.mp hm
      have hlen' : l.length=m.length := Nat.succ.inj hlen
      have hca := toDigit_ten ha
      have hdb := toDigit_ten hb
      have hchar : c<d ↔ a<b := by
        rw [Char.lt_def,UInt32.lt_iff_toNat_lt]
        change c.toNat<d.toNat ↔ _
        omega
      obtain ⟨hx1,hx2⟩ := readDigits_window hl
      obtain ⟨hy1,hy2⟩ := readDigits_window hm
      rw [hlen'] at hx1 hx2
      rw [List.cons_lt_cons_iff,hchar]
      rcases lt_trichotomy a b with hab|rfl|hab
      · have hstep := Nat.mul_le_mul_right (10^m.length) (show acc*10+a+1≤acc*10+b by omega)
        exact ⟨fun _ => by omega,fun _ => Or.inl hab⟩
      · have hcd : c=d := Char.toNat_inj.mp (hca.trans hdb.symm)
        rw [ih hlen' hl hm]
        exact ⟨fun h => (h.resolve_left (lt_irrefl _)).2,fun h => Or.inr ⟨hcd,h⟩⟩
      · have hstep := Nat.mul_le_mul_right (10^m.length) (show acc*10+b+1≤acc*10+a by omega)
        refine ⟨fun h => ?_,fun h => by omega⟩
        rcases h with h|⟨h,_⟩
        · omega
        · rw [h] at hca
          omega

theorem padTo_length {w n : Nat} (h1 : 1<radix) (hw : 0<w) (hn : n<radix^w) :
    (padTo w (Nat.toDigits radix n)).length=w := by
  have h := (Nat.length_toDigits_le_iff h1 hw).mpr hn
  rw [padTo,List.length_append,List.length_replicate]
  omega

theorem toDigit_of_readDigits (h : readDigits radix acc l=some x) : ∀c∈l,(toDigit radix c).isSome := by
  induction l generalizing acc with
  | nil => exact List.forall_mem_nil _
  | cons c l ih =>
    rw [readDigits] at h
    obtain ⟨d,hd,h⟩ := Option.bind_eq_some_iff.mp h
    exact List.forall_mem_cons.mpr ⟨by rw [hd]; rfl,ih h⟩

end Digits

theorem append_cons_lt_iff (p : List Char) (c : Char) (l m : List Char) : p++c::l<p++c::m ↔ l< m := by
  induction p with
  | nil => simp
  | cons a p ih => simp [ih]

variable {base epoch : Int}

theorem parseHexU32_padTo {n : Nat} (hn : n<2^32) : parseHexU32 (padTo 8 (Nat.toDigits 16 n))=some n := by
  have hread := readDigits_padTo (by decide : 1<16) (le_refl 16) 8 n
  have hlen := padTo_length (by decide : 1<16) (by decide : 0<8) (show n<16^8 by omega)
  have hdigit := toDigit_of_readDigits hread
  generalize padTo 8 (Nat.toDigits 16 n)=l at hread hlen hdigit
  have hplus : l.head?≠some '+' := by
    intro h
    exact absurd (hdigit '+' (List.mem_of_head? h)) (by decide)
  have hne : l≠[] := by
    rintro rfl
    cases hlen
  unfold parseHexU32
  simp only [if_neg hplus,if_neg hne,hread]
  exact Option.filter_eq_some_iff.mpr ⟨rfl,decide_eq_true hn⟩

theorem parseI64_padTo {n : Nat} (hn : n<2^63) : parseI64 (padTo 20 (Nat.toDigits 10 n))=some (n : Int) := by
  have hread := readDigits_padTo (by decide : 1<10) (by decide : 10≤16) 20 n
  have hlen := padTo_length (by decide : 1<10) (by decide : 0<20) (show n<10^20 by omega)
  have hdigit := toDigit_of_readDigits hread
  generalize padTo 20 (Nat.toDigits 10 n)=l at hread hlen hdigit
  have hsign : splitSign l=(false,l) := by
    unfold splitSign
    split
    · exact absurd (hdigit '-' (List.mem_cons_self ..)) (by decide)
    · exact absurd (hdigit '+' (List.mem_cons_self ..)) (by decide)
    · rfl
  have hne : l≠[] := by
    rintro rfl
    cases hlen
  unfold parseI64
  rw [hsign]
  change (if l=[] then none else (readDigits 10 0 l).bind _)=_
  rw [if_neg hne,hread,Option.bind_some]
  change (if -2^63≤(n : Int) ∧ (n : Int)<2^63 then some (n : Int) else none)=_
  exact if_pos ⟨by omega,by omega⟩

theorem epochPrefixedStem_eq (hbase : 0≤base) : epochPrefixedStem base epoch=
    padTo 8 (Nat.toDigits 16 (i64LowU32 epoch))++ '-'::padTo 20 (Nat.toDigits 10 base.toNat) := by
  rw [epochPrefixedStem,if_pos hbase]

theorem i64LowU32_lt (v : Int) : i64LowU32 v<2^32 := by
  unfold i64LowU32
  omega

/-- The names of the directory model are these texts. -/
theorem parseSegmentStem_stem (hbase : 0≤base) (hhigh : base<2^63) :
    parseSegmentStem (epochPrefixedStem base epoch)=(segmentName base epoch).parse := by
  have hdash : '-'∉padTo 8 (Nat.toDigits 16 (i64LowU32 epoch)) := by
    intro h
    have hread := readDigits_padTo (by decide : 1<16) (le_refl 16) 8 (i64LowU32 epoch)
    exact absurd (toDigit_of_readDigits hread '-' h) (by decide)
  have hall : ∀c∈padTo 8 (Nat.toDigits 16 (i64LowU32 epoch)),decide (c≠ '-')=true := by
    intro c hc
    exact decide_eq_true (fun h => hdash (h ▸ hc))
  have hsplit : splitOnce (epochPrefixedStem base epoch)=some
      (padTo 8 (Nat.toDigits 16 (i64LowU32 epoch)),padTo 20 (Nat.toDigits 10 base.toNat)) := by
    rw [epochPrefixedStem_eq hbase,splitOnce,if_pos (by simp),List.takeWhile_append_of_pos hall,
      List.dropWhile_append_of_pos hall]
    simp
  have hepoch : ((i64LowU32 epoch : Nat) : Int)=epoch%2^32 := by
    unfold i64LowU32
    omega
  rw [segmentName_parse epoch ⟨by omega,hhigh⟩,parseSegmentStem,hsplit]
  change (parseHexU32 _).bind (fun e => (parseI64 _).bind (fun b => some (b,(e : Int))))=_
  rw [parseHexU32_padTo (i64LowU32_lt epoch),parseI64_padTo (show base.toNat<2^63 by omega),Option.bind_some,
    Option.bind_some,Int.toNat_of_nonneg hbase,hepoch]

/-- A stem reads back as what it was made of, so two pairs never share one, and within an epoch the
stems are ordered as their base offsets. -/
theorem stem_exact {base' epoch' : Int} (hbase : 0≤base ∧ base<2^63) (hepoch : 0≤epoch ∧ epoch<2^32)
    (hbase' : 0≤base' ∧ base'<2^63) (hepoch' : 0≤epoch' ∧ epoch'<2^32) :
    parseSegmentStem (epochPrefixedStem base epoch)=some (base,epoch) ∧
    (epochPrefixedStem base epoch=epochPrefixedStem base' epoch' → base=base' ∧ epoch=epoch') ∧
    (epochPrefixedStem base epoch<epochPrefixedStem base' epoch ↔ base<base') := by
  have hparse {b e : Int} (hb : 0≤b ∧ b<2^63) (he : 0≤e ∧ e<2^32) :
      parseSegmentStem (epochPrefixedStem b e)=some (b,e) := by
    rw [parseSegmentStem_stem hb.1 hb.2,segmentName_parse e ⟨by omega,hb.2⟩,Int.emod_eq_of_lt he.1 he.2]
  refine ⟨hparse hbase hepoch,fun h => ?_,?_⟩
  · have hpair : some (base,epoch)=some (base',epoch') := by rw [← hparse hbase hepoch,h,hparse hbase' hepoch']
    exact Prod.mk.inj (Option.some.inj hpair)
  · have hlen {b : Int} (hb : 0≤b ∧ b<2^63) : (padTo 20 (Nat.toDigits 10 b.toNat)).length=20 :=
      padTo_length (by decide) (by decide) (by omega)
    have hread (b : Int) := readDigits_padTo (by decide : 1<10) (by decide : 10≤16) 20 b.toNat
    rw [epochPrefixedStem_eq hbase.1,epochPrefixedStem_eq hbase'.1,append_cons_lt_iff,
      readDigits_lt_iff ((hlen hbase).trans (hlen hbase').symm) (hread base) (hread base')]
    omega

theorem stem_exact_ends : epochPrefixedStem 0 0="00000000-00000000000000000000".toList ∧
    parseSegmentStem (epochPrefixedStem (2^63-1) (2^32-1))=some (2^63-1,2^32-1) := by
  refine ⟨by decide +kernel,?_⟩
  exact (stem_exact ⟨by decide,by decide⟩ ⟨by decide,by decide⟩
    (⟨by decide,by decide⟩ : (0 : Int)≤0 ∧ (0 : Int)<2^63)
    (⟨by decide,by decide⟩ : (0 : Int)≤0 ∧ (0 : Int)<2^32)).1

end Kaas
