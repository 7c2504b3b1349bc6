import Mathlib.Data.List.AList
import Mathlib.Data.List.Sort
import Mathlib.Data.String.Basic

namespace Kaas

/-! Routing by hash. -/

def fnv1a32 (bytes : List UInt8) : UInt32 :=
  bytes.foldl (fun h b => (h ^^^ b.toUInt32)*0x01000193) 0x811c9dc5

def utf8Bytes (s : String) : List UInt8 := s.toUTF8.data.toList

example : fnv1a32 (utf8Bytes "foobar")=0xbf9cf968 := by decide +kernel

/-- `coordinator_slot` over any hash of the key. -/
def slotBy (hash : String → Nat) (key : String) (numBrokers : Nat) : Nat :=
  if numBrokers=0 then 0 else hash key%numBrokers

theorem slotBy_lt (hash : String → Nat) (key : String) {n : Nat} (h : n≠0) : slotBy hash key n<n := by
  rw [slotBy,if_neg h]
  exact Nat.mod_lt _ (Nat.pos_of_ne_zero h)

abbrev AliveMap := AList (fun _ : String => Bool)

def isAlive (alive : AliveMap) (id : String) : Bool := (alive.lookup id).getD false

/-- The broker at the key's slot of the whole set, or the one its slot falls on among those
alive. -/
def coordinatorBy (hash : String → Nat) (key : String) (brokers : List String) (alive : AliveMap) :
    Option String :=
  if brokers=[] then none
  else
    let sorted := brokers.insertionSort (·≤·)
    let slot := slotBy hash key sorted.length
    match sorted[slot]? with
    | none => none
    | some preferred =>
      if isAlive alive preferred then some preferred
      else
        let aliveSorted := sorted.filter (isAlive alive)
        if aliveSorted=[] then none else aliveSorted[slot%aliveSorted.length]?

def pickCoordinator (key : String) (brokers : List String) (alive : AliveMap) : Option String :=
  coordinatorBy (fun k => (fnv1a32 (utf8Bytes k)).toNat) key brokers alive

def pickGroupCoordinator (groupId : String) (brokers : List String) (alive : AliveMap) : Option String :=
  pickCoordinator groupId brokers alive

section Pick

variable {key : String} {brokers brokers' : List String} {alive alive' : AliveMap}

theorem pickCoordinator_congr (key : String) (hperm : brokers.Perm brokers')
    (halive : ∀b∈brokers,isAlive alive b=isAlive alive' b) :
    pickCoordinator key brokers alive=pickCoordinator key brokers' alive' := by
  have hsort : brokers.insertionSort (·≤·)=brokers'.insertionSort (·≤·) := by
    apply List.Perm.eq_of_pairwise' (r := (·≤·)) (List.pairwise_insertionSort _ _)
      (List.pairwise_insertionSort _ _)
    exact (List.perm_insertionSort _ _).trans (hperm.trans (List.perm_insertionSort _ _).symm)
  have hmem (b : String) (hb : b∈brokers.insertionSort (·≤·)) : isAlive alive b=isAlive alive' b :=
    halive b ((List.perm_insertionSort (·≤·) brokers).mem_iff.mp hb)
  have hfilter : (brokers.insertionSort (·≤·)).filter (isAlive alive)=
      (brokers'.insertionSort (·≤·)).filter (isAlive alive') := by
    rw [← hsort]
    exact List.filter_congr hmem
  have hnil : brokers=[] ↔ brokers'=[] := by
    constructor
    · intro h
      rw [h] at hperm
      exact hperm.nil_eq.symm
    · intro h
      rw [h] at hperm
      exact hperm.eq_nil
  unfold pickCoordinator coordinatorBy
  by_cases h : brokers=[]
  · rw [if_pos h,if_pos (hnil.mp h)]
  · rw [if_neg h,if_neg (fun h' => h (hnil.mpr h'))]
    dsimp only
    rw [hfilter,← hsort]
    cases hslot : (brokers.insertionSort (·≤·))[slotBy _ key (brokers.insertionSort (·≤·)).length]? with
    | none => rfl
    | some preferred =>
      dsimp only
      rw [hmem preferred (List.mem_of_getElem? hslot)]

theorem pickCoordinator_alive {b : String} (h : pickCoordinator key brokers alive=some b) :
    b∈brokers ∧ isAlive alive b=true := by
  have hsorted (c : String) (hc : c∈brokers.insertionSort (·≤·)) : c∈brokers :=
    (List.perm_insertionSort (·≤·) brokers).mem_iff.mp hc
  unfold pickCoordinator coordinatorBy at h
  split_ifs at h
  dsimp only at h
  split at h
  · cases h
  · rename_i preferred hslot
    split_ifs at h with hpref hnone
    · cases h
      exact ⟨hsorted _ (List.mem_of_getElem? hslot),hpref⟩
    · have hb := List.mem_filter.mp (List.mem_of_getElem? h)
      exact ⟨hsorted b hb.1,hb.2⟩

theorem pickCoordinator_some (key : String) {b : String} (hb : b∈brokers)
    (ha : isAlive alive b=true) : ∃c,pickCoordinator key brokers alive=some c := by
  have hb' : b∈brokers.insertionSort (·≤·) := (List.perm_insertionSort (·≤·) brokers).mem_iff.mpr hb
  have hne : (brokers.insertionSort (·≤·)).length≠0 := by
    intro h
    rw [List.length_eq_zero_iff] at h
    rw [h] at hb'
    cases hb'
  have hne' : (brokers.insertionSort (·≤·)).filter (isAlive alive)≠[] :=
    List.ne_nil_of_mem (List.mem_filter.mpr ⟨hb',ha⟩)
  have hslot := List.getElem?_eq_getElem (slotBy_lt (fun k => (fnv1a32 (utf8Bytes k)).toNat) key hne)
  unfold pickCoordinator coordinatorBy
  rw [if_neg (List.ne_nil_of_mem hb)]
  dsimp only
  rw [hslot]
  dsimp only
  split_ifs with hpref
  · exact ⟨_,rfl⟩
  · exact ⟨_,List.getElem?_eq_getElem (Nat.mod_lt _ (List.length_pos_iff.mpr hne'))⟩

end Pick

def AliveMap.dies (alive : AliveMap) (b : String) : AliveMap := alive.insert b false

theorem isAlive_dies (alive : AliveMap) (x b : String) :
    isAlive (alive.dies x) b=(isAlive alive b && decide (b≠x)) := by
  unfold isAlive AliveMap.dies
  by_cases h : b=x
  · subst h
    simp [AList.lookup_insert]
  · simp [AList.lookup_insert_ne h,h]

theorem filter_dies (alive : AliveMap) (x : String) (l : List String) :
    l.filter (isAlive (alive.dies x))=(l.filter (isAlive alive)).filter (fun b => decide (b≠x)) := by
  rw [List.filter_filter]
  apply List.filter_congr
  intro b _
  rw [isAlive_dies,Bool.and_comm]

/-- Where an element stands once another one is gone. -/
theorem getElem?_erase_iff {l : List String} (hl : l.Nodup) {x : String} (hx : x∈l) {j k : Nat}
    (hj : j<l.length)
    (hne : l[j]?≠some x) : (l.erase x)[k]?=l[j]? ↔ k=j-(if l.idxOf x<j then 1 else 0) := by
  have hi := List.idxOf_lt_length_iff.mpr hx
  have hij : l.idxOf x≠j := by
    rintro rfl
    exact hne (by rw [List.getElem?_eq_getElem hi,List.getElem_idxOf])
  rw [List.erase_eq_eraseIdx_of_idxOf rfl,List.getElem?_eraseIdx]
  by_cases hk : k<l.idxOf x
  · rw [if_pos hk,eq_comm,List.getElem?_inj hj hl]
    split_ifs <;> omega
  · rw [if_neg hk,eq_comm,List.getElem?_inj hj hl]
    split_ifs <;> omega

/-- A broker dies that is not the coordinator of the key. For any hash, the key stays where it is
exactly when its preferred broker is alive, the broker was not alive before, or the slot falls on
the coordinator's new place among those that are left. -/
theorem death_moves_own_keys (hash : String → Nat) (key : String) (brokers : List String) (alive : AliveMap)
    (x : String) (distinct : brokers.Nodup) (hx : coordinatorBy hash key brokers alive≠some x) :
    coordinatorBy hash key brokers (alive.dies x)=coordinatorBy hash key brokers alive ↔
      (∀b∈(brokers.insertionSort (·≤·))[hash key%brokers.length]?,isAlive alive b=true) ∨
      x∉(brokers.insertionSort (·≤·)).filter (isAlive alive) ∨
      hash key%brokers.length%(((brokers.insertionSort (·≤·)).filter (isAlive alive)).length-1)=
        hash key%brokers.length%((brokers.insertionSort (·≤·)).filter (isAlive alive)).length-
          (if ((brokers.insertionSort (·≤·)).filter (isAlive alive)).idxOf x<
            hash key%brokers.length%((brokers.insertionSort (·≤·)).filter
              (isAlive alive)).length then 1 else 0) := by
  unfold coordinatorBy at hx ⊢
  by_cases hnil : brokers=[]
  · subst hnil
    exact iff_of_true rfl (Or.inl nofun)
  have hlen : brokers.length≠0 := fun hl => hnil (List.length_eq_zero_iff.mp hl)
  simp only [if_neg hnil,slotBy,List.length_insertionSort,if_neg hlen] at hx ⊢
  have hsorted : (brokers.insertionSort (·≤·)).Nodup := (List.perm_insertionSort _ _).nodup_iff.mpr distinct
  generalize hash key%brokers.length=slot at hx ⊢
  generalize brokers.insertionSort (·≤·)=sorted at hx hsorted ⊢
  cases hp : sorted[slot]? with
  | none => exact iff_of_true rfl (Or.inl nofun)
  | some preferred =>
    rw [hp] at hx
    simp only [Option.mem_some_iff,forall_eq'] at hx ⊢
    cases ha : isAlive alive preferred with
    | true =>
      rw [ha] at hx
      have hne : preferred≠x := fun he => hx (by rw [he]; rfl)
      exact iff_of_true (by simp [isAlive_dies,ha,hne]) (Or.inl rfl)
    | false =>
      simp only [ha,Bool.false_eq_true,if_false,false_or] at hx ⊢
      simp only [isAlive_dies,ha,Bool.false_and,Bool.false_eq_true,if_false,filter_dies]
      have hl : (sorted.filter (isAlive alive)).Nodup := hsorted.filter _
      generalize sorted.filter (isAlive alive)=l at hl hx ⊢
      have herase : l.filter (fun b => decide (b≠x))=l.erase x := by
        rw [hl.erase_eq_filter]
        exact List.filter_congr fun b _ => by simp [bne,beq_eq_decide]
      rw [herase]
      by_cases hin : x∈l
      · have hpos := List.length_pos_of_mem hin
        rw [if_neg (List.ne_nil_of_mem hin)] at hx ⊢
        have hj : slot%l.length<l.length := Nat.mod_lt _ hpos
        have hne : l[slot%l.length]≠x := fun he => hx (by rw [List.getElem?_eq_getElem hj,he])
        have hmem := (List.mem_erase_of_ne hne).mpr (List.getElem_mem hj)
        rw [if_neg (List.ne_nil_of_mem hmem),List.length_erase_of_mem hin,getElem?_erase_iff hl hin hj hx]
        simp [hin]
      · rw [List.erase_of_not_mem hin]
        simp [hin]

def fourAlive : AliveMap :=
  (((∅ : AliveMap).insert "kaas-0" true).insert "kaas-1" true).insert "kaas-2" true |>.insert "kaas-3" true

def fourBrokers : List String := ["kaas-0","kaas-1","kaas-2","kaas-3"]

theorem death_moves_own_keys_kept :
    coordinatorBy (fun _ => 0) "g" fourBrokers (fourAlive.dies "kaas-0")=some "kaas-1" ∧
    coordinatorBy (fun _ => 0) "g" fourBrokers ((fourAlive.dies "kaas-0").dies "kaas-3")=some "kaas-1" := by
  have hpick : coordinatorBy (fun _ => 0) "g" fourBrokers (fourAlive.dies "kaas-0")=some "kaas-1" :=
    by decide +kernel
  refine ⟨hpick,?_⟩
  rw [(death_moves_own_keys (fun _ => 0) "g" fourBrokers (fourAlive.dies "kaas-0") "kaas-3" (by decide)
    (by rw [hpick]; decide)).mpr (Or.inr (Or.inr (by decide +kernel))),hpick]

/-- With its preferred broker dead, a key moves from one broker that is alive to another when a
third one dies. -/
theorem death_moves_other_keys :
    ∃(hash : String → Nat) (key x : String) (brokers : List String) (alive : AliveMap),brokers.Nodup ∧
      x∈brokers ∧ isAlive alive x=true ∧ coordinatorBy hash key brokers alive=some "kaas-3" ∧ x≠"kaas-3" ∧
      isAlive (alive.dies x) "kaas-3"=true ∧ coordinatorBy hash key brokers (alive.dies x)=some "kaas-1" :=
  ⟨fun _ => 2,"g","kaas-0",fourBrokers,fourAlive.dies "kaas-2",by decide +kernel⟩

end Kaas
