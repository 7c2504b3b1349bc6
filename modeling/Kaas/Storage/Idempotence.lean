import Kaas.Storage.RecordBatch
import Mathlib.Data.List.AList

namespace Kaas

def ringSize : Nat := 5

structure RecentBatch where
  firstSeq : Int
  lastSeq : Int
  baseOffset : Int
  deriving DecidableEq, Repr

structure ProducerEntry where
  epoch : Int := 0
  recent : List RecentBatch := []
  deriving DecidableEq, Repr

abbrev ProducerStates := AList (fun _ : Int => ProducerEntry)

inductive Outcome
  | notIdempotent
  | accept
  | duplicate (baseOffset : Int)
  | outOfOrder
  | invalidEpoch
  deriving DecidableEq, Repr

def firstOfWindow (info : BatchProducerInfo) : Outcome :=
  if info.firstSeq=0 then .accept else .outOfOrder

def classify (states : ProducerStates) (info : BatchProducerInfo) : Outcome :=
  if info.producerId<0 then .notIdempotent
  else if info.firstSeq<0 then .notIdempotent
  else match states.lookup info.producerId with
    | none => firstOfWindow info
    | some entry =>
      if entry.epoch< info.epoch then firstOfWindow info
      else if info.epoch<entry.epoch then .invalidEpoch
      else match entry.recent.find? (fun rb =>
          decide (rb.firstSeq=info.firstSeq ∧ rb.lastSeq=info.lastSeq)) with
        | some rb => .duplicate rb.baseOffset
        | none => match entry.recent.getLast? with
          | none => firstOfWindow info
          | some last =>
            if info.firstSeq=wrapI32 (last.lastSeq+1) then .accept else .outOfOrder

def entryAt (states : ProducerStates) (pid epoch : Int) : ProducerEntry :=
  let entry := (states.lookup pid).getD {}
  if entry.epoch<epoch then ⟨epoch,[]⟩ else entry

def lastN {α : Type} (k : Nat) (l : List α) : List α := l.drop (l.length-k)

def recordAccepted (states : ProducerStates) (info : BatchProducerInfo) (baseOffset : Int) :
    ProducerStates :=
  let entry := entryAt states info.producerId info.epoch
  states.insert info.producerId
    {entry with recent := lastN ringSize (entry.recent++[⟨info.firstSeq,info.lastSeq,baseOffset⟩])}

def fenceProducer (states : ProducerStates) (pid newEpoch : Int) : ProducerStates :=
  states.insert pid (entryAt states pid newEpoch)

theorem lastN_concat {α : Type} {k : Nat} (hk : 0<k) (l : List α) (x : α) :
    lastN k (lastN k l++[x])=lastN k (l++[x]) := by
  have hl : (lastN k l).length=l.length-(l.length-k) := by simp [lastN]
  simp only [lastN] at hl ⊢
  simp only [List.length_append,List.length_singleton,hl]
  rw [List.drop_append_of_le_length (by rw [hl]; omega),List.drop_drop,
    List.drop_append_of_le_length (by omega)]
  congr 2
  omega

theorem lastN_getLast? {α : Type} (k : Nat) (hk : 0<k) (l : List α) :
    (lastN k l).getLast?=l.getLast? := by
  rw [lastN,List.getLast?_drop]
  split_ifs with h
  · have hl : l=[] := List.eq_nil_of_length_eq_zero (by omega)
    simp [hl]
  · rfl

theorem mem_of_mem_lastN {α : Type} {k : Nat} {l : List α} {x : α} (h : x∈lastN k l) : x∈l :=
  List.mem_of_mem_drop h

theorem entryAt_epoch (states : ProducerStates) (pid epoch : Int) :
    epoch≤(entryAt states pid epoch).epoch ∧
    ((states.lookup pid).getD {}).epoch≤(entryAt states pid epoch).epoch := by
  simp only [entryAt]
  split_ifs with h
  · exact ⟨le_refl _,le_of_lt h⟩
  · exact ⟨not_lt.mp h,le_refl _⟩

theorem recordAccepted_lookup (states : ProducerStates) (info : BatchProducerInfo) (base : Int) :
    (recordAccepted states info base).lookup info.producerId=
      some {entryAt states info.producerId info.epoch with
        recent := lastN ringSize ((entryAt states info.producerId info.epoch).recent++
          [⟨info.firstSeq,info.lastSeq,base⟩])} :=
  AList.lookup_insert _

variable {info : BatchProducerInfo} {states : ProducerStates}

theorem recordAccepted_lookup_ne (states : ProducerStates) (base : Int) {pid : Int}
    (h : pid≠info.producerId) : (recordAccepted states info base).lookup pid=states.lookup pid :=
  AList.lookup_insert_ne h

theorem fenceProducer_lookup (states : ProducerStates) (pid epoch : Int) :
    (fenceProducer states pid epoch).lookup pid=some (entryAt states pid epoch) :=
  AList.lookup_insert _

theorem fenceProducer_lookup_ne (states : ProducerStates) {pid : Int} (epoch : Int) {pid' : Int}
    (h : pid'≠pid) : (fenceProducer states pid epoch).lookup pid'=states.lookup pid' :=
  AList.lookup_insert_ne h

theorem classify_accept (h : classify states info=.accept) : 0≤ info.producerId ∧ 0≤ info.firstSeq ∧
    ((states.lookup info.producerId=none ∧ info.firstSeq=0) ∨
     ∃entry,states.lookup info.producerId=some entry ∧
      ((entry.epoch< info.epoch ∧ info.firstSeq=0) ∨
       (entry.epoch=info.epoch ∧ entry.recent=[] ∧ info.firstSeq=0) ∨
       (entry.epoch=info.epoch ∧ ∃last,entry.recent.getLast?=some last ∧
         info.firstSeq=wrapI32 (last.lastSeq+1)))) := by
  have first (h : firstOfWindow info=.accept) : info.firstSeq=0 := by
    unfold firstOfWindow at h
    split_ifs at h with h0
    exact h0
  unfold classify at h
  split_ifs at h with hp hs
  refine ⟨not_lt.mp hp,not_lt.mp hs,?_⟩
  cases hl : states.lookup info.producerId with
  | none => rw [hl] at h; exact Or.inl ⟨rfl,first h⟩
  | some entry =>
    rw [hl] at h
    refine Or.inr ⟨entry,rfl,?_⟩
    dsimp only at h
    split_ifs at h with h1 h2
    · exact Or.inl ⟨h1,first h⟩
    · have he : entry.epoch=info.epoch := le_antisymm (not_lt.mp h2) (not_lt.mp h1)
      split at h
      · cases h
      · cases hg : entry.recent.getLast? with
        | none =>
          rw [hg] at h
          exact Or.inr (Or.inl ⟨he,List.getLast?_eq_none_iff.mp hg,first h⟩)
        | some last =>
          rw [hg] at h
          dsimp only at h
          split_ifs at h with hn
          exact Or.inr (Or.inr ⟨he,last,rfl,hn⟩)

theorem classify_duplicate {base : Int} (h : classify states info=.duplicate base) :
    ∃entry,states.lookup info.producerId=some entry ∧ entry.epoch=info.epoch ∧
      (⟨info.firstSeq,info.lastSeq,base⟩ : RecentBatch)∈entry.recent := by
  have first : firstOfWindow info≠.duplicate base := by
    unfold firstOfWindow
    split_ifs <;> simp
  unfold classify at h
  split_ifs at h with hp hs
  cases hl : states.lookup info.producerId with
  | none => rw [hl] at h; exact absurd h first
  | some entry =>
    rw [hl] at h
    dsimp only at h
    split_ifs at h with h1 h2
    · exact absurd h first
    · have he : entry.epoch=info.epoch := le_antisymm (not_lt.mp h2) (not_lt.mp h1)
      split at h
      · rename_i rb hf
        have hm := List.mem_of_find?_eq_some hf
        have hr := List.find?_some hf
        obtain ⟨hr1,hr2⟩ := of_decide_eq_true hr
        cases h
        refine ⟨entry,rfl,he,?_⟩
        rw [← hr1,← hr2]
        exact hm
      · split at h
        · exact absurd h first
        · split_ifs at h

theorem classify_notIdempotent
    (h : classify states info=.notIdempotent) : info.producerId<0 ∨ info.firstSeq<0 := by
  have first : firstOfWindow info≠.notIdempotent := by
    unfold firstOfWindow
    split_ifs <;> simp
  unfold classify at h
  split_ifs at h with hp hs
  · exact Or.inl hp
  · exact Or.inr hs
  · split at h
    · exact absurd h first
    · split_ifs at h
      · exact absurd h first
      · split at h
        · cases h
        · split at h
          · exact absurd h first
          · split_ifs at h

end Kaas
