import Kaas.Math.Budget
import Kaas.Storage.ReadSpec

namespace Kaas

structure MemoryBatch where
  baseOffset : Int
  lastOffsetDelta : Int
  raw : Bytes
  deriving DecidableEq, Repr

structure MemoryPartition where
  batches : List MemoryBatch := []
  highWater : Int := 0
  logStart : Int := 0
  deriving DecidableEq, Repr

namespace MemoryPartition

def append (batch : Bytes) (m : MemoryPartition) : MemoryPartition × Except StorageError Int :=
  if batch=[] then (m,.ok m.highWater)
  else if batch.length<27 then (m,.error (.io (.memoryBatchTooShort batch.length)))
  else
    ({m with
        batches := m.batches++[⟨m.highWater,lastOffsetDelta (rewriteBase batch m.highWater),
          rewriteBase batch m.highWater⟩]
        highWater := wrapI64 (m.highWater+lastOffsetDelta (rewriteBase batch m.highWater)+1)},
      .ok m.highWater)

def readFrom (startOffset logStart : Int) (maxBytes : Nat) : List MemoryBatch → Bytes → Bytes
  | [],out => out
  | b::bs,out =>
    if wrapI64 (b.baseOffset+b.lastOffsetDelta)< startOffset then
      readFrom startOffset logStart maxBytes bs out
    else if wrapI64 (b.baseOffset+b.lastOffsetDelta)<logStart then
      readFrom startOffset logStart maxBytes bs out
    else if maxBytes≤(out++b.raw).length then out++b.raw
    else readFrom startOffset logStart maxBytes bs (out++b.raw)

def read (startOffset : Int) (maxBytes : Nat) (m : MemoryPartition) : Bytes :=
  readFrom startOffset m.logStart maxBytes m.batches []

def deleteTarget (m : MemoryPartition) (target : Int) : Except StorageError Int :=
  if target<0 then .ok m.highWater
  else if m.highWater<target then .error .offsetOutOfRange
  else .ok target

def deleteRecords (target : Int) (m : MemoryPartition) : MemoryPartition × Except StorageError Int :=
  match m.deleteTarget target with
  | .error e => (m,.error e)
  | .ok newStart =>
    if m.logStart<newStart then ({m with logStart := newStart},.ok newStart) else (m,.ok m.logStart)

theorem append_stored (m : MemoryPartition) (batch : Bytes) (hl : 57≤batch.length) (h0 : 0≤ m.highWater)
    (hd : 0≤lastOffsetDelta batch) (hu : m.highWater+recordCount batch<2^63) :
    m.append batch=({m with
      batches := m.batches++[⟨m.highWater,lastOffsetDelta (rewriteBase batch m.highWater),
        rewriteBase batch m.highWater⟩]
      highWater := m.highWater+recordCount batch},.ok m.highWater) := by
  have hne : batch≠[] := by
    rintro rfl
    simp at hl
  have hnext : wrapI64 (m.highWater+lastOffsetDelta (rewriteBase batch m.highWater)+1)=
      m.highWater+recordCount batch := by
    unfold recordCount at hu ⊢
    rw [rewriteBase_lastOffsetDelta,wrapI64_of_range _ (by omega) (by omega)]
    omega
  rw [append,if_neg hne,if_neg (by omega),hnext]

def Headed (b : MemoryBatch) : Prop :=
  b.raw≠[] ∧ b.baseOffset=Kaas.baseOffset b.raw ∧ b.lastOffsetDelta=Kaas.lastOffsetDelta b.raw ∧
    -2^63≤lastOffset b.raw ∧ lastOffset b.raw<2^63

theorem headed_stored (batch : Bytes) (o : Int) (hl : 57≤batch.length) (h0 : 0≤o)
    (hd : 0≤lastOffsetDelta batch) (hu : o+recordCount batch<2^63) :
    Headed ⟨o,Kaas.lastOffsetDelta (rewriteBase batch o),rewriteBase batch o⟩ := by
  unfold recordCount at hu
  have hbase := rewriteBase_assigned batch o (by omega) (by omega)
  have hlast : lastOffset (rewriteBase batch o)=o+Kaas.lastOffsetDelta batch := by
    rw [lastOffset,hbase,rewriteBase_lastOffsetDelta]
  have hlen := rewriteBase_length batch o (by omega)
  refine ⟨fun hnil => ?_,hbase.symm,rfl,?_,?_⟩
  · change rewriteBase batch o=[] at hnil
    rw [hnil] at hlen
    simp only [List.length_nil] at hlen
    omega
  · rw [hlast]
    omega
  · rw [hlast]
    omega

theorem readFrom_cons (start logStart : Int) (maxBytes : Nat) {b : MemoryBatch} (hb : Headed b)
    (bs : List MemoryBatch) (out : Bytes) :
    readFrom start logStart maxBytes (b::bs) out=
      if reaches (max start logStart) b.raw then
        if maxBytes≤(out++b.raw).length then out++b.raw else readFrom start logStart maxBytes bs (out++b.raw)
      else readFrom start logStart maxBytes bs out := by
  obtain ⟨_,hbase,hdelta,hlo,hhi⟩ := hb
  have hlast : wrapI64 (b.baseOffset+b.lastOffsetDelta)=lastOffset b.raw := by
    rw [hbase,hdelta]
    exact wrapI64_of_range _ hlo hhi
  simp only [readFrom,hlast,reaches,decide_eq_true_eq]
  by_cases h1 : lastOffset b.raw< start
  · rw [if_pos h1,if_neg (by omega)]
  · by_cases h2 : lastOffset b.raw<logStart
    · rw [if_neg h1,if_pos h2,if_neg (by omega)]
    · have hreach : max start logStart≤lastOffset b.raw := by omega
      rw [if_neg h1,if_neg h2,if_pos hreach]

theorem readFrom_fill (start logStart : Int) (maxBytes : Nat) (bs : List MemoryBatch)
    (h : ∀b∈bs,Headed b) (out : Bytes) (hout : out.length< maxBytes) :
    readFrom start logStart maxBytes bs out=
      fill maxBytes (wanted (max start logStart) (bs.map MemoryBatch.raw)) out := by
  induction bs generalizing out with
  | nil => rfl
  | cons b bs ih =>
    obtain ⟨hb,hrest⟩ := List.forall_mem_cons.mp h
    rw [readFrom_cons start logStart maxBytes hb,wanted,List.map_cons]
    by_cases hr : reaches (max start logStart) b.raw=true
    · rw [if_pos hr,List.filter_cons_of_pos hr,fill,if_pos hout]
      by_cases hfull : maxBytes≤(out++b.raw).length
      · rw [if_pos hfull,fill_full _ hfull]
      · rw [if_neg hfull]
        exact ih hrest _ (by omega)
    · rw [if_neg hr,List.filter_cons_of_neg hr]
      exact ih hrest out hout

theorem readFrom_zero (start logStart : Int) (bs : List MemoryBatch) (h : ∀b∈bs,Headed b) :
    readFrom start logStart 0 bs []=
      ((wanted (max start logStart) (bs.map MemoryBatch.raw)).take 1).flatten := by
  induction bs with
  | nil => rfl
  | cons b bs ih =>
    obtain ⟨hb,hrest⟩ := List.forall_mem_cons.mp h
    rw [readFrom_cons start logStart 0 hb,wanted,List.map_cons]
    by_cases hr : reaches (max start logStart) b.raw=true
    · rw [if_pos hr,if_pos (Nat.zero_le _),List.filter_cons_of_pos hr]
      simp
    · rw [if_neg hr,List.filter_cons_of_neg hr]
      exact ih hrest

end MemoryPartition

end Kaas
