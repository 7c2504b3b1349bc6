import Kaas.Storage.RecordBatch
import Mathlib.Data.List.AList

namespace Kaas

structure AbortedTxn where
  producerId : Int
  firstOffset : Int
  lastOffset : Int
  deriving DecidableEq, Repr

abbrev OpenTxnIndex := AList (fun _ : Int => Int)

namespace OpenTxnIndex

def recordDataBatch (idx : OpenTxnIndex) (pid baseOffset : Int) : OpenTxnIndex :=
  match idx.lookup pid with
  | some _ => idx
  | none => idx.insert pid baseOffset

def close (idx : OpenTxnIndex) (pid : Int) : OpenTxnIndex × Option Int :=
  (idx.erase pid,idx.lookup pid)

def minOpenOffset (idx : OpenTxnIndex) : Option Int := (idx.entries.map Sigma.snd).min?

def toEntries (idx : OpenTxnIndex) : List (Int × Int) := idx.entries.map (fun e => (e.1,e.2))

def restore (entries : List (Int × Int)) : OpenTxnIndex :=
  entries.foldl (fun idx e => idx.insert e.1 e.2) ∅

end OpenTxnIndex

abbrev AbortedTxnIndex := List AbortedTxn

namespace AbortedTxnIndex

def record (idx : AbortedTxnIndex) (entry : AbortedTxn) : AbortedTxnIndex :=
  idx.takeWhile (fun e => decide (e.firstOffset<entry.firstOffset))++
    entry::idx.dropWhile (fun e => decide (e.firstOffset<entry.firstOffset))

def evictBelow (idx : AbortedTxnIndex) (logStart : Int) : AbortedTxnIndex :=
  idx.dropWhile (fun e => decide (e.lastOffset<logStart))

def inRange (idx : AbortedTxnIndex) (start stop : Int) : List AbortedTxn :=
  idx.filter (fun e => decide (start≤e.firstOffset ∧ e.firstOffset< stop))

def restore (entries : List AbortedTxn) : AbortedTxnIndex := entries.foldl record []

end AbortedTxnIndex

def recordTxn (openTxns : OpenTxnIndex) (aborted : AbortedTxnIndex) (raw : Bytes) (assigned : Int) :
    OpenTxnIndex × AbortedTxnIndex :=
  match parseBatchTxnInfo raw with
  | none => (openTxns,aborted)
  | some info =>
    if info.isTransactional then
      if info.isControl then
        match openTxns.close info.producerId with
        | (rest,none) => (rest,aborted)
        | (rest,some firstOffset) =>
          if info.controlCommit=some false then
            (rest,aborted.record ⟨info.producerId,firstOffset,assigned⟩)
          else (rest,aborted)
      else (openTxns.recordDataBatch info.producerId assigned,aborted)
    else (openTxns,aborted)

end Kaas
