import Kaas.Storage.Idempotence
import Kaas.Storage.TxnIndex
import Kaas.Storage.Manifest

namespace Kaas

/-- A log file; its first `synced` bytes are on stable storage. -/
structure LogFile where
  data : Bytes := []
  synced : Nat := 0
  deriving DecidableEq, Repr

namespace LogFile

def writeAt (f : LogFile) (buf : Bytes) (offset : Nat) : LogFile :=
  ⟨f.data.take offset++List.replicate (offset-f.data.length) 0++buf++
    f.data.drop (offset+buf.length),min f.synced offset⟩

def syncAll (f : LogFile) : LogFile := ⟨f.data,f.data.length⟩

def truncate (f : LogFile) (len : Nat) : LogFile := ⟨f.data.take len,min f.synced len⟩

/-- What a crash may leave of the file: the synced bytes stay, the others are arbitrary,
and none appear past the end. -/
structure CrashImage (f g : LogFile) : Prop where
  kept : g.data.take f.synced=f.data.take f.synced
  long : min f.synced f.data.length≤g.data.length
  short : g.data.length≤f.data.length
  durable : g.synced=g.data.length

end LogFile

/-- A segment's file stem `{epoch:08x}-{base:020}`, or the stem that names no segment. -/
inductive SegmentName
  | stem (epoch : Nat) (base : Int)
  | placeholder
  deriving DecidableEq, Repr

def SegmentName.parse : SegmentName → Option (Int × Int)
  | .stem epoch base =>
    if epoch<2^32 ∧ -2^63≤base ∧ base<2^63 then some (base,(epoch : Int)) else none
  | .placeholder => none

structure RecoveryCheckpoint where
  segmentBase : Int
  bytePos : Int
  highWatermark : Int
  deriving DecidableEq, Repr

structure Dir where
  logs : AList (fun _ : SegmentName => LogFile) := ∅
  indexes : AList (fun _ : SegmentName => Bytes) := ∅
  manifest : ManifestFiles := {}
  producers : JsonFile (List (Int × ProducerEntry)) := .absent
  txns : JsonFile (List (Int × Int) × List AbortedTxn) := .absent
  checkpoint : JsonFile RecoveryCheckpoint := .absent

variable {d d' : Dir} {n : SegmentName} {f : LogFile}

namespace Dir

def onLog (d : Dir) (n : SegmentName) (g : LogFile → LogFile) : Dir :=
  match d.logs.lookup n with
  | none => d
  | some f => {d with logs := d.logs.insert n (g f)}

def logData (d : Dir) (n : SegmentName) : Bytes :=
  match d.logs.lookup n with
  | none => []
  | some f => f.data

def indexData (d : Dir) (n : SegmentName) : Bytes := (d.indexes.lookup n).getD []

def eraseLog (d : Dir) (n : SegmentName) : Dir := {d with logs := d.logs.erase n}

def removeSegment (d : Dir) (n : SegmentName) : Dir :=
  {d with logs := d.logs.erase n,indexes := d.indexes.erase n}

theorem onLog_lookup (d : Dir) (n : SegmentName) (g : LogFile → LogFile) (m : SegmentName) :
    (d.onLog n g).logs.lookup m= if m=n then (d.logs.lookup n).map g else d.logs.lookup m := by
  unfold onLog
  cases h : d.logs.lookup n with
  | none =>
    split_ifs with hm
    · rw [hm,h]; rfl
    · rfl
  | some f =>
    split_ifs with hm
    · rw [hm,AList.lookup_insert]; rfl
    · exact AList.lookup_insert_ne hm

@[simp] theorem onLog_rest (d : Dir) (n : SegmentName) (g : LogFile → LogFile) :
    (d.onLog n g).indexes=d.indexes ∧ (d.onLog n g).manifest=d.manifest ∧
    (d.onLog n g).producers=d.producers ∧ (d.onLog n g).txns=d.txns ∧
    (d.onLog n g).checkpoint=d.checkpoint := by
  unfold onLog
  split <;> exact ⟨rfl,rfl,rfl,rfl,rfl⟩

theorem onLog_logs_congr (h : d'.logs=d.logs) (n : SegmentName) (g : LogFile → LogFile) :
    (d'.onLog n g).logs=(d.onLog n g).logs := by
  unfold onLog
  rw [h]
  cases d.logs.lookup n with
  | none => exact h
  | some f => rfl

theorem mem_onLog (d : Dir) (n : SegmentName) (g : LogFile → LogFile) (m : SegmentName) :
    m∈(d.onLog n g).logs ↔ m∈d.logs := by
  rw [← AList.lookup_isSome,← AList.lookup_isSome,onLog_lookup]
  split_ifs with h
  · rw [h,Option.isSome_map]
  · rfl

theorem mem_eraseLog (d : Dir) (n m : SegmentName) : m∈(d.eraseLog n).logs ↔ m≠n ∧ m∈d.logs :=
  AList.mem_erase

theorem eraseLog_lookup_ne (d : Dir) (n m : SegmentName) (h : m≠n) :
    (d.eraseLog n).logs.lookup m=d.logs.lookup m := AList.lookup_erase_ne h

theorem logData_of_lookup (d : Dir) (n : SegmentName) (f : LogFile) (h : d.logs.lookup n=some f) :
    d.logData n=f.data := by
  rw [logData,h]

theorem mem_of_lookup (h : d.logs.lookup n=some f) : n∈d.logs :=
  AList.lookup_isSome.mp (by rw [h]; rfl)

theorem lookup_of_mem (h : n∈d.logs) : ∃f,d.logs.lookup n=some f :=
  Option.isSome_iff_exists.mp (AList.lookup_isSome.mpr h)

def SameData (d d' : Dir) : Prop :=
  ∀n,(d'.logs.lookup n).map LogFile.data=(d.logs.lookup n).map LogFile.data

theorem SameData.of_logs (h : d'.logs=d.logs) : d.SameData d' := fun n => by rw [h]

theorem SameData.trans {d'' : Dir} (h : d.SameData d') (h' : d'.SameData d'') : d.SameData d'' :=
  fun n => (h' n).trans (h n)

theorem SameData.mem (h : d.SameData d') (n : SegmentName) : n∈d'.logs ↔ n∈d.logs := by
  have hl := congrArg Option.isSome (h n)
  rw [Option.isSome_map,Option.isSome_map] at hl
  rw [← AList.lookup_isSome,← AList.lookup_isSome,hl]

theorem SameData.data_eq (h : d.SameData d') {f' : LogFile}
    (hf : d.logs.lookup n=some f) (hf' : d'.logs.lookup n=some f') : f'.data=f.data := by
  have hl := h n
  rw [hf,hf'] at hl
  exact Option.some.inj hl

theorem SameData.logData (h : d.SameData d') (n : SegmentName) : d'.logData n=d.logData n := by
  have hn := h n
  unfold Dir.logData
  cases h1 : d.logs.lookup n with
  | none =>
    rw [h1] at hn
    rw [Option.map_eq_none_iff.mp hn]
  | some f =>
    rw [h1] at hn
    obtain ⟨g,hg,hgf⟩ := Option.map_eq_some_iff.mp hn
    rw [hg]
    exact hgf

theorem SameData.sync (d : Dir) (n : SegmentName) : d.SameData (d.onLog n LogFile.syncAll) := by
  intro m
  rw [onLog_lookup]
  split_ifs with hm
  · rw [hm]
    cases d.logs.lookup n <;> rfl
  · rfl

theorem SameData.eraseLog (h : n∉d.logs) : d.SameData (d.eraseLog n) := by
  intro m
  by_cases hm : m=n
  · have h1 : d.logs.lookup n=none := AList.lookup_eq_none.mpr h
    have h2 : (d.eraseLog n).logs.lookup n=none :=
      AList.lookup_eq_none.mpr (fun he => ((d.mem_eraseLog n n).mp he).1 rfl)
    rw [hm,h1,h2]
  · rw [eraseLog_lookup_ne _ _ _ hm]

structure SegmentsOnly (d d' : Dir) : Prop where
  manifest : d'.manifest=d.manifest
  producers : d'.producers=d.producers
  txns : d'.txns=d.txns
  checkpoint : d'.checkpoint=d.checkpoint

theorem SegmentsOnly.refl (d : Dir) : d.SegmentsOnly d := ⟨rfl,rfl,rfl,rfl⟩

theorem SegmentsOnly.trans {d'' : Dir} (h : d.SegmentsOnly d') (h' : d'.SegmentsOnly d'') :
    d.SegmentsOnly d'' :=
  ⟨h'.manifest.trans h.manifest,h'.producers.trans h.producers,h'.txns.trans h.txns,
    h'.checkpoint.trans h.checkpoint⟩

theorem onLog_segmentsOnly (d : Dir) (n : SegmentName) (g : LogFile → LogFile) :
    d.SegmentsOnly (d.onLog n g) :=
  ⟨(d.onLog_rest n g).2.1,(d.onLog_rest n g).2.2.1,(d.onLog_rest n g).2.2.2.1,(d.onLog_rest n g).2.2.2.2⟩

/-- Nothing but the manifest and the snapshot files of the windows differs. -/
structure WindowsOnly (d d' : Dir) : Prop where
  logs : d'.logs=d.logs
  indexes : d'.indexes=d.indexes
  checkpoint : d'.checkpoint=d.checkpoint

/-- What a crash may leave of a directory: the names stay, every log as its own crash image,
the index files cut short, and the files that are replaced whole as they were. -/
structure CrashImage (d d' : Dir) : Prop where
  names : ∀n,n∈d'.logs ↔ n∈d.logs
  logs : ∀n f g,d.logs.lookup n=some f → d'.logs.lookup n=some g → f.CrashImage g
  indexes : ∀n,d'.indexData n <+: d.indexData n
  manifest : d'.manifest=d.manifest
  producers : d'.producers=d.producers
  txns : d'.txns=d.txns
  checkpoint : d'.checkpoint=d.checkpoint

end Dir

namespace LogFile

theorem writeAt_data (f : LogFile) (buf : Bytes) (n : Nat) (h : n≤f.data.length) :
    (f.writeAt buf n).data=f.data.take n++(buf++f.data.drop (n+buf.length)) := by
  have hz : n-f.data.length=0 := by omega
  simp [writeAt,hz]

theorem writeAt_take (f : LogFile) (buf : Bytes) (n k : Nat) (h : n≤f.data.length) (hk : k≤n) :
    (f.writeAt buf n).data.take k=f.data.take k := by
  rw [writeAt_data f buf n h,List.take_append_of_le_length (by simp; omega),List.take_take]
  congr 1
  omega

theorem writeAt_take_end (f : LogFile) (buf : Bytes) (n : Nat) (h : n≤f.data.length) :
    (f.writeAt buf n).data.take (n+buf.length)=f.data.take n++buf := by
  have hl : (f.data.take n).length=n := by simp [h]
  rw [writeAt_data f buf n h,← List.append_assoc]
  exact List.take_left' (by simp [h])

theorem writeAt_length (f : LogFile) (buf : Bytes) (n : Nat) (h : n≤f.data.length) :
    n+buf.length≤(f.writeAt buf n).data.length := by
  rw [writeAt_data f buf n h]
  simp only [List.length_append,List.length_take,List.length_drop]
  omega

theorem writeAt_end_length (f : LogFile) (buf : Bytes) :
    (f.writeAt buf f.data.length).data.length=f.data.length+buf.length := by
  rw [writeAt_data f buf _ (le_refl _)]
  simp

theorem CrashImage.data_eq {g : LogFile} (h : f.CrashImage g) (hs : f.data.length≤f.synced) :
    g.data=f.data := by
  have h1 := h.kept
  have h2 := h.short
  rw [List.take_of_length_le hs,List.take_of_length_le (by omega)] at h1
  exact h1

theorem CrashImage.take_eq {g : LogFile} (h : f.CrashImage g) (n : Nat) (hn : n≤f.synced) :
    g.data.take n=f.data.take n := by
  have h1 := congrArg (List.take n) h.kept
  rwa [List.take_take,List.take_take,Nat.min_eq_left hn] at h1

end LogFile

end Kaas
