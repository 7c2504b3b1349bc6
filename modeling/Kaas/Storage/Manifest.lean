import Kaas.Storage.RecordBatch

namespace Kaas

/-- A file that is only ever replaced whole, by tmp + fsync + rename. -/
inductive JsonFile (α : Type)
  | absent
  | corrupt
  | present (value : α)
  deriving DecidableEq, Repr

structure Manifest where
  epoch : Int
  highWatermark : Int
  logStartOffset : Int
  deriving DecidableEq, Repr

/-- `manifest.json` and the single-field file of earlier releases. -/
structure ManifestFiles where
  manifestJson : JsonFile Manifest := .absent
  leaderEpoch : Option Bytes := none
  deriving DecidableEq, Repr

inductive ReadResult
  | notFound
  | present (m : Manifest)
  | legacy (m : Manifest)
  deriving DecidableEq, Repr

namespace ManifestFiles

def readLegacyEpoch (files : ManifestFiles) : Except StorageError (Option Manifest) :=
  match files.leaderEpoch with
  | none => .ok none
  | some buf =>
    if buf.length<8 then .error (.io (.legacyEpochTruncated buf.length))
    else .ok (some ⟨i64At buf 0,0,0⟩)

def read (files : ManifestFiles) : Except StorageError ReadResult :=
  match files.manifestJson with
  | .present m => .ok (.present m)
  | .corrupt => .error .json
  | .absent => match files.readLegacyEpoch with
    | .error e => .error e
    | .ok none => .ok .notFound
    | .ok (some m) => .ok (.legacy m)

def writeUnchecked (_ : ManifestFiles) (m : Manifest) : ManifestFiles := ⟨.present m,none⟩

/-- Write `m` unless the file on disk carries a higher epoch; report the epoch in effect. -/
def writeUnlessSuperseded (files : ManifestFiles) (m : Manifest) : ManifestFiles × Int :=
  match files.read with
  | .ok (.present onDisk) =>
    if m.epoch<onDisk.epoch then (files,onDisk.epoch)
    else if onDisk=m then (files,m.epoch)
    else (files.writeUnchecked m,m.epoch)
  | _ => (files.writeUnchecked m,m.epoch)

def durableEpoch (files : ManifestFiles) : Option Int :=
  match files.manifestJson with
  | .present m => some m.epoch
  | _ => none

theorem read_present (files : ManifestFiles) (m : Manifest) :
    files.read=.ok (.present m) ↔ files.manifestJson=.present m := by
  unfold read
  cases h : files.manifestJson with
  | present n => simp
  | corrupt => simp
  | absent =>
    simp only [reduceCtorEq,iff_false]
    intro hh
    split at hh <;> cases hh

theorem writeUnlessSuperseded_cases (files : ManifestFiles) (m : Manifest) :
    (∃d,files.manifestJson=.present d ∧ m.epoch<d.epoch ∧
      files.writeUnlessSuperseded m=(files,d.epoch)) ∨
    ((files.writeUnlessSuperseded m).1.manifestJson=.present m ∧
      (files.writeUnlessSuperseded m).2=m.epoch ∧
      ∀d,files.manifestJson=.present d → d.epoch≤ m.epoch) := by
  unfold writeUnlessSuperseded
  split
  · rename_i d hd
    have hp := (read_present files d).mp hd
    split_ifs with h1 h2
    · exact Or.inl ⟨d,hp,h1,rfl⟩
    · subst h2
      refine Or.inr ⟨hp,rfl,?_⟩
      intro e he
      rw [hp] at he
      cases he
      exact le_refl _
    · refine Or.inr ⟨rfl,rfl,?_⟩
      intro e he
      rw [hp] at he
      cases he
      exact not_lt.mp h1
  · rename_i hne
    refine Or.inr ⟨rfl,rfl,?_⟩
    intro d hd
    exact absurd ((read_present files d).mpr hd) (hne d)

theorem writeUnlessSuperseded_epoch (files : ManifestFiles) (m : Manifest) :
    (files.writeUnlessSuperseded m).1.durableEpoch=some (files.writeUnlessSuperseded m).2 := by
  rcases writeUnlessSuperseded_cases files m with ⟨d,hd,_,he⟩|⟨hm,he,_⟩
  · rw [he,durableEpoch,hd]
  · rw [he,durableEpoch,hm]

theorem writeUnlessSuperseded_le (files : ManifestFiles) (m : Manifest) (e : Int)
    (h : files.durableEpoch=some e) :
    ∃e',(files.writeUnlessSuperseded m).1.durableEpoch=some e' ∧ e≤e' := by
  refine ⟨_,writeUnlessSuperseded_epoch files m,?_⟩
  have hp : ∃d,files.manifestJson=.present d ∧ d.epoch=e := by
    unfold durableEpoch at h
    split at h
    · rename_i d hd
      exact ⟨d,hd,Option.some.inj h⟩
    · cases h
  obtain ⟨d,hd,rfl⟩ := hp
  rcases writeUnlessSuperseded_cases files m with ⟨d',hd',_,he⟩|⟨_,he,hle⟩
  · rw [hd] at hd'
    cases hd'
    rw [he]
  · rw [he]
    exact hle d hd

end ManifestFiles

end Kaas
