import Kaas.Framework.Run
import Kaas.Group.OffsetStore

namespace Kaas

/-! The committed offsets of one group in memory, against the group's file. -/

/-- What the disk and the assignment in effect have in store for a write. -/
structure OffsetIo where
  fence : FenceStamp := {}
  readable : Bool := true
  written : Bool := true
  deriving DecidableEq

/-- The store and the file of the group; `current` when the store has last loaded the file, or has
last written it from memory or removed it. -/
structure OffsetMirror where
  store : OffsetCache := {}
  file : JsonFile OffsetFile := .absent
  current : Bool := false

inductive MirrorOp
  | load (readable : Bool)
  | commit (io : OffsetIo) (offsets : OffsetMap) (metadata : MetadataMap)
  | deletePartitions (io : OffsetIo) (keys : List String)
  | purgeTopic (io : OffsetIo) (topic : String)
  | delete (removable : Bool)
  /-- another broker writes or removes the file -/
  | foreign (file : JsonFile OffsetFile)

def fileContents : JsonFile OffsetFile → GroupOffsets
  | .present f => f.toGroupOffsets
  | _ => {}

namespace OffsetMirror

def wrote (w : OffsetMirror) (r : OffsetCache × JsonFile OffsetFile × OffsetResult)
    (writes : Bool) : OffsetMirror :=
  ⟨r.1,r.2.1,w.current || (writes && decide (r.2.2=.ok))⟩

def exec (group : String) (w : OffsetMirror) : MirrorOp → OffsetMirror
  | .load readable => match w.file with
    | .corrupt => w
    | .absent => {w with current := true}
    | .present _ => if readable then {w with store := w.store.load w.file readable group,current := true} else w
  | .commit io offsets metadata =>
    w.wrote (w.store.commitWithMetadata w.file io.fence io.readable io.written group offsets metadata)
      (w.store.mergeCommit group offsets metadata).2
  | .deletePartitions io keys =>
    let (s,f,r,_) := w.store.deletePartitions w.file io.fence io.readable io.written group keys
    w.wrote (s,f,r) (w.store.cache.lookup group).isSome
  | .purgeTopic io topic =>
    let (s,f,r,_) := w.store.purgeTopic w.file io.fence io.readable io.written group topic
    w.wrote (s,f,r) ((w.store.mergePurge group topic).any (fun p => p.2≠[]))
  | .delete removable =>
    ⟨(w.store.delete w.file removable group).1,(w.store.delete w.file removable group).2.1,removable⟩
  | .foreign file => {w with file := file,current := false}

def Step (group : String) (w : OffsetMirror) (op : MirrorOp) (w' : OffsetMirror) : Prop := w.exec group op=w'

end OffsetMirror

def GroupOffsets.Covered (c : GroupOffsets) : Prop := ∀k∈c.metadata.keys,k∈c.offsets

instance GroupOffsets.decidableCovered (c : GroupOffsets) : Decidable c.Covered :=
  inferInstanceAs (Decidable (∀k∈_,_))

variable {s : OffsetCache} {f : JsonFile OffsetFile} {io : OffsetIo} {group topic k : String}
  {w : OffsetMirror} {offsets m : OffsetMap} {metadata : MetadataMap} {keys : List String}

namespace OffsetCache

theorem writeGroup_done (s : OffsetCache) (f : JsonFile OffsetFile) (io : OffsetIo) (group : String)
    (c : GroupOffsets) :
    s.writeGroup f io.fence io.readable io.written group c=(s.clearDirty group,.present ⟨c,io.fence⟩,.ok) ∨
    ∃r,r≠.ok ∧ s.writeGroup f io.fence io.readable io.written group c=(s.markDirty group,f,r) := by
  unfold writeGroup
  split_ifs
  · exact .inr ⟨.fenced,nofun,rfl⟩
  · exact .inl rfl
  · exact .inr ⟨.io,nofun,rfl⟩

theorem foldl_mergeMetadata_lookup (l : List (Sigma fun _ : String => String)) (nodup : l.NodupKeys)
    (m : MetadataMap × Bool) (k : String) :
      (l.foldl (fun m e => mergeMetadata m e.1 e.2) m).1.lookup k= match l.dlookup k with
      | none => m.1.lookup k
      | some v => if v="" then none else some v := by
  induction l generalizing m with
  | nil => rfl
  | cons e l ih =>
    obtain ⟨a,v⟩ := e
    obtain ⟨ha,hl⟩ := List.nodupKeys_cons.mp nodup
    have hm : (mergeMetadata m a v).1.lookup k=
        if k=a then (if v="" then none else some v) else m.1.lookup k := by
      unfold mergeMetadata
      by_cases hk : k=a
      · subst hk
        rw [if_pos rfl]
        split_ifs with hv hmem hsame
        · exact AList.lookup_erase _ _
        · exact AList.lookup_eq_none.mpr hmem
        · exact hsame
        · exact AList.lookup_insert _
      · rw [if_neg hk]
        split_ifs
        · exact AList.lookup_erase_ne hk
        · rfl
        · rfl
        · exact AList.lookup_insert_ne hk
    rw [List.foldl_cons,ih hl]
    by_cases hk : k=a
    · subst hk
      rw [List.dlookup_eq_none.mpr ha,List.dlookup_cons_eq,hm,if_pos rfl]
    · rw [List.dlookup_cons_ne l ⟨a,v⟩ hk,hm,if_neg hk]

theorem mergeCommit_metadata (s : OffsetCache) (group : String) (offsets : OffsetMap) (metadata : MetadataMap)
    (k : String) : ((s.mergeCommit group offsets metadata).1.contents group).metadata.lookup k=
      match metadata.lookup k with
      | none => (s.contents group).metadata.lookup k
      | some v => if v="" then none else some v := by
  unfold mergeCommit contents
  simp only [AList.lookup_insert,Option.getD_some]
  exact foldl_mergeMetadata_lookup metadata.entries metadata.nodupKeys _ k

theorem mem_mergeCommit : k∈((s.mergeCommit group offsets metadata).1.contents group).offsets ↔
    k∈offsets ∨ k∈(s.contents group).offsets := by
  rw [← AList.lookup_isSome,mergeCommit_lookup,← AList.lookup_isSome,← AList.lookup_isSome]
  cases offsets.lookup k <;> simp

theorem covered_mergeCommit (h : (s.contents group).Covered) (hc : GroupOffsets.Covered ⟨offsets,
    metadata⟩) : ((s.mergeCommit group offsets metadata).1.contents group).Covered := by
  intro k hk
  rw [← AList.mem_keys,← AList.lookup_isSome,mergeCommit_metadata] at hk
  rw [mem_mergeCommit]
  cases hm : metadata.lookup k with
  | none =>
    rw [hm] at hk
    exact .inr (h k (AList.mem_keys.mp (AList.lookup_isSome.mp hk)))
  | some v => exact .inl (hc k (AList.mem_keys.mp (AList.lookup_isSome.mp (by rw [hm]; rfl))))

theorem dropKeys_metadata (s : OffsetCache) (group : String) (m : OffsetMap) (keys : List String)
    (k : String) : ((s.dropKeys group m keys).contents group).metadata.lookup k=
      if k∈keys then none else (s.contents group).metadata.lookup k := by
  unfold dropKeys contents
  cases hm : s.metadata.lookup group with
  | none => simp [hm]
  | some md =>
    simp only [AList.lookup_insert,Option.getD_some]
    exact lookup_foldl_erase keys md k

theorem covered_dropKeys (h : (s.contents group).Covered) (hm : s.cache.lookup group=some m)
    (keys : List String) : ((s.dropKeys group m keys).contents group).Covered := by
  intro k hk
  rw [← AList.mem_keys,← AList.lookup_isSome,dropKeys_metadata] at hk
  split_ifs at hk with hin
  · cases hk
  · have := h k (AList.mem_keys.mp (AList.lookup_isSome.mp hk))
    have hc : (s.contents group).offsets=m := by simp [contents,hm]
    rw [hc,← AList.lookup_isSome] at this
    rwa [← AList.lookup_isSome,dropKeys_lookup,if_neg hin]

theorem contents_dropKeys_nil (hm : s.cache.lookup group=some m) :
    (s.dropKeys group m []).contents group=s.contents group := by
  unfold dropKeys contents
  cases hmd : s.metadata.lookup group with
  | none => simp [hm,hmd]
  | some md => simp [hm]

end OffsetCache

namespace OffsetMirror

/-- Loads find a file, or nothing in memory, and a file without metadata finds none in memory;
metadata comes with the offset it belongs to, here and in the files of others. -/
def Faithful (group : String) (w : OffsetMirror) : MirrorOp → Prop
  | .load _ => match w.file with
    | .present f => f.metadata.entries=[] → (w.store.contents group).metadata=∅
    | .absent => w.store.contents group={}
    | .corrupt => True
  | .commit _ offsets metadata => GroupOffsets.Covered ⟨offsets,metadata⟩
  | .foreign file => (fileContents file).Covered
  | _ => True

instance (group : String) (w : OffsetMirror) : (op : MirrorOp) → Decidable (Faithful group w op)
  | .load _ => match hf : w.file with
    | .present f => decidable_of_iff (f.metadata.entries=[] → (w.store.contents group).metadata=∅)
        (by unfold Faithful; rw [hf])
    | .absent => decidable_of_iff (w.store.contents group={}) (by unfold Faithful; rw [hf])
    | .corrupt => .isTrue (by unfold Faithful; rw [hf]; trivial)
  | .commit .. => inferInstanceAs (Decidable (GroupOffsets.Covered _))
  | .foreign _ => inferInstanceAs (Decidable (GroupOffsets.Covered _))
  | .deletePartitions .. | .purgeTopic .. | .delete .. => .isTrue trivial

structure Sound (group : String) (w : OffsetMirror) : Prop where
  covered : (w.store.contents group).Covered
  filed : (fileContents w.file).Covered
  mirrored : w.current=true → group∉w.store.dirty → w.store.contents group=fileContents w.file
  uncached : w.current=true → w.store.cache.lookup group=none → (fileContents w.file).offsets=∅

theorem sound_wrote (hin : s.cache.lookup group≠none) (hs : (s.contents group).Covered)
    (hf : (fileContents f).Covered) (writes : Bool) :
    Sound group (w.wrote (s.writeGroup f io.fence io.readable io.written group (s.contents group)) writes) := by
  rcases s.writeGroup_done f io group (s.contents group) with h|⟨r,-,h⟩
  · rw [h]
    exact ⟨hs,hs,fun _ _ => rfl,fun _ hnone => absurd hnone hin⟩
  · rw [h]
    exact ⟨hs,hf,fun _ hd => absurd (Finset.mem_insert_self _ _) hd,fun _ hnone => absurd hnone hin⟩

variable (h : Sound group w)

include h in
theorem Sound.commit (io : OffsetIo) (hc : GroupOffsets.Covered ⟨offsets,metadata⟩) :
    Sound group (w.exec group (.commit io offsets metadata)) := by
  have hcov := OffsetCache.covered_mergeCommit h.covered hc
  have hin : (w.store.mergeCommit group offsets metadata).1.cache.lookup group≠none := by
    rw [OffsetCache.mergeCommit,AList.lookup_insert]
    nofun
  unfold exec OffsetCache.commitWithMetadata
  simp only
  cases hch : (w.store.mergeCommit group offsets metadata).2 with
  | true => exact sound_wrote hin hcov h.filed true
  | false =>
    have hsame := OffsetCache.contents_unchanged hch group
    refine ⟨hcov,h.filed,fun hcur hd => ?_,fun _ hnone => absurd hnone hin⟩
    have hcur' : w.current=true := by simpa [wrote] using hcur
    exact hsame.trans (h.mirrored hcur' hd)

theorem dropKeys_cached (s : OffsetCache) (group : String) (m : OffsetMap) (keys : List String) :
    (s.dropKeys group m keys).cache.lookup group≠none := by
  rw [OffsetCache.dropKeys,AList.lookup_insert]
  nofun

include h in
theorem Sound.idle (hf : w.file=f) (r : OffsetResult) : Sound group (w.wrote (w.store,f,r) false) := by
  subst hf
  have hcur (hc : (w.wrote (w.store,w.file,r) false).current=true) : w.current=true := by simpa [wrote] using hc
  exact ⟨h.covered,h.filed,fun hc => h.mirrored (hcur hc),fun hc => h.uncached (hcur hc)⟩

include h in
theorem Sound.deletePartitions (io : OffsetIo) (keys : List String) :
    Sound group (w.exec group (.deletePartitions io keys)) := by
  unfold exec OffsetCache.deletePartitions OffsetCache.mergeDelete
  cases hm : w.store.cache.lookup group with
  | none => exact h.idle rfl .ok
  | some m => exact sound_wrote (dropKeys_cached _ _ _ _) (OffsetCache.covered_dropKeys h.covered hm _) h.filed true

theorem covered_erase {c : GroupOffsets} (hc : c.Covered) (keys : List String) : GroupOffsets.Covered
    ⟨keys.foldl (fun m k => m.erase k) c.offsets,keys.foldl (fun m k => m.erase k) c.metadata⟩ := by
  intro k hk
  rw [← AList.mem_keys,← AList.lookup_isSome,OffsetCache.lookup_foldl_erase] at hk
  rw [← AList.lookup_isSome,OffsetCache.lookup_foldl_erase]
  by_cases hin : k∈keys
  · rw [if_pos hin] at hk
    cases hk
  · rw [if_neg hin] at hk ⊢
    exact AList.lookup_isSome.mpr (hc k (AList.mem_keys.mp (AList.lookup_isSome.mp hk)))

include h in
theorem Sound.purgeTopic (io : OffsetIo) (topic : String) :
    Sound group (w.exec group (.purgeTopic io topic)) := by
  unfold exec OffsetCache.purgeTopic OffsetCache.mergePurge
  cases hm : w.store.cache.lookup group with
  | some m =>
    simp only [Option.map_some]
    by_cases hd : OffsetCache.doomed topic m=[]
    · rw [if_pos hd,hd]
      have hsame := OffsetCache.contents_dropKeys_nil hm
      refine ⟨hsame ▸ h.covered,h.filed,fun hcur hmark => hsame.trans (h.mirrored ?_ hmark),
        fun _ hnone => absurd hnone (dropKeys_cached _ _ _ _)⟩
      simpa [wrote] using hcur
    · rw [if_neg hd]
      exact sound_wrote (dropKeys_cached _ _ _ _) (OffsetCache.covered_dropKeys h.covered hm _) h.filed _
  | none =>
    simp only [Option.map_none]
    cases hf : w.file with
    | absent => exact h.idle hf .ok
    | corrupt => exact h.idle hf .io
    | present file =>
      have hfile := h.filed
      rw [hf] at hfile
      simp only
      split_ifs with hread hd
      · exact h.idle hf .ok
      · have hold (hcur : w.current=true) : False := by
          have hnil := h.uncached hcur hm
          rw [hf] at hnil
          exact hd (by rw [show file.offsets=∅ from hnil]; rfl)
        rcases w.store.writeGroup_done (.present file) io group
          ⟨(OffsetCache.doomed topic file.offsets).foldl (fun m k => m.erase k) file.offsets,
            (OffsetCache.doomed topic file.offsets).foldl (fun m k => m.erase k) file.metadata⟩
          with hw|⟨r,-,hw⟩
        · rw [hw]
          exact ⟨h.covered,covered_erase hfile _,fun hcur => absurd (by simpa [wrote] using hcur) hold,
            fun hcur => absurd (by simpa [wrote] using hcur) hold⟩
        · rw [hw]
          exact ⟨h.covered,hfile,fun _ hmark => absurd (Finset.mem_insert_self _ _) hmark,
            fun hcur => absurd (by simpa [wrote] using hcur) hold⟩
      · exact h.idle hf .io

theorem load_contents {file : OffsetFile} {readable : Bool} (hread : readable=true)
    (hok : file.metadata.entries=[] → (s.contents group).metadata=∅) :
    (s.load (.present file) readable group).contents group=file.toGroupOffsets := by
  unfold OffsetCache.load OffsetCache.contents
  dsimp only
  rw [if_pos hread]
  by_cases he : file.metadata.entries=[]
  · have hm : file.metadata=∅ := AList.ext he
    have hs : (s.metadata.lookup group).getD ∅=∅ := hok he
    simp only [AList.lookup_insert,Option.getD_some,he,if_true,hs]
    rw [← hm]
  · simp only [AList.lookup_insert,Option.getD_some,he,if_false]

include h in
theorem Sound.load {readable : Bool} (hok : Faithful group w (.load readable)) :
    Sound group (w.exec group (.load readable)) := by
  unfold exec
  unfold Faithful at hok
  have hfile := h.filed
  cases hf : w.file with
  | corrupt => exact h
  | absent =>
    rw [hf] at hok
    exact ⟨h.covered,nofun,fun _ _ => hok,fun _ _ => rfl⟩
  | present file =>
    rw [hf] at hok hfile
    simp only
    split_ifs with hread
    · have hsame := load_contents hread hok
      refine ⟨?_,hfile,fun _ _ => hsame,fun _ hnone => ?_⟩
      · rw [hsame]
        exact hfile
      · have hin : (w.store.load (.present file) readable group).cache.lookup group=some file.offsets := by
          simp [OffsetCache.load,hread]
        rw [hin] at hnone
        cases hnone
    · exact h

include h in
theorem Sound.exec {op : MirrorOp} (hok : Faithful group w op) : Sound group (w.exec group op) := by
  cases op with
  | load readable => exact h.load hok
  | commit io offsets metadata => exact h.commit io hok
  | deletePartitions io keys => exact h.deletePartitions io keys
  | purgeTopic io topic => exact h.purgeTopic io topic
  | foreign file => exact ⟨h.covered,hok,nofun,nofun⟩
  | delete removable =>
    have hgone : (w.store.delete w.file removable group).1.contents group={} :=
      OffsetCache.contents_mergeRemove _ _
    unfold OffsetMirror.exec
    cases removable with
    | true => exact ⟨by rw [hgone]; exact nofun,nofun,fun _ _ => hgone,fun _ _ => rfl⟩
    | false => exact ⟨by rw [hgone]; exact nofun,h.filed,nofun,nofun⟩

end OffsetMirror

/-- Under the condition on loads the maps in memory are those of the group's file whenever the store
has loaded or written it last without marking the group, and after every load; metadata has its
committed offset. -/
theorem offsets_mirrored {group : String} {w : OffsetMirror}
    (run : Reaches (OffsetMirror.Step group) (OffsetMirror.Faithful group) {} w) :
    (w.current=true → group∉w.store.dirty → w.store.contents group=fileContents w.file) ∧
    (w.store.contents group).Covered ∧
    ∀readable,OffsetMirror.Faithful group w (.load readable) →
      (w.file=.absent ∨ (readable=true ∧ w.file≠.corrupt)) →
      (w.exec group (.load readable)).store.contents group=fileContents w.file := by
  have h : w.Sound group := by
    apply run.invariant
    · exact ⟨nofun,nofun,nofun,nofun⟩
    · intro v op v' hv hok hstep
      cases hstep
      exact hv.exec hok
  refine ⟨h.mirrored,h.covered,fun readable hok hread => ?_⟩
  unfold OffsetMirror.exec
  unfold OffsetMirror.Faithful at hok
  cases hf : w.file with
  | corrupt =>
    rw [hf] at hread
    rcases hread with hread|hread
    · cases hread
    · exact absurd rfl hread.2
  | absent =>
    rw [hf] at hok
    exact hok
  | present file =>
    rw [hf] at hok hread
    have htrue : readable=true := by
      rcases hread with hread|hread
      · cases hread
      · exact hread.1
    simp only
    rw [if_pos htrue]
    exact OffsetMirror.load_contents htrue hok

def filed (key : String) (offset : Int) (metadata : MetadataMap) : JsonFile OffsetFile :=
  .present ⟨⟨oneOffset key offset,metadata⟩,{}⟩

def notedCommit : MirrorOp := .commit {} (oneOffset "t/0" 5) ((∅ : MetadataMap).insert "t/0" "m")

theorem offsets_mirrored_loaded : ∃w,Reaches (OffsetMirror.Step "g") (OffsetMirror.Faithful "g") {} w ∧
    w.current=true ∧ "g"∉w.store.dirty ∧ (fileContents w.file).metadata.lookup "t/1"=some "n" ∧
    w.store.contents "g"=fileContents w.file := by
  refine runChecked_finds_of (f := OffsetMirror.exec "g") (P := fun _ => _ ∧ _ ∧ _) (fun _ _ => rfl)
    [notedCommit,
    .foreign (filed "t/1" 7 ((∅ : MetadataMap).insert "t/1" "n")),.load true] (by decide +kernel)
    fun _ hreach h => ⟨h.1,h.2.1,h.2.2,(offsets_mirrored hreach).1 h.1 h.2.1⟩

/-- A load of a file without metadata leaves the old metadata in memory, here without its offset; a
load that finds no file leaves everything. -/
theorem loads_leave_stale :
    (∃w,Reaches (OffsetMirror.Step "g") (fun _ _ => True) {} w ∧ w.current=true ∧ "g"∉w.store.dirty ∧
      (fileContents w.file).metadata.lookup "t/0"=none ∧ (w.store.contents "g").metadata.lookup "t/0"=some "m" ∧
      ¬(w.store.contents "g").Covered) ∧
    ∃w,Reaches (OffsetMirror.Step "g") (fun _ _ => True) {} w ∧ w.current=true ∧ "g"∉w.store.dirty ∧
      w.file=.absent ∧ (w.store.contents "g").offsets.lookup "t/0"=some 5 := by
  constructor
  · refine runChecked_finds (f := OffsetMirror.exec "g") (fun _ _ => rfl)
      [notedCommit,.foreign (filed "t/1" 7 ∅),.load true] ?_
    decide +kernel
  · refine runChecked_finds (f := OffsetMirror.exec "g") (fun _ _ => rfl)
      [notedCommit,.foreign .absent,.load true] ?_
    decide +kernel

end Kaas
