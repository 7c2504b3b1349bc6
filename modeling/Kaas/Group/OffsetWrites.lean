import Kaas.Framework.Run
import Kaas.Group.OffsetStore

namespace Kaas

/-- Where a commit or a delete stands behind its part under the lock. -/
inductive WritePhase
  | checking
  | writing
  | settling (done : Bool)
  | returned (ok : Bool)
  deriving DecidableEq, Repr

/-- A call in flight with the maps it has cloned for the file; none when the file is to be
removed. -/
structure OffsetWriter where
  group : String
  snapshot : Option GroupOffsets
  phase : WritePhase

def OffsetWriter.behind (wr : OffsetWriter) (written : Bool) : WritePhase :=
  if wr.snapshot.isSome then .settling written else .returned written

/-- Calls on one store: the lock is held for the merge and for the note of a failure, and not
between. -/
structure OffsetWrites where
  cache : OffsetCache := {}
  files : String → JsonFile OffsetFile := fun _ => .absent
  fence : FenceStamp := {}
  writers : AList (fun _ : Nat => OffsetWriter) := ∅

inductive OffsetOp
  | commit (id : Nat) (group : String) (offsets : OffsetMap) (metadata : MetadataMap)
  | deletePartitions (id : Nat) (group : String) (keys : List String)
  | delete (id : Nat) (group : String)
  | check (id : Nat) (readable : Bool)
  | write (id : Nat) (written : Bool)
  | settle (id : Nat)

namespace OffsetWrites

def enter (w : OffsetWrites) (id : Nat) (wr : OffsetWriter) : OffsetWrites :=
  {w with writers := w.writers.insert id wr}

def move (w : OffsetWrites) (id : Nat) (wr : OffsetWriter) (phase : WritePhase) : OffsetWrites :=
  w.enter id {wr with phase := phase}

def replaced (w : OffsetWrites) (wr : OffsetWriter) : OffsetWrites :=
  {w with files := Function.update w.files wr.group (match wr.snapshot with
    | some snapshot => .present ⟨snapshot,w.fence⟩
    | none => .absent)}

def exec (w : OffsetWrites) : OffsetOp → OffsetWrites
  | .commit id group offsets metadata =>
    if id∈w.writers then w else
      let (s,changed) := w.cache.mergeCommit group offsets metadata
      {w with cache := s}.enter id
        (if changed then ⟨group,some (s.contents group),.checking⟩ else ⟨group,none,.returned true⟩)
  | .deletePartitions id group keys =>
    if id∈w.writers then w else
      match w.cache.mergeDelete group keys with
      | none => w.enter id ⟨group,none,.returned true⟩
      | some (s,_) => {w with cache := s}.enter id ⟨group,some (s.contents group),.checking⟩
  | .delete id group =>
    if id∈w.writers then w else
      {w with cache := w.cache.mergeRemove group}.enter id ⟨group,none,.writing⟩
  | .check id readable =>
    match w.writers.lookup id with
    | some wr => if wr.phase=.checking then
        if OffsetCache.fenceBlocks w.fence readable (w.files wr.group) then
          {w with cache := w.cache.markDirty wr.group}.move id wr (.returned false)
        else w.move id wr .writing
      else w
    | none => w
  | .write id written =>
    match w.writers.lookup id with
    | some wr => if wr.phase=.writing then
        (if written then w.replaced wr else w).move id wr (wr.behind written)
      else w
    | none => w
  | .settle id =>
    match w.writers.lookup id with
    | some wr => match wr.phase with
      | .settling done =>
        {w with cache := if done then w.cache.clearDirty wr.group else w.cache.markDirty wr.group}.move id wr
          (.returned done)
      | _ => w
    | none => w

end OffsetWrites

def OffsetStep (w : OffsetWrites) (op : OffsetOp) (w' : OffsetWrites) : Prop := w.exec op=w'

def GroupOffsets.Same (a b : GroupOffsets) : Prop :=
  a.offsets.entries.Perm b.offsets.entries ∧ a.metadata.entries.Perm b.metadata.entries

instance (a b : GroupOffsets) : Decidable (a.Same b) := inferInstanceAs (Decidable (_ ∧ _))

def OffsetWrites.Carries (w : OffsetWrites) (group : String) (wr : OffsetWriter) : Prop :=
  wr.group=group ∧ (wr.phase=.checking ∨ wr.phase=.writing) ∧
    (wr.snapshot.getD {}).Same (w.cache.contents group)

instance (w : OffsetWrites) (group : String) (wr : OffsetWriter) : Decidable (w.Carries group wr) :=
  inferInstanceAs (Decidable (_ ∧ _))

/-- A write lands with what the cache holds now, or another call that is still to write carries
that. -/
def OffsetOk (group : String) (w : OffsetWrites) : OffsetOp → Prop
  | .write id true => ∀wr∈w.writers.lookup id,wr.group=group →
      (wr.snapshot.getD {}).Same (w.cache.contents group) ∨
        ∃other∈w.writers.keys,other≠id ∧ ∃o∈w.writers.lookup other,w.Carries group o
  | _ => True

instance (group : String) (w : OffsetWrites) (op : OffsetOp) : Decidable (OffsetOk group w op) :=
  match op with
  | .write _ true => inferInstanceAs (Decidable (∀wr∈_,_ → _ ∨ _))
  | .write _ false | .commit .. | .deletePartitions .. | .delete .. | .check .. | .settle _ => .isTrue trivial

def OffsetWrites.filed (w : OffsetWrites) (group : String) : GroupOffsets :=
  match w.files group with
  | .present f => f.toGroupOffsets
  | _ => {}

def OffsetWrites.Holds (w : OffsetWrites) (group : String) : Prop :=
  (∀k v,(w.cache.contents group).offsets.lookup k=some v → (w.filed group).offsets.lookup k=some v) ∧
  ∀k v,(w.cache.contents group).metadata.lookup k=some v → (w.filed group).metadata.lookup k=some v

def OffsetWrites.Mirrors (w : OffsetWrites) (group : String) : Prop :=
  (∀k,(w.filed group).offsets.lookup k=(w.cache.contents group).offsets.lookup k) ∧
  ∀k,(w.filed group).metadata.lookup k=(w.cache.contents group).metadata.lookup k

def OffsetWriter.Failed (wr : OffsetWriter) (group : String) : Prop :=
  wr.group=group ∧ (wr.phase=.settling false ∨ wr.phase=.returned false)

/-- A call has failed, or what the cache holds is still to be written, or it is in the file. -/
def OffsetSound (mirrored : Prop) (group : String) (w : OffsetWrites) : Prop :=
  (∃id wr,w.writers.lookup id=some wr ∧ wr.Failed group) ∨
  (∃id wr,w.writers.lookup id=some wr ∧ w.Carries group wr) ∨
  (w.Holds group ∧ (mirrored → w.Mirrors group))

theorem OffsetWriter.behind_false (wr : OffsetWriter) :
    wr.behind false=.settling false ∨ wr.behind false=.returned false := by
  unfold behind
  split_ifs
  · exact .inl rfl
  · exact .inr rfl

theorem OffsetWrites.replaced_filed (w : OffsetWrites) (wr : OffsetWriter) :
    (w.replaced wr).filed wr.group=wr.snapshot.getD {} := by
  unfold replaced filed
  simp only
  rw [Function.update_self]
  cases wr.snapshot <;> rfl

theorem OffsetWrites.replaced_filed_ne (w : OffsetWrites) {wr : OffsetWriter} {group : String}
    (hg : group≠wr.group) : (w.replaced wr).filed group=w.filed group := by
  unfold replaced filed
  simp only
  rw [Function.update_of_ne hg]

theorem OffsetWrites.replaced_mirrors {w : OffsetWrites} {wr : OffsetWriter}
    (hsame : (wr.snapshot.getD {}).Same (w.cache.contents wr.group)) : (w.replaced wr).Mirrors wr.group := by
  unfold Mirrors
  rw [replaced_filed]
  exact ⟨fun k => AList.perm_lookup hsame.1,fun k => AList.perm_lookup hsame.2⟩

theorem OffsetWrites.Mirrors.holds {w : OffsetWrites} {group : String} (h : w.Mirrors group) : w.Holds group :=
  ⟨fun k _ hv => (h.1 k).trans hv,fun k _ hv => (h.2 k).trans hv⟩

namespace OffsetSound

variable {mirrored : Prop} {group : String} {w w' : OffsetWrites} {id : Nat} {wr : OffsetWriter}

theorem of_carries (hw : w.writers.lookup id=some wr) (h : w.Carries group wr) : OffsetSound mirrored group w :=
  .inr (.inl ⟨id,wr,hw,h⟩)

theorem advance (h : OffsetSound mirrored group w) (hw : w'.writers=w.writers.insert id wr)
    (hc : w'.cache.contents group=w.cache.contents group) (hf : w'.filed group=w.filed group)
    (failed : ∀v,w.writers.lookup id=some v → v.Failed group → wr.Failed group)
    (carries : ∀v,w.writers.lookup id=some v → w.Carries group v → w'.Carries group wr ∨ wr.Failed group) :
    OffsetSound mirrored group w' := by
  have hself : w'.writers.lookup id=some wr := by rw [hw,AList.lookup_insert]
  have hother : ∀i,i≠id → w'.writers.lookup i=w.writers.lookup i := by
    intro i hi
    rw [hw,AList.lookup_insert_ne hi]
  rcases h with ⟨i,v,hi,hv⟩|⟨i,v,hi,hv⟩|⟨hh,hm⟩
  · by_cases hid : i=id
    · rw [hid] at hi
      exact .inl ⟨id,wr,hself,failed v hi hv⟩
    · exact .inl ⟨i,v,(hother i hid).trans hi,hv⟩
  · by_cases hid : i=id
    · rw [hid] at hi
      rcases carries v hi hv with hcar|hfail
      · exact of_carries hself hcar
      · exact .inl ⟨id,wr,hself,hfail⟩
    · refine of_carries ((hother i hid).trans hi) ?_
      unfold OffsetWrites.Carries at hv ⊢
      rw [hc]
      exact hv
  · refine .inr (.inr ?_)
    unfold OffsetWrites.Holds OffsetWrites.Mirrors
    rw [hc,hf]
    exact ⟨hh,hm⟩

theorem goesOn (h : OffsetSound mirrored group w) {v : OffsetWriter} (hv : w.writers.lookup id=some v)
    (hw : w'.writers=w.writers.insert id wr) (hc : w'.cache.contents group=w.cache.contents group)
    (hf : w'.filed group=w.filed group) (failed : v.Failed group → wr.Failed group)
    (carries : w.Carries group v → w'.Carries group wr ∨ wr.Failed group) : OffsetSound mirrored group w' := by
  refine h.advance hw hc hf (fun u hu => ?_) (fun u hu => ?_)
  · obtain rfl := Option.some.inj (hv.symm.trans hu)
    exact failed
  · obtain rfl := Option.some.inj (hv.symm.trans hu)
    exact carries

theorem entered (h : OffsetSound mirrored group w) (hid : id∉w.writers) (s : OffsetCache)
    (hnew : s.contents group=w.cache.contents group ∨
      ({w with cache := s} : OffsetWrites).Carries group wr) :
    OffsetSound mirrored group ({w with cache := s}.enter id wr) := by
  have hnone : w.writers.lookup id=none := AList.lookup_eq_none.mpr hid
  rcases hnew with hc|hcar
  · refine h.advance rfl hc rfl ?_ ?_
    · intro v hv
      rw [hnone] at hv
      cases hv
    · intro v hv
      rw [hnone] at hv
      cases hv
  · exact of_carries (AList.lookup_insert _) hcar

theorem commit (h : OffsetSound mirrored group w) (id : Nat) (g : String) (offsets : OffsetMap)
    (metadata : MetadataMap) : OffsetSound mirrored group (w.exec (.commit id g offsets metadata)) := by
  by_cases hid : id∈w.writers
  · simp only [OffsetWrites.exec,if_pos hid]
    exact h
  · simp only [OffsetWrites.exec,if_neg hid]
    refine h.entered hid _ ?_
    by_cases hg : group=g
    · subst hg
      cases hch : (w.cache.mergeCommit group offsets metadata).2 with
      | false => exact .inl (OffsetCache.contents_unchanged hch group)
      | true => exact .inr ⟨rfl,.inl rfl,.refl _,.refl _⟩
    · exact .inl (OffsetCache.contents_mergeCommit_ne hg offsets metadata)

theorem deletePartitions (h : OffsetSound mirrored group w) (id : Nat) (g : String)
    (keys : List String) : OffsetSound mirrored group (w.exec (.deletePartitions id g keys)) := by
  simp only [OffsetWrites.exec]
  split_ifs with hid
  · exact h
  · unfold OffsetCache.mergeDelete
    cases hm : w.cache.cache.lookup g with
    | none => exact h.entered hid w.cache (.inl rfl)
    | some m =>
      refine h.entered hid _ ?_
      by_cases hg : group=g
      · subst hg
        exact .inr ⟨rfl,.inl rfl,.refl _,.refl _⟩
      · exact .inl (OffsetCache.contents_dropKeys_ne hg m _)

theorem delete (h : OffsetSound mirrored group w) (id : Nat) (g : String) :
    OffsetSound mirrored group (w.exec (.delete id g)) := by
  simp only [OffsetWrites.exec]
  split_ifs with hid
  · exact h
  · refine h.entered hid _ ?_
    by_cases hg : group=g
    · subst hg
      refine .inr ⟨rfl,.inr rfl,?_⟩
      change GroupOffsets.Same {} ((w.cache.mergeRemove group).contents group)
      rw [OffsetCache.contents_mergeRemove]
      exact ⟨.refl _,.refl _⟩
    · exact .inl (OffsetCache.contents_mergeRemove_ne hg)

theorem check (h : OffsetSound mirrored group w) (id : Nat) (readable : Bool) :
    OffsetSound mirrored group (w.exec (.check id readable)) := by
  simp only [OffsetWrites.exec]
  cases hwr : w.writers.lookup id with
  | none => exact h
  | some wr =>
    simp only
    split_ifs with hphase hblocks
    · refine h.goesOn hwr rfl rfl rfl ?_ ?_
      · intro hf
        exact ⟨hf.1,.inr rfl⟩
      · intro hcar
        exact .inr ⟨hcar.1,.inr rfl⟩
    · refine h.goesOn hwr rfl rfl rfl ?_ ?_
      · intro hf
        rw [OffsetWriter.Failed,hphase] at hf
        rcases hf.2 with hf|hf <;> cases hf
      · intro hcar
        exact .inl ⟨hcar.1,.inr rfl,hcar.2.2⟩
    · exact h

theorem write (h : OffsetSound mirrored group w) (id : Nat) (written : Bool)
    (hok : OffsetOk group w (.write id written)) : OffsetSound mirrored group (w.exec (.write id written)) := by
  simp only [OffsetWrites.exec]
  cases hwr : w.writers.lookup id with
  | none => exact h
  | some wr =>
    by_cases hphase : wr.phase=.writing
    · have hfailed : ¬wr.Failed group := by
        intro hf
        rw [OffsetWriter.Failed,hphase] at hf
        rcases hf.2 with hf|hf <;> cases hf
      simp only [if_pos hphase]
      cases written with
      | false =>
        refine h.goesOn hwr rfl rfl rfl ?_ ?_
        · intro hf
          exact absurd hf hfailed
        · intro hcar
          exact .inr ⟨hcar.1,wr.behind_false⟩
      | true =>
        by_cases hg : wr.group=group
        · rcases hok wr hwr hg with hsame|⟨other,-,hne,o,ho,hcar⟩
          · subst hg
            have hm : (w.replaced wr).Mirrors wr.group := OffsetWrites.replaced_mirrors hsame
            exact .inr (.inr ⟨hm.holds,fun _ => hm⟩)
          · exact of_carries ((AList.lookup_insert_ne hne).trans ho) hcar
        · refine h.goesOn hwr rfl rfl (w.replaced_filed_ne (Ne.symm hg)) ?_ ?_
          · intro hf
            exact absurd hf.1 hg
          · intro hcar
            exact absurd hcar.1 hg
    · simp only [if_neg hphase]
      exact h

theorem settle (h : OffsetSound mirrored group w) (id : Nat) :
    OffsetSound mirrored group (w.exec (.settle id)) := by
  simp only [OffsetWrites.exec]
  cases hwr : w.writers.lookup id with
  | none => exact h
  | some wr =>
    simp only
    cases hphase : wr.phase with
    | settling done =>
      have hcontents : (if done then w.cache.clearDirty wr.group else w.cache.markDirty
        wr.group).contents group=
          w.cache.contents group := by
        cases done <;> rfl
      refine h.goesOn hwr rfl hcontents rfl ?_ ?_
      · intro hf
        rw [OffsetWriter.Failed,hphase] at hf
        rcases hf.2 with hf'|hf'
        · cases hf'
          exact ⟨hf.1,.inr rfl⟩
        · cases hf'
      · intro hcar
        rw [OffsetWrites.Carries,hphase] at hcar
        rcases hcar.2.1 with hc|hc <;> cases hc
    | checking => exact h
    | writing => exact h
    | returned ok => exact h

theorem step (h : OffsetSound mirrored group w) (op : OffsetOp) (hok : OffsetOk group w op) :
    OffsetSound mirrored group (w.exec op) := by
  cases op with
  | commit id g offsets metadata => exact h.commit id g offsets metadata
  | deletePartitions id g keys => exact h.deletePartitions id g keys
  | delete id g => exact h.delete id g
  | check id readable => exact h.check id readable
  | write id written => exact h.write id written hok
  | settle id => exact h.settle id

end OffsetSound

/-- When all calls on the group have returned without an error, its file has every entry of the
cache, and nothing else if that was so at the start. -/
theorem returned_commits_filed {group : String} {w₀ w : OffsetWrites} (held : w₀.Holds group)
    (run : Reaches OffsetStep (OffsetOk group) w₀ w)
    (returned : ∀id wr,w.writers.lookup id=some wr → wr.group=group → wr.phase=.returned true) :
    w.Holds group ∧ (w₀.Mirrors group → w.Mirrors group) := by
  have h : OffsetSound (w₀.Mirrors group) group w := by
    refine run.invariant (.inr (.inr ⟨held,id⟩)) ?_
    intro v op v' hv hok hstep
    cases hstep
    exact hv.step op hok
  rcases h with ⟨i,wr,hi,hg,hf⟩|⟨i,wr,hi,hg,hp,-⟩|h
  · rw [returned i wr hi hg] at hf
    rcases hf with hf|hf <;> cases hf
  · rw [returned i wr hi hg] at hp
    rcases hp with hp|hp <;> cases hp
  · exact h

theorem uninterrupted_commit {w : OffsetWrites} {id : Nat} (hid : id∉w.writers) (group : String)
    (offsets : OffsetMap) (metadata : MetadataMap) (readable written : Bool) :
    let w' := [.commit id group offsets metadata,.check id readable,.write id written,
      .settle id].foldl OffsetWrites.exec w
    let r := w.cache.commitWithMetadata (w.files group) w.fence readable written group offsets metadata
    w'.cache=r.1 ∧ w'.files group=r.2.1 ∧
      (w'.writers.lookup id).map OffsetWriter.phase=some (.returned (decide (r.2.2=.ok))) := by
  simp only [List.foldl_cons,List.foldl_nil,OffsetCache.commitWithMetadata]
  rcases Bool.eq_false_or_eq_true (w.cache.mergeCommit group offsets metadata).2 with hch|hch
  · rcases Bool.eq_false_or_eq_true (OffsetCache.fenceBlocks w.fence readable (w.files group)) with hb|hb
    · simp [OffsetWrites.exec,hid,hch,OffsetWrites.enter,OffsetWrites.move,OffsetCache.writeGroup,hb]
    · cases written <;> simp [OffsetWrites.exec,hid,hch,OffsetWrites.enter,OffsetWrites.move,
        OffsetCache.writeGroup,hb,OffsetWriter.behind,OffsetWrites.replaced]
  · simp [OffsetWrites.exec,hid,hch,OffsetWrites.enter]

theorem OffsetWrites.holds_cold (group : String) : OffsetWrites.Holds {} group := by
  constructor
  · intro k v h
    cases h
  · intro k v h
    cases h

def OffsetWrites.AllReturned (w : OffsetWrites) : Prop :=
  ∀e∈w.writers.entries,e.2.phase=.returned true

instance (w : OffsetWrites) : Decidable w.AllReturned := inferInstanceAs (Decidable (∀e∈_,_))

theorem OffsetWrites.AllReturned.phase {w : OffsetWrites} (h : w.AllReturned) (id : Nat)
    (wr : OffsetWriter) (hwr : w.writers.lookup id=some wr) : wr.phase=.returned true :=
  h ⟨id,wr⟩ (AList.mem_lookup_iff.mp hwr)

theorem overlapping_commits_filed :
    ∃w,Reaches OffsetStep (OffsetOk "g") {} w ∧ (w.filed "g").offsets.lookup "t/0"=some 2 ∧
      w.AllReturned ∧ w.Holds "g" ∧ (OffsetWrites.Mirrors {} "g" → w.Mirrors "g") := by
  obtain ⟨w,hreach,hfile,hall⟩ : ∃w,Reaches OffsetStep (OffsetOk "g") {} w ∧
      (w.filed "g").offsets.lookup "t/0"=some 2 ∧ w.AllReturned := by
    refine runChecked_finds (f := OffsetWrites.exec) (fun _ _ => rfl) [
      .commit 0 "g" (oneOffset "t/0" 1) ∅,.commit 1 "g" (oneOffset "t/0" 2) ∅,.check 0 true,.check 1 true,
      .write 0 true,.write 1 true,.settle 1,.settle 0] ?_
    decide +kernel
  exact ⟨w,hreach,hfile,hall,
    returned_commits_filed (OffsetWrites.holds_cold "g") hreach (fun id wr hwr _ => hall.phase id wr hwr)⟩

/-- The older snapshot lands last: both calls have returned, and the file has gone back to the first
commit. A third commit of the newer offset returns without a write. -/
theorem stale_snapshot_filed :
    ¬∀w,Reaches OffsetStep (fun _ _ => True) {} w → w.AllReturned → w.Holds "g" := by
  intro hall
  obtain ⟨w,hreach,hret,hcache,hfile⟩ : ∃w,Reaches OffsetStep (fun _ _ => True) {} w ∧
      w.AllReturned ∧ (w.cache.contents "g").offsets.lookup "t/0"=some 2 ∧
      (w.filed "g").offsets.lookup "t/0"=some 1 := by
    refine runChecked_finds (f := OffsetWrites.exec) (fun _ _ => rfl) [
      .commit 0 "g" (oneOffset "t/0" 1) ∅,.commit 1 "g" (oneOffset "t/0" 2) ∅,.check 0 true,.check 1 true,
      .write 1 true,.write 0 true,.settle 1,.settle 0,.commit 2 "g" (oneOffset "t/0" 2) ∅] ?_
    decide +kernel
  have hheld := (hall w hreach hret).1 "t/0" 2 hcache
  exact absurd (hfile.symm.trans hheld) (by decide)

end Kaas
