import Kaas.Storage.Manifest
import Mathlib.Data.Finset.Erase
import Mathlib.Data.Finset.Insert
import Mathlib.Data.List.AList

namespace Kaas

abbrev OffsetMap := AList (fun _ : String => Int)
abbrev MetadataMap := AList (fun _ : String => String)

def oneOffset (key : String) (offset : Int) : OffsetMap := (∅ : OffsetMap).insert key offset

structure FenceStamp where
  controllerEpoch : Int := 0
  assignmentVersion : Int := 0
  deriving DecidableEq, Repr

def FenceStamp.Older (a b : FenceStamp) : Prop :=
  a.controllerEpoch<b.controllerEpoch ∨
    (a.controllerEpoch=b.controllerEpoch ∧ a.assignmentVersion<b.assignmentVersion)

instance (a b : FenceStamp) : Decidable (a.Older b) := inferInstanceAs (Decidable (_ ∨ _))

structure GroupOffsets where
  offsets : OffsetMap := ∅
  metadata : MetadataMap := ∅
  deriving DecidableEq

structure OffsetFile extends GroupOffsets where
  fence : FenceStamp := {}
  deriving DecidableEq

def offsetKey (topic : String) (partition : Int) : String := topic++"/"++toString partition

def splitSign : List Char → Bool × List Char
  | '-'::ds => (true,ds)
  | '+'::ds => (false,ds)
  | ds => (false,ds)

/-- `str::parse::<i32>`: an optional sign and digits, in range. -/
def parseI32 (s : List Char) : Option Int :=
  let (negative,digits) := splitSign s
  if digits≠[] ∧ digits.all Char.isDigit then
    let n : Int := (Nat.ofDigitChars 10 digits 0 : Nat)
    let x := if negative then -n else n
    if -2^31≤x ∧ x<2^31 then some x else none
  else none

def rsplitOnce (s : List Char) : Option (List Char × List Char) :=
  if '/'∈s then some ((s.reverse.dropWhile (·≠ '/')).tail.reverse,(s.reverse.takeWhile (·≠ '/')).reverse)
  else none

def keyHasTopic (key topic : String) : Bool :=
  match rsplitOnce key.toList with
  | some (t,p) => t==topic.toList && (parseI32 p).isSome
  | none => false

theorem toDigits_isDigit (n : Nat) : (Nat.toDigits 10 n).all Char.isDigit=true :=
  List.all_eq_true.mpr (fun _ hc => Nat.isDigit_of_mem_toDigits (by decide) (by decide) hc)

theorem splitSign_digits {ds : List Char} (hd : ds.all Char.isDigit=true) : splitSign ds=(false,ds) := by
  unfold splitSign
  split
  · exact absurd hd (by simp)
  · exact absurd hd (by simp)
  · rfl

theorem toString_toList (p : Int) :
    (toString p).toList=if 0≤p then Nat.toDigits 10 p.toNat else '-'::Nat.toDigits 10 (-p).toNat := by
  rw [Int.toString_eq_repr,Int.repr_eq_if]
  split_ifs
  · rw [Nat.toList_repr]
  · rw [String.toList_append,Nat.toList_repr]
    rfl

theorem toDigits_ne_nil (n : Nat) : Nat.toDigits 10 n≠[] := by
  intro h
  have hpos : 0<(Nat.toDigits 10 n).length := Nat.length_toDigits_pos
  rw [h] at hpos
  cases hpos

theorem parseI32_toString {p : Int} (hl : -2^31≤p) (hu : p<2^31) : parseI32 (toString p).toList=some p := by
  rw [toString_toList]
  unfold parseI32
  split_ifs with hp
  · simp only [splitSign_digits (toDigits_isDigit _)]
    rw [if_pos ⟨toDigits_ne_nil _,toDigits_isDigit _⟩,Nat.ofDigitChars_ten_toDigits]
    have hn : ((p.toNat : Nat) : Int)=p := Int.toNat_of_nonneg hp
    simp only [Bool.false_eq_true,if_false,hn]
    rw [if_pos ⟨hl,hu⟩]
  · simp only [splitSign]
    rw [if_pos ⟨toDigits_ne_nil _,toDigits_isDigit _⟩,Nat.ofDigitChars_ten_toDigits]
    have hn : (((-p).toNat : Nat) : Int)=-p := Int.toNat_of_nonneg (by omega)
    simp only [if_true,hn,neg_neg]
    rw [if_pos ⟨hl,hu⟩]

theorem slash_not_mem_toString (p : Int) : '/'∉(toString p).toList := by
  have hdigits : ∀n,'/'∉Nat.toDigits 10 n := by
    intro n hn
    exact absurd (Nat.isDigit_of_mem_toDigits (by decide) (by decide) hn) (by decide)
  rw [toString_toList]
  split_ifs
  · exact hdigits _
  · simp [hdigits]

theorem rsplitOnce_append (t : List Char) {p : List Char} (hp : '/'∉p) :
    rsplitOnce (t++ '/'::p)=some (t,p) := by
  have hrev : ∀c∈p.reverse,(decide (c≠ '/'))=true := by
    intro c hc
    refine decide_eq_true ?_
    rintro rfl
    exact hp (List.mem_reverse.mp hc)
  unfold rsplitOnce
  rw [if_pos (by simp)]
  simp only [List.reverse_append,List.reverse_cons,List.append_assoc]
  rw [List.dropWhile_append_of_pos hrev,List.takeWhile_append_of_pos hrev]
  simp

theorem keyHasTopic_offsetKey (topic t : String) {p : Int} (hl : -2^31≤p) (hu : p<2^31) :
    keyHasTopic (offsetKey t p) topic=decide (t=topic) := by
  unfold keyHasTopic offsetKey
  rw [String.toList_append,String.toList_append]
  have hsplit := rsplitOnce_append t.toList (slash_not_mem_toString p)
  have hsep : t.toList++"/".toList++(toString p).toList=t.toList++ '/'::(toString p).toList := by
    simp
  rw [hsep,hsplit]
  simp only [parseI32_toString hl hu,Option.isSome_some,Bool.and_true,beq_eq_decide,String.toList_inj]

structure OffsetCache where
  cache : AList (fun _ : String => OffsetMap) := ∅
  metadata : AList (fun _ : String => MetadataMap) := ∅
  dirty : Finset String := ∅

inductive OffsetResult
  | ok
  | fenced
  | io
  deriving DecidableEq, Repr

variable {g k group : String} {s : OffsetCache}

namespace OffsetCache

def contents (s : OffsetCache) (group : String) : GroupOffsets :=
  ⟨(s.cache.lookup group).getD ∅,(s.metadata.lookup group).getD ∅⟩

def mergeOffset (m : OffsetMap × Bool) (k : String) (v : Int) : OffsetMap × Bool :=
  if m.1.lookup k=some v then m else (m.1.insert k v,true)

def mergeMetadata (m : MetadataMap × Bool) (k v : String) : MetadataMap × Bool :=
  if v="" then if k∈m.1 then (m.1.erase k,true) else m
  else if m.1.lookup k=some v then m else (m.1.insert k v,true)

/-- The part of `commit_with_metadata` under the lock; whether the file has to be written. -/
def mergeCommit (s : OffsetCache) (group : String) (offsets : OffsetMap) (metadata : MetadataMap) :
    OffsetCache × Bool :=
  let o := offsets.entries.foldl (fun m e => mergeOffset m e.1 e.2) ((s.cache.lookup group).getD ∅,false)
  let m := metadata.entries.foldl (fun m e => mergeMetadata m e.1 e.2) ((s.metadata.lookup group).getD ∅,o.2)
  ({s with cache := s.cache.insert group o.1, metadata := s.metadata.insert group m.1},
    m.2 || decide (group∈s.dirty))

def dropKeys (s : OffsetCache) (group : String) (m : OffsetMap) (keys : List String) : OffsetCache :=
  {s with
    cache := s.cache.insert group (keys.foldl (fun m k => m.erase k) m)
    metadata := match s.metadata.lookup group with
      | none => s.metadata
      | some md => s.metadata.insert group (keys.foldl (fun md k => md.erase k) md)}

/-- The part of `delete_partitions` under the lock, with the keys removed; nothing when the group is
not cached. -/
def mergeDelete (s : OffsetCache) (group : String) (keys : List String) : Option (OffsetCache × List String) :=
  (s.cache.lookup group).map (fun m =>
    let removed := keys.filter (fun k => decide (k∈m))
    (s.dropKeys group m removed,removed))

/-- The keys of the topic. -/
def doomed (topic : String) (m : OffsetMap) : List String := m.keys.filter (fun k => keyHasTopic k topic)

def mergePurge (s : OffsetCache) (group topic : String) : Option (OffsetCache × List String) :=
  (s.cache.lookup group).map (fun m =>
    (s.dropKeys group m (doomed topic m),doomed topic m))

def mergeRemove (s : OffsetCache) (group : String) : OffsetCache :=
  ⟨s.cache.erase group,s.metadata.erase group,s.dirty.erase group⟩

def markDirty (s : OffsetCache) (group : String) : OffsetCache := {s with dirty := insert group s.dirty}

def clearDirty (s : OffsetCache) (group : String) : OffsetCache := {s with dirty := s.dirty.erase group}

/-- The handoff fence: the file was stamped by a newer assignment. A file that is absent or
unreadable fences nobody. -/
def fenceBlocks (fence : FenceStamp) (readable : Bool) : JsonFile OffsetFile → Bool
  | .present f => readable && decide (fence.Older f.fence)
  | _ => false

def writeGroup (s : OffsetCache) (f : JsonFile OffsetFile) (fence : FenceStamp) (readable written : Bool)
    (group : String) (snapshot : GroupOffsets) : OffsetCache × JsonFile OffsetFile × OffsetResult :=
  if fenceBlocks fence readable f then (s.markDirty group,f,.fenced)
  else if written then (s.clearDirty group,.present ⟨snapshot,fence⟩,.ok)
  else (s.markDirty group,f,.io)

def commitWithMetadata (s : OffsetCache) (f : JsonFile OffsetFile) (fence : FenceStamp)
    (readable written : Bool) (group : String) (offsets : OffsetMap) (metadata : MetadataMap) :
    OffsetCache × JsonFile OffsetFile × OffsetResult :=
  let (s',changed) := s.mergeCommit group offsets metadata
  if changed then s'.writeGroup f fence readable written group (s'.contents group) else (s',f,.ok)

def deletePartitions (s : OffsetCache) (f : JsonFile OffsetFile) (fence : FenceStamp) (readable written : Bool)
    (group : String) (keys : List String) : OffsetCache × JsonFile OffsetFile × OffsetResult × List String :=
  match s.mergeDelete group keys with
  | none => (s,f,.ok,[])
  | some (s',removed) =>
    let (s'',f',r) := s'.writeGroup f fence readable written group (s'.contents group)
    (s'',f',r,removed)

def delete (s : OffsetCache) (f : JsonFile OffsetFile) (removable : Bool) (group : String) :
    OffsetCache × JsonFile OffsetFile × OffsetResult :=
  (s.mergeRemove group,if removable then .absent else f,if removable then .ok else .io)

/-- A group in memory is purged from there; another one is rewritten in its file without loading it.
The number is that of the keys removed, returned with `Ok`. -/
def purgeTopic (s : OffsetCache) (f : JsonFile OffsetFile) (fence : FenceStamp) (readable written : Bool)
    (group topic : String) : OffsetCache × JsonFile OffsetFile × OffsetResult × Nat :=
  match s.mergePurge group topic with
  | some (s',keys) =>
    if keys=[] then (s',f,.ok,0)
    else
      let r := s'.writeGroup f fence readable written group (s'.contents group)
      (r.1,r.2.1,r.2.2,keys.length)
  | none =>
    match f with
    | .absent => (s,f,.ok,0)
    | .corrupt => (s,f,.io,0)
    | .present file =>
      if readable then
        let keys := doomed topic file.offsets
        if keys=[] then (s,f,.ok,0)
        else
          let r := s.writeGroup f fence readable written group
            ⟨keys.foldl (fun m k => m.erase k) file.offsets,keys.foldl (fun m k => m.erase k) file.metadata⟩
          (r.1,r.2.1,r.2.2,keys.length)
      else (s,f,.io,0)

def load (s : OffsetCache) (f : JsonFile OffsetFile) (readable : Bool) (group : String) : OffsetCache :=
  match f with
  | .present file =>
    if readable then
      {s with
        cache := s.cache.insert group file.offsets
        metadata := if file.metadata.entries=[] then s.metadata else s.metadata.insert group file.metadata}
    else s
  | _ => s

def fetchKey (s : OffsetCache) (group key : String) : Int :=
  ((s.cache.lookup group).bind (fun m => m.lookup key)).getD (-1)

def requested (specs : List (String × List Int)) : List String :=
  specs.flatMap (fun spec => spec.2.map (fun p => offsetKey spec.1 p))

def fetch (s : OffsetCache) (group : String) (specs : List (String × List Int)) : OffsetMap :=
  (requested specs).foldl (fun m k => m.insert k (s.fetchKey group k)) ∅

theorem mergeOffset_same {m : OffsetMap × Bool} {v : Int} (h : (mergeOffset m k v).2=false) :
    mergeOffset m k v=m := by
  unfold mergeOffset at h ⊢
  split_ifs at h ⊢
  rfl

theorem mergeMetadata_same {m : MetadataMap × Bool} {v : String}
    (h : (mergeMetadata m k v).2=false) : mergeMetadata m k v=m := by
  unfold mergeMetadata at h ⊢
  split_ifs at h ⊢ <;> rfl

theorem foldl_unflagged {α β : Type} {f : α × Bool → β → α × Bool} (same : ∀m b,(f m b).2=false →
    f m b=m) (l : List β) (m : α × Bool) (h : (l.foldl f m).2=false) : l.foldl f m=m := by
  induction l generalizing m with
  | nil => rfl
  | cons b l ih =>
    have hstep := ih (f m b) h
    have hb : f m b=m := by
      refine same m b ?_
      rw [List.foldl_cons,hstep] at h
      exact h
    rw [List.foldl_cons,hstep,hb]

theorem contents_unchanged {offsets : OffsetMap} {metadata : MetadataMap}
    (h : (s.mergeCommit group offsets metadata).2=false) (g : String) :
    (s.mergeCommit group offsets metadata).1.contents g=s.contents g := by
  obtain ⟨hm,-⟩ := Bool.or_eq_false_iff.mp h
  have hmeta := foldl_unflagged (fun m (e : Sigma fun _ : String => String) h => mergeMetadata_same h) _ _ hm
  have ho := congrArg Prod.snd hmeta
  rw [hm] at ho
  have hoff := foldl_unflagged (fun m (e : Sigma fun _ : String => Int) h => mergeOffset_same h) _ _ ho.symm
  unfold mergeCommit contents
  simp only
  rw [hmeta,hoff]
  by_cases hg : g=group
  · rw [hg,AList.lookup_insert,AList.lookup_insert]
    rfl
  · rw [AList.lookup_insert_ne hg,AList.lookup_insert_ne hg]

theorem foldl_mergeOffset_lookup (l : List (Sigma fun _ : String => Int)) (nodup : l.NodupKeys)
    (m : OffsetMap × Bool) (k : String) : (l.foldl (fun m e => mergeOffset m e.1 e.2) m).1.lookup k=
      (l.dlookup k).orElse (fun _ => m.1.lookup k) := by
  induction l generalizing m with
  | nil => rfl
  | cons e l ih =>
    obtain ⟨a,v⟩ := e
    obtain ⟨ha,hl⟩ := List.nodupKeys_cons.mp nodup
    rw [List.foldl_cons,ih hl]
    have hm : (mergeOffset m a v).1.lookup k=if k=a then some v else m.1.lookup k := by
      unfold mergeOffset
      split_ifs with hsame hk hk
      · rw [hk,hsame]
      · rfl
      · rw [hk,AList.lookup_insert]
      · rw [AList.lookup_insert_ne hk]
    by_cases hk : k=a
    · subst hk
      have hnone : l.dlookup k=none := List.dlookup_eq_none.mpr ha
      rw [hnone,List.dlookup_cons_eq,hm,if_pos rfl]
      rfl
    · rw [List.dlookup_cons_ne l ⟨a,v⟩ hk,hm,if_neg hk]

theorem mergeCommit_lookup (s : OffsetCache) (group : String) (offsets : OffsetMap) (metadata : MetadataMap)
    (k : String) : ((s.mergeCommit group offsets metadata).1.contents group).offsets.lookup k=
      (offsets.lookup k).orElse (fun _ => (s.contents group).offsets.lookup k) := by
  unfold mergeCommit contents
  simp only [AList.lookup_insert,Option.getD_some]
  exact foldl_mergeOffset_lookup offsets.entries offsets.nodupKeys _ k

theorem lookup_foldl_keys {β : String → Type} (update : AList β → String → AList β)
    (v : (k : String) → Option (β k))
    (hv : ∀m a k,(update m a).lookup k=if k=a then v k else m.lookup k) (keys : List String) (m : AList β)
    (k : String) : (keys.foldl update m).lookup k=if k∈keys then v k else m.lookup k := by
  induction keys generalizing m with
  | nil => rfl
  | cons a keys ih =>
    rw [List.foldl_cons,ih,hv]
    by_cases hk : k=a
    · simp [hk]
    · simp only [List.mem_cons,hk,false_or,if_false]

theorem lookup_foldl_erase {β : String → Type} (keys : List String) (m : AList β) (k : String) :
    (keys.foldl (fun m k => m.erase k) m).lookup k=if k∈keys then none else m.lookup k := by
  refine lookup_foldl_keys _ (fun _ => none) (fun m a k => ?_) keys m k
  by_cases hk : k=a
  · subst hk
    rw [AList.lookup_erase,if_pos rfl]
  · rw [AList.lookup_erase_ne hk,if_neg hk]

theorem dropKeys_lookup (s : OffsetCache) (group : String) (m : OffsetMap) (keys : List String) (k : String) :
    ((s.dropKeys group m keys).contents group).offsets.lookup k=if k∈keys then none else m.lookup k := by
  unfold dropKeys contents
  simp only [AList.lookup_insert,Option.getD_some]
  exact lookup_foldl_erase keys m k

theorem lookup_foldl_insert_of (keys : List String) (m : OffsetMap) (f : String → Int) (k : String) :
    (keys.foldl (fun m k => m.insert k (f k)) m).lookup k=if k∈keys then some (f k) else m.lookup k := by
  refine lookup_foldl_keys _ (fun k => some (f k)) (fun m a k => ?_) keys m k
  by_cases hk : k=a
  · subst hk
    rw [AList.lookup_insert,if_pos rfl]
  · rw [AList.lookup_insert_ne hk,if_neg hk]

theorem fetch_lookup (s : OffsetCache) (group : String) {specs : List (String × List Int)} {v : Int}
    (hk : k∈requested specs) (hv : (s.contents group).offsets.lookup k=some v) :
    (s.fetch group specs).lookup k=some v := by
  unfold fetch
  rw [lookup_foldl_insert_of,if_pos hk]
  congr 1
  unfold contents at hv
  unfold fetchKey
  cases hm : s.cache.lookup group with
  | none =>
    rw [hm] at hv
    cases hv
  | some m =>
    rw [hm] at hv
    simp only [Option.bind_some]
    rw [show m.lookup k=some v from hv,Option.getD_some]

theorem writeGroup_cases (s : OffsetCache) (f : JsonFile OffsetFile) (fence : FenceStamp)
    (readable : Bool) (group : String) (snapshot : GroupOffsets) :
    (fenceBlocks fence readable f=true ∧
      s.writeGroup f fence readable true group snapshot=(s.markDirty group,f,.fenced)) ∨
    (fenceBlocks fence readable f=false ∧ s.writeGroup f fence readable true group
        snapshot=(s.clearDirty group,.present ⟨snapshot,fence⟩,.ok)) := by
  unfold writeGroup
  cases hb : fenceBlocks fence readable f with
  | true => exact .inl ⟨rfl,rfl⟩
  | false => exact .inr ⟨rfl,rfl⟩

theorem commitWithMetadata_cases (s : OffsetCache) (f : JsonFile OffsetFile) (fence : FenceStamp)
    (readable : Bool) (group : String) (offsets : OffsetMap) (metadata : MetadataMap) :
    ((s.mergeCommit group offsets metadata).2=false ∧
      (s.commitWithMetadata f fence readable true group offsets metadata).2=(f,.ok)) ∨
    ((s.mergeCommit group offsets metadata).2=true ∧ fenceBlocks fence readable f=true ∧
      (s.commitWithMetadata f fence readable true group offsets metadata).2=(f,.fenced)) ∨
    ((s.mergeCommit group offsets metadata).2=true ∧ fenceBlocks fence readable f=false ∧
      (s.commitWithMetadata f fence readable true group offsets metadata).2=
        (.present ⟨(s.mergeCommit group offsets metadata).1.contents group,fence⟩,.ok)) := by
  unfold commitWithMetadata
  simp only
  cases hch : (s.mergeCommit group offsets metadata).2 with
  | false => exact .inl ⟨rfl,rfl⟩
  | true =>
    simp only [if_true]
    rcases writeGroup_cases (s.mergeCommit group offsets metadata).1 f fence readable group
      ((s.mergeCommit group offsets metadata).1.contents group) with ⟨hb,hr⟩|⟨hb,hr⟩
    · exact .inr (.inl ⟨trivial,hb,by rw [hr]⟩)
    · exact .inr (.inr ⟨trivial,hb,by rw [hr]⟩)

theorem commitWithMetadata_contents (s : OffsetCache) (f : JsonFile OffsetFile) (fence : FenceStamp)
    (readable : Bool)
    (group : String) (offsets : OffsetMap) (metadata : MetadataMap) (g : String) :
    (s.commitWithMetadata f fence readable true group offsets metadata).1.contents g=
      (s.mergeCommit group offsets metadata).1.contents g := by
  unfold commitWithMetadata writeGroup
  dsimp only
  split_ifs <;> rfl

theorem deletePartitions_cases (s : OffsetCache) (f : JsonFile OffsetFile) (fence : FenceStamp)
    (readable : Bool) (group : String) (keys : List String) :
    (s.cache.lookup group=none ∧ s.deletePartitions f fence readable true group keys=(s,f,.ok,[])) ∨
    ∃m,s.cache.lookup group=some m ∧
      (∀g,(s.deletePartitions f fence readable true group keys).1.contents g=
        (s.dropKeys group m (keys.filter (fun k => decide (k∈m)))).contents g) ∧
      ((fenceBlocks fence readable f=true ∧ (s.deletePartitions f fence readable true group keys).2=
          (f,.fenced,keys.filter (fun k => decide (k∈m)))) ∨
        (fenceBlocks fence readable f=false ∧ (s.deletePartitions f fence readable true group keys).2=
          (.present ⟨(s.dropKeys group m (keys.filter (fun k => decide (k∈m)))).contents group,
            fence⟩,.ok,keys.filter (fun k => decide (k∈m))))) := by
  unfold deletePartitions mergeDelete
  cases hm : s.cache.lookup group with
  | none => exact .inl ⟨rfl,rfl⟩
  | some m =>
    refine .inr ⟨m,rfl,?_⟩
    simp only [Option.map_some]
    rcases writeGroup_cases (s.dropKeys group m (keys.filter (fun k => decide (k∈m)))) f fence readable group
      ((s.dropKeys group m (keys.filter (fun k => decide (k∈m)))).contents group) with ⟨hb,hr⟩|⟨hb,hr⟩
    · rw [hr]
      exact ⟨fun _ => rfl,.inl ⟨hb,rfl⟩⟩
    · rw [hr]
      exact ⟨fun _ => rfl,.inr ⟨hb,rfl⟩⟩

theorem purgeTopic_cases (s : OffsetCache) (f : JsonFile OffsetFile) (fence : FenceStamp)
    (readable : Bool) (group topic : String) :
    (∃m,s.cache.lookup group=some m ∧
      (∀g,(s.purgeTopic f fence readable true group topic).1.contents g=
        (s.dropKeys group m (doomed topic m)).contents g) ∧
      (((s.purgeTopic f fence readable true group topic).2.1=f ∧
          (doomed topic m=[] ∨ fenceBlocks fence readable f=true)) ∨
        (fenceBlocks fence readable f=false ∧ (s.purgeTopic f fence readable true group topic).2.1=
          .present ⟨(s.dropKeys group m (doomed topic m)).contents group,fence⟩))) ∨
    (s.cache.lookup group=none ∧
      (∀g,(s.purgeTopic f fence readable true group topic).1.contents g=s.contents g) ∧
      ((s.purgeTopic f fence readable true group topic).2.1=f ∨
        ∃file,f=.present file ∧ doomed topic file.offsets≠[] ∧
          (s.purgeTopic f fence readable true group topic).2.1=
          .present ⟨⟨(doomed topic file.offsets).foldl (fun m k => m.erase k) file.offsets,
            (doomed topic file.offsets).foldl (fun m k => m.erase k) file.metadata⟩,fence⟩)) := by
  unfold purgeTopic mergePurge
  cases hm : s.cache.lookup group with
  | some m =>
    refine .inl ⟨m,rfl,?_⟩
    simp only [Option.map_some]
    by_cases hd : doomed topic m=[]
    · rw [if_pos hd]
      exact ⟨fun _ => rfl,.inl ⟨rfl,.inl hd⟩⟩
    · rw [if_neg hd]
      rcases writeGroup_cases (s.dropKeys group m (doomed topic m)) f fence readable group
        ((s.dropKeys group m (doomed topic m)).contents group) with ⟨hb,hr⟩|⟨hb,hr⟩
      · rw [hr]
        exact ⟨fun _ => rfl,.inl ⟨rfl,.inr hb⟩⟩
      · rw [hr]
        exact ⟨fun _ => rfl,.inr ⟨hb,rfl⟩⟩
  | none =>
    refine .inr ⟨rfl,?_⟩
    simp only [Option.map_none]
    cases f with
    | absent | corrupt => exact ⟨fun _ => rfl,.inl rfl⟩
    | present file =>
      simp only
      split_ifs with hread hd
      · exact ⟨fun _ => rfl,.inl rfl⟩
      · rcases writeGroup_cases s (.present file) fence readable group
          ⟨(doomed topic file.offsets).foldl (fun m k => m.erase k) file.offsets,
            (doomed topic file.offsets).foldl (fun m k => m.erase k) file.metadata⟩
          with ⟨hb,hr⟩|⟨hb,hr⟩
        · rw [hr]
          exact ⟨fun _ => rfl,.inl rfl⟩
        · rw [hr]
          exact ⟨fun _ => rfl,.inr ⟨file,rfl,hd,rfl⟩⟩
      · exact ⟨fun _ => rfl,.inl rfl⟩

theorem contents_mergeCommit_ne (hg : g≠group) (offsets : OffsetMap)
    (metadata : MetadataMap) : (s.mergeCommit group offsets metadata).1.contents g=s.contents g := by
  unfold mergeCommit contents
  simp only
  rw [AList.lookup_insert_ne hg,AList.lookup_insert_ne hg]

theorem contents_dropKeys_ne (hg : g≠group) (m : OffsetMap)
    (keys : List String) : (s.dropKeys group m keys).contents g=s.contents g := by
  unfold dropKeys contents
  simp only
  rw [AList.lookup_insert_ne hg]
  cases s.metadata.lookup group with
  | none => rfl
  | some md =>
    simp only
    rw [AList.lookup_insert_ne hg]

theorem contents_mergeRemove (s : OffsetCache) (group : String) : (s.mergeRemove group).contents group={} := by
  unfold mergeRemove contents
  simp only [AList.lookup_erase,Option.getD_none]

theorem contents_mergeRemove_ne (hg : g≠group) : (s.mergeRemove group).contents g=s.contents g := by
  unfold mergeRemove contents
  simp only
  rw [AList.lookup_erase_ne hg,AList.lookup_erase_ne hg]

end OffsetCache

end Kaas
