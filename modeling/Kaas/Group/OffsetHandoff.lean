import Kaas.Framework.Run
import Kaas.Group.OffsetStore
import Mathlib.Data.Finset.Filter

namespace Kaas

/-- A broker's `Manager`: its offset store, the groups resident in memory and the assignment it goes
by. -/
structure OffsetBroker where
  offsets : OffsetCache := {}
  groups : Finset String := ∅
  fence : FenceStamp := {}
  owns : String → Bool := fun _ => true

namespace OffsetBroker

/-- With the error code of the response: a fenced write is answered like a request to the wrong
broker, any other failure as success. -/
def offsetCommit (b : OffsetBroker) (f : JsonFile OffsetFile) (readable written : Bool) (group : String)
    (offsets : OffsetMap) (metadata : MetadataMap) : OffsetBroker × JsonFile OffsetFile × Int :=
  if b.owns group then
    let r := b.offsets.commitWithMetadata f b.fence readable written group offsets metadata
    ({b with offsets := r.1},r.2.1,if r.2.2=.fenced then 16 else 0)
  else (b,f,16)

def offsetFetch (b : OffsetBroker) (group : String) (specs : List (String × List Int)) : Option OffsetMap :=
  if b.owns group then some (b.offsets.fetch group specs) else none

/-- `get_or_create`: the file is loaded when the group was not resident, and an error of the load is
dropped. -/
def joinGroup (b : OffsetBroker) (f : JsonFile OffsetFile) (readable : Bool) (group : String) : OffsetBroker :=
  if b.owns group then
    if group∈b.groups then b
    else {b with groups := insert group b.groups, offsets := b.offsets.load f readable group}
  else b

def deleteOffsets (b : OffsetBroker) (f : JsonFile OffsetFile) (readable written : Bool) (group : String)
    (keys : List String) : OffsetBroker × JsonFile OffsetFile × Int × List String :=
  if b.owns group then
    let r := b.offsets.deletePartitions f b.fence readable written group keys
    ({b with offsets := r.1},r.2.1,0,if r.2.2.1=.ok then r.2.2.2 else [])
  else (b,f,16,[])

/-- `empty` says that a resident group has no members left. -/
def deleteGroup (b : OffsetBroker) (f : JsonFile OffsetFile) (removable empty : Bool)
    (group : String) : OffsetBroker × JsonFile OffsetFile × Int :=
  if !b.owns group then (b,f,16)
  else if group∉b.groups ∧ group∉b.offsets.cache then (b,f,69)
  else if group∈b.groups ∧ empty=false then (b,f,67)
  else
    let r := b.offsets.delete f removable group
    ({b with groups := b.groups.erase group, offsets := r.1},r.2.1,0)

/-- One group of `purge_topic_offsets`, which goes through those that have a file or are
resident. -/
def purgeTopicOffsets (b : OffsetBroker) (f : JsonFile OffsetFile) (readable written : Bool)
    (group topic : String) : OffsetBroker × JsonFile OffsetFile :=
  if b.owns group ∧ (f≠.absent ∨ group∈b.groups) then
    let r := b.offsets.purgeTopic f b.fence readable written group topic
    ({b with offsets := r.1},r.2.1)
  else (b,f)

/-- A new assignment: the groups that have moved away are relinquished. Their offsets stay in the
cache. -/
def onChange (b : OffsetBroker) (fence : FenceStamp) (owns : String → Bool) : OffsetBroker :=
  {b with fence := fence, owns := owns, groups := b.groups.filter (fun g => owns g=true)}

end OffsetBroker

def JsonFile.written : JsonFile OffsetFile → Bool
  | .present _ => true
  | _ => false

def storedOffsets : JsonFile OffsetFile → OffsetMap
  | .present f => f.offsets
  | _ => ∅

/-- The brokers over the group files they share, with the offset that was last acknowledged for each key of a
group and not deleted or purged since. A broker is seated for a group when it has loaded the
group's file since it started, or has found none then, and since that no other broker has changed
the file and no write of its own was fenced. -/
structure OffsetCluster where
  files : String → JsonFile OffsetFile := fun _ => .absent
  brokers : String → OffsetBroker := fun _ => {}
  acked : String → String → Option Int := fun _ _ => none
  seated : String → String → Bool := fun _ _ => true

inductive HandoffOp
  | commit (broker group : String) (offsets : OffsetMap) (metadata : MetadataMap) (readable written : Bool)
  | join (broker group : String) (readable : Bool)
  | deleteOffsets (broker group : String) (keys : List String) (readable written : Bool)
  | deleteGroup (broker group : String) (removable empty : Bool)
  | purge (broker group topic : String) (readable written : Bool)
  | assign (broker : String) (fence : FenceStamp) (owns : String → Bool)
  | restart (broker : String) (fence : FenceStamp) (owns : String → Bool)

namespace OffsetCluster

/-- A request on a group: another broker stays seated only if the file is as before. -/
def put (w : OffsetCluster) (broker group : String) (b : OffsetBroker) (f : JsonFile OffsetFile)
    (seat : Bool) : OffsetCluster :=
  {w with
    brokers := Function.update w.brokers broker b
    files := Function.update w.files group f
    seated := fun x g => if g≠group then w.seated x g else if x=broker then seat
      else w.seated x g && decide (f=w.files group)}

/-- The broker's seat after a request that may have to write. -/
def seatKept (w : OffsetCluster) (broker group : String) (readable : Bool) : Bool :=
  w.seated broker group && !((w.brokers broker).owns group &&
    OffsetCache.fenceBlocks (w.brokers broker).fence readable (w.files group))

/-- A JoinGroup that reads the group's file into memory. -/
def joinLoads (w : OffsetCluster) (broker group : String) (readable : Bool) : Bool :=
  (w.brokers broker).owns group && decide (group∉(w.brokers broker).groups) && readable &&
    (w.files group).written

def note (w : OffsetCluster) (group : String) (acked : String → Option Int) : OffsetCluster :=
  {w with acked := Function.update w.acked group acked}

def exec (w : OffsetCluster) : HandoffOp → OffsetCluster
  | .commit broker group offsets metadata readable written =>
    let r := (w.brokers broker).offsetCommit (w.files group) readable written group offsets metadata
    let w' := w.put broker group r.1 r.2.1 (w.seatKept broker group readable)
    if r.2.2=0 then w'.note group (fun k => (offsets.lookup k).orElse (fun _ => w.acked group k)) else w'
  | .join broker group readable =>
    w.put broker group ((w.brokers broker).joinGroup (w.files group) readable group) (w.files group)
      (w.seated broker group || w.joinLoads broker group readable)
  | .deleteOffsets broker group keys readable written =>
    let r := (w.brokers broker).deleteOffsets (w.files group) readable written group keys
    (w.put broker group r.1 r.2.1 (w.seatKept broker group readable)).note group
      (fun k => if k∈r.2.2.2 then none else w.acked group k)
  | .deleteGroup broker group removable empty =>
    let r := (w.brokers broker).deleteGroup (w.files group) removable empty group
    let w' := w.put broker group r.1 r.2.1 (w.seated broker group || decide (r.2.2=0))
    if r.2.2=0 then w'.note group (fun _ => none) else w'
  | .purge broker group topic readable written =>
    let r := (w.brokers broker).purgeTopicOffsets (w.files group) readable written group topic
    (w.put broker group r.1 r.2 (w.seatKept broker group readable)).note group
      (fun k => if keyHasTopic k topic then none else w.acked group k)
  | .assign broker fence owns =>
    {w with brokers := Function.update w.brokers broker ((w.brokers broker).onChange fence owns)}
  | .restart broker fence owns =>
    {w with
      brokers := Function.update w.brokers broker {fence := fence, owns := owns}
      seated := fun x g => if x=broker then decide (w.files g=.absent) else w.seated x g}

def filed (w : OffsetCluster) (group : String) : OffsetMap := storedOffsets (w.files group)

def cached (w : OffsetCluster) (broker group : String) : OffsetMap :=
  ((w.brokers broker).offsets.contents group).offsets

end OffsetCluster

def HandoffStep (w : OffsetCluster) (op : HandoffOp) (w' : OffsetCluster) : Prop := w.exec op=w'

/-- Writes succeed, and a broker does not go back to an older assignment. -/
def HandoffAssumed (w : OffsetCluster) : HandoffOp → Prop
  | .commit _ _ _ _ _ written => written=true
  | .deleteOffsets _ _ _ _ written => written=true
  | .purge _ _ _ _ written => written=true
  | .deleteGroup _ _ removable _ => removable=true
  | .assign broker fence _ => ¬fence.Older (w.brokers broker).fence
  | .restart broker fence _ => ¬fence.Older (w.brokers broker).fence
  | .join .. => True

/-- A commit is acknowledged by a broker that is seated for the group, and so is a deletion or a
purge made that goes through its cache and is not fenced. -/
def HandoffSeated (w : OffsetCluster) : HandoffOp → Prop
  | .commit broker group offsets metadata readable written =>
    ((w.brokers broker).offsetCommit (w.files group) readable written group offsets metadata).2.2=0 →
      w.seated broker group=true
  | .deleteOffsets broker group _ readable _ | .purge broker group _ readable _ =>
    (w.brokers broker).owns group=true → group∈(w.brokers broker).offsets.cache →
      OffsetCache.fenceBlocks (w.brokers broker).fence readable (w.files group)=false →
        w.seated broker group=true
  | _ => True

def HandoffOk (w : OffsetCluster) (op : HandoffOp) : Prop := HandoffAssumed w op ∧ HandoffSeated w op

instance (w : OffsetCluster) (op : HandoffOp) : Decidable (HandoffAssumed w op) :=
  match op with
  | .commit .. => inferInstanceAs (Decidable (_=_))
  | .deleteOffsets .. => inferInstanceAs (Decidable (_=_))
  | .purge .. => inferInstanceAs (Decidable (_=_))
  | .deleteGroup .. => inferInstanceAs (Decidable (_=_))
  | .assign .. => inferInstanceAs (Decidable (¬_))
  | .restart .. => inferInstanceAs (Decidable (¬_))
  | .join .. => .isTrue trivial

instance (w : OffsetCluster) (op : HandoffOp) : Decidable (HandoffSeated w op) :=
  match op with
  | .commit .. => inferInstanceAs (Decidable (_ → _))
  | .deleteOffsets .. | .purge .. => inferInstanceAs (Decidable (_ → _ → _ → _))
  | .deleteGroup .. | .assign .. | .restart .. | .join .. => .isTrue trivial

instance (w : OffsetCluster) (op : HandoffOp) : Decidable (HandoffOk w op) :=
  inferInstanceAs (Decidable (_ ∧ _))

/-- The broker's cache of the group has what the file has. -/
def OffsetCluster.InStep (w : OffsetCluster) (broker group : String) : Prop :=
  ∀k,(w.filed group).lookup k=(w.cached broker group).lookup k

/-- What was acknowledged is in the file, and who is seated is in step with it. -/
structure OffsetCluster.Steady (w : OffsetCluster) : Prop where
  filed : ∀group k v,w.acked group k=some v → (w.filed group).lookup k=some v
  inStep : ∀broker group,w.seated broker group=true → w.InStep broker group

namespace OffsetCluster

variable {w : OffsetCluster} {broker group : String}

theorem Steady.put (h : w.Steady) {b : OffsetBroker} {f : JsonFile OffsetFile} {seat : Bool}
    {acked : String → Option Int} (hf : ∀k v,acked k=some v → (storedOffsets f).lookup k=some v)
    (hseat : seat=true → ∀k,(storedOffsets f).lookup k=(b.offsets.contents group).offsets.lookup k)
    (hother : ∀g≠group,b.offsets.contents g=(w.brokers broker).offsets.contents g) :
    ((w.put broker group b f seat).note group acked).Steady := by
  constructor
  · intro g k v hk
    have hk' : Function.update w.acked group acked g k=some v := hk
    change (storedOffsets (Function.update w.files group f g)).lookup k=some v
    by_cases hg : g=group
    · subst hg
      rw [Function.update_self] at hk' ⊢
      exact hf k v hk'
    · rw [Function.update_of_ne hg] at hk' ⊢
      exact h.filed g k v hk'
  · intro x g hx k
    change (if g≠group then w.seated x g else if x=broker then seat else w.seated x g && decide
      (f=w.files group))=
      true at hx
    change (storedOffsets (Function.update w.files group f g)).lookup k=
      ((Function.update w.brokers broker b x).offsets.contents g).offsets.lookup k
    by_cases hg : g=group
    · subst hg
      rw [if_neg (not_not_intro rfl)] at hx
      rw [Function.update_self]
      by_cases hb : x=broker
      · rw [if_pos hb] at hx
        rw [hb,Function.update_self]
        exact hseat hx k
      · rw [if_neg hb,Bool.and_eq_true,decide_eq_true_eq] at hx
        rw [Function.update_of_ne hb,hx.2]
        exact h.inStep x g hx.1 k
    · rw [if_pos hg] at hx
      have hstep := h.inStep x g hx k
      rw [Function.update_of_ne hg]
      by_cases hb : x=broker
      · rw [hb,Function.update_self,hother g hg]
        rwa [hb] at hstep
      · rw [Function.update_of_ne hb]
        exact hstep

theorem Steady.kept (h : w.Steady) {b : OffsetBroker} {f : JsonFile OffsetFile} {seat : Bool}
    (hf : ∀k v,w.acked group k=some v → (storedOffsets f).lookup k=some v)
    (hseat : seat=true → ∀k,(storedOffsets f).lookup k=(b.offsets.contents group).offsets.lookup k)
    (hother : ∀g≠group,b.offsets.contents g=(w.brokers broker).offsets.contents g) :
    (w.put broker group b f seat).Steady := by
  have hnote : (w.put broker group b f seat).note group (w.acked group)=w.put broker group b f seat := by
    change {w.put broker group b f seat with acked := Function.update w.acked group (w.acked group)}=_
    rw [Function.update_eq_self]
    rfl
  rw [← hnote]
  exact h.put hf hseat hother

/-- A request that leaves the file and the cache of the group alone. -/
theorem Steady.idle (h : w.Steady) {b : OffsetBroker} {seat : Bool} {acked : String → Option Int}
    (hacked : ∀k v,acked k=some v → w.acked group k=some v) (hseat : seat=true → w.seated broker group=true)
    (hsame : ∀g,b.offsets.contents g=(w.brokers broker).offsets.contents g) :
    ((w.put broker group b (w.files group) seat).note group acked).Steady := by
  refine h.put (fun k v hk => h.filed group k v (hacked k v hk)) (fun hs k => ?_) (fun g _ => hsame g)
  rw [hsame group]
  exact h.inStep broker group (hseat hs) k

theorem seatKept_iff {readable : Bool} (hown : (w.brokers broker).owns group=true) :
    w.seatKept broker group readable=true ↔ w.seated broker group=true ∧
      OffsetCache.fenceBlocks (w.brokers broker).fence readable (w.files group)=false := by
  simp [seatKept,hown]

theorem seated_of_seatKept {readable : Bool} (h : w.seatKept broker group readable=true) :
    w.seated broker group=true := (Bool.and_eq_true_iff.mp h).1

theorem Steady.commit (h : w.Steady) (offsets : OffsetMap) (metadata : MetadataMap) (readable : Bool)
    (hseated : HandoffSeated w (.commit broker group offsets metadata readable true)) :
    (w.exec (.commit broker group offsets metadata readable true)).Steady := by
  simp only [HandoffSeated,OffsetBroker.offsetCommit] at hseated
  simp only [exec,OffsetBroker.offsetCommit]
  by_cases hown : (w.brokers broker).owns group=true
  · simp only [if_pos hown] at hseated ⊢
    have hcontents (g : String) :=
      OffsetCache.commitWithMetadata_contents (w.brokers broker).offsets (w.files group)
      (w.brokers broker).fence readable group offsets metadata g
    have hother (g : String) (hg : g≠group) :=
      (hcontents g).trans (OffsetCache.contents_mergeCommit_ne hg offsets metadata)
    rcases OffsetCache.commitWithMetadata_cases (w.brokers broker).offsets (w.files group)
      (w.brokers broker).fence
      readable group offsets metadata with ⟨hch,hr⟩|⟨hch,hb,hr⟩|⟨hch,hb,hr⟩
    · -- nothing to write: the offsets are those of the cache, and so of the file
      simp only [hr] at hseated ⊢
      have hstep := h.inStep broker group (hseated rfl)
      have hsame := OffsetCache.contents_unchanged hch group
      refine h.put (fun k v hk => ?_) (fun _ k => ?_) hother
      · cases hoff : offsets.lookup k with
        | some u =>
          have hlook := OffsetCache.mergeCommit_lookup (w.brokers broker).offsets group offsets metadata k
          rw [hsame,hoff] at hlook
          rw [hoff] at hk
          exact (hstep k).trans (hlook.trans hk)
        | none => rw [hoff] at hk; exact h.filed group k v hk
      · dsimp only
        rw [hcontents,hsame]
        exact hstep k
    · simp only [hr]
      refine h.kept (h.filed group) (fun hs => ?_) hother
      rw [((seatKept_iff hown).mp hs).2] at hb
      cases hb
    · simp only [hr] at hseated ⊢
      have hstep := h.inStep broker group (hseated rfl)
      refine h.put (fun k v hk => ?_) (fun _ k => ?_) hother
      · change (OffsetCache.contents _ group).offsets.lookup k=some v
        rw [OffsetCache.mergeCommit_lookup]
        -- an offset that is not set anew was in the file, so in the cache
        cases hoff : offsets.lookup k with
        | some u => rw [hoff] at hk; exact hk
        | none =>
          rw [hoff] at hk
          exact (hstep k).symm.trans (h.filed group k v hk)
      · dsimp only
        rw [hcontents]
        rfl
  · simp only [if_neg hown]
    exact h.kept (h.filed group) (fun hs => h.inStep broker group (seated_of_seatKept hs)) (fun _ _ => rfl)

theorem cached_of_lookup {m : OffsetMap}
    (hm : (w.brokers broker).offsets.cache.lookup group=some m) : w.cached broker group=m := by
  unfold cached OffsetCache.contents
  rw [hm]
  rfl

theorem mem_cache {m : OffsetMap} (hm : (w.brokers broker).offsets.cache.lookup group=some m) :
    group∈(w.brokers broker).offsets.cache := AList.lookup_isSome.mp (Option.isSome_of_mem hm)

/-- A seated broker's write of its cache without some keys keeps what was acknowledged for the
others. -/
theorem Steady.dropped (h : w.Steady) {m : OffsetMap} {keys : List String} {k : String} {v : Int}
    (hm : (w.brokers broker).offsets.cache.lookup group=some m)
    (hseated : w.seated broker group=true) (hk : w.acked group k=some v) (hkeys : k∉keys) :
    (((w.brokers broker).offsets.dropKeys group m keys).contents group).offsets.lookup k=some v := by
  rw [OffsetCache.dropKeys_lookup,if_neg hkeys,← cached_of_lookup hm,← h.inStep broker group hseated k]
  exact h.filed group k v hk

theorem Steady.deleteOffsets (h : w.Steady) (keys : List String) (readable : Bool)
    (hseated : HandoffSeated w (.deleteOffsets broker group keys readable true)) :
    (w.exec (.deleteOffsets broker group keys readable true)).Steady := by
  simp only [exec,OffsetBroker.deleteOffsets]
  by_cases hown : (w.brokers broker).owns group=true
  · simp only [if_pos hown]
    rcases OffsetCache.deletePartitions_cases (w.brokers broker).offsets (w.files group)
      (w.brokers broker).fence readable group keys with ⟨_,hr⟩|⟨m,hm,hcontents,⟨hb,hr⟩|⟨hb,hr⟩⟩
    · simp only [hr]
      exact h.idle (fun k v hk => by simpa using hk) seated_of_seatKept (fun _ => rfl)
    all_goals
      have hother (g : String) (hg : g≠group) := (hcontents g).trans (OffsetCache.contents_dropKeys_ne hg m _)
      simp only [hr]
    · refine h.put (fun k v hk => h.filed group k v (by simpa using hk)) (fun hs => ?_) hother
      rw [((seatKept_iff hown).mp hs).2] at hb
      cases hb
    · refine h.put (fun k v hk => ?_) (fun _ k => by dsimp only; rw [hcontents]; rfl) hother
      simp only [reduceIte] at hk
      split_ifs at hk with hrem
      exact h.dropped hm (hseated hown (mem_cache hm) hb) hk hrem
  · simp only [if_neg hown]
    exact h.idle (fun k v hk => by simpa using hk) seated_of_seatKept (fun _ => rfl)

theorem deleteGroup_cases (b : OffsetBroker) (f : JsonFile OffsetFile) (empty : Bool)
    (group : String) : (∃code : Int,code≠0 ∧ b.deleteGroup f true empty group=(b,f,code)) ∨
      b.deleteGroup f true empty group=
        ({b with groups := b.groups.erase group,offsets := b.offsets.mergeRemove group},.absent,0) := by
  unfold OffsetBroker.deleteGroup
  split_ifs
  · exact .inl ⟨16,by decide,rfl⟩
  · exact .inl ⟨69,by decide,rfl⟩
  · exact .inl ⟨67,by decide,rfl⟩
  · exact .inr rfl

theorem Steady.deleteGroup (h : w.Steady) (empty : Bool) :
    (w.exec (.deleteGroup broker group true empty)).Steady := by
  simp only [exec]
  rcases deleteGroup_cases (w.brokers broker) (w.files group) empty group with ⟨code,hcode,hr⟩|hr
  · simp only [hr,if_neg hcode,decide_eq_false hcode,Bool.or_false]
    exact h.kept (h.filed group) (h.inStep broker group) (fun _ _ => rfl)
  · simp only [hr,if_true]
    refine h.put (fun k v hk => by cases hk) (fun _ k => ?_)
      (fun g hg => OffsetCache.contents_mergeRemove_ne hg)
    dsimp only
    rw [OffsetCache.contents_mergeRemove]
    rfl

theorem Steady.purge (h : w.Steady) (topic : String) (readable : Bool)
    (hseated : HandoffSeated w (.purge broker group topic readable true)) :
    (w.exec (.purge broker group topic readable true)).Steady := by
  have hkept (k : String) (v : Int) (hk : (if keyHasTopic k topic then none else w.acked group k)=some v) :
      keyHasTopic k topic=false ∧ w.acked group k=some v := by
    split_ifs at hk with ht
    exact ⟨Bool.eq_false_of_not_eq_true ht,hk⟩
  have hnot (m : OffsetMap) (k : String) (ht : keyHasTopic k topic=false) : k∉OffsetCache.doomed topic m := by
    intro hin
    have := (List.mem_filter.mp hin).2
    rw [ht] at this
    cases this
  simp only [exec,OffsetBroker.purgeTopicOffsets]
  by_cases hown : (w.brokers broker).owns group=true ∧ (w.files group≠.absent ∨ group∈(w.brokers broker).groups)
  · simp only [if_pos hown]
    rcases OffsetCache.purgeTopic_cases (w.brokers broker).offsets (w.files group)
      (w.brokers broker).fence readable
      group topic with ⟨m,hm,hcontents,⟨hfile,hwhy⟩|⟨hb,hr⟩⟩|⟨hnone,hcontents,hfile|⟨file,hf,hd,hr⟩⟩
    · rw [hfile]
      refine h.put (fun k v hk => h.filed group k v (hkept k v hk).2) (fun hs k => ?_)
        (fun g hg => (hcontents g).trans (OffsetCache.contents_dropKeys_ne hg m _))
      obtain ⟨hseat,hb⟩ := (seatKept_iff hown.1).mp hs
      rcases hwhy with hd|hblocked
      · dsimp only
        rw [hcontents,hd,OffsetCache.dropKeys_lookup,if_neg List.not_mem_nil,← cached_of_lookup hm]
        exact h.inStep broker group hseat k
      · rw [hb] at hblocked
        cases hblocked
    · rw [hr]
      refine h.put (fun k v hk => ?_) (fun _ k => by dsimp only; rw [hcontents]; rfl)
        (fun g hg => (hcontents g).trans (OffsetCache.contents_dropKeys_ne hg m _))
      obtain ⟨ht,hacked⟩ := hkept k v hk
      exact h.dropped hm (hseated hown.1 (mem_cache hm) hb) hacked (hnot m k ht)
    · rw [hfile]
      exact h.idle (fun k v hk => (hkept k v hk).2) seated_of_seatKept hcontents
    · rw [hr]
      refine h.put (fun k v hk => ?_) (fun hs => ?_) (fun g _ => hcontents g)
      · obtain ⟨ht,hacked⟩ := hkept k v hk
        have hfiled := h.filed group k v hacked
        unfold OffsetCluster.filed at hfiled
        rw [hf] at hfiled
        exact (OffsetCache.lookup_foldl_erase _ _ k).trans ((if_neg (hnot file.offsets k ht)).trans hfiled)
      · -- a seated broker that has no cache of the group would have found nothing in the file
        obtain ⟨x,hx⟩ := List.exists_mem_of_ne_nil _ hd
        have hin := AList.lookup_isSome.mpr (AList.mem_keys.mpr (List.mem_filter.mp hx).1)
        have hstep := h.inStep broker group (seated_of_seatKept hs) x
        unfold OffsetCluster.filed cached OffsetCache.contents at hstep
        rw [hf,hnone] at hstep
        rw [show file.offsets.lookup x=none from hstep] at hin
        cases hin
  · simp only [if_neg hown]
    exact h.idle (fun k v hk => (hkept k v hk).2) seated_of_seatKept (fun _ => rfl)

/-- A JoinGroup that loads the file brings the broker in step with it; any other leaves the cache
alone. -/
theorem joinGroup_cases (b : OffsetBroker) (f : JsonFile OffsetFile) (readable : Bool)
    (group : String) : (∃file,f=.present file ∧
      ((b.joinGroup f readable group).offsets.contents group).offsets=file.offsets ∧
      ∀g≠group,(b.joinGroup f readable group).offsets.contents g=b.offsets.contents g) ∨
    ((b.owns group && decide (group∉b.groups) && readable && f.written)=false ∧
      ∀g,(b.joinGroup f readable group).offsets.contents g=b.offsets.contents g) := by
  unfold OffsetBroker.joinGroup
  by_cases hown : b.owns group=true
  · by_cases hin : group∈b.groups
    · exact .inr ⟨by simp [hin],fun g => by simp [hown,hin]⟩
    · simp only [if_pos hown,if_neg hin,OffsetCache.load]
      cases f with
      | absent | corrupt => exact .inr ⟨by simp [JsonFile.written],fun _ => rfl⟩
      | present file =>
        cases readable with
        | false => exact .inr ⟨by simp,fun _ => rfl⟩
        | true =>
          refine .inl ⟨file,rfl,by simp [OffsetCache.contents],fun g hg => ?_⟩
          simp only [OffsetCache.contents,if_true,AList.lookup_insert_ne hg]
          split_ifs
          · rfl
          · rw [AList.lookup_insert_ne hg]
  · exact .inr ⟨by simp [hown],fun g => by simp [hown]⟩

theorem Steady.join (h : w.Steady) (readable : Bool) : (w.exec (.join broker group readable)).Steady := by
  simp only [exec]
  rcases joinGroup_cases (w.brokers broker) (w.files group) readable group with
    ⟨file,hf,hload,hother⟩|⟨hloads,hsame⟩
  · refine h.kept (h.filed group) (fun _ k => ?_) hother
    rw [hload,hf]
    rfl
  · refine h.kept (h.filed group) (fun hs k => ?_) (fun g _ => hsame g)
    rw [hsame]
    rw [joinLoads,hloads,Bool.or_false] at hs
    exact h.inStep broker group hs k

theorem Steady.step (h : w.Steady) (op : HandoffOp) (hok : HandoffOk w op) : (w.exec op).Steady := by
  obtain ⟨hassumed,hseated⟩ := hok
  cases op with
  | commit broker group offsets metadata readable written =>
    cases hassumed
    exact h.commit offsets metadata readable hseated
  | join broker group readable => exact h.join readable
  | deleteOffsets broker group keys readable written =>
    cases hassumed
    exact h.deleteOffsets keys readable hseated
  | deleteGroup broker group removable empty =>
    cases hassumed
    exact h.deleteGroup empty
  | purge broker group topic readable written =>
    cases hassumed
    exact h.purge topic readable hseated
  | assign broker fence owns =>
    refine ⟨h.filed,fun x g hx k => (h.inStep x g hx k).trans ?_⟩
    simp only [cached,exec]
    by_cases hb : x=broker
    · rw [hb,Function.update_self]
      rfl
    · rw [Function.update_of_ne hb]
  | restart broker fence owns =>
    refine ⟨h.filed,fun x g hx k => ?_⟩
    simp only [exec] at hx
    simp only [OffsetCluster.filed,cached,exec]
    by_cases hb : x=broker
    · rw [if_pos hb,decide_eq_true_eq] at hx
      rw [hb,Function.update_self,hx]
      rfl
    · rw [if_neg hb] at hx
      rw [Function.update_of_ne hb]
      exact h.inStep x g hx k

end OffsetCluster

/-- A fetch on a seated broker returns every offset acknowledged for the partitions it is asked for
and not deleted or purged since, on whichever broker that was. -/
theorem acked_offsets_fetched {w₀ w : OffsetCluster} (fresh : ∀group k,w₀.acked group k=none)
    (start : ∀broker group,w₀.seated broker group=true → w₀.InStep broker group)
    (run : Reaches HandoffStep HandoffOk w₀ w) {broker group : String} {specs : List (String × List Int)}
    (owner : (w.brokers broker).owns group=true) (seated : w.seated broker group=true) :
    ∃m,(w.brokers broker).offsetFetch group specs=some m ∧
      ∀k∈OffsetCache.requested specs,∀v,w.acked group k=some v → m.lookup k=some v := by
  have hsteady : w.Steady := by
    refine run.invariant ⟨?_,start⟩ ?_
    · intro g k v hk
      rw [fresh g k] at hk
      cases hk
    · intro v op v' hv hok hstep
      cases hstep
      exact hv.step op hok
  refine ⟨(w.brokers broker).offsets.fetch group specs,if_pos owner,?_⟩
  intro k hk v hv
  have hcached := (hsteady.inStep broker group seated k).symm.trans (hsteady.filed group k v hv)
  exact OffsetCache.fetch_lookup _ group hk hcached

theorem acked_offset_fetched_rejoined :
    ∃w,Reaches HandoffStep HandoffOk {} w ∧ w.acked "g" (offsetKey "t" 0)=some 5 ∧
      ∃m,(w.brokers "kaas-0").offsetFetch "g" [("t",[0])]=some m ∧
        ∀k∈OffsetCache.requested [("t",[0])],∀v,w.acked "g" k=some v → m.lookup k=some v := by
  obtain ⟨w,hreach,hack,hown,hseated⟩ : ∃w,Reaches HandoffStep HandoffOk {} w ∧
      w.acked "g" (offsetKey "t" 0)=some 5 ∧ (w.brokers "kaas-0").owns "g"=true ∧
      w.seated "kaas-0" "g"=true := by
    refine runChecked_finds (f := OffsetCluster.exec) (fun _ _ => rfl) [
      .commit "kaas-0" "g" (oneOffset (offsetKey "t" 0) 5) ∅ true true,.restart "kaas-0" {} (fun _ => true),
      .join "kaas-0" "g" true,.commit "kaas-0" "g" (oneOffset (offsetKey "t" 1) 7) ∅ true true] ?_
    decide +kernel
  exact ⟨w,hreach,hack,acked_offsets_fetched (fun _ _ => rfl) (fun _ _ _ _ => rfl) hreach hown hseated⟩

/-- A coordinator that restarts and is asked for the offset first has forgotten it; first given
another commit, it drops the offset from the file as well, and a JoinGroup does not bring it
back. -/
theorem cold_coordinator_forgets :
    (∃w,Reaches HandoffStep HandoffAssumed {} w ∧ w.acked "g" (offsetKey "t" 0)=some 5 ∧
      (w.filed "g").lookup (offsetKey "t" 0)=none ∧
      ((w.brokers "kaas-0").offsetFetch "g" [("t",[0])]).bind (fun m => m.lookup (offsetKey "t" 0))=some (-1)) ∧
    ¬∀w,Reaches HandoffStep HandoffAssumed {} w → ∀m,(w.brokers "kaas-0").offsetFetch "g" [("t",[0])]=some m →
      ∀k∈OffsetCache.requested [("t",[0])],∀v,w.acked "g" k=some v → m.lookup k=some v := by
  constructor
  · refine runChecked_finds (f := OffsetCluster.exec) (fun _ _ => rfl) [
      .commit "kaas-0" "g" (oneOffset (offsetKey "t" 0) 5) ∅ true true,.restart "kaas-0" {} (fun _ => true),
      .commit "kaas-0" "g" (oneOffset (offsetKey "t" 1) 7) ∅ true true,.join "kaas-0" "g" true] ?_
    decide +kernel
  · intro hall
    obtain ⟨w,hreach,hack,hreq,hfetch⟩ : ∃w,Reaches HandoffStep HandoffAssumed {} w ∧
        w.acked "g" (offsetKey "t" 0)=some 5 ∧ offsetKey "t" 0∈OffsetCache.requested [("t",[0])] ∧
        ((w.brokers "kaas-0").offsetFetch "g" [("t",[0])]).map (fun m => m.lookup (offsetKey "t" 0))=
        some (some (-1)) := by
      refine runChecked_finds (f := OffsetCluster.exec) (fun _ _ => rfl) [
        .commit "kaas-0" "g" (oneOffset (offsetKey "t" 0) 5) ∅ true true,
        .restart "kaas-0" {} (fun _ => true)] ?_
      decide +kernel
    obtain ⟨m,hm,hcold⟩ := Option.map_eq_some_iff.mp hfetch
    have hwarm := hall w hreach m hm _ hreq 5 hack
    exact absurd (hcold.symm.trans hwarm) (by decide)

end Kaas
