import Kaas.Controller.Balance
import Kaas.Storage.Manifest

namespace Kaas

open Balancer

inductive LogDir
  | dataDir
  | extra (name : String)
  deriving DecidableEq, Repr

abbrev Manifests := LogDir → PartitionKey → ManifestFiles

/-- Where the data of a partition is: under the assigned root, or under the first other one with a
manifest. -/
def partitionDir (logDirRoot : PartitionKey → LogDir) (extraLogDirs : List LogDir)
    (manifests : Manifests) (k : PartitionKey) : LogDir :=
  if (manifests (logDirRoot k) k).manifestJson≠.absent then logDirRoot k
  else (((LogDir.dataDir::extraLogDirs).filter (·≠logDirRoot k)).find?
    fun d => (manifests d k).manifestJson≠.absent).getD (logDirRoot k)

def manifestEpoch (files : ManifestFiles) : Int :=
  match files.read with
  | .ok (.present m) => m.epoch
  | .ok (.legacy m) => m.epoch
  | _ => 0

/-- The floor is read for partitions that the assignment in effect does not have, below `data_dir`
only. -/
def computeEpochFloor (manifests : Manifests) (topics : List TopicSpec)
    (prev : List PartitionAssignment) : EpochFloor :=
  (catalogKeys topics).foldl (fun floor k =>
    if k∈prev.map (·.key) then floor
    else if 0< manifestEpoch (manifests .dataDir k) ∧ manifestEpoch (manifests .dataDir k)<2^32 then
      floor.insert k (UInt32.ofNat (manifestEpoch (manifests .dataDir k)).toNat)
    else floor) ∅

/-- The controller's state, the partitions of `assignment.json`, the manifests, and every entry the
file has ever had, in the order it was written. -/
structure Writer where
  current : Option (List PartitionAssignment) := none
  file : Option (List PartitionAssignment) := none
  manifests : Manifests := fun _ _ => {}
  issued : List PartitionAssignment := []

inductive WriterOp
  /-- a controller takes office, in a new process or in one that held it before -/
  | start (fresh : Bool)
  | updateAssignment (alive : List String) (topics : List TopicSpec) (written : Bool)
  | manifest (dir : LogDir) (k : PartitionKey) (files : ManifestFiles)

namespace Writer

def partitions (w : Writer) : List PartitionAssignment := w.current.getD []

def floor (w : Writer) (topics : List TopicSpec)
    : EpochFloor := computeEpochFloor w.manifests topics w.partitions

def recomputed (hash : RendezvousHash) (w : Writer) (alive : List String)
    (topics : List TopicSpec) : List PartitionAssignment :=
  balance hash w.current alive topics (w.floor topics)

def exec (hash : RendezvousHash) (w : Writer) : WriterOp → Writer
  | .start fresh => {w with current := w.file.or (if fresh then none else w.current)}
  | .updateAssignment alive topics written =>
    {w with current := some (w.recomputed hash alive topics)
            file := if written then some (w.recomputed hash alive topics) else w.file
            issued := if written then w.issued++w.recomputed hash alive topics else w.issued}
  | .manifest dir k files =>
    {w with manifests := fun d j => if d=dir ∧ j=k then files else w.manifests d j}

end Writer

/-- Later entries of a partition carry no lower epoch, and the same one only on the same broker. -/
def Supersedes (p q : PartitionAssignment) : Prop :=
  p.key=q.key → p.epoch≤q.epoch ∧ (p.epoch=q.epoch → p.broker=q.broker)

/-- A partition that comes back was issued below the floor, or at it for the only broker there
is. -/
def ReturnsAbove (w : Writer) (alive : List String) (topics : List TopicSpec)
    (p : PartitionAssignment) : Prop :=
  p.epoch<((w.floor topics).lookup p.key).getD 0 ∨
    (p.epoch=((w.floor topics).lookup p.key).getD 0 ∧ ∀b∈alive,b=p.broker)

instance (w : Writer) (alive : List String) (topics : List TopicSpec) (p : PartitionAssignment) :
    Decidable (ReturnsAbove w alive topics p) := inferInstanceAs (Decidable (_ ∨ _ ∧ _))

/-- When a recompute is safe: distinct topic names, no epoch about to wrap, and every partition that
was issued before and is not in effect now returns above what it had. -/
def WriterOk (w : Writer) : WriterOp → Prop
  | .updateAssignment alive topics _ =>
    (topics.map (·.name)).Nodup ∧ (∀c∈w.partitions,c.epoch.toNat+1<2^32) ∧
    ∀p∈w.issued,p.key∈catalogKeys topics → p.key∉w.partitions.map (·.key) → ReturnsAbove w alive topics p
  | _ => True

instance (w : Writer) : (op : WriterOp) → Decidable (WriterOk w op)
  | .updateAssignment .. => inferInstanceAs (Decidable (_ ∧ _ ∧ _))
  | .start _ | .manifest .. => .isTrue trivial

theorem epoch_lt_succ {e : UInt32} (h : e.toNat+1<2^32) : e<e+1 := by
  rw [UInt32.lt_iff_toNat_lt,UInt32.toNat_add]
  have h1 : (1 : UInt32).toNat=1 := rfl
  rw [h1,Nat.mod_eq_of_lt h]
  omega

theorem epoch_le_max (base floor : UInt32) : base≤ max base floor ∧ floor≤ max base floor := by
  change base≤(if base≤floor then floor else base) ∧ floor≤(if base≤floor then floor else base)
  by_cases h : base≤floor
  · rw [if_pos h]
    exact ⟨h,Std.le_refl _⟩
  · rw [if_neg h]
    exact ⟨Std.le_refl _,Std.le_of_lt (Std.not_le.mp h)⟩

theorem prevPartitions_mem {l : List PartitionAssignment} (m : PrevMap) {k : PartitionKey}
    {p : PartitionAssignment} (h : (l.foldl (fun m p => m.insert p.key p) m).lookup k=some p) :
    p∈l ∨ m.lookup k=some p := by
  induction l generalizing m with
  | nil => exact .inr h
  | cons q l ih =>
    rcases ih (m.insert q.key q) h with hl|hm
    · exact .inl (List.mem_cons_of_mem _ hl)
    · by_cases hk : k=q.key
      · rw [hk,AList.lookup_insert] at hm
        cases hm
        exact .inl (List.mem_cons_self ..)
      · rw [AList.lookup_insert_ne hk] at hm
        exact .inr hm

theorem lookup_prev_mem {prev : Option (List PartitionAssignment)} {k : PartitionKey}
    {p : PartitionAssignment} (h : (prevPartitions prev).lookup k=some p) : p∈prev.getD [] := by
  rcases prevPartitions_mem ∅ h with hl|he
  · exact hl
  · rw [AList.lookup_empty] at he
    cases he

theorem lookup_prev_none {prev : Option (List PartitionAssignment)} {k : PartitionKey}
    (h : (prevPartitions prev).lookup k=none) : k∉(prev.getD []).map (·.key) := by
  have hsome : ∀(l : List PartitionAssignment) (m : PrevMap),(m.lookup k).isSome ∨ k∈l.map (·.key) →
      ((l.foldl (fun m p => m.insert p.key p) m).lookup k).isSome := by
    intro l
    induction l with
    | nil =>
      intro m hm
      exact hm.resolve_right (by simp)
    | cons q l ih =>
      intro m hm
      refine ih _ ?_
      by_cases hk : k=q.key
      · rw [hk,AList.lookup_insert]
        exact .inl rfl
      · rw [AList.lookup_insert_ne hk]
        exact hm.imp_right (fun hmem => (List.mem_cons.mp hmem).resolve_left hk)
  intro hmem
  have := hsome (prev.getD []) ∅ (.inr hmem)
  rw [← prevPartitions,h] at this
  cases this

namespace Writer

variable {hash : RendezvousHash} {w : Writer} {alive : List String} {topics : List TopicSpec}

/-- Every entry in effect supersedes what was issued for its partition. -/
structure Sound (w : Writer) : Prop where
  issued : w.issued.Pairwise Supersedes
  current : ∀p∈w.issued,∀c∈w.partitions,Supersedes p c
  file : ∀p∈w.issued,∀c∈w.file.getD [],Supersedes p c

theorem recomputed_supersedes (h : w.Sound) {written : Bool}
    (hok : WriterOk w (.updateAssignment alive topics written)) :
    ∀p∈w.issued,∀c∈w.recomputed hash alive topics,Supersedes p c := by
  obtain ⟨hnames,hwrap,hreturn⟩ := hok
  intro p hp c hc hkey
  by_cases hne : alive=[]
  · rw [recomputed,balance,if_pos hne] at hc
    cases hc
  have hbroker := balance_onAlive hne c hc
  have hcat : c.key∈catalogKeys topics := by
    rw [← balance_keys hne]
    exact List.mem_map_of_mem hc
  rw [recomputed,balance_eq hne] at hc
  obtain ⟨s,_,rfl⟩ := List.mem_map.mp hc
  rw [reconcile_key] at hkey hcat
  unfold reconcile at hbroker ⊢
  cases hlook : (prevPartitions w.current).lookup s.key with
  | none =>
    rw [hlook] at hbroker
    dsimp only at hbroker ⊢
    have hfloor := hreturn p hp (by rw [hkey]; exact hcat) (by rw [hkey]; exact lookup_prev_none hlook)
    unfold ReturnsAbove at hfloor
    rw [hkey] at hfloor
    rcases hfloor with hlt|⟨heq,honly⟩
    · have hlt' := Std.lt_of_lt_of_le hlt (epoch_le_max 1 _).2
      exact ⟨Std.le_of_lt hlt',fun he => absurd he (Std.ne_of_lt hlt')⟩
    · exact ⟨by rw [heq]; exact (epoch_le_max 1 _).2,fun _ => (honly _ hbroker).symm⟩
  | some pa =>
    have hpa := lookup_prev_mem hlook
    have hcover := h.current p hp pa hpa (by rw [hkey,prevPartitions_key hlook])
    dsimp only
    split_ifs
    · exact hcover
    · have hbump := Std.lt_of_lt_of_le (epoch_lt_succ (hwrap pa hpa)) (epoch_le_max (pa.epoch+1)
        (((w.floor topics).lookup s.key).getD 0)).1
      have hlt := Std.lt_of_le_of_lt hcover.1 hbump
      exact ⟨Std.le_of_lt hlt,fun he => absurd he (Std.ne_of_lt hlt)⟩

theorem recomputed_distinct (hnames : (topics.map (·.name)).Nodup) :
    ((w.recomputed hash alive topics).map (·.key)).Nodup := by
  by_cases hne : alive=[]
  · rw [recomputed,balance,if_pos hne]
    exact List.nodup_nil
  · rw [recomputed,balance_keys hne]
    exact nodup_catalogKeys hnames

theorem supersedes_of_nodup {l : List PartitionAssignment} (h : (l.map (·.key)).Nodup) :
    ∀p∈l,∀c∈l,Supersedes p c := by
  intro p hp c hc hkey
  have := List.inj_on_of_nodup_map h hp hc hkey
  subst this
  exact ⟨Std.le_refl _,fun _ => rfl⟩

theorem sound_step (op : WriterOp) (h : w.Sound) (hok : WriterOk w op) : (w.exec hash op).Sound := by
  cases op with
  | manifest dir k files => exact ⟨h.issued,h.current,h.file⟩
  | start fresh =>
    refine ⟨h.issued,fun p hp c hc => ?_,h.file⟩
    unfold partitions exec at hc
    dsimp only at hc
    cases hf : w.file with
    | some l =>
      rw [hf] at hc
      exact h.file p hp c (by rw [hf]; exact hc)
    | none =>
      rw [hf] at hc
      cases fresh with
      | true => cases hc
      | false => exact h.current p hp c hc
  | updateAssignment alive topics written =>
    have hnew : ∀p∈w.issued,∀c∈w.recomputed hash alive topics,Supersedes p c :=
      recomputed_supersedes h hok
    have hself : ∀p∈w.recomputed hash alive topics,∀c∈w.recomputed hash alive topics,Supersedes p c :=
      supersedes_of_nodup (recomputed_distinct hok.1)
    cases written with
    | false => exact ⟨h.issued,hnew,h.file⟩
    | true =>
      have hall : ∀p∈w.issued++w.recomputed hash alive topics,
          ∀c∈w.recomputed hash alive topics,Supersedes p c := by
        intro p hp c hc
        rcases List.mem_append.mp hp with hp|hp
        · exact hnew p hp c hc
        · exact hself p hp c hc
      refine ⟨List.pairwise_append.mpr ⟨h.issued,?_,hnew⟩,hall,hall⟩
      exact List.pairwise_of_forall_mem_list hself

end Writer

/-- Over every run whose recomputes are safe: the epochs of a partition never fall, and no epoch of
it is given to two brokers. -/
theorem issued_epochs_fence (hash : RendezvousHash) (w : Writer)
    (run : Reaches (fun w op w' => w.exec hash op=w') WriterOk {} w) :
    w.issued.Pairwise (fun p q => p.key=q.key → p.epoch≤q.epoch) ∧
    ∀p∈w.issued,∀q∈w.issued,p.key=q.key → p.epoch=q.epoch → p.broker=q.broker := by
  have h0 : ({} : Writer).Sound := ⟨.nil,fun p hp => (by cases hp),fun p hp => (by cases hp)⟩
  have h : w.Sound := run.invariant h0 (fun _ op _ h hok hstep => hstep ▸ Writer.sound_step op h hok)
  refine ⟨h.issued.imp (fun hs hkey => (hs hkey).1),?_⟩
  have hsymm : Std.Symm fun p q : PartitionAssignment => p.key=q.key → p.epoch=q.epoch → p.broker=q.broker :=
    ⟨fun p q hpq hkey he => (hpq hkey.symm he.symm).symm⟩
  have hsame := h.issued.imp (S := fun p q => p.key=q.key → p.epoch=q.epoch → p.broker=q.broker)
    (fun hs hkey => (hs hkey).2)
  intro p hp q hq
  exact hsame.forall_of_forall (fun _ _ _ _ => rfl) hp hq

theorem placeSlots_one (hash hash' : RendezvousHash) (b : String) (l : Load)
    (slots : List PartitionSlot) : placeSlots hash [b] l slots=placeSlots hash' [b] l slots := by
  induction slots generalizing l with
  | nil => rfl
  | cons s slots ih =>
    have hpick : ∀h : RendezvousHash,pickBest (placeBetter h l s.topic s.partition) [b]=some b := fun _ => rfl
    unfold placeSlots
    simp only [hpick,ih]

theorem balance_one (hash hash' : RendezvousHash) (prev : Option (List PartitionAssignment))
    (b : String) (topics : List TopicSpec) (floor : EpochFloor) :
    balance hash prev [b] topics floor=balance hash' prev [b] topics floor := by
  have hsmoothed : smoothed hash prev [b] topics=smoothed hash' prev [b] topics :=
    placeSlots_one hash hash' b _ _
  rw [balance,balance,hsmoothed]

def Writer.soloExec (w : Writer) : WriterOp → Option Writer
  | .updateAssignment (_::_::_) _ _ => none
  | op => some (w.exec (fun _ _ _ => 0) op)

theorem Writer.soloExec_sound (hash : RendezvousHash) (w : Writer) (op : WriterOp) (w' : Writer)
    (h : w.soloExec op=some w') : w.exec hash op=w' := by
  match op with
  | .start _ => exact Option.some.inj h
  | .manifest .. => exact Option.some.inj h
  | .updateAssignment [] _ _ => exact Option.some.inj h
  | .updateAssignment [b] topics written =>
    have hbalance : w.recomputed hash [b] topics=w.recomputed (fun _ _ _ => 0) [b] topics :=
      balance_one _ _ _ _ _ _
    rw [← Option.some.inj h]
    simp only [Writer.exec,hbalance]
  | .updateAssignment (_::_::_) _ _ => cases h

def manifestAt (epoch : Int) : ManifestFiles := ⟨.present ⟨epoch,0,0⟩,none⟩

theorem handed_over_epochs_fence : ∃w : Writer,
    Reaches (fun w op w' => w.exec (fun _ _ _ => 0) op=w') WriterOk {} w ∧
    w.issued=[⟨"t",0,"kaas-0",1⟩,⟨"t",0,"kaas-1",2⟩,⟨"t",0,"kaas-1",2⟩] ∧
    ∀p∈w.issued,∀q∈w.issued,p.key=q.key → p.epoch=q.epoch → p.broker=q.broker := by
  obtain ⟨w,hw,hissued⟩ : ∃w∈runChecked Writer.soloExec WriterOk
      [.start true,.updateAssignment ["kaas-0"] [⟨"t",1⟩] true,.manifest .dataDir ("t",0) (manifestAt 1),
        .updateAssignment ["kaas-1"] [⟨"t",1⟩] true,.manifest .dataDir ("t",0) (manifestAt 2),.start true,
        .updateAssignment [] [⟨"t",1⟩] true,.updateAssignment ["kaas-1"] [⟨"t",1⟩] true] {},
      w.issued=[⟨"t",0,"kaas-0",1⟩,⟨"t",0,"kaas-1",2⟩,⟨"t",0,"kaas-1",2⟩] := by decide +kernel
  have hreach := runChecked_reaches (Writer.soloExec_sound (fun _ _ _ => 0)) _ {} _ w .start hw
  exact ⟨w,hreach,hissued,(issued_epochs_fence _ w hreach).2⟩

def LeadersPersisted (logDirRoot : PartitionKey → LogDir) (extraLogDirs : List LogDir)
    (w : Writer) : WriterOp → Prop
  | .updateAssignment _ topics _ => (topics.map (·.name)).Nodup ∧ ∀p∈w.issued,(p.epoch.toNat : Int)≤
      manifestEpoch (w.manifests (partitionDir logDirRoot extraLogDirs w.manifests p.key) p.key)
  | _ => True

instance (logDirRoot : PartitionKey → LogDir) (extraLogDirs : List LogDir) (w : Writer) :
    (op : WriterOp) → Decidable (LeadersPersisted logDirRoot extraLogDirs w op)
  | .updateAssignment .. => inferInstanceAs (Decidable (_ ∧ _))
  | .start _ | .manifest .. => .isTrue trivial

/-- After a moment without brokers the floor is the old leader's own epoch, and a partition that
lives under another root has no floor at all. -/
theorem readded_partition_reuses_epoch :
    (∀hash,∃w : Writer,Reaches (fun w op w' => w.exec hash op=w')
      (LeadersPersisted (fun _ => .dataDir) []) {} w ∧
      w.issued=[⟨"t",0,"kaas-0",1⟩,⟨"t",0,"kaas-1",1⟩]) ∧
    (∀hash,∃w : Writer,Reaches (fun w op w' => w.exec hash op=w')
        (LeadersPersisted (fun _ => .extra "fast") [.extra "fast"]) {} w ∧
      w.issued=[⟨"t",0,"kaas-0",1⟩,⟨"t",0,"kaas-1",2⟩,⟨"t",0,"kaas-0",1⟩]) := by
  constructor <;> intro hash
  · obtain ⟨w,hw,h⟩ : ∃w∈runChecked Writer.soloExec (LeadersPersisted (fun _ => .dataDir) [])
        [.updateAssignment ["kaas-0"] [⟨"t",1⟩] true,.manifest .dataDir ("t",0) (manifestAt 1),
          .updateAssignment [] [⟨"t",1⟩] true,.updateAssignment ["kaas-1"] [⟨"t",1⟩] true] {},
        w.issued=[⟨"t",0,"kaas-0",1⟩,⟨"t",0,"kaas-1",1⟩] := by decide +kernel
    exact ⟨w,runChecked_reaches (Writer.soloExec_sound hash) _ {} _ w .start hw,h⟩
  · obtain ⟨w,hw,h⟩ : ∃w∈runChecked Writer.soloExec (LeadersPersisted (fun _ => .extra "fast") [.extra "fast"])
        [.updateAssignment ["kaas-0"] [⟨"t",1⟩] true,.manifest (.extra "fast") ("t",0) (manifestAt 1),
          .updateAssignment ["kaas-1"] [⟨"t",1⟩] true,.manifest (.extra "fast") ("t",0) (manifestAt 2),
          .updateAssignment [] [⟨"t",1⟩] true,.updateAssignment ["kaas-0"] [⟨"t",1⟩] true] {},
        w.issued=[⟨"t",0,"kaas-0",1⟩,⟨"t",0,"kaas-1",2⟩,⟨"t",0,"kaas-0",1⟩] := by decide +kernel
    exact ⟨w,runChecked_reaches (Writer.soloExec_sound hash) _ {} _ w .start hw,h⟩

end Kaas
