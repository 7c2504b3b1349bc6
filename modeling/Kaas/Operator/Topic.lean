import Kaas.Controller.AssignmentWriter

namespace Kaas

/-! The `KafkaTopic` resource. -/

def defaultLogDirName : String := "default"

structure LogDirInfo where
  name : String
  defaultEligible : Bool := true
  cordoned : Bool := false
  labels : List (String × String) := []
  deriving DecidableEq, Repr

structure KafkaTopicStorage where
  volumes : List String := []
  volumeSelector : Option (List (String × String)) := none
  deriving DecidableEq, Repr

structure KafkaTopicConfig where
  retentionMs : Option Int := none
  retentionBytes : Option Int := none
  segmentBytes : Option Int := none
  segmentMs : Option Int := none
  cleanupPolicy : String := ""
  minCompactionLagMs : Option Int := none
  deleteRetentionMs : Option Int := none
  flushMessages : Option Int := none
  deriving DecidableEq, Repr

structure KafkaTopicSpec where
  topicName : String := ""
  partitions : Int
  config : KafkaTopicConfig := {}
  storage : Option KafkaTopicStorage := none
  deriving DecidableEq, Repr

inductive ConditionStatus
  | isTrue
  | isFalse
  deriving DecidableEq, Repr

structure Condition where
  type : String
  status : ConditionStatus
  observedGeneration : Option Int
  lastTransitionTime : String
  reason : String
  message : String
  deriving DecidableEq, Repr

/-- The condition of the same type is replaced and keeps its time unless the status changes. -/
def setCondition (now : String) (cond : Condition) : List Condition → List Condition
  | [] => [{cond with lastTransitionTime := now}]
  | existing::rest =>
    if existing.type≠cond.type then existing::setCondition now cond rest
    else if existing.status=cond.status then {cond with lastTransitionTime := existing.lastTransitionTime}::rest
    else {cond with lastTransitionTime := now}::rest

abbrev VolumeAssignments := AList (fun _ : String => String)

structure KafkaTopicStatus where
  partitionCount : Int := 0
  topicId : String := ""
  conditions : List Condition := []
  volumeAssignments : VolumeAssignments := ∅
  partitionsOutsideSpec : Int := 0

structure KafkaTopic where
  name : Option String
  generation : Option Int := none
  deletionTimestamp : Option String := none
  spec : KafkaTopicSpec
  status : Option KafkaTopicStatus := none

namespace KafkaTopic

def effectiveTopicName (t : KafkaTopic) : String :=
  if t.spec.topicName≠"" then t.spec.topicName else t.name.getD ""

def topicId (t : KafkaTopic) : String := (t.status.getD {}).topicId

end KafkaTopic

/-- The log dirs a topic's partitions may be placed on. -/
def eligibleLogDirs (pool : List LogDirInfo) (spec : Option KafkaTopicStorage) : Except String (List String) :=
  let requested := (spec.map (·.volumes)).getD []
  match (spec.bind (·.volumeSelector)).filter (·≠[]) with
  | some sel =>
    if requested≠[] then .error "spec.storage.volumes and spec.storage.volumeSelector are mutually exclusive"
    else
      let found := (pool.filter fun d => !d.cordoned && sel.all fun kv => d.labels.lookup kv.1=some
        kv.2).map (·.name)
      if found=[] then
        .error ("spec.storage.volumeSelector matches no uncordoned pool member ("++
          ",".intercalate (sel.map fun kv => kv.1++"="++kv.2)++")")
      else .ok found
  | none =>
    if requested=[] then
      .ok (defaultLogDirName::(pool.filter fun d => d.defaultEligible && !d.cordoned).map (·.name))
    else match requested.find? (fun name => name≠defaultLogDirName ∧ ∀d∈pool,d.name≠name) with
      | some name => .error ("spec.storage.volumes references unknown log dir '"++name++"'")
      | none =>
        let uncordoned := requested.filter fun name => match pool.find? (·.name=name) with
          | none => true
          | some d => !d.cordoned
        if uncordoned=[] then
          .error ("every volume in spec.storage.volumes is cordoned ("++", ".intercalate requested++")")
        else .ok uncordoned

variable {pool : List LogDirInfo}

def placePartition (eligible : List String) (a : VolumeAssignments) (p : Nat) : VolumeAssignments :=
  if toString p∈a then a else a.insert (toString p) (eligible.getD (p%eligible.length) "")

def placeAll (eligible : List String) (a : VolumeAssignments) (partitions : Int) : VolumeAssignments :=
  (List.range partitions.toNat).foldl (placePartition eligible) a

def outsideSpec (eligible : List String) (a : VolumeAssignments) (partitions : Int) : Nat :=
  ((List.range partitions.toNat).filter fun p => match a.lookup (toString p) with
    | some name => name∉eligible
    | none => false).length

def rootOf (pool : List LogDirInfo) (name : String) : LogDir :=
  if name=defaultLogDirName then .dataDir
  else match pool.find? (·.name=name) with
    | some d => .extra d.name
    | none => .dataDir

def addRoot (pool : List LogDirInfo) (roots : List LogDir) (e : Sigma fun _ : String => String) : List LogDir :=
  if rootOf pool e.2∈roots then roots else roots++[rootOf pool e.2]

def involvedRoots (pool : List LogDirInfo) (a : VolumeAssignments) : List LogDir :=
  a.entries.foldl (addRoot pool) [.dataDir]

def partitionRoot (pool : List LogDirInfo) (a : VolumeAssignments) (p : Nat) : LogDir :=
  rootOf pool ((a.lookup (toString p)).getD defaultLogDirName)

/-- What stands in a partition's files, and the identity of the directory it was written from. -/
inductive Content
  | record
  | highWatermark
  | producerWindow
  deriving DecidableEq, Repr

structure Written where
  content : Content
  incarnation : Option String
  deriving DecidableEq, Repr

structure PartitionFiles where
  manifest : Bool := false
  written : List Written := []
  deriving DecidableEq, Repr

structure TopicDir where
  stamp : JsonFile String := .absent
  config : Option KafkaTopicConfig := none
  parts : AList (fun _ : Nat => PartitionFiles) := ∅

def TopicDir.written (d : TopicDir) (p : Nat) : List Written := ((d.parts.lookup p).getD {}).written

def readTopicIdentity : JsonFile String → Except IoError (Option String)
  | .absent => .ok none
  | .corrupt => .error .fault
  | .present id => .ok (if id="" then none else some id)

inductive IdentityVerdict
  | unstamped
  | agrees
  | stale
  deriving DecidableEq, Repr

def TopicIdentity.classify (stamp : JsonFile String) (topicId : String) : Except IoError IdentityVerdict :=
  match readTopicIdentity stamp with
  | .error e => .error e
  | .ok none => .ok .unstamped
  | .ok (some id) => .ok (if id=topicId then .agrees else .stale)

theorem TopicIdentity.classify_stale {stamp : JsonFile String} {topicId : String} :
    TopicIdentity.classify stamp topicId=.ok .stale ↔ ∃id,stamp=.present id ∧ id≠"" ∧ id≠topicId := by
  cases stamp with
  | absent | corrupt => simp [TopicIdentity.classify,readTopicIdentity]
  | present id =>
    by_cases h0 : id=""
    · simp [TopicIdentity.classify,readTopicIdentity,h0]
    · by_cases h1 : id=topicId
      · subst h1
        simp [TopicIdentity.classify,readTopicIdentity,h0]
      · simp [TopicIdentity.classify,readTopicIdentity,h0,h1]

/-- The directories of one topic name: by inode, the inode that stands at the topic's path under a
root, and the ones that have been renamed aside. Inodes are never used again. -/
structure TopicFs where
  nodes : Nat → TopicDir := fun _ => {}
  next : Nat := 0
  live : LogDir → Option Nat := fun _ => none
  staged : List Nat := []
  live_lt : ∀r n,live r=some n → n<next := by intro r n h; cases h
  live_inj : ∀r r' n,live r=some n → live r'=some n → r=r' := by intro r r' n h; cases h
  staged_lt : ∀n∈staged,n<next := by intro n h; cases h
  apart : ∀r n,live r=some n → n∉staged := by intro r n h; cases h

namespace TopicFs

variable (fs : TopicFs)

def stamp (r : LogDir) : JsonFile String := ((fs.live r).map (fun n => (fs.nodes n).stamp)).getD .absent

def onNode (n : Nat) (f : TopicDir → TopicDir) : TopicFs :=
  {fs with nodes := Function.update fs.nodes n (f (fs.nodes n))}

def created (r : LogDir) : TopicFs where
  nodes := Function.update fs.nodes fs.next {}
  next := fs.next+1
  live := Function.update fs.live r (some fs.next)
  staged := fs.staged
  live_lt := by
    intro r' n h
    by_cases hr : r'=r
    · rw [hr,Function.update_self] at h
      cases h
      exact Nat.lt_succ_self _
    · rw [Function.update_of_ne hr] at h
      exact (fs.live_lt r' n h).trans (Nat.lt_succ_self _)
  live_inj := by
    intro r1 r2 n h1 h2
    by_cases hr1 : r1=r <;> by_cases hr2 : r2=r
    · rw [hr1,hr2]
    · rw [hr1,Function.update_self] at h1
      rw [Function.update_of_ne hr2] at h2
      cases h1
      exact absurd (fs.live_lt r2 _ h2) (lt_irrefl _)
    · rw [hr2,Function.update_self] at h2
      rw [Function.update_of_ne hr1] at h1
      cases h2
      exact absurd (fs.live_lt r1 _ h1) (lt_irrefl _)
    · rw [Function.update_of_ne hr1] at h1
      rw [Function.update_of_ne hr2] at h2
      exact fs.live_inj r1 r2 n h1 h2
  staged_lt := fun n hn => (fs.staged_lt n hn).trans (Nat.lt_succ_self _)
  apart := by
    intro r' n h
    by_cases hr : r'=r
    · rw [hr,Function.update_self] at h
      cases h
      exact fun hn => absurd (fs.staged_lt _ hn) (lt_irrefl _)
    · rw [Function.update_of_ne hr] at h
      exact fs.apart r' n h

def mkdirTopic (r : LogDir) : TopicFs := if (fs.live r).isSome then fs else fs.created r

def onLive (r : LogDir) (f : TopicDir → TopicDir) : TopicFs :=
  match fs.live r with
  | some n => fs.onNode n f
  | none => fs

def addPartition (p : Nat) (d : TopicDir) : TopicDir :=
  if p∈d.parts then d else {d with parts := d.parts.insert p {}}

def mkdirPartition (r : LogDir) (p : Nat) : TopicFs := (fs.mkdirTopic r).onLive r (addPartition p)

def vacated (r : LogDir) (aside : Bool) : TopicFs where
  nodes := fs.nodes
  next := fs.next
  live := Function.update fs.live r none
  staged := if aside then fs.staged++(fs.live r).toList else fs.staged
  live_lt := by
    intro r' n h
    by_cases hr : r'=r
    · rw [hr,Function.update_self] at h
      cases h
    · rw [Function.update_of_ne hr] at h
      exact fs.live_lt r' n h
  live_inj := by
    intro r1 r2 n h1 h2
    by_cases hr1 : r1=r
    · rw [hr1,Function.update_self] at h1
      cases h1
    · by_cases hr2 : r2=r
      · rw [hr2,Function.update_self] at h2
        cases h2
      · rw [Function.update_of_ne hr1] at h1
        rw [Function.update_of_ne hr2] at h2
        exact fs.live_inj r1 r2 n h1 h2
  staged_lt := by
    intro n hn
    split_ifs at hn
    · rcases List.mem_append.mp hn with hn|hn
      · exact fs.staged_lt n hn
      · exact fs.live_lt r n (Option.mem_toList.mp hn)
    · exact fs.staged_lt n hn
  apart := by
    intro r' n h
    by_cases hr : r'=r
    · rw [hr,Function.update_self] at h
      cases h
    · rw [Function.update_of_ne hr] at h
      have hold := fs.apart r' n h
      split_ifs
      · intro hn
        rcases List.mem_append.mp hn with hn|hn
        · exact hold hn
        · exact hr (fs.live_inj r' r n h (Option.mem_toList.mp hn))
      · exact hold

def stage (r : LogDir) : TopicFs × Option Nat := (fs.vacated r true,fs.live r)

def removeStaged (n : Nat) : TopicFs := {fs with
  staged := fs.staged.filter (·≠n)
  staged_lt := fun m hm => fs.staged_lt m (List.mem_filter.mp hm).1
  apart := fun r m h hm => fs.apart r m h (List.mem_filter.mp hm).1}

def writeConfig (r : LogDir) (c : KafkaTopicConfig) : TopicFs :=
  (fs.mkdirTopic r).onLive r (fun d => {d with config := some c})

def writeIdentity (r : LogDir) (id : String) : TopicFs :=
  (fs.mkdirTopic r).onLive r (fun d => {d with stamp := .present id})

/-- Every directory stays where it is and keeps its stamp; new ones have none. -/
structure Extends (fs fs' : TopicFs) : Prop where
  live : ∀r n,fs.live r=some n → fs'.live r=some n
  next : fs.next≤fs'.next
  stamp : ∀n<fs.next,(fs'.nodes n).stamp=(fs.nodes n).stamp
  unstamped : ∀n,fs.next≤n → n<fs'.next → (fs'.nodes n).stamp=.absent
  fresh : ∀r n,fs'.live r=some n → fs.live r=some n ∨ (fs.live r=none ∧ fs.next≤n)

structure Keeps (fs fs' : TopicFs) : Prop extends Extends fs fs' where
  staged : fs'.staged=fs.staged
  written : ∀n<fs.next,∀p,(fs'.nodes n).written p=(fs.nodes n).written p
  blank : ∀n,fs.next≤n → n<fs'.next → ∀p,(fs'.nodes n).written p=[]

variable {fs} {fs' fs'' : TopicFs} {r r' : LogDir} {n : Nat} {f : TopicDir → TopicDir}

theorem Extends.refl (fs : TopicFs) : fs.Extends fs where
  live := fun _ _ h => h
  next := le_refl _
  stamp := fun _ _ => rfl
  unstamped := fun _ h h' => absurd h' (Nat.not_lt.mpr h)
  fresh := fun _ _ h => Or.inl h

theorem Extends.trans (h : fs.Extends fs') (h' : fs'.Extends fs'') : fs.Extends fs'' where
  live := fun r n hn => h'.live r n (h.live r n hn)
  next := h.next.trans h'.next
  stamp := fun n hn => (h'.stamp n (hn.trans_le h.next)).trans (h.stamp n hn)
  unstamped := by
    intro n hn hn'
    by_cases hmid : n<fs'.next
    · exact (h'.stamp n hmid).trans (h.unstamped n hn hmid)
    · exact h'.unstamped n (Nat.not_lt.mp hmid) hn'
  fresh := by
    intro r n hn
    rcases h'.fresh r n hn with hold|⟨hnone,hle⟩
    · exact h.fresh r n hold
    · refine Or.inr ⟨?_,h.next.trans hle⟩
      cases hr : fs.live r with
      | none => rfl
      | some m =>
        rw [h.live r m hr] at hnone
        cases hnone

theorem Keeps.refl (fs : TopicFs) : fs.Keeps fs where
  toExtends := .refl fs
  staged := rfl
  written := fun _ _ _ => rfl
  blank := fun _ h h' => absurd h' (Nat.not_lt.mpr h)

theorem Keeps.trans (h : fs.Keeps fs') (h' : fs'.Keeps fs'') : fs.Keeps fs'' where
  toExtends := h.toExtends.trans h'.toExtends
  staged := h'.staged.trans h.staged
  written := fun n hn p => (h'.written n (hn.trans_le h.next) p).trans (h.written n hn p)
  blank := by
    intro n hn hn' p
    by_cases hmid : n<fs'.next
    · exact (h'.written n hmid p).trans (h.blank n hn hmid p)
    · exact h'.blank n (Nat.not_lt.mp hmid) hn' p

theorem created_live (h : fs.live r=none) {n : Nat} (hn : fs.live r'=some n) :
    (fs.created r).live r'=some n := by
  have hne : r'≠r := fun he => by rw [he,h] at hn; cases hn
  exact (Function.update_of_ne hne _ _).trans hn

theorem keeps_mkdirTopic (fs : TopicFs) (r : LogDir) : fs.Keeps (fs.mkdirTopic r) := by
  unfold mkdirTopic
  split_ifs with hr
  · exact .refl fs
  · have hnone : fs.live r=none := Option.not_isSome_iff_eq_none.mp hr
    have hold (n : Nat) (hn : n<fs.next) : (fs.created r).nodes n=fs.nodes n :=
      Function.update_of_ne (Nat.ne_of_lt hn) _ _
    have hnew (n : Nat) (hn : fs.next≤n) (hn' : n<(fs.created r).next) : (fs.created r).nodes n={} := by
      rw [show n=fs.next from Nat.le_antisymm (Nat.lt_succ_iff.mp hn') hn]
      exact Function.update_self ..
    refine ⟨⟨fun r' n hn => created_live hnone hn,Nat.le_succ _,fun n hn => by rw [hold n hn],
      fun n hn hn' => by rw [hnew n hn hn'],?_⟩,rfl,fun n hn p => by rw [hold n hn],
      fun n hn hn' p => by rw [hnew n hn hn']; rfl⟩
    intro r' n hn
    by_cases he : r'=r
    · have hself : (fs.created r).live r=some fs.next := Function.update_self ..
      rw [he,hself] at hn
      exact Or.inr ⟨by rw [he]; exact hnone,(Option.some.inj hn).le⟩
    · exact Or.inl ((Function.update_of_ne he _ _).symm.trans hn)

theorem mkdirTopic_live (h : (fs.mkdirTopic r).live r'≠none) : fs.live r'≠none ∨ r'=r := by
  unfold mkdirTopic at h
  split_ifs at h
  · exact Or.inl h
  · by_cases he : r'=r
    · exact Or.inr he
    · rw [show (fs.created r).live r'=fs.live r' from Function.update_of_ne he _ _] at h
      exact Or.inl h

@[simp] theorem onLive_live (fs : TopicFs) (r : LogDir) (f : TopicDir → TopicDir) :
    (fs.onLive r f).live=fs.live := by
  unfold onLive
  split <;> rfl

@[simp] theorem onLive_staged (fs : TopicFs) (r : LogDir) (f : TopicDir → TopicDir) :
    (fs.onLive r f).staged=fs.staged := by
  unfold onLive
  split <;> rfl

@[simp] theorem onLive_next (fs : TopicFs) (r : LogDir) (f : TopicDir → TopicDir) :
    (fs.onLive r f).next=fs.next := by
  unfold onLive
  split <;> rfl

theorem onLive_nodes (fs : TopicFs) (r : LogDir) (f : TopicDir → TopicDir) (n : Nat) :
    (fs.onLive r f).nodes n=if fs.live r=some n then f (fs.nodes n) else fs.nodes n := by
  unfold onLive
  cases h : fs.live r with
  | none =>
    rw [if_neg (fun he => by cases he)]
  | some m =>
    by_cases hm : m=n
    · rw [if_pos (congrArg some hm),← hm]
      exact Function.update_self ..
    · rw [if_neg (fun he => hm (Option.some.inj he))]
      exact Function.update_of_ne (Ne.symm hm) _ _

theorem extends_onLive (fs : TopicFs) (r : LogDir) (hs : ∀d,(f d).stamp=d.stamp) :
    fs.Extends (fs.onLive r f) where
  live := fun r' n hn => by rw [onLive_live]; exact hn
  next := (onLive_next fs r f).ge
  stamp := by
    intro n _
    rw [onLive_nodes]
    split_ifs
    · exact hs _
    · rfl
  unstamped := fun n hn hn' => absurd (hn'.trans_eq (onLive_next fs r f)) (Nat.not_lt.mpr hn)
  fresh := fun r' n hn => Or.inl (by rw [onLive_live] at hn; exact hn)

theorem keeps_onLive (fs : TopicFs) (r : LogDir) (hs : ∀d,(f d).stamp=d.stamp)
    (hw : ∀d p,(f d).written p=d.written p) : fs.Keeps (fs.onLive r f) where
  toExtends := extends_onLive fs r hs
  staged := onLive_staged fs r f
  written := by
    intro n _ p
    rw [onLive_nodes]
    split_ifs
    · exact hw _ p
    · rfl
  blank := fun n hn hn' => absurd (hn'.trans_eq (onLive_next fs r f)) (Nat.not_lt.mpr hn)

theorem addPartition_stamp (p : Nat) (d : TopicDir) : (addPartition p d).stamp=d.stamp := by
  unfold addPartition
  split_ifs <;> rfl

theorem addPartition_written (p : Nat) (d : TopicDir) (q : Nat) : (addPartition p d).written q=d.written q := by
  unfold addPartition TopicDir.written
  split_ifs with hp
  · rfl
  · by_cases hq : q=p
    · dsimp only
      rw [hq,AList.lookup_insert,AList.lookup_eq_none.mpr hp]
      rfl
    · dsimp only
      rw [AList.lookup_insert_ne hq]

theorem keeps_mkdirPartition (fs : TopicFs) (r : LogDir) (p : Nat) : fs.Keeps (fs.mkdirPartition r p) :=
  (keeps_mkdirTopic fs r).trans (keeps_onLive _ r (addPartition_stamp p) (addPartition_written p))

theorem keeps_writeConfig (fs : TopicFs) (r : LogDir) (c : KafkaTopicConfig) : fs.Keeps (fs.writeConfig r c) :=
  (keeps_mkdirTopic fs r).trans (keeps_onLive _ r (fun _ => rfl) (fun _ _ => rfl))

theorem stamp_of_live {n : Nat} (h : fs.live r=some n) : fs.stamp r=(fs.nodes n).stamp := by
  unfold stamp
  rw [h]
  rfl

end TopicFs

structure Materialise where
  topicId : String
  partitions : Nat
  assignments : VolumeAssignments
  roots : List LogDir
  config : KafkaTopicConfig
  status : KafkaTopicStatus

inductive ReconcileStage
  | reject (status : KafkaTopicStatus)
  | reclaim (rest : List LogDir)
  | mkdir (rest : List Nat)
  | remove (rest : List Nat)
  | config (rest : List LogDir)
  | patch
  | stamp (rest : List LogDir)
  | done

def ReconcileStage.targets : ReconcileStage → List LogDir
  | .config rest => rest
  | .stamp rest => rest
  | _ => []

structure Reconcile where
  plan : Materialise
  stage : ReconcileStage
  identity : IdentityVerdict := .agrees
  staged : List Nat := []

def startReconcile (pool : List LogDirInfo) (t : KafkaTopic) (generated now : String) : Option Reconcile :=
  if t.deletionTimestamp.isSome then none
  else if t.effectiveTopicName="" then none
  else
    let observed := t.status.getD {}
    let topicId := if observed.topicId≠"" then observed.topicId else generated
    let ready (status : ConditionStatus) (reason message : String) : Condition :=
      ⟨"Ready",status,t.generation,"",reason,message⟩
    let plan (a : VolumeAssignments) (outside : Nat) : Materialise := {
      topicId := topicId
      partitions := t.spec.partitions.toNat
      assignments := a
      roots := involvedRoots pool a
      config := t.spec.config
      status := {
        partitionCount := t.spec.partitions
        topicId := topicId
        conditions := setCondition now (ready .isTrue "PartitionsCreated"
          (toString t.spec.partitions++" partition directories created")) observed.conditions
        volumeAssignments := a
        partitionsOutsideSpec := outside}}
    let reject (reason message : String) : Reconcile := ⟨plan ∅ 0,.reject {observed with
      conditions := setCondition now (ready .isFalse reason message) observed.conditions},.agrees,[]⟩
    if 0<observed.partitionCount ∧ t.spec.partitions<observed.partitionCount then
      some (reject "InvalidPartitionCount" "reducing partition count is not supported")
    else match eligibleLogDirs pool t.spec.storage with
      | .error why => some (reject "InvalidVolumeBinding" why)
      | .ok eligible =>
        let a := placeAll eligible observed.volumeAssignments t.spec.partitions
        let m := plan a (outsideSpec eligible a t.spec.partitions)
        some ⟨m,.reclaim m.roots,.agrees,[]⟩

theorem startReconcile_spec {t : KafkaTopic} {generated now : String} {run : Reconcile}
    (h : startReconcile pool t generated now=some run) :
    run.plan.topicId=(if t.topicId≠"" then t.topicId else generated) ∧
    run.plan.status.topicId=run.plan.topicId ∧ run.plan.roots=involvedRoots pool run.plan.assignments ∧
    run.staged=[] ∧
    ((∃status,run.stage=.reject status ∧ status.topicId=t.topicId) ∨ run.stage=.reclaim run.plan.roots) := by
  unfold startReconcile at h
  dsimp only at h
  split at h
  · cases h
  · split at h
    · cases h
    · split at h
      · cases h
        exact ⟨rfl,rfl,rfl,rfl,Or.inl ⟨_,rfl,rfl⟩⟩
      · split at h
        · cases h
          exact ⟨rfl,rfl,rfl,rfl,Or.inl ⟨_,rfl,rfl⟩⟩
        · cases h
          exact ⟨rfl,rfl,rfl,rfl,Or.inr rfl⟩

/-- How a step ends: `unreadable` fails the read of a stamp only, and a patch whose answer is lost
has been applied. -/
inductive StepOutcome
  | ok
  | failed
  | unreadable
  | lost
  deriving DecidableEq, Repr

/-- What a step leaves: the directories, the rest of the run unless it has failed, and the status to
apply. -/
structure StepEffect where
  fs : TopicFs
  run : Option Reconcile
  patch : Option KafkaTopicStatus := none

namespace Reconcile

/-- `reclaim_stale_incarnation` and the verdict that is kept. -/
def reclaim (fs : TopicFs) (run : Reconcile) (r : LogDir) (rest : List LogDir) (o : StepOutcome) : StepEffect :=
  let adopt (v : IdentityVerdict) : StepEffect := ⟨fs,some {run with
    stage := .reclaim rest
    identity := if v≠.agrees then v else run.identity},none⟩
  if run.plan.topicId="" ∨ o=.unreadable then adopt .unstamped
  else match TopicIdentity.classify (fs.stamp r) run.plan.topicId with
    | .error _ => adopt .unstamped
    | .ok .stale =>
      if o=.failed then ⟨fs,none,none⟩
      else ⟨(fs.stage r).1,some {run with
        stage := .reclaim rest
        identity := .stale
        staged := run.staged++(fs.stage r).2.toList},none⟩
    | .ok v => adopt v

def step (pool : List LogDirInfo) (fs : TopicFs) (run : Reconcile) (o : StepOutcome) : StepEffect :=
  let fails (e : StepEffect) : StepEffect := if o=.failed then ⟨fs,none,none⟩ else e
  match run.stage with
  | .reject status => match o with
    | .failed => ⟨fs,none,none⟩
    | .lost => ⟨fs,none,some status⟩
    | _ => ⟨fs,some {run with stage := .done},some status⟩
  | .reclaim [] => ⟨fs,some {run with stage := .mkdir (List.range run.plan.partitions)},none⟩
  | .reclaim (r::rest) => run.reclaim fs r rest o
  | .mkdir [] => ⟨fs,some {run with stage := .remove run.staged},none⟩
  | .mkdir (p::rest) => fails ⟨fs.mkdirPartition (partitionRoot pool run.plan.assignments p) p,
      some {run with stage := .mkdir rest},none⟩
  | .remove [] => ⟨fs,some {run with stage := .config run.plan.roots},none⟩
  -- a staged directory that cannot be removed is left to the sweep
  | .remove (n::rest) =>
    ⟨if o=.failed then fs else fs.removeStaged n,some {run with stage := .remove rest},none⟩
  | .config [] => ⟨fs,some {run with stage := .patch},none⟩
  | .config (r::rest) => fails ⟨fs.writeConfig r run.plan.config,some {run with stage := .config rest},none⟩
  | .patch => match o with
    | .failed => ⟨fs,none,none⟩
    | .lost => ⟨fs,none,some run.plan.status⟩
    | _ => ⟨fs,some {run with stage := if run.identity≠.agrees then .stamp run.plan.roots else .done},
        some run.plan.status⟩
  | .stamp [] => ⟨fs,some {run with stage := .done},none⟩
  | .stamp (r::rest) => fails ⟨fs.writeIdentity r run.plan.topicId,some {run with stage := .stamp rest},none⟩
  | .done => ⟨fs,none,none⟩

/-- Everything a step of a reconcile can do to the directories and to the status. -/
inductive Steps (pool : List LogDirInfo) (fs : TopicFs) (run : Reconcile) (o : StepOutcome) : StepEffect → Prop
  | ends : Steps pool fs run o ⟨fs,none,none⟩
  | rejected (status : KafkaTopicStatus) (rest : Option Reconcile) (stage_eq : run.stage=.reject status)
      (hrest : ∀run'∈rest,run'=({run with stage := .done} : Reconcile)) :
        Steps pool fs run o ⟨fs,rest,some status⟩
  | adopts (r : LogDir) (rest : List LogDir) (v : IdentityVerdict) (stage_eq : run.stage=.reclaim (r::rest))
      (known : run.plan.topicId≠"" → o≠.unreadable →
        TopicIdentity.classify (fs.stamp r) run.plan.topicId≠.ok .stale) :
      Steps pool fs run o ⟨fs,some {run with stage := .reclaim rest,identity := v},none⟩
  | stages (r : LogDir) (rest : List LogDir) (stage_eq : run.stage=.reclaim (r::rest))
      (stale : TopicIdentity.classify (fs.stamp r) run.plan.topicId=.ok .stale) :
      Steps pool fs run o ⟨fs.vacated r true,some {run with
        stage := .reclaim rest
        identity := .stale
        staged := run.staged++(fs.live r).toList},none⟩
  | makes (fs' : TopicFs) (stage : ReconcileStage) (keeps : fs.Keeps fs')
      (grown : ∀r,fs'.live r≠none → fs.live r≠none ∨ r∈run.stage.targets ∨ ∃name,r=rootOf pool name)
      (order : (run.stage=.reclaim [] ∧ stage=.mkdir (List.range run.plan.partitions)) ∨
        (∃p rest,run.stage=.mkdir (p::rest) ∧ stage=.mkdir rest) ∨
        (run.stage=.mkdir [] ∧ stage=.remove run.staged) ∨
        (run.stage=.remove [] ∧ stage=.config run.plan.roots) ∨
        (∃r rest,run.stage=.config (r::rest) ∧ stage=.config rest) ∨
        (run.stage=.config [] ∧ stage=.patch) ∨ (run.stage=.stamp [] ∧ stage=.done)) :
      Steps pool fs run o ⟨fs',some {run with stage := stage},none⟩
  | removes (n : Nat) (rest : List Nat) (stage_eq : run.stage=.remove (n::rest)) (fs' : TopicFs)
      (hfs : fs'=fs ∨ fs'=fs.removeStaged n) :
        Steps pool fs run o ⟨fs',some {run with stage := .remove rest},none⟩
  | patches (rest : Option Reconcile) (stage_eq : run.stage=.patch)
      (hrest : ∀run'∈rest,run'=({run with stage := .stamp run.plan.roots} : Reconcile) ∨
        run'={run with stage := .done}) :
      Steps pool fs run o ⟨fs,rest,some run.plan.status⟩
  | stamps (r : LogDir) (rest : List LogDir) (stage_eq : run.stage=.stamp (r::rest)) :
      Steps pool fs run o ⟨fs.writeIdentity r run.plan.topicId,some {run with stage := .stamp rest},none⟩

theorem steps_reclaim {fs : TopicFs} {run : Reconcile} {r : LogDir} {rest : List LogDir}
    (h : run.stage=.reclaim (r::rest)) (o : StepOutcome) : Steps pool fs run o (run.reclaim fs r rest o) := by
  unfold reclaim
  dsimp only
  by_cases h1 : run.plan.topicId="" ∨ o=.unreadable
  · rw [if_pos h1]
    exact .adopts r rest _ h (fun h2 h3 => (h1.elim h2 h3).elim)
  · rw [if_neg h1]
    split
    · rename_i hread
      exact .adopts r rest _ h (fun _ _ => by rw [hread]; exact fun he => by cases he)
    · rename_i hstale
      split_ifs
      · exact .ends
      · exact .stages r rest h hstale
    · rename_i v hv hread
      exact .adopts r rest _ h (fun _ _ => by rw [hread]; exact fun he => hv (Except.ok.inj he))

theorem step_cases (pool : List LogDirInfo) (fs : TopicFs) (run : Reconcile) (o : StepOutcome) :
    Steps pool fs run o (run.step pool fs o) := by
  unfold step
  dsimp only
  split
  · rename_i status h
    split
    · exact .ends
    · exact .rejected status none h (fun _ hr => by cases hr)
    · exact .rejected status _ h (fun _ hr => by cases hr; rfl)
  · rename_i h
    exact .makes fs _ (.refl fs) (fun _ hr => Or.inl hr) (Or.inl ⟨h,rfl⟩)
  · rename_i r rest h
    exact steps_reclaim h o
  · rename_i h
    exact .makes fs _ (.refl fs) (fun _ hr => Or.inl hr) (Or.inr (Or.inr (Or.inl ⟨h,rfl⟩)))
  · rename_i p rest h
    split_ifs
    · exact .ends
    · refine .makes _ _ (TopicFs.keeps_mkdirPartition fs _ p) (fun r hr => ?_) (Or.inr (Or.inl ⟨p,rest,h,rfl⟩))
      unfold TopicFs.mkdirPartition at hr
      rw [TopicFs.onLive_live] at hr
      exact (TopicFs.mkdirTopic_live hr).imp_right (fun he => Or.inr ⟨_,he⟩)
  · rename_i h
    exact .makes fs _ (.refl fs) (fun _ hr => Or.inl hr) (Or.inr (Or.inr (Or.inr (Or.inl ⟨h,rfl⟩))))
  · rename_i n rest h
    refine .removes n rest h _ ?_
    split_ifs
    · exact Or.inl rfl
    · exact Or.inr rfl
  · rename_i h
    exact .makes fs _ (.refl fs) (fun _ hr => Or.inl hr)
      (Or.inr (Or.inr (Or.inr (Or.inr (Or.inr (Or.inl ⟨h,rfl⟩))))))
  · rename_i r rest h
    split_ifs
    · exact .ends
    · refine .makes _ _ (TopicFs.keeps_writeConfig fs r _) (fun r' hr => ?_)
        (Or.inr (Or.inr (Or.inr (Or.inr (Or.inl ⟨r,rest,h,rfl⟩)))))
      unfold TopicFs.writeConfig at hr
      rw [TopicFs.onLive_live] at hr
      refine (TopicFs.mkdirTopic_live hr).imp_right (fun he => Or.inl ?_)
      rw [he,h]
      exact List.mem_cons_self
  · rename_i h
    split
    · exact .ends
    · exact .patches none h (fun _ hr => by cases hr)
    · refine .patches _ h (fun run' hr => ?_)
      cases hr
      split_ifs
      · exact Or.inl rfl
      · exact Or.inr rfl
  · rename_i h
    exact .makes fs _ (.refl fs) (fun _ hr => Or.inl hr)
      (Or.inr (Or.inr (Or.inr (Or.inr (Or.inr (Or.inr ⟨h,rfl⟩))))))
  · rename_i r rest h
    split_ifs
    · exact .ends
    · exact .stamps r rest h
  · exact .ends

end Reconcile

end Kaas
