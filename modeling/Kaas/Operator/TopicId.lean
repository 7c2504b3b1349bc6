import Kaas.Operator.Topic

namespace Kaas

/-- One `KafkaTopic`: the object and its earlier versions, newest first, the directories of its
name, the reconcile under way, and the first id its status had. -/
structure TopicHistory where
  object : KafkaTopic
  earlier : List KafkaTopic := []
  fs : TopicFs := {}
  run : Option Reconcile := none
  first : Option String := none

inductive TopicHistoryOp
  | edit (spec : KafkaTopicSpec) (deletion : Option String)
  | setPartitionLogDir (partition : Nat) (logDir : String)
  /-- a reconcile that is handed the version so many versions back -/
  | start (back : Nat) (generated now : String)
  | step (o : StepOutcome)
  | crash
  /-- a broker opens a partition and creates its path -/
  | mkdir (r : LogDir) (p : Nat)

def nonemptyId (id : String) : Option String := if id="" then none else some id

namespace TopicHistory

def record (w : TopicHistory) (t : KafkaTopic) : TopicHistory := {w with
  object := t
  earlier := w.object::w.earlier
  first := w.first.or (nonemptyId t.topicId)}

def patched (w : TopicHistory) : Option KafkaTopicStatus → TopicHistory
  | none => w
  | some status => w.record {w.object with status := some status}

def exec (pool : List LogDirInfo) (w : TopicHistory) : TopicHistoryOp → TopicHistory
  | .edit spec deletion => w.record {w.object with spec := spec,deletionTimestamp := deletion}
  | .setPartitionLogDir partition logDir => w.record {w.object with status := some {w.object.status.getD {} with
      volumeAssignments := (w.object.status.getD {}).volumeAssignments.insert (toString partition) logDir}}
  | .start back generated now => match w.run,(w.object::w.earlier)[back]? with
    | none,some t => {w with run := startReconcile pool t generated now}
    | _,_ => w
  | .step o => match w.run with
    | none => w
    | some run => ({w with fs := (run.step pool w.fs o).fs,run := (run.step pool w.fs o).run} : TopicHistory).patched
        (run.step pool w.fs o).patch
  | .crash => {w with run := none}
  | .mkdir r p => {w with fs := w.fs.mkdirPartition r p}

end TopicHistory

def TopicHistoryStep (pool : List LogDirInfo) (w : TopicHistory) (op : TopicHistoryOp)
    (w' : TopicHistory) : Prop :=
  w.exec pool op=w'

def TopicHistoryOk (w : TopicHistory) : TopicHistoryOp → Prop
  | .start back _ _ => ∀t∈(w.object::w.earlier)[back]?,t.topicId=w.object.topicId
  | _ => True

namespace TopicHistory

variable {pool : List LogDirInfo} {w : TopicHistory} {run : Reconcile}

def Foreign (fs : TopicFs) (id : String) (n : Nat) : Prop :=
  n<fs.next ∧ ∃i,(fs.nodes n).stamp=.present i ∧ i≠"" ∧ i≠id

theorem Foreign.keeps {fs fs' : TopicFs} {id : String} {n : Nat} (h : Foreign fs id n)
    (hk : fs.Keeps fs') : Foreign fs' id n := by
  obtain ⟨hlt,i,hi,hne⟩ := h
  exact ⟨hlt.trans_le hk.next,i,(hk.stamp n hlt).trans hi,hne⟩

def Due (id held : String) : Prop := held="" ∨ id=held

def StageSound (fs : TopicFs) (held : String) (run : Reconcile) : Prop :=
  match run.stage with
  | .reject status => status.topicId=held
  | .reclaim _ => Due run.plan.topicId held ∧ ∀n∈run.staged,Foreign fs run.plan.topicId n
  | .mkdir _ => Due run.plan.topicId held ∧ ∀n∈run.staged,Foreign fs run.plan.topicId n
  | .remove rest => Due run.plan.topicId held ∧ ∀n∈rest,Foreign fs run.plan.topicId n
  | .config _ => Due run.plan.topicId held
  | .patch => Due run.plan.topicId held
  | .stamp _ => run.plan.topicId=held
  | .done => True

structure RunSound (fs : TopicFs) (held : String) (run : Reconcile) : Prop where
  status : run.plan.status.topicId=run.plan.topicId
  stage : StageSound fs held run

theorem RunSound.keeps {fs fs' : TopicFs} {held : String} (h : RunSound fs held run)
    (hk : fs.Keeps fs') : RunSound fs' held run := by
  refine ⟨h.status,?_⟩
  have hs := h.stage
  unfold StageSound at hs ⊢
  cases hstage : run.stage with
  | reclaim rest | mkdir rest | remove rest =>
    rw [hstage] at hs
    exact ⟨hs.1,fun n hn => (hs.2 n hn).keeps hk⟩
  | reject status | config rest | patch | stamp rest | done =>
    rw [hstage] at hs
    exact hs

theorem runSound_start {t : KafkaTopic} {generated now : String} (fs : TopicFs)
    (h : startReconcile pool t generated now=some run) : RunSound fs t.topicId run := by
  obtain ⟨hid,hstatus,_,hstaged,hstage⟩ := startReconcile_spec h
  refine ⟨hstatus,?_⟩
  unfold StageSound
  rcases hstage with ⟨status,hr,hs⟩|hr
  · rw [hr]
    exact hs
  · rw [hr]
    dsimp only
    rw [hstaged]
    refine ⟨?_,fun n hn => by cases hn⟩
    by_cases h0 : t.topicId=""
    · exact Or.inl h0
    · rw [if_pos h0] at hid
      exact Or.inr hid

structure Guards (held : String) (fs fs' : TopicFs) : Prop where
  live : ∀r n,fs.live r=some n → (fs.nodes n).stamp=.present held →
    fs'.live r=some n ∧ (fs'.nodes n).stamp=.present held
  staged : ∀n∈fs.staged,(fs.nodes n).stamp=.present held → n∈fs'.staged ∧ (fs'.nodes n).stamp=.present held

theorem Guards.of_keeps {held : String} {fs fs' : TopicFs} (h : fs.Keeps fs') : Guards held fs fs' := by
  refine ⟨fun r n hn hs => ⟨h.live r n hn,?_⟩,fun n hn hs => ⟨by rw [h.staged]; exact hn,?_⟩⟩
  · rw [h.stamp n (fs.live_lt r n hn)]
    exact hs
  · rw [h.stamp n (fs.staged_lt n hn)]
    exact hs

def heldAfter (held : String) : Option KafkaTopicStatus → String
  | none => held
  | some status => status.topicId

/-- What a step of a sound run does: the directories of the held id are guarded, an id that is held
stays, and the rest of the run is sound again. -/
structure StepGuards (fs : TopicFs) (held : String) (e : StepEffect) : Prop where
  guards : held≠"" → Guards held fs e.fs
  kept : held≠"" → heldAfter held e.patch=held
  run : ∀run'∈e.run,RunSound e.fs (heldAfter held e.patch) run'

section Step

variable {fs : TopicFs} {held : String} {o : StepOutcome} {e : StepEffect} {r : LogDir}
    (h : RunSound fs held run)
include h

theorem guards_stages {rest : List LogDir} (hs : run.stage=.reclaim (r::rest))
    (hstale : TopicIdentity.classify (fs.stamp r) run.plan.topicId=.ok .stale) :
    StepGuards fs held ⟨fs.vacated r true,some {run with
      stage := .reclaim rest
      identity := .stale
      staged := run.staged++(fs.live r).toList},none⟩ := by
  obtain ⟨hdue,hstaged⟩ : Due run.plan.topicId held ∧ ∀n∈run.staged,Foreign fs run.plan.topicId n := by
    have hstage := h.stage
    unfold StageSound at hstage
    rw [hs] at hstage
    exact hstage
  obtain ⟨i,hi,hi0,hi1⟩ := TopicIdentity.classify_stale.mp hstale
  refine ⟨fun h0 => ⟨?_,?_⟩,fun _ => rfl,?_⟩
  · intro r' n hn hheld
    -- the directory under `r` has the stamp of another incarnation
    have hne : r'≠r := by
      intro heq
      rw [heq] at hn
      rw [TopicFs.stamp_of_live hn,hheld] at hi
      exact hi1 ((JsonFile.present.inj hi).symm.trans (hdue.resolve_left h0).symm)
    exact ⟨(Function.update_of_ne hne _ _).trans hn,hheld⟩
  · intro n hn hheld
    exact ⟨List.mem_append_left _ hn,hheld⟩
  · intro run' hr
    cases hr
    refine ⟨h.status,hdue,fun n hn => ?_⟩
    rcases List.mem_append.mp hn with hold|hnew
    · exact hstaged n hold
    · have hlive := Option.mem_toList.mp hnew
      exact ⟨fs.live_lt r n hlive,i,(TopicFs.stamp_of_live hlive).symm.trans hi,hi0,hi1⟩

theorem guards_removes {n : Nat} {rest : List Nat} (hs : run.stage=.remove (n::rest))
    {fs' : TopicFs} (hfs : fs'=fs ∨ fs'=fs.removeStaged n) :
    StepGuards fs held ⟨fs',some {run with stage := .remove rest},none⟩ := by
  obtain ⟨hdue,hrest⟩ : Due run.plan.topicId held ∧ ∀m∈n::rest,Foreign fs run.plan.topicId m := by
    have hstage := h.stage
    unfold StageSound at hstage
    rw [hs] at hstage
    exact hstage
  obtain ⟨_,i,hi,_,hi1⟩ := hrest n List.mem_cons_self
  have hsame : fs'.live=fs.live ∧ fs'.nodes=fs.nodes ∧ fs'.next=fs.next := by
    rcases hfs with rfl|rfl
    · exact ⟨rfl,rfl,rfl⟩
    · exact ⟨rfl,rfl,rfl⟩
  refine ⟨fun h0 => ⟨?_,?_⟩,fun _ => rfl,?_⟩
  · intro r m hm hheld
    rw [hsame.1,hsame.2.1]
    exact ⟨hm,hheld⟩
  · intro m hm hheld
    rw [hsame.2.1]
    refine ⟨?_,hheld⟩
    rcases hfs with rfl|rfl
    · exact hm
    · refine List.mem_filter.mpr ⟨hm,decide_eq_true ?_⟩
      rintro rfl
      rw [hheld] at hi
      exact hi1 ((JsonFile.present.inj hi).symm.trans (hdue.resolve_left h0).symm)
  · intro run' hr
    cases hr
    refine ⟨h.status,hdue,fun m hm => ?_⟩
    obtain ⟨hlt,hforeign⟩ := hrest m (List.mem_cons_of_mem _ hm)
    refine ⟨by rw [hsame.2.2]; exact hlt,?_⟩
    rw [hsame.2.1]
    exact hforeign

theorem guards_stamps {rest : List LogDir} (hs : run.stage=.stamp (r::rest)) :
    StepGuards fs held ⟨fs.writeIdentity r run.plan.topicId,some {run with stage := .stamp rest},none⟩ := by
  have hid : run.plan.topicId=held := by
    have hstage := h.stage
    unfold StageSound at hstage
    rw [hs] at hstage
    exact hstage
  refine ⟨fun _ => ?_,fun _ => rfl,fun run' hr => by cases hr; exact ⟨h.status,hid⟩⟩
  have hk := TopicFs.keeps_mkdirTopic fs r
  have hstamp (n : Nat) (hn : n<fs.next) (hheld : (fs.nodes n).stamp=.present held) :
      ((fs.writeIdentity r run.plan.topicId).nodes n).stamp=.present held := by
    unfold TopicFs.writeIdentity
    rw [TopicFs.onLive_nodes]
    split_ifs
    · exact congrArg JsonFile.present hid
    · exact (hk.stamp n hn).trans hheld
  refine ⟨fun r' n hn hheld => ⟨?_,hstamp n (fs.live_lt r' n hn) hheld⟩,
    fun n hn hheld => ⟨?_,hstamp n (fs.staged_lt n hn) hheld⟩⟩
  · unfold TopicFs.writeIdentity
    rw [TopicFs.onLive_live]
    exact hk.live r' n hn
  · unfold TopicFs.writeIdentity
    rw [TopicFs.onLive_staged,hk.staged]
    exact hn

theorem step_guards (he : run.Steps pool fs o e) : StepGuards fs held e := by
  have hs := h.stage
  unfold StageSound at hs
  cases he with
  | ends => exact ⟨fun _ => .of_keeps (.refl fs),fun _ => rfl,fun _ hr => by cases hr⟩
  | rejected status rest stage_eq hrest =>
    rw [stage_eq] at hs
    refine ⟨fun _ => .of_keeps (.refl fs),fun _ => hs,fun run' hr => ?_⟩
    rw [hrest run' hr]
    exact ⟨h.status,trivial⟩
  | adopts r rest v stage_eq known =>
    rw [stage_eq] at hs
    refine ⟨fun _ => .of_keeps (.refl fs),fun _ => rfl,fun run' hr => ?_⟩
    cases hr
    exact ⟨h.status,hs⟩
  | stages r rest stage_eq stale => exact guards_stages h stage_eq stale
  | makes fs' stage keeps _ order =>
    refine ⟨fun _ => .of_keeps keeps,fun _ => rfl,fun run' hr => ?_⟩
    cases hr
    refine ⟨h.status,?_⟩
    unfold StageSound
    rcases order with ⟨h1,rfl⟩|⟨p,rest,h1,rfl⟩|⟨h1,rfl⟩|⟨h1,rfl⟩|⟨r,rest,h1,rfl⟩|⟨h1,rfl⟩|⟨h1,rfl⟩
    all_goals rw [h1] at hs
    · exact ⟨hs.1,fun n hn => (hs.2 n hn).keeps keeps⟩
    · exact ⟨hs.1,fun n hn => (hs.2 n hn).keeps keeps⟩
    · exact ⟨hs.1,fun n hn => (hs.2 n hn).keeps keeps⟩
    · exact hs.1
    · exact hs
    · exact hs
    · trivial
  | removes n rest stage_eq fs' hfs => exact guards_removes h stage_eq hfs
  | patches rest stage_eq hrest =>
    rw [stage_eq] at hs
    refine ⟨fun _ => .of_keeps (.refl fs),fun h0 => h.status.trans (hs.resolve_left h0),fun run' hr => ?_⟩
    rcases hrest run' hr with rfl|rfl
    · exact ⟨h.status,h.status.symm⟩
    · exact ⟨h.status,trivial⟩
  | stamps r rest stage_eq => exact guards_stamps h stage_eq

end Step

structure Sound (w : TopicHistory) : Prop where
  first : w.first=nonemptyId w.object.topicId
  run : ∀run∈w.run,RunSound w.fs w.object.topicId run

theorem or_nonemptyId {held id : String} (h : held≠"" → id=held) :
    (nonemptyId held).or (nonemptyId id)=nonemptyId id := by
  by_cases h0 : held=""
  · rw [h0]
    rfl
  · rw [h h0]
    unfold nonemptyId
    rw [if_neg h0]
    rfl

theorem Sound.recorded (h : Sound w) {t : KafkaTopic} {run : Option Reconcile} {fs : TopicFs}
    (hid : w.object.topicId≠"" → t.topicId=w.object.topicId) (hrun : ∀run'∈run,RunSound fs t.topicId run') :
    Sound (({w with fs := fs,run := run} : TopicHistory).record t) := by
  refine ⟨?_,hrun⟩
  change w.first.or (nonemptyId t.topicId)=_
  rw [h.first]
  exact or_nonemptyId hid

theorem Sound.exec (h : Sound w) {op : TopicHistoryOp} (hok : TopicHistoryOk w op) :
    Sound (w.exec pool op) ∧ (w.object.topicId≠"" → Guards w.object.topicId w.fs (w.exec pool op).fs) := by
  have stays {fs : TopicFs} (hk : w.fs.Keeps fs) : w.object.topicId≠"" → Guards w.object.topicId w.fs fs :=
    fun _ => .of_keeps hk
  cases op with
  | edit spec deletion | setPartitionLogDir partition logDir =>
    exact ⟨h.recorded (fun _ => rfl) h.run,stays (.refl w.fs)⟩
  | start back generated now =>
    unfold TopicHistory.exec
    dsimp only
    split
    · rename_i t hrun ht
      refine ⟨⟨h.first,fun run hr => ?_⟩,stays (.refl w.fs)⟩
      have hsound := runSound_start w.fs hr
      rw [hok t ht] at hsound
      exact hsound
    · exact ⟨h,stays (.refl w.fs)⟩
  | step o =>
    unfold TopicHistory.exec
    dsimp only
    cases hrun : w.run with
    | none => exact ⟨h,stays (.refl w.fs)⟩
    | some run =>
      obtain ⟨hguards,hheld,hnext⟩ := step_guards (h.run run hrun) (Reconcile.step_cases pool w.fs run o)
      dsimp only
      cases hp : (run.step pool w.fs o).patch with
      | none =>
        rw [hp] at hnext
        exact ⟨⟨h.first,hnext⟩,hguards⟩
      | some status =>
        rw [hp] at hheld hnext
        exact ⟨h.recorded hheld hnext,hguards⟩
  | crash => exact ⟨⟨h.first,fun _ hr => by cases hr⟩,stays (.refl w.fs)⟩
  | mkdir r p =>
    have hk := TopicFs.keeps_mkdirPartition w.fs r p
    exact ⟨⟨h.first,fun run hr => (h.run run hr).keeps hk⟩,stays hk⟩

end TopicHistory

/-- While every reconcile is handed a version that has the current id: the first id stays, and no
step moves or removes a directory that carries it. -/
theorem topicId_kept {pool : List LogDirInfo} {t : KafkaTopic} {fs : TopicFs} {w : TopicHistory}
    (hrun : Reaches (TopicHistoryStep pool) TopicHistoryOk
      {object := t,fs := fs,first := nonemptyId t.topicId} w) :
    (∀id,w.first=some id → w.object.topicId=id) ∧
    ∀op,TopicHistoryOk w op → w.object.topicId≠"" →
      TopicHistory.Guards w.object.topicId w.fs (w.exec pool op).fs := by
  have hs : w.Sound := by
    refine hrun.invariant ⟨rfl,fun _ hr => by cases hr⟩ ?_
    intro u op u' hu hok hstep
    rw [← hstep]
    exact (hu.exec hok).1
  refine ⟨?_,fun op hok => (hs.exec hok).2⟩
  intro id hid
  rw [hs.first] at hid
  unfold nonemptyId at hid
  split_ifs at hid
  exact Option.some.inj hid

instance (w : TopicHistory) : (op : TopicHistoryOp) → Decidable (TopicHistoryOk w op)
  | .start _ _ _ => inferInstanceAs (Decidable (∀t∈_,_))
  | .edit _ _ | .setPartitionLogDir _ _ | .step _ | .crash | .mkdir _ _ => .isTrue trivial

def newTopic : KafkaTopic := {name := some "orders",spec := {partitions := 1}}

def reconcileSteps : List TopicHistoryOp := List.replicate 11 (.step .ok)

theorem topicId_kept_through_edit : ∃w,Reaches (TopicHistoryStep []) TopicHistoryOk
      {object := newTopic,first := nonemptyId newTopic.topicId} w ∧
      w.first=some "id-a" ∧ w.object.topicId="id-a" ∧ w.fs.stamp .dataDir=.present "id-a" ∧
      TopicHistory.Guards w.object.topicId w.fs (w.exec [] (.step .ok)).fs := by
  obtain ⟨w,hreach,hfirst,hstamp⟩ : ∃w,Reaches (TopicHistoryStep []) TopicHistoryOk
      {object := newTopic,first := nonemptyId newTopic.topicId} w ∧
      w.first=some "id-a" ∧ w.fs.stamp .dataDir=.present "id-a" := by
    refine runChecked_finds (f := TopicHistory.exec []) (fun _ _ => rfl)
      (.start 0 "id-a" "t0"::reconcileSteps++[.edit {partitions := 2} none,.start 1 "id-b" "t1",.step .ok]) ?_
    decide +kernel
  obtain ⟨hkept,hguards⟩ := topicId_kept hreach
  have hid := hkept "id-a" hfirst
  exact ⟨w,hreach,hfirst,hid,hstamp,hguards (.step .ok) trivial (by rw [hid]; decide)⟩

/-- A reconcile that is handed the version before the first status patch mints another id: it
renames the directory of the held id aside, and its own patch replaces the id. -/
theorem topicId_replaced : (∃w,Reaches (TopicHistoryStep []) (fun _ _ => True)
        {object := newTopic,first := nonemptyId newTopic.topicId} w ∧
      w.object.topicId="id-a" ∧ w.fs.stamp .dataDir=.present "id-a" ∧
      (w.exec [] (.step .ok)).fs.live .dataDir=none) ∧
    ∃w,Reaches (TopicHistoryStep []) (fun _ _ => True)
        {object := newTopic,first := nonemptyId newTopic.topicId} w ∧
      w.first=some "id-a" ∧ w.object.topicId="id-b" := by
  constructor
  · refine runChecked_finds (f := TopicHistory.exec []) (fun _ _ => rfl)
      (.start 0 "id-a" "t0"::reconcileSteps++[.start 1 "id-b" "t1"]) ?_
    decide +kernel
  · refine runChecked_finds (f := TopicHistory.exec []) (fun _ _ => rfl)
      (.start 0 "id-a" "t0"::reconcileSteps++.start 1 "id-b" "t1"::reconcileSteps) ?_
    decide +kernel

end Kaas
