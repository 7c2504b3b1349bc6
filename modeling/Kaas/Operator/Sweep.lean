import Kaas.Operator.Topic

namespace Kaas

def clusterFilesDir : String := "__cluster"

def stagedDeletePrefix : String := ".deleting-"

def isStaged (name : String) : Bool := stagedDeletePrefix.toList.isPrefixOf name.toList

def isDotted (name : String) : Bool := ['.'].isPrefixOf name.toList

def stagedName (name : String) (nanos : Nat) : String := stagedDeletePrefix++name++"."++toString nanos

structure SweepReport where
  removed : List String := []
  failed : List String := []
  deriving DecidableEq, Repr

def SweepReport.sort (r : SweepReport) : SweepReport :=
  ⟨r.removed.insertionSort (·≤·),r.failed.insertionSort (·≤·)⟩

def SweepReport.extend (r s : SweepReport) : SweepReport := ⟨r.removed++s.removed,r.failed++s.failed⟩

inductive RemoveOutcome
  | removed
  | failed
  | vanished
  deriving DecidableEq, Repr

/-- A directory that the sweep tried to remove, and whether a resource of that name existed at that
moment. -/
structure Attempt where
  root : LogDir
  name : String
  outcome : RemoveOutcome
  owned : Bool
  deriving DecidableEq, Repr

/-- A pass behind its LIST: the roots that are left, the one it walks, and its reports of the roots
before and of this one. -/
structure SweepPass where
  keep : List String
  rest : List LogDir
  walking : Option LogDir := none
  report : SweepReport := {}
  current : SweepReport := {}
  attempts : List Attempt := []

def baseKeepSet : List String := [clusterFilesDir]

/-- The resources, the directories below each root, the pass that is under way and the passes that
have ended, with their results. -/
structure SweepWorld where
  roots : List LogDir
  dirs : LogDir → List String := fun _ => []
  topics : List KafkaTopic := []
  pass : Option SweepPass := none
  ended : List (Option SweepReport × SweepPass) := []

inductive ReadOutcome
  | ok
  | missing
  | failed
  deriving DecidableEq, Repr

inductive SweepOp
  | create (t : KafkaTopic)
  | delete (name : Option String)
  /-- a reconcile or a partition open creates a topic's path -/
  | mkdir (r : LogDir) (name : String)
  /-- a reconcile renames a stale directory aside -/
  | stage (r : LogDir) (name : String) (nanos : Nat)
  | list
  | readRoot (o : ReadOutcome)
  | visit (name : String) (removable : Bool)
  | endRoot

namespace SweepWorld

def owned (w : SweepWorld) (name : String) : Bool := w.topics.any (fun t => t.effectiveTopicName=name)

def addDir (w : SweepWorld) (r : LogDir) (name : String) : SweepWorld :=
  if name∈w.dirs r then w else {w with dirs := Function.update w.dirs r (name::w.dirs r)}

def dropDir (w : SweepWorld) (r : LogDir) (name : String) : SweepWorld :=
  {w with dirs := Function.update w.dirs r ((w.dirs r).filter (·≠name))}

/-- `remove_orphan`: a directory that is gone already is not reported. -/
def removeOrphan (w : SweepWorld) (p : SweepPass) (r : LogDir) (name : String) (removable : Bool) :
    SweepWorld :=
  if name∈w.dirs r then
    if removable then {w.dropDir r name with pass := some {p with
      current := {p.current with removed := p.current.removed++[name]}
      attempts := p.attempts++[⟨r,name,.removed,w.owned name⟩]}}
    else {w with pass := some {p with
      current := {p.current with failed := p.current.failed++[name]}
      attempts := p.attempts++[⟨r,name,.failed,w.owned name⟩]}}
  else {w with pass := some {p with attempts := p.attempts++[⟨r,name,.vanished,w.owned name⟩]}}

def visit (w : SweepWorld) (p : SweepPass) (r : LogDir) (name : String) (removable : Bool) : SweepWorld :=
  if isStaged name then w.removeOrphan p r name removable
  else if isDotted name ∨ name∈p.keep then w
  else w.removeOrphan p r name removable

def finish (w : SweepWorld) (p : SweepPass) (result : Option SweepReport) : SweepWorld :=
  {w with pass := none,ended := w.ended++[(result,p)]}

def readRoot (w : SweepWorld) (p : SweepPass) (o : ReadOutcome) : SweepWorld :=
  match p.rest,o with
  | [],_ => w.finish p (some p.report.sort)
  | r::rest,.ok => {w with pass := some {p with rest := rest,walking := some r,current := {}}}
  | _::rest,.missing => {w with pass := some {p with rest := rest}}
  | _::_,.failed => w.finish p none

def exec (w : SweepWorld) : SweepOp → SweepWorld
  | .create t => if w.topics.any (fun u => u.name=t.name) then w else {w with topics := t::w.topics}
  | .delete name => {w with topics := w.topics.filter (fun t => t.name≠name)}
  | .mkdir r name => w.addDir r name
  | .stage r name nanos => if name∈w.dirs r then (w.dropDir r name).addDir r (stagedName name nanos) else w
  | .list => match w.pass with
    | some _ => w
    | none => {w with pass := some {keep := baseKeepSet++w.topics.map (·.effectiveTopicName),rest := w.roots}}
  | .readRoot o => match w.pass with
    | some p => if p.walking=none then w.readRoot p o else w
    | none => w
  | .visit name removable => match w.pass with
    | some p => match p.walking with
      | some r => w.visit p r name removable
      | none => w
    | none => w
  | .endRoot => match w.pass with
    | some p => if p.walking=none then w
      else {w with pass := some {p with walking := none,report := p.report.extend p.current.sort,current := {}}}
    | none => w

end SweepWorld

def SweepStep (w : SweepWorld) (op : SweepOp) (w' : SweepWorld) : Prop := w.exec op=w'

/-- No topic has a staged directory's name, none is created behind the LIST of a pass that does not
keep its directory, and every root that is there can be read. -/
def SweepOk (w : SweepWorld) : SweepOp → Prop
  | .create t => isStaged t.effectiveTopicName=false ∧
      ∀p∈w.pass,t.effectiveTopicName∈p.keep ∨ isDotted t.effectiveTopicName=true
  | .readRoot o => o≠.failed
  | _ => True

def attempted (o : RemoveOutcome) (attempts : List Attempt) : List String :=
  (attempts.filter (fun a => a.outcome=o)).map (·.name)

/-- Every attempt is in exactly one of the two lists, unless the directory had vanished. -/
structure Accounts (attempts : List Attempt) (r : SweepReport) : Prop where
  removed : r.removed.Perm (attempted .removed attempts)
  failed : r.failed.Perm (attempted .failed attempts)

variable {attempts : List Attempt} {r : SweepReport}

theorem Accounts.sort (h : Accounts attempts r) : Accounts attempts r.sort :=
  ⟨(List.perm_insertionSort _ _).trans h.removed,(List.perm_insertionSort _ _).trans h.failed⟩

theorem attempted_append (o : RemoveOutcome) (attempts : List Attempt) (a : Attempt) :
    attempted o (attempts++[a])=attempted o attempts++(if a.outcome=o then [a.name] else []) := by
  unfold attempted
  rw [List.filter_append,List.map_append]
  congr 1
  by_cases h : a.outcome=o
  · simp [h]
  · simp [h]

theorem Accounts.attempt {s : SweepReport} (h : Accounts attempts (r.extend s))
    (a : Attempt) : Accounts (attempts++[a]) (r.extend
      ⟨s.removed++(if a.outcome=.removed then [a.name] else []),
        s.failed++(if a.outcome=.failed then [a.name] else [])⟩) := by
  refine ⟨?_,?_⟩
  · rw [attempted_append]
    change (r.removed++(s.removed++_)).Perm _
    rw [← List.append_assoc]
    exact h.removed.append_right _
  · rw [attempted_append]
    change (r.failed++(s.failed++_)).Perm _
    rw [← List.append_assoc]
    exact h.failed.append_right _

theorem Accounts.endRoot {s : SweepReport} (h : Accounts attempts (r.extend s)) :
    Accounts attempts ((r.extend s.sort).extend {}) := by
  refine ⟨?_,?_⟩
  · change ((r.removed++s.removed.insertionSort (·≤·))++[]).Perm _
    rw [List.append_nil]
    exact ((List.perm_insertionSort _ _).append_left _).trans h.removed
  · change ((r.failed++s.failed.insertionSort (·≤·))++[]).Perm _
    rw [List.append_nil]
    exact ((List.perm_insertionSort _ _).append_left _).trans h.failed

/-- What was removed belonged to no topic, was not to be kept and is not the cluster's. -/
def SweepPass.Harmless (p : SweepPass) : Prop :=
  ∀a∈p.attempts,a.outcome=.removed → a.owned=false ∧ a.name∉p.keep ∧ a.name≠clusterFilesDir

namespace SweepWorld

variable {w : SweepWorld} {p : SweepPass}

structure PassSound (topics : List KafkaTopic) (p : SweepPass) : Prop where
  cluster : clusterFilesDir∈p.keep
  live : ∀k∈p.keep,isStaged k=false
  kept : ∀t∈topics,t.effectiveTopicName∈p.keep ∨ isDotted t.effectiveTopicName=true
  harmless : p.Harmless
  accounts : Accounts p.attempts (p.report.extend p.current)

structure Sound (w : SweepWorld) : Prop where
  topics : ∀t∈w.topics,isStaged t.effectiveTopicName=false
  pass : ∀p∈w.pass,PassSound w.topics p ∧ (p.walking=none → p.current={})
  ended : ∀e∈w.ended,e.2.Harmless ∧ ∃r,e.1=some r ∧ Accounts e.2.attempts r

theorem Sound.replace {p' : SweepPass} {dirs : LogDir → List String} (h : Sound w)
    (hp : PassSound w.topics p') (hc : p'.walking=none → p'.current={}) :
    Sound {w with dirs := dirs,pass := some p'} :=
  ⟨h.topics,fun q hq => by cases hq; exact ⟨hp,hc⟩,h.ended⟩

theorem not_owned {name : String} (h : ∀t∈w.topics,t.effectiveTopicName≠name) : w.owned name=false := by
  unfold owned
  rw [List.any_eq_false]
  intro t ht
  exact fun he => h t ht (of_decide_eq_true he)

theorem PassSound.attempt {topics : List KafkaTopic} (h : PassSound topics p) (a : Attempt)
    (current : SweepReport)
    (hc : current=⟨p.current.removed++(if a.outcome=.removed then [a.name] else []),
      p.current.failed++(if a.outcome=.failed then [a.name] else [])⟩)
    (ha : a.outcome=.removed → a.owned=false ∧ a.name∉p.keep ∧ a.name≠clusterFilesDir) :
    PassSound topics {p with current := current,attempts := p.attempts++[a]} := by
  refine ⟨h.cluster,h.live,h.kept,?_,?_⟩
  · intro b hb
    rcases List.mem_append.mp hb with hold|hnew
    · exact h.harmless b hold
    · obtain rfl := List.mem_singleton.mp hnew
      exact ha
  · rw [hc]
    exact h.accounts.attempt a

theorem Sound.removeOrphan (h : Sound w) {r : LogDir} {name : String} (hp : PassSound w.topics p)
    (hr : p.walking=some r) (hn : w.owned name=false ∧ name∉p.keep ∧ name≠clusterFilesDir) (removable : Bool) :
    Sound (w.removeOrphan p r name removable) := by
  have walks {q : Prop} (he : p.walking=none) : q := by rw [hr] at he; cases he
  unfold SweepWorld.removeOrphan
  split_ifs
  · refine h.replace (hp.attempt ⟨r,name,.removed,w.owned name⟩ _ ?_ (fun _ => hn)) walks
    simp
  · refine h.replace (hp.attempt ⟨r,name,.failed,w.owned name⟩ _ ?_ (fun he => by cases he)) walks
    simp
  · refine h.replace (hp.attempt ⟨r,name,.vanished,w.owned name⟩ p.current ?_ (fun he => by cases he)) walks
    simp

theorem Sound.visit (h : Sound w) (hp : PassSound w.topics p) {r : LogDir} (hr : p.walking=some r)
    (name : String) (removable : Bool) : Sound (w.visit p r name removable) := by
  unfold SweepWorld.visit
  split_ifs with hstaged hskip
  · have hkeep : name∉p.keep := by
      intro hk
      rw [hp.live name hk] at hstaged
      cases hstaged
    refine h.removeOrphan hp hr ⟨not_owned fun t ht he => ?_,hkeep,fun he => hkeep (he ▸ hp.cluster)⟩ removable
    rw [← he,h.topics t ht] at hstaged
    cases hstaged
  · exact h
  · rw [not_or] at hskip
    refine h.removeOrphan hp hr
      ⟨not_owned fun t ht he => ?_,hskip.2,fun he => hskip.2 (he ▸ hp.cluster)⟩ removable
    rcases hp.kept t ht with hk|hd
    · exact hskip.2 (he ▸ hk)
    · exact hskip.1 (he ▸ hd)

theorem Sound.readRoot (h : Sound w) (hp : PassSound w.topics p) (hc : p.current={})
    {o : ReadOutcome} (ho : o≠.failed) : Sound (w.readRoot p o) := by
  have hrep : Accounts p.attempts p.report := by
    have := hp.accounts
    rw [hc] at this
    refine ⟨?_,?_⟩
    · have hr := this.removed
      rwa [show (p.report.extend {}).removed=p.report.removed from List.append_nil _] at hr
    · have hf := this.failed
      rwa [show (p.report.extend {}).failed=p.report.failed from List.append_nil _] at hf
  unfold SweepWorld.readRoot
  split
  · refine ⟨h.topics,fun q hq => (by cases hq),?_⟩
    intro e he
    rcases List.mem_append.mp he with hold|hnew
    · exact h.ended e hold
    · obtain rfl := List.mem_singleton.mp hnew
      exact ⟨hp.harmless,_,rfl,hrep.sort⟩
  · rename_i r rest hrest
    refine h.replace ⟨hp.cluster,hp.live,hp.kept,hp.harmless,?_⟩ (fun _ => rfl)
    have := hp.accounts
    rw [hc] at this
    exact this
  · exact h.replace ⟨hp.cluster,hp.live,hp.kept,hp.harmless,hp.accounts⟩ (fun _ => hc)
  · exact absurd rfl ho

theorem Sound.resources (h : Sound w) {topics : List KafkaTopic}
    (hstaged : ∀t∈topics,isStaged t.effectiveTopicName=false)
    (hkept : ∀p∈w.pass,∀t∈topics,t.effectiveTopicName∈p.keep ∨ isDotted t.effectiveTopicName=true) :
    Sound {w with topics := topics} := by
  refine ⟨hstaged,fun p hp => ?_,h.ended⟩
  obtain ⟨hs,hc⟩ := h.pass p hp
  exact ⟨⟨hs.cluster,hs.live,hkept p hp,hs.harmless,hs.accounts⟩,hc⟩

theorem Sound.relocate (h : Sound w) (dirs : LogDir → List String) : Sound {w with dirs := dirs} :=
  ⟨h.topics,h.pass,h.ended⟩

theorem Sound.addDir (h : Sound w) (r : LogDir) (name : String) : Sound (w.addDir r name) := by
  unfold SweepWorld.addDir
  split_ifs
  · exact h
  · exact h.relocate _

theorem Sound.list (h : Sound w) :
    Sound {w with pass := some {keep := baseKeepSet++w.topics.map (·.effectiveTopicName),rest := w.roots}} := by
  refine h.replace ⟨List.mem_append_left _ (List.mem_singleton_self _),?_,?_,?_,?_⟩ (fun _ => rfl)
  · intro k hk
    rcases List.mem_append.mp hk with hbase|htopic
    · rw [List.mem_singleton.mp hbase]
      decide
    · obtain ⟨t,ht,rfl⟩ := List.mem_map.mp htopic
      exact h.topics t ht
  · intro t ht
    exact Or.inl (List.mem_append_right _ (List.mem_map_of_mem ht))
  · intro a ha
    cases ha
  · exact ⟨.refl _,.refl _⟩

theorem Sound.exec (h : Sound w) {op : SweepOp} (hok : SweepOk w op) : Sound (w.exec op) := by
  cases op with
  | create t =>
    simp only [SweepWorld.exec]
    split_ifs
    · exact h
    · refine h.resources ?_ ?_
      · intro u hu
        rcases List.mem_cons.mp hu with rfl|hold
        · exact hok.1
        · exact h.topics u hold
      · intro p hp u hu
        rcases List.mem_cons.mp hu with rfl|hold
        · exact hok.2 p hp
        · exact (h.pass p hp).1.kept u hold
  | delete name =>
    refine h.resources ?_ ?_
    · exact fun t ht => h.topics t (List.mem_filter.mp ht).1
    · exact fun p hp t ht => (h.pass p hp).1.kept t (List.mem_filter.mp ht).1
  | mkdir r name => exact h.addDir r name
  | stage r name nanos =>
    simp only [SweepWorld.exec]
    split_ifs
    · exact (h.relocate _).addDir r _
    · exact h
  | list =>
    simp only [SweepWorld.exec]
    split
    · exact h
    · exact h.list
  | readRoot o =>
    simp only [SweepWorld.exec]
    split
    · rename_i p hp
      split_ifs with hw
      · exact h.readRoot (h.pass p hp).1 ((h.pass p hp).2 hw) hok
      · exact h
    · exact h
  | visit name removable =>
    simp only [SweepWorld.exec]
    split
    · rename_i p hp
      split
      · rename_i r hr
        exact h.visit (h.pass p hp).1 hr name removable
      · exact h
    · exact h
  | endRoot =>
    simp only [SweepWorld.exec]
    split
    · rename_i p hp
      split_ifs
      · exact h
      · have hs := (h.pass p hp).1
        exact h.replace ⟨hs.cluster,hs.live,hs.kept,hs.harmless,hs.accounts.endRoot⟩ (fun _ => rfl)
    · exact h

end SweepWorld

/-- In every interleaving of passes with creations, reconciles and opens that keeps to the
condition, a pass removes no directory of a topic that exists then, none that it keeps and never the
cluster's, and accounts for every attempt. -/
theorem sweep_harmless {roots : List LogDir} {dirs : LogDir → List String}
    {topics : List KafkaTopic} {w : SweepWorld} (h : ∀t∈topics,isStaged t.effectiveTopicName=false)
    (hrun : Reaches SweepStep SweepOk {roots := roots,dirs := dirs,topics := topics} w) :
    (∀p∈w.pass,p.Harmless) ∧
    ∀e∈w.ended,e.2.Harmless ∧ ∃r,e.1=some r ∧ Accounts e.2.attempts r := by
  have hs : w.Sound := by
    refine hrun.invariant ⟨h,fun _ hp => (by cases hp),fun _ he => (by cases he)⟩ ?_
    intro u op u' hu hok hstep
    rw [← hstep]
    exact hu.exec hok
  exact ⟨fun p hp => (hs.pass p hp).1.harmless,hs.ended⟩

instance (w : SweepWorld) : (op : SweepOp) → Decidable (SweepOk w op)
  | .create _ => inferInstanceAs (Decidable (_ ∧ ∀p∈_,_))
  | .readRoot _ => inferInstanceAs (Decidable (_≠_))
  | .delete _ | .mkdir _ _ | .stage _ _ _ | .list | .visit _ _ | .endRoot => .isTrue trivial

def topicNamed (name : String) : KafkaTopic := {name := some name,spec := {partitions := 1}}

theorem orphans_swept :
    ∃w,Reaches SweepStep SweepOk {
        roots := [.dataDir,.extra "pool"]
        dirs := fun _ => ["__cluster","orders","gone",".deleting-old.1"]
        topics := [topicNamed "orders"]} w ∧
      w.ended.map (·.1)=[some ⟨[".deleting-old.1",".deleting-old.1","gone"],["gone"]⟩] ∧
      w.owned "orders"=true ∧ ∀e∈w.ended,e.2.Harmless ∧ ∃r,e.1=some r ∧ Accounts e.2.attempts r := by
  refine runChecked_finds_of (f := SweepWorld.exec) (P := fun _ => _ ∧ _) (fun _ _ => rfl) [
    .list,.delete (some "orders"),.create (topicNamed "orders"),.readRoot .ok,.visit "__cluster" true,
    .visit "orders" true,.visit "gone" true,.visit ".deleting-old.1" true,.endRoot,.readRoot .ok,
    .visit "gone" false,.visit ".deleting-old.1" true,.endRoot,.readRoot .ok] (by decide +kernel)
    fun _ hreach h => ⟨h.1,h.2,(sweep_harmless (by decide) hreach).2⟩

/-- A topic created behind the LIST loses its directory; so does one with the name of a staged
directory; and a root that cannot be read takes the report of the roots before it along. -/
theorem live_topic_swept :
    (∃w p a,Reaches SweepStep (fun _ _ => True) {roots := [.dataDir]} w ∧ w.pass=some p ∧
      a∈p.attempts ∧ a.outcome=.removed ∧ a.owned=true) ∧
    (∃w p a,Reaches SweepStep (fun _ _ => True) {roots := [.dataDir]} w ∧ w.pass=some p ∧
      a∈p.attempts ∧ a.outcome=.removed ∧ a.owned=true ∧ a.name∈p.keep) ∧
    ∃w e,Reaches SweepStep (fun _ _ => True) {roots := [.dataDir,.extra "pool"],dirs := fun _ => ["gone"]} w ∧
      e∈w.ended ∧ attempted .removed e.2.attempts=["gone"] ∧ e.1=none := by
  refine ⟨?_,?_,?_⟩
  · obtain ⟨w,hreach,p,hp,a,h⟩ : ∃w,Reaches SweepStep (fun _ _ => True) {roots := [.dataDir]} w ∧
        ∃p∈w.pass,∃a∈p.attempts,a.outcome=.removed ∧ a.owned=true :=
      runChecked_finds (f := SweepWorld.exec) (fun _ _ => rfl) [.list,.create (topicNamed "orders"),
        .mkdir .dataDir "orders",.readRoot .ok,.visit "orders" true] (by decide +kernel)
    exact ⟨w,p,a,hreach,hp,h⟩
  · obtain ⟨w,hreach,p,hp,a,h⟩ : ∃w,Reaches SweepStep (fun _ _ => True) {roots := [.dataDir]} w ∧
        ∃p∈w.pass,∃a∈p.attempts,a.outcome=.removed ∧ a.owned=true ∧ a.name∈p.keep :=
      runChecked_finds (f := SweepWorld.exec) (fun _ _ => rfl) [.create (topicNamed ".deleting-orders"),
        .mkdir .dataDir ".deleting-orders",.list,.readRoot .ok,.visit ".deleting-orders" true]
          (by decide +kernel)
    exact ⟨w,p,a,hreach,hp,h⟩
  · obtain ⟨w,hreach,e,h⟩ : ∃w,Reaches SweepStep (fun _ _ => True)
        {roots := [.dataDir,.extra "pool"],dirs := fun _ => ["gone"]} w ∧
        ∃e∈w.ended,attempted .removed e.2.attempts=["gone"] ∧ e.1=none :=
      runChecked_finds (f := SweepWorld.exec) (fun _ _ => rfl)
        [.list,.readRoot .ok,.visit "gone" true,.endRoot,.readRoot .failed] (by decide +kernel)
    exact ⟨w,e,hreach,h⟩

end Kaas
