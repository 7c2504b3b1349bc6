import Kaas.Math.Paths
import Kaas.Operator.Sweep

namespace Kaas

/-! From the name a client sends to the resource. -/

def isLowerAlnum (c : Char) : Bool := c.isLower || c.isDigit

def isRfc1123Subdomain (s : List Char) : Bool :=
  s≠[] && (s.splitOn '.').all fun label =>
    label≠[] && label.head?.all isLowerAlnum && label.getLast?.all isLowerAlnum &&
      label.all fun c => isLowerAlnum c || c== '-'

def hexByte (b : UInt8) : List Char := [Nat.digitChar (b.toNat/16),Nat.digitChar (b.toNat%16)]

def nameForCr (sha1 : List UInt8 → List UInt8) (kafkaName : String) : String × String :=
  if kafkaName.utf8ByteSize≤253 ∧ isRfc1123Subdomain kafkaName.toList=true then (kafkaName,"")
  else ("kaas-topic-"++String.ofList (((sha1 kafkaName.toUTF8.toList).take 8).flatMap hexByte),kafkaName)

def buildCr (sha1 : List UInt8 → List UInt8) (name : String) (partitions : Int)
    (config : KafkaTopicConfig) : KafkaTopic :=
  {name := some (nameForCr sha1 name).1,
   spec := {topicName := (nameForCr sha1 name).2,partitions := partitions,config := config}}

def schemaAdmits (t : KafkaTopic) : Bool := t.spec.topicName.length≤249

theorem effectiveTopicName_buildCr {sha1 : List UInt8 → List UInt8} {name : String} (h : name≠"")
    (partitions : Int)
    (config : KafkaTopicConfig) : (buildCr sha1 name partitions config).effectiveTopicName=name := by
  unfold KafkaTopic.effectiveTopicName buildCr nameForCr
  split_ifs with h1 h2
  · exact absurd rfl h2
  · rfl
  · rfl

def nul : Char := Char.ofNat 0

structure LogRoot where
  path : List Char
  absolute : path.head?=some '/'

theorem LogRoot.path_ne_nil (r : LogRoot) : r.path≠[] := by
  intro h
  have := r.absolute
  rw [h] at this
  cases this

def PlainName := {c : Paths.Name // Paths.Plain c}

/-- What the operator and the brokers do with a topic's directories, again and again. -/
inductive TopicPathOp
  | mkdir (r : LogRoot) (p : Nat)
  | stage (r : LogRoot) (nanos : Nat)
  | writeConfig (r : LogRoot)
  | writeIdentity (r : LogRoot)
  /-- a broker opens a partition and works on one of its files -/
  | openPartition (r : LogRoot) (p : Nat) (file : PlainName)

def TopicPathOp.root : TopicPathOp → LogRoot
  | .mkdir r _ => r
  | .stage r _ => r
  | .writeConfig r => r
  | .writeIdentity r => r
  | .openPartition r _ _ => r

def topicDir (r : LogRoot) (name : String) : List Char := Paths.join r.path name.toList

def partitionPath (r : LogRoot) (name : String) (p : Nat) : List Char :=
  Paths.join (topicDir r name) (toString p).toList

def atomicWritePaths (dir : List Char) (file : String) : List (List Char) :=
  [dir,Paths.join dir (file++".tmp").toList,Paths.join dir file.toList]

/-- The paths that are created, renamed or removed; the file system takes none with a NUL. -/
def livePaths (name : String) (op : TopicPathOp) : List (List Char) :=
  if nul∈name.toList then []
  else match op with
    | .mkdir r p => [topicDir r name,partitionPath r name p]
    | .stage r _ => [topicDir r name]
    | .writeConfig r => atomicWritePaths (topicDir r name) ".config.json"
    | .writeIdentity r => atomicWritePaths (topicDir r name) ".topic-id.json"
    | .openPartition r p file => [partitionPath r name p,Paths.join (partitionPath r name p) file.1]

def asidePaths (name : String) (op : TopicPathOp) : List (List Char) :=
  if nul∈name.toList then []
  else match op with
    | .stage r nanos => [Paths.join r.path (stagedName name nanos).toList]
    | _ => []

structure Inside (roots : List LogRoot) (name : String) (path : List Char) : Prop where
  notCluster : name≠clusterFilesDir
  notStaged : isStaged name=false
  below : ∃r∈roots,∃rest,Paths.resolve path=Paths.resolve r.path++name.toList::rest

def Aside (roots : List LogRoot) (name : String) (path : List Char) : Prop :=
  ∃r∈roots,∃nanos,Paths.resolve path=Paths.resolve r.path++[(stagedName name nanos).toList]

def Confined (roots : List LogRoot) (t : KafkaTopic) : Prop :=
  ∀ops : List TopicPathOp,(∀op∈ops,op.root∈roots) → ∀op∈ops,
    (∀path∈livePaths t.effectiveTopicName op,Inside roots t.effectiveTopicName path) ∧
    ∀path∈asidePaths t.effectiveTopicName op,Aside roots t.effectiveTopicName path

structure OwnName (name : String) : Prop where
  plain : Paths.Plain name.toList
  notCluster : name≠clusterFilesDir
  notStaged : isStaged name=false

theorem digits_plain (n : Nat) : Paths.Plain (toString n).toList := by
  have hd : (toString n).toList=Nat.toDigits 10 n := Nat.toList_repr
  have hdigit (c : Char) (hc : c∈(toString n).toList) : c.isDigit=true := by
    rw [hd] at hc
    exact Nat.isDigit_of_mem_toDigits (by decide) (by decide) hc
  have hdot : '.'∉(toString n).toList := fun hc => by cases hdigit '.' hc
  refine ⟨?_,?_,?_,?_⟩
  · rw [hd]
    exact Nat.toDigits_ne_nil
  · exact fun he => hdot (by rw [he]; exact List.mem_cons_self)
  · exact fun he => hdot (by rw [he]; exact List.mem_cons_self)
  · exact fun hc => by cases hdigit '/' hc

theorem stagedName_plain {name : String} (h : '/'∉name.toList) (nanos : Nat) :
    Paths.Plain (stagedName name nanos).toList := by
  have heq : (stagedName name nanos).toList=
      stagedDeletePrefix.toList++(name.toList++('.'::(toString nanos).toList)) := by
    simp [stagedName,String.toList_append]
  rw [heq]
  refine ⟨fun he => (by cases he),fun he => (by cases he),fun he => (by cases he),?_⟩
  intro hm
  rcases List.mem_append.mp hm with hm|hm
  · revert hm
    decide
  · rcases List.mem_append.mp hm with hm|hm
    · exact h hm
    · rcases List.mem_cons.mp hm with hm|hm
      · cases hm
      · exact (digits_plain nanos).noSlash hm

section Own

variable {name : String} {r : LogRoot} {roots : List LogRoot}

theorem resolve_topicDir (h : OwnName name) (r : LogRoot) :
    Paths.resolve (topicDir r name)=Paths.resolve r.path++[name.toList] :=
  Paths.resolve_join_plain r.path_ne_nil h.plain

theorem Inside.join {path : List Char} (h : Inside roots name path) (hp : path≠[]) {c : Paths.Name}
    (hc : Paths.Plain c) : Inside roots name (Paths.join path c) := by
  obtain ⟨r,hr,rest,hrest⟩ := h.below
  refine ⟨h.notCluster,h.notStaged,r,hr,rest++[c],?_⟩
  rw [Paths.resolve_join_plain hp hc,hrest]
  simp

theorem inside_topicDir (h : OwnName name) (hr : r∈roots) : Inside roots name (topicDir r name) :=
  ⟨h.notCluster,h.notStaged,r,hr,[],resolve_topicDir h r⟩

theorem topicDir_ne_nil (r : LogRoot) (name : String) : topicDir r name≠[] := Paths.join_ne_nil r.path_ne_nil _

theorem inside_partitionPath (h : OwnName name) (hr : r∈roots) (p : Nat) :
    Inside roots name (partitionPath r name p) :=
  (inside_topicDir h hr).join (topicDir_ne_nil r name) (digits_plain p)

theorem inside_atomicWrite (h : OwnName name) (hr : r∈roots) {file : String}
    (hfile : Paths.Plain file.toList) (htmp : Paths.Plain (file++".tmp").toList) :
    ∀path∈atomicWritePaths (topicDir r name) file,Inside roots name path := by
  have hdir := inside_topicDir h hr
  intro path hpath
  rcases List.mem_cons.mp hpath with rfl|hpath
  · exact hdir
  · rcases List.mem_cons.mp hpath with rfl|hpath
    · exact hdir.join (topicDir_ne_nil r name) htmp
    · obtain rfl := List.mem_singleton.mp hpath
      exact hdir.join (topicDir_ne_nil r name) hfile

theorem livePaths_inside (h : OwnName name) {op : TopicPathOp} (hr : op.root∈roots) :
    ∀path∈livePaths name op,Inside roots name path := by
  unfold livePaths
  split_ifs
  · exact fun _ hp => by cases hp
  · cases op with
    | mkdir r p =>
      intro path hpath
      rcases List.mem_cons.mp hpath with rfl|hpath
      · exact inside_topicDir h hr
      · obtain rfl := List.mem_singleton.mp hpath
        exact inside_partitionPath h hr p
    | stage r nanos =>
      intro path hpath
      obtain rfl := List.mem_singleton.mp hpath
      exact inside_topicDir h hr
    | writeConfig r | writeIdentity r => exact inside_atomicWrite h hr (by decide) (by decide)
    | openPartition r p file =>
      have hpart := inside_partitionPath h hr p
      intro path hpath
      rcases List.mem_cons.mp hpath with rfl|hpath
      · exact hpart
      · obtain rfl := List.mem_singleton.mp hpath
        exact hpart.join (Paths.join_ne_nil (topicDir_ne_nil r name) _) file.2

theorem asidePaths_aside (h : OwnName name) {op : TopicPathOp} (hr : op.root∈roots) :
    ∀path∈asidePaths name op,Aside roots name path := by
  unfold asidePaths
  split_ifs
  · exact fun _ hp => by cases hp
  · cases op with
    | stage r nanos =>
      intro path hpath
      obtain rfl := List.mem_singleton.mp hpath
      exact ⟨r,hr,nanos,Paths.resolve_join_plain r.path_ne_nil (stagedName_plain h.plain.noSlash nanos)⟩
    | _ => exact fun _ hp => by cases hp

theorem ownName_of_inside {path : List Char} (h : Inside roots name path) : OwnName name := by
  obtain ⟨r,_,rest,hrest⟩ := h.below
  refine ⟨Paths.resolve_plain path name.toList ?_,h.notCluster,h.notStaged⟩
  rw [hrest]
  exact List.mem_append_right _ List.mem_cons_self

theorem ownName_of_confined {t : KafkaTopic} (hr : r∈roots) (h : Confined roots t)
    (hnul : nul∉t.effectiveTopicName.toList) : OwnName t.effectiveTopicName := by
  have hroot : ∀op∈[TopicPathOp.mkdir r 0],op.root∈roots := by
    intro op hop
    rw [List.mem_singleton.mp hop]
    exact hr
  have hlive := (h [.mkdir r 0] hroot (.mkdir r 0) List.mem_cons_self).1 (topicDir r t.effectiveTopicName)
  refine ownName_of_inside (hlive ?_)
  unfold livePaths
  rw [if_neg hnul]
  exact List.mem_cons_self

end Own

/-- For every name a client sends: what is done for its topic stays in the topic's own directory
exactly if the schema refuses the resource, the file system refuses the name, or the effective name
is an own name. -/
theorem topic_confined_iff (sha1 : List UInt8 → List UInt8) (dataDir : LogRoot)
    (pool : List LogRoot) (sent : String) (partitions : Int) (config : KafkaTopicConfig) :
    (schemaAdmits (buildCr sha1 sent partitions config)=true →
      Confined (dataDir::pool) (buildCr sha1 sent partitions config)) ↔
    (schemaAdmits (buildCr sha1 sent partitions config)=true →
      nul∉(buildCr sha1 sent partitions config).effectiveTopicName.toList →
      OwnName (buildCr sha1 sent partitions config).effectiveTopicName) := by
  refine forall_congr' fun _ => ⟨fun h hnul => ?_,fun h ops hops op hop => ?_⟩
  · exact ownName_of_confined List.mem_cons_self h hnul
  · by_cases hnul : nul∈(buildCr sha1 sent partitions config).effectiveTopicName.toList
    · unfold livePaths asidePaths
      rw [if_pos hnul,if_pos hnul]
      exact ⟨fun _ hp => (by cases hp),fun _ hp => (by cases hp)⟩
    · exact ⟨livePaths_inside (h hnul) (hops op hop),asidePaths_aside (h hnul) (hops op hop)⟩

def dataRoot : LogRoot := ⟨"/data".toList,by decide⟩

/-- Three names that the schema admits: the cluster's own directory, a directory outside of the root
and the partition of another topic. -/
theorem names_escape : (schemaAdmits (buildCr (fun _ => []) "__cluster" 1 {})=true ∧
      ¬Confined [dataRoot] (buildCr (fun _ => []) "__cluster" 1 {}) ∧
      Paths.resolve (topicDir dataRoot "__cluster")=["data".toList,"__cluster".toList]) ∧
    (schemaAdmits (buildCr (fun _ => []) "../etc" 1 {})=true ∧
      ¬Confined [dataRoot] (buildCr (fun _ => []) "../etc" 1 {}) ∧
      Paths.resolve (topicDir dataRoot "../etc")=["etc".toList]) ∧
    schemaAdmits (buildCr (fun _ => []) "orders/0" 1 {})=true ∧
      ¬Confined [dataRoot] (buildCr (fun _ => []) "orders/0" 1 {}) ∧
      Paths.resolve (topicDir dataRoot "orders/0")=["data".toList,"orders".toList,"0".toList] := by
  have escape (name : String) (hne : name≠"") (hnul : nul∉name.toList) (hbad : ¬OwnName name) :
      ¬Confined [dataRoot] (buildCr (fun _ => []) name 1 {}) := by
    intro h
    have hown := ownName_of_confined (List.mem_singleton_self dataRoot) h
    rw [effectiveTopicName_buildCr hne] at hown
    exact hbad (hown hnul)
  refine ⟨⟨by decide +kernel,escape _ (by decide) (by decide) ?_,by decide⟩,
    ⟨by decide +kernel,escape _ (by decide) (by decide) ?_,by decide⟩,
    by decide +kernel,escape _ (by decide) (by decide) ?_,by decide⟩
  · exact fun h => h.notCluster rfl
  · exact fun h => absurd h.plain.noSlash (by decide)
  · exact fun h => absurd h.plain.noSlash (by decide)

end Kaas
