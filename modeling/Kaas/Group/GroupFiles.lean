import Kaas.Operator.TopicPaths

namespace Kaas

/-! From the group id a client sends to the file of its offsets. -/

def consumerOffsetsDir : String := "__consumer_offsets"

def offsetsDir (r : LogRoot) : List Char := Paths.join r.path consumerOffsetsDir.toList

def groupFile (group : String) : String := group++".json"

def groupPath (r : LogRoot) (group : String) : List Char := Paths.join (offsetsDir r) (groupFile group).toList

def groupTmpPath (r : LogRoot) (group : String) : List Char :=
  Paths.join (offsetsDir r) (groupFile group++".tmp").toList

inductive GroupRequest
  | offsetCommit
  | offsetFetch
  | joinGroup
  | deleteGroups
  | offsetDelete
  | purgeTopic
  deriving DecidableEq, Repr

def writeGroupPaths (r : LogRoot) (group : String) : List (List Char) :=
  [groupPath r group,groupTmpPath r group,groupPath r group]

/-- The files that are read, written, renamed or removed; a fetch is answered from memory. -/
def requestPaths (r : LogRoot) (group : String) : GroupRequest → List (List Char)
  | .offsetCommit => writeGroupPaths r group
  | .offsetFetch => []
  | .joinGroup => [groupPath r group]
  | .deleteGroups => [groupPath r group]
  | .offsetDelete => writeGroupPaths r group
  | .purgeTopic => groupPath r group::writeGroupPaths r group

structure OffsetVolume where
  root : LogRoot
  isDir : List Paths.Name → Bool
  reached : Paths.lookup isDir (offsetsDir root)=some (Paths.resolve (offsetsDir root))
  there : isDir (Paths.resolve (offsetsDir root))=true

namespace OffsetVolume

def dir (v : OffsetVolume) : List Paths.Name := Paths.resolve (offsetsDir v.root)

/-- The files behind a request; the file system takes no path with a NUL and none through a
directory that is not there. -/
def files (v : OffsetVolume) (group : String) (q : GroupRequest) : List (List Paths.Name) :=
  if nul∈group.toList then [] else (requestPaths v.root group q).filterMap (Paths.lookup v.isDir)

/-- Every request of the group stays directly inside of the directory, on files of no other
group. -/
structure Isolated (v : OffsetVolume) (group : String) : Prop where
  inside : ∀q,∀f∈v.files group q,∃c,f=v.dir++[c]
  own : ∀other,other≠group → '/'∉other.toList → ∀q q',∀f∈v.files group q,f∉v.files other q'

end OffsetVolume

theorem groupFile_toList (group : String) : (groupFile group).toList=group.toList++".json".toList :=
  String.toList_append

theorem groupTmp_toList (group : String) :
    (groupFile group++".tmp").toList=group.toList++".json.tmp".toList := by
  rw [String.toList_append,groupFile_toList,List.append_assoc]
  rfl

theorem extended_plain {b ext : List Char} (hb : '/'∉b) (hext : '/'∉ext) (hlen : 2<ext.length) :
    Paths.Plain (b++ext) := by
  have hlong : 2<(b++ext).length := by
    rw [List.length_append]
    omega
  refine ⟨?_,?_,?_,fun hm => (List.mem_append.mp hm).elim hb hext⟩
  all_goals
    intro he
    rw [he] at hlong
    exact absurd hlong (by decide)

theorem offsetsDir_last (r : LogRoot) : (offsetsDir r).getLast?≠some '/' := by
  have hlast (b : List Char) : (b++consumerOffsetsDir.toList).getLast?≠some '/' := by
    have hs : consumerOffsetsDir.toList.getLast?=some 's' := by decide
    rw [List.getLast?_append,hs,Option.some_or]
    decide
  unfold offsetsDir Paths.join
  split_ifs with h1 h2
  · exact absurd h1 (by decide)
  · exact hlast _
  · rw [List.append_cons]
    exact hlast _

theorem offsetsDir_ne_nil (r : LogRoot) : offsetsDir r≠[] := Paths.join_ne_nil r.path_ne_nil _

theorem join_offsetsDir (r : LogRoot) {path : List Char} (h : path.head?≠some '/') :
    Paths.join (offsetsDir r) path=offsetsDir r++ '/'::path := by
  unfold Paths.join
  rw [if_neg h,if_neg (not_or.mpr ⟨offsetsDir_ne_nil r,offsetsDir_last r⟩)]

theorem head_ne_of_noSlash {b : List Char} (h : '/'∉b) : b.head?≠some '/' :=
  fun he => h (List.mem_of_mem_head? he)

section Volume

variable (v : OffsetVolume) {group : String}

theorem lookup_entry {c : Paths.Name} (hc : Paths.Plain c) :
    Paths.lookup v.isDir (Paths.join (offsetsDir v.root) c)=some (v.dir++[c]) := by
  rw [join_offsetsDir v.root (head_ne_of_noSlash hc.noSlash),Paths.lookup_append_plain hc,v.reached]
  exact if_pos v.there

theorem files_plain (h : '/'∉group.toList) {q : GroupRequest} {f : List Paths.Name} (hf : f∈v.files group q) :
    f=v.dir++[group.toList++".json".toList] ∨ f=v.dir++[group.toList++".json.tmp".toList] := by
  have hfinal : Paths.lookup v.isDir (groupPath v.root group)=some (v.dir++[group.toList++".json".toList]) := by
    unfold groupPath
    rw [groupFile_toList]
    exact lookup_entry v (extended_plain h (by decide) (by decide))
  have htmp : Paths.lookup v.isDir (groupTmpPath v.root group)=some
    (v.dir++[group.toList++".json.tmp".toList]) := by
    unfold groupTmpPath
    rw [groupTmp_toList]
    exact lookup_entry v (extended_plain h (by decide) (by decide))
  unfold OffsetVolume.files at hf
  split_ifs at hf
  · cases hf
  · obtain ⟨path,hpath,hlook⟩ := List.mem_filterMap.mp hf
    have hpaths : path=groupPath v.root group ∨ path=groupTmpPath v.root group := by
      cases q <;> simp only [requestPaths,writeGroupPaths,List.mem_cons,List.not_mem_nil,
        or_false] at hpath <;> tauto
    rcases hpaths with rfl|rfl
    · rw [hfinal] at hlook
      exact Or.inl (Option.some.inj hlook).symm
    · rw [htmp] at hlook
      exact Or.inr (Option.some.inj hlook).symm

theorem mem_files_join (hnul : nul∉group.toList) {f : List Paths.Name}
    (hf : Paths.lookup v.isDir (groupPath v.root group)=some f) : f∈v.files group .joinGroup := by
  unfold OffsetVolume.files
  rw [if_neg hnul]
  exact List.mem_filterMap.mpr ⟨_,List.mem_cons_self,hf⟩

theorem extended_ne {a b : List Char} (h : a≠b) :
    a++".json".toList≠b++".json".toList ∧ a++".json.tmp".toList≠b++".json.tmp".toList ∧
      a++".json".toList≠b++".json.tmp".toList := by
  refine ⟨fun he => h (List.append_cancel_right he),fun he => h (List.append_cancel_right he),fun he => ?_⟩
  have hlast := congrArg List.getLast? he
  have hn : ".json".toList.getLast?=some 'n' := by decide
  have hp : ".json.tmp".toList.getLast?=some 'p' := by decide
  rw [List.getLast?_append,List.getLast?_append,hn,hp,Option.some_or,Option.some_or] at hlast
  exact absurd hlast (by decide)

theorem isolated_of_noSlash (h : '/'∉group.toList) : v.Isolated group := by
  refine ⟨fun q f hf => ?_,fun other hne hother q q' f hf hf' => ?_⟩
  · rcases files_plain v h hf with hf|hf
    · exact ⟨_,hf⟩
    · exact ⟨_,hf⟩
  · have hl : group.toList≠other.toList := fun he => hne (String.toList_inj.mp he).symm
    obtain ⟨h1,h2,h3⟩ := extended_ne hl
    have h4 := (extended_ne hl.symm).2.2
    have hcancel {a b : List Char} (he : v.dir++[a]=v.dir++[b]) : a=b :=
      List.singleton_inj.mp (List.append_cancel_left he)
    rcases files_plain v h hf with hf|hf <;> rcases files_plain v hother hf' with hf'|hf' <;>
      have he := hcancel (hf.symm.trans hf')
    · exact h1 he
    · exact h3 he
    · exact h4 he.symm
    · exact h2 he

theorem isolated_of_no_files (h : ∀q,v.files group q=[]) : v.Isolated group := by
  refine ⟨fun q f hf => ?_,fun other _ _ q q' f hf => ?_⟩
  all_goals
    rw [h q] at hf
    cases hf

theorem groupPath_split (r : LogRoot) (h : '/'∈group.toList) :
    ∃place x b,'/'∉b ∧ group.toList=x++ '/'::b ∧
      ∀ext : List Char,Paths.join (offsetsDir r) (group.toList++ext)=place++ '/'::(b++ext) := by
  obtain ⟨x,y,hxy,hx⟩ := List.eq_append_cons_of_mem (List.mem_reverse.mpr h)
  have hg : group.toList=y.reverse++ '/'::x.reverse := by
    have := congrArg List.reverse hxy
    rw [List.reverse_reverse] at this
    rw [this]
    simp
  have hb : '/'∉x.reverse := fun hm => hx (List.mem_reverse.mp hm)
  by_cases hhead : group.toList.head?=some '/'
  · refine ⟨y.reverse,y.reverse,x.reverse,hb,hg,fun ext => ?_⟩
    have hext : (group.toList++ext).head?=some '/' := by rw [List.head?_append,hhead]; rfl
    unfold Paths.join
    rw [if_pos hext,hg,List.append_assoc,List.cons_append]
  · refine ⟨offsetsDir r++ '/'::y.reverse,y.reverse,x.reverse,hb,hg,fun ext => ?_⟩
    have hext : (group.toList++ext).head?≠some '/' := by
      rw [List.head?_append]
      cases hc : group.toList.head? with
      | none =>
        rw [List.head?_eq_none_iff.mp hc] at h
        cases h
      | some c =>
        rw [hc] at hhead
        exact hhead
    rw [join_offsetsDir r hext,hg]
    simp

theorem files_nil_of_lookup (hs : '/'∈group.toList) (h : Paths.lookup v.isDir (groupPath v.root group)=none)
    (q : GroupRequest) : v.files group q=[] := by
  obtain ⟨place,x,b,hb,_,hsplit⟩ := groupPath_split v.root hs
  have hext {ext : List Char} (he : '/'∉ext) (hlen : 2<ext.length) :
      Paths.lookup v.isDir (Paths.join (offsetsDir v.root) (group.toList++ext))=
        (Paths.lookup v.isDir place).bind (fun dir => if v.isDir dir then some (dir++[b++ext]) else none) := by
    rw [hsplit ext,Paths.lookup_append_plain (extended_plain hb he hlen)]
  have htmp : Paths.lookup v.isDir (groupTmpPath v.root group)=none := by
    unfold groupPath at h
    unfold groupTmpPath
    rw [groupFile_toList,hext (by decide) (by decide)] at h
    rw [groupTmp_toList,hext (by decide) (by decide)]
    cases hp : Paths.lookup v.isDir place with
    | none => rfl
    | some d =>
      rw [hp] at h
      simp only [Option.bind_some] at h ⊢
      split_ifs at h ⊢
      rfl
  unfold OffsetVolume.files
  split_ifs
  · rfl
  · cases q <;> simp [requestPaths,writeGroupPaths,h,htmp]

theorem not_isolated (hs : '/'∈group.toList) (hnul : nul∉group.toList)
    (h : Paths.lookup v.isDir (groupPath v.root group)≠none) : ¬v.Isolated group := by
  intro iso
  obtain ⟨place,x,b,hb,hg,hsplit⟩ := groupPath_split v.root hs
  have hplain : Paths.Plain (b++".json".toList) := extended_plain hb (by decide) (by decide)
  have hpath : groupPath v.root group=place++ '/'::(b++".json".toList) := by
    unfold groupPath
    rw [groupFile_toList,hsplit]
  obtain ⟨f,hf⟩ := Option.ne_none_iff_exists'.mp h
  have hmem := mem_files_join v hnul hf
  obtain ⟨c,hc⟩ := iso.inside _ f hmem
  have hfile : f=Paths.resolve place++[b++".json".toList] := by
    rw [Paths.lookup_eq_resolve hf,hpath,Paths.resolve_append_plain place hplain]
  have hbc : f=v.dir++[b++".json".toList] := by
    have hlast := congrArg List.getLast? (hfile.symm.trans hc)
    rw [List.getLast?_concat,List.getLast?_concat] at hlast
    rw [hc,← Option.some.inj hlast]
  have hother : Paths.lookup v.isDir (groupPath v.root (String.ofList b))=some f := by
    unfold groupPath
    rw [groupFile_toList,String.toList_ofList,hbc]
    exact lookup_entry v hplain
  have hbnul : nul∉b := by
    intro hm
    rw [hg] at hnul
    exact hnul (List.mem_append_right x (List.mem_cons_of_mem _ hm))
  refine iso.own (String.ofList b) (fun he => ?_) ?_ .joinGroup .joinGroup f hmem ?_
  · rw [← he,String.toList_ofList] at hs
    exact hb hs
  · rw [String.toList_ofList]
    exact hb
  · refine mem_files_join v ?_ hother
    rw [String.toList_ofList]
    exact hbnul

end Volume

/-- For every group id: its requests stay on files of its own, directly inside of the directory,
exactly if the id has no separator or the file system finds nothing at its path. -/
theorem group_isolated_iff (v : OffsetVolume) (group : String) : v.Isolated group ↔
      ('/'∈group.toList → nul∈group.toList ∨ Paths.lookup v.isDir (groupPath v.root group)=none) := by
  refine ⟨fun iso hs => ?_,fun h => ?_⟩
  · by_contra hn
    obtain ⟨hnul,hfound⟩ := not_or.mp hn
    exact not_isolated v hs hnul hfound iso
  · by_cases hs : '/'∈group.toList
    · refine isolated_of_no_files v fun q => ?_
      rcases h hs with hnul|hnone
      · unfold OffsetVolume.files
        exact if_pos hnul
      · exact files_nil_of_lookup v hs hnone q
    · exact isolated_of_noSlash v hs

def clusterVolume : OffsetVolume where
  root := ⟨"/data/__cluster".toList,by decide⟩
  isDir _ := true
  reached := by decide
  there := rfl

/-- A commit replaces the cluster's assignment, a delete removes a file of the system, and two ids
share the file of a third. -/
theorem group_ids_escape : (¬clusterVolume.Isolated "../assignment" ∧
      ["data".toList,"__cluster".toList,"assignment.json".toList]∈clusterVolume.files
        "../assignment" .offsetCommit) ∧
    (¬clusterVolume.Isolated "/etc/x" ∧
      ["etc".toList,"x.json".toList]∈clusterVolume.files "/etc/x" .deleteGroups) ∧
    ¬clusterVolume.Isolated "./a" ∧
      clusterVolume.files "./a" .offsetCommit=clusterVolume.files "a" .offsetCommit ∧
      clusterVolume.files ".//a" .offsetCommit=clusterVolume.files "a" .offsetCommit := by
  refine ⟨⟨?_,by decide⟩,⟨?_,by decide⟩,?_,by decide,by decide⟩
  all_goals exact not_isolated clusterVolume (by decide) (by decide) (by decide)

end Kaas
