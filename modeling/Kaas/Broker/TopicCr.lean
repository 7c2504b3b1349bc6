import Kaas.Operator.TopicPaths

namespace Kaas

/-! The resources clients act on through the broker, by the name `name_for_cr` gives them. -/

def Synthesised (name : String) : Prop := ¬(name.utf8ByteSize≤253 ∧ isRfc1123Subdomain name.toList=true)

instance (name : String) : Decidable (Synthesised name) := inferInstanceAs (Decidable (¬_))

def syntheticName (sha1 : List UInt8 → List UInt8) (name : String) : String :=
  "kaas-topic-"++String.ofList (((sha1 name.toUTF8.toList).take 8).flatMap hexByte)

def Shadows (sha1 : List UInt8 → List UInt8) (a b : String) : Prop := Synthesised b ∧ a=syntheticName sha1 b

theorem nameForCr_eq (sha1 : List UInt8 → List UInt8) (name : String) :
    (nameForCr sha1 name).1=if Synthesised name then syntheticName sha1 name else name := by
  unfold nameForCr
  by_cases h : name.utf8ByteSize≤253 ∧ isRfc1123Subdomain name.toList=true
  · rw [if_pos h]
    exact (if_neg (not_not_intro h)).symm
  · rw [if_neg h]
    exact (if_pos h).symm

inductive TopicWriteError
  | notFound
  | invalidPartitions
  | alreadyExists
  deriving DecidableEq, Repr

/-- `TopicCRWriter`; a config patch stands for the function it applies. -/
inductive TopicWrite
  | createTopic (name : String) (partitions : Int) (config : KafkaTopicConfig)
  | expandTopic (name : String) (newCount : Int)
  | updateTopicConfig (name : String) (patch : KafkaTopicConfig → KafkaTopicConfig)
  | deleteTopic (name : String)
  | setPartitionLogDir (name : String) (partition : Int) (logDir : String)

def TopicWrite.name : TopicWrite → String
  | .createTopic name _ _ | .expandTopic name _ | .updateTopicConfig name _ | .deleteTopic name
  | .setPartitionLogDir name _ _ => name

/-- The `KafkaTopic` resources of the namespace. -/
abbrev TopicCrs := String → Option KafkaTopic

namespace TopicCrs

variable (sha1 : List UInt8 → List UInt8)

def patch (crs : TopicCrs) (key : String) (f : KafkaTopic → KafkaTopic) :
    TopicCrs × Except TopicWriteError Unit :=
  match crs key with
  | none => (crs,.error .notFound)
  | some t => (Function.update crs key (some (f t)),.ok ())

def write (crs : TopicCrs) : TopicWrite → TopicCrs × Except TopicWriteError Unit
  | .createTopic name partitions config =>
    match crs (nameForCr sha1 name).1 with
    | some _ => (crs,.error .alreadyExists)
    | none => (Function.update crs (nameForCr sha1 name).1 (some (buildCr sha1 name partitions config)),.ok ())
  | .expandTopic name newCount =>
    match crs (nameForCr sha1 name).1 with
    | none => (crs,.error .notFound)
    | some t =>
      if newCount<t.spec.partitions then (crs,.error .invalidPartitions)
      else crs.patch (nameForCr sha1 name).1 (fun t => {t with spec := {t.spec with partitions := newCount}})
  | .updateTopicConfig name f =>
    crs.patch (nameForCr sha1 name).1 (fun t => {t with spec := {t.spec with config := f t.spec.config}})
  | .deleteTopic name =>
    match crs (nameForCr sha1 name).1 with
    | none => (crs,.error .notFound)
    | some _ => (Function.update crs (nameForCr sha1 name).1 none,.ok ())
  | .setPartitionLogDir name partition logDir =>
    crs.patch (nameForCr sha1 name).1 (fun t => {t with status := some {t.status.getD {} with
      volumeAssignments := (t.status.getD {}).volumeAssignments.insert (toString partition) logDir}})

end TopicCrs

section Names

variable {sha1 : List UInt8 → List UInt8} {a b : String}

theorem utf8ByteSize_ascii {l : List Char} (h : ∀c∈l,c.utf8Size=1) :
    (String.ofList l).utf8ByteSize=l.length := by
  induction l with
  | nil => rfl
  | cons c l ih =>
    obtain ⟨hc,hl⟩ := List.forall_mem_cons.mp h
    have hsplit : String.ofList (c::l)=String.singleton c++String.ofList l := by
      rw [← String.toList_inj]
      simp
    rw [hsplit,String.utf8ByteSize_append,String.utf8ByteSize_singleton,ih hl,hc,List.length_cons,add_comm]

theorem hexByte_chars (x : UInt8) : ∀c∈hexByte x,isLowerAlnum c=true ∧ c.utf8Size=1 ∧ c≠ '.' := by
  have h : ∀d<16,isLowerAlnum (Nat.digitChar d)=true ∧ (Nat.digitChar d).utf8Size=1 ∧
    Nat.digitChar d≠ '.' := by decide
  have hx := x.toNat_lt
  intro c hc
  rcases List.mem_pair.mp hc with rfl|rfl
  · exact h _ (by omega)
  · exact h _ (by omega)

theorem hexByte_inj {x y : UInt8} (h : hexByte x=hexByte y) : x=y := by
  have hd : ∀d<16,∀e<16,Nat.digitChar d=Nat.digitChar e → d=e := by decide
  have hx := x.toNat_lt
  have hy := y.toNat_lt
  injection h with h1 h2
  injection h2 with h2
  have e1 := hd _ (by omega) _ (by omega) h1
  have e2 := hd _ (by omega) _ (by omega) h2
  exact UInt8.toNat_inj.mp (by omega)

theorem flatMap_hexByte_inj {xs ys : List UInt8} (h : xs.flatMap hexByte=ys.flatMap hexByte) : xs=ys := by
  induction xs generalizing ys with
  | nil =>
    cases ys with
    | nil => rfl
    | cons y ys => cases h
  | cons x xs ih =>
    cases ys with
    | nil => cases h
    | cons y ys =>
      rw [List.flatMap_cons,List.flatMap_cons] at h
      obtain ⟨h1,h2⟩ := List.append_inj h rfl
      rw [hexByte_inj h1,ih h2]

theorem syntheticName_direct (hlen : ∀x,8≤(sha1 x).length) (name : String) :
    ¬Synthesised (syntheticName sha1 name) := by
  have hne : ((sha1 name.toUTF8.toList).take 8).length=8 := by
    rw [List.length_take]
    exact Nat.min_eq_left (hlen _)
  unfold Synthesised syntheticName
  generalize (sha1 name.toUTF8.toList).take 8=digest at hne
  have hchars : ∀c∈digest.flatMap hexByte,isLowerAlnum c=true ∧ c.utf8Size=1 ∧ c≠ '.' := by
    intro c hc
    obtain ⟨x,_,hc⟩ := List.mem_flatMap.mp hc
    exact hexByte_chars x c hc
  have hsize : (digest.flatMap hexByte).length=16 := by
    rw [List.length_flatMap]
    have : ∀x∈digest,(hexByte x).length=2 := fun _ _ => rfl
    rw [List.map_congr_left this]
    simp [hne]
  generalize digest.flatMap hexByte=hex at hchars hsize
  refine not_not_intro ⟨?_,?_⟩
  · rw [String.utf8ByteSize_append,utf8ByteSize_ascii (fun c hc => (hchars c hc).2.1),hsize]
    decide
  · have hlist : (String.ofList hex).toList=hex := String.toList_ofList
    rw [String.toList_append,hlist]
    have hdot : '.'∉"kaas-topic-".toList++hex := by
      intro h
      rcases List.mem_append.mp h with h|h
      · exact absurd h (by decide)
      · exact (hchars _ h).2.2 rfl
    have hlast : (("kaas-topic-".toList++hex).getLast?).all isLowerAlnum=true := by
      have hhex : hex≠[] := by
        rintro rfl
        cases hsize
      rw [List.getLast?_append_of_ne_nil _ hhex,List.getLast?_eq_some_getLast hhex]
      exact (hchars _ (List.getLast_mem hhex)).1
    have hall : ∀c∈"kaas-topic-".toList++hex,(isLowerAlnum c || c== '-')=true := by
      intro c hc
      rcases List.mem_append.mp hc with hc|hc
      · have hword : "kaas-topic-".toList.all (fun c => isLowerAlnum c || c== '-')=true := by decide
        exact List.all_eq_true.mp hword c hc
      · rw [(hchars c hc).1]
        rfl
    unfold isRfc1123Subdomain
    rw [List.splitOn_eq_singleton hdot]
    simp only [List.all_cons,List.all_nil,hlast,List.all_eq_true.mpr hall,Bool.and_true]
    rfl

theorem syntheticName_inj (h : syntheticName sha1 a=syntheticName sha1 b) :
    (sha1 a.toUTF8.toList).take 8=(sha1 b.toUTF8.toList).take 8 := by
  have hlist := congrArg String.toList h
  unfold syntheticName at hlist
  rw [String.toList_append,String.toList_append,List.append_cancel_left_eq,String.toList_ofList,
    String.toList_ofList] at hlist
  exact flatMap_hexByte_inj hlist

theorem nameForCr_eq_iff (hlen : ∀x,8≤(sha1 x).length) (hne : a≠b)
    (hinj : (sha1 a.toUTF8.toList).take 8=(sha1 b.toUTF8.toList).take 8 → a=b) :
    (nameForCr sha1 a).1=(nameForCr sha1 b).1 ↔ Shadows sha1 a b ∨ Shadows sha1 b a := by
  rw [nameForCr_eq,nameForCr_eq]
  unfold Shadows
  by_cases ha : Synthesised a
  · by_cases hb : Synthesised b
    · rw [if_pos ha,if_pos hb]
      refine ⟨fun h => absurd (hinj (syntheticName_inj h)) hne,fun h => ?_⟩
      rcases h with ⟨_,h⟩|⟨_,h⟩
      · exact absurd ha (h ▸ syntheticName_direct hlen b)
      · exact absurd hb (h ▸ syntheticName_direct hlen a)
    · rw [if_pos ha,if_neg hb]
      refine ⟨fun h => Or.inr ⟨ha,h.symm⟩,fun h => ?_⟩
      rcases h with ⟨h,_⟩|⟨_,h⟩
      · exact absurd h hb
      · exact h.symm
  · by_cases hb : Synthesised b
    · rw [if_neg ha,if_pos hb]
      refine ⟨fun h => Or.inl ⟨hb,h⟩,fun h => ?_⟩
      rcases h with ⟨_,h⟩|⟨h,_⟩
      · exact h
      · exact absurd h ha
    · rw [if_neg ha,if_neg hb]
      refine ⟨fun h => absurd h hne,fun h => ?_⟩
      rcases h with ⟨h,_⟩|⟨h,_⟩
      · exact absurd h hb
      · exact absurd h ha

end Names

/-- Every resource is kept under the name of the topic it is about. -/
def CrFiled (sha1 : List UInt8 → List UInt8) (crs : TopicCrs) : Prop :=
  ∀key t,crs key=some t → t.name=some key ∧ (nameForCr sha1 t.effectiveTopicName).1=key

section Writes

variable {sha1 : List UInt8 → List UInt8} {crs : TopicCrs}

theorem CrFiled.update (h : CrFiled sha1 crs) {key : String} {r : Option KafkaTopic}
    (hr : ∀t,r=some t → t.name=some key ∧ (nameForCr sha1 t.effectiveTopicName).1=key) :
    CrFiled sha1 (Function.update crs key r) := by
  intro k t ht
  by_cases hk : k=key
  · rw [hk,Function.update_self] at ht
    rw [hk]
    exact hr t ht
  · rw [Function.update_of_ne hk] at ht
    exact h k t ht

theorem CrFiled.patch (h : CrFiled sha1 crs) (key : String) {f : KafkaTopic → KafkaTopic}
    (hf : ∀t,(f t).name=t.name ∧ (f t).effectiveTopicName=t.effectiveTopicName) :
    CrFiled sha1 (crs.patch key f).1 := by
  unfold TopicCrs.patch
  cases ht : crs key with
  | none => exact h
  | some t =>
    refine h.update (fun u hu => ?_)
    obtain rfl : f t=u := Option.some.inj hu
    rw [(hf t).1,(hf t).2]
    exact h key t ht

theorem crFiled_buildCr (hlen : ∀x,8≤(sha1 x).length) (name : String) (partitions : Int)
    (config : KafkaTopicConfig) :
    (buildCr sha1 name partitions config).name=some (nameForCr sha1 name).1 ∧
    (nameForCr sha1 (buildCr sha1 name partitions config).effectiveTopicName).1=(nameForCr sha1 name).1 := by
  refine ⟨rfl,?_⟩
  by_cases hname : name=""
  · -- no topic has the empty name, but its resource would be one that is called as it is
    subst hname
    have hempty : Synthesised "" := by decide
    have heff : (buildCr sha1 "" partitions config).effectiveTopicName=syntheticName sha1 "" := by
      unfold KafkaTopic.effectiveTopicName buildCr
      rw [nameForCr,if_neg hempty]
      rfl
    rw [heff,nameForCr_eq,if_neg (syntheticName_direct hlen _),nameForCr_eq,if_pos hempty]
  · rw [effectiveTopicName_buildCr hname]

theorem crFiled_write (hlen : ∀x,8≤(sha1 x).length) (h : CrFiled sha1 crs) (w : TopicWrite) :
    CrFiled sha1 (crs.write sha1 w).1 := by
  cases w with
  | createTopic name partitions config =>
    unfold TopicCrs.write
    dsimp only
    split
    · exact h
    · refine h.update (fun t ht => ?_)
      obtain rfl := Option.some.inj ht
      exact crFiled_buildCr hlen name partitions config
  | expandTopic name newCount =>
    unfold TopicCrs.write
    dsimp only
    split
    · exact h
    · split_ifs
      · exact h
      · exact h.patch _ (fun t => ⟨rfl,rfl⟩)
  | updateTopicConfig name f => exact h.patch _ (fun t => ⟨rfl,rfl⟩)
  | deleteTopic name =>
    unfold TopicCrs.write
    dsimp only
    split
    · exact h
    · exact h.update (fun t ht => nomatch ht)
  | setPartitionLogDir name partition logDir => exact h.patch _ (fun t => ⟨rfl,rfl⟩)

theorem write_frame (w : TopicWrite) {key : String} (hkey : key≠(nameForCr sha1 w.name).1) :
    (crs.write sha1 w).1 key=crs key := by
  cases w <;> simp only [TopicCrs.write,TopicCrs.patch] <;> (try split) <;> (try split_ifs) <;>
    (try split) <;> first | rfl | exact Function.update_of_ne hkey _ _

end Writes

inductive CrStep (sha1 : List UInt8 → List UInt8) : TopicCrs → TopicWrite → TopicCrs → Prop
  | write {crs : TopicCrs} (w : TopicWrite) : CrStep sha1 crs w (crs.write sha1 w).1

/-- Two topics share a resource exactly if one has the name made up for the other; apart from that,
whatever was written before, a write changes no resource but that of its own topic. -/
theorem cr_of_topic (sha1 : List UInt8 → List UInt8) (hlen : ∀x,8≤(sha1 x).length) (w : TopicWrite)
    (other : String) (hne : w.name≠other)
    (hinj : (sha1 w.name.toUTF8.toList).take 8=(sha1 other.toUTF8.toList).take 8 → w.name=other) :
    ((nameForCr sha1 w.name).1=(nameForCr sha1 other).1 ↔ Shadows sha1 w.name other ∨
      Shadows sha1 other w.name) ∧
    ∀crs key t,Reaches (CrStep sha1) (fun _ _ => True) (fun _ => none) crs → crs key=some t →
      t.effectiveTopicName=other → (crs.write sha1 w).1 key≠crs key →
      Shadows sha1 w.name other ∨ Shadows sha1 other w.name := by
  have hiff := nameForCr_eq_iff hlen hne hinj
  refine ⟨hiff,fun crs key t run ht heff hchanged => ?_⟩
  have hfiled : CrFiled sha1 crs := run.invariant (fun _ _ h => nomatch h) (fun _ _ _ h _ step => by
    cases step
    exact crFiled_write hlen h _)
  have hkey : key=(nameForCr sha1 w.name).1 := by
    by_contra h
    exact hchanged (write_frame w h)
  have hother := (hfiled key t ht).2
  rw [heff] at hother
  exact hiff.mp (hkey.symm.trans hother.symm)

/-- The front of SHA-1 at two names, and zeros elsewhere. -/
def sha1OfOrders (x : List UInt8) : List UInt8 :=
  if x="Orders".toUTF8.toList then [205,237,9,51,33,221,170,76]
  else if x="orders".toUTF8.toList then [150,88,64,56,22,64,158,102]
  else List.replicate 8 0

theorem cr_of_topic_plain : (nameForCr sha1OfOrders "orders").1≠(nameForCr sha1OfOrders "Orders").1 ∧
    (nameForCr sha1OfOrders "orders").1="orders" := by
  have hlen : ∀x,8≤(sha1OfOrders x).length := by
    intro x
    unfold sha1OfOrders
    split_ifs <;> decide
  have h := (cr_of_topic sha1OfOrders hlen (.deleteTopic "orders") "Orders" (by decide) (by decide +kernel)).1
  refine ⟨fun heq => ?_,by decide +kernel⟩
  exact absurd (h.mp heq) (by unfold Shadows; decide +kernel)

/-- The digests of the two names begin as SHA-1's do. -/
def TwinDigests (sha1 : List UInt8 → List UInt8) : Prop :=
  (sha1 "Orders".toUTF8.toList).take 8=[205,237,9,51,33,221,170,76] ∧
    (sha1 "kaas-topic-cded093321ddaa4c".toUTF8.toList).take 8=[253,64,73,122,214,150,32,157]

/-- Who may delete the topic that is named as the resource made up for `Orders` deletes `Orders`,
though the digests of the two names differ. -/
theorem shadowed_topic_deleted : "kaas-topic-cded093321ddaa4c"≠"Orders" ∧ ∀sha1,TwinDigests sha1 →
    (sha1 "Orders".toUTF8.toList).take 8≠(sha1 "kaas-topic-cded093321ddaa4c".toUTF8.toList).take 8 ∧
    ∃crs,TopicCrs.write sha1 (fun _ => none) (.createTopic "Orders" 3 {})=(crs,.ok ()) ∧
      (crs "kaas-topic-cded093321ddaa4c").map KafkaTopic.effectiveTopicName=some "Orders" ∧
      ((TopicCrs.write sha1 crs (.deleteTopic "kaas-topic-cded093321ddaa4c")).1
        "kaas-topic-cded093321ddaa4c").isNone=true := by
  refine ⟨by decide,?_⟩
  intro sha1 ⟨hOrders,htwin⟩
  have hmade : (nameForCr sha1 "Orders").1="kaas-topic-cded093321ddaa4c" := by
    rw [nameForCr_eq,if_pos (by decide +kernel),syntheticName,hOrders]
    decide +kernel
  have hkept : (nameForCr sha1 "kaas-topic-cded093321ddaa4c").1="kaas-topic-cded093321ddaa4c" := by
    rw [nameForCr_eq,if_neg (by decide +kernel)]
  have heff : (buildCr sha1 "Orders" 3 {}).effectiveTopicName="Orders" :=
    effectiveTopicName_buildCr (by decide) 3 {}
  refine ⟨by rw [hOrders,htwin]; decide,_,rfl,?_,?_⟩
  · rw [hmade,Function.update_self,Option.map_some,heff]
  · simp only [TopicCrs.write,hmade,hkept,Function.update_self,Option.isNone_none]

end Kaas
