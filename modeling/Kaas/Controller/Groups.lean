import Kaas.Broker.Ownership
import Kaas.Framework.Run

namespace Kaas

structure GroupSpec where
  groupId : String
  deriving DecidableEq, Repr

namespace Balancer

/-! Rows. -/

def brokerHealth (alive draining : List String) (id : String) : BrokerHealth :=
  if id∈draining then .draining else if id∈alive then .alive else .dead

def brokerEntry (alive draining : List String) (now : String)
    (prev : Option (List BrokerAssignment)) (id : String) : BrokerAssignment :=
  ⟨id,brokerHealth alive draining id,
    if brokerHealth alive draining id=.dead then
      ((prev.bind (·.find? (·.id=id))).map (·.lastSeen)).getD now
    else now⟩

def addMissing (now : String) (out : List BrokerAssignment) (b : String) : List BrokerAssignment :=
  if out.any (·.id=b) then out else out++[⟨b,.alive,now⟩]

def buildBrokerEntries (registered alive draining : List String) (now : String)
    (prev : Option (List BrokerAssignment)) : List BrokerAssignment :=
  (alive.foldl (addMissing now) (registered.map (brokerEntry alive draining now prev))).insertionSort
    (fun a b => a.id≤b.id)

abbrev PrevGroups := AList (fun _ : String => ConsumerGroupAssignment)

def prevGroups (prev : Option (List ConsumerGroupAssignment)) : PrevGroups :=
  tableOf (·.groupId) id (prev.getD []) ∅

def aliveSet (brokers : List BrokerAssignment) : List String :=
  (brokers.map (·.id)).filter (isAlive (aliveMap brokers))

/-- The entry in effect while its broker is alive, else one for the broker the hash finds. -/
def groupEntry (prevMap : PrevGroups) (brokers : List BrokerAssignment) (groupId : String) :
    ConsumerGroupAssignment :=
  let broker := (pickGroupCoordinator groupId (brokers.map (·.id)) (aliveMap brokers)).getD ""
  match prevMap.lookup groupId with
  | none => ⟨groupId,broker,1⟩
  | some ga => if ga.broker∈aliveSet brokers then ga else ⟨groupId,broker,ga.epoch+1⟩

/-- One turn of the loop over the reported groups: the entries so far and the ids that have one. -/
def placeGroup (prevMap : PrevGroups) (brokers : List BrokerAssignment)
    (s : List ConsumerGroupAssignment × List String) (g : GroupSpec) :
    List ConsumerGroupAssignment × List String :=
  if g.groupId∈s.2 then s else (s.1++[groupEntry prevMap brokers g.groupId],s.2++[g.groupId])

def carriedGroups (prevMap : PrevGroups) (brokers : List BrokerAssignment) (placed : List String) :
    List ConsumerGroupAssignment :=
  ((prevMap.entries.map (·.2)).filter
    (fun ga => decide (ga.groupId∉placed ∧ ga.broker∈aliveSet brokers))).insertionSort
      (fun a b => a.groupId≤b.groupId)

def balanceGroups (prev : Option (List ConsumerGroupAssignment)) (brokers : List BrokerAssignment)
    (groups : List GroupSpec) : List ConsumerGroupAssignment :=
  if brokers=[] then []
  else
    let placed := groups.foldl (placeGroup (prevGroups prev) brokers) ([],[])
    placed.1++carriedGroups (prevGroups prev) brokers placed.2

end Balancer

open Balancer

structure GroupWriter where
  current : Option ClusterAssignment := none
  file : Option ClusterAssignment := none

structure RecomputeCall where
  base : Assignment
  registered : List String
  alive : List String
  draining : List String
  now : String
  groups : List GroupSpec

inductive GroupWriterOp
  /-- a controller takes office, in a new process or in one that held it before -/
  | start (fresh : Bool)
  | updateAssignment (call : RecomputeCall) (written : Bool)

namespace GroupWriter

def recomputed (w : GroupWriter) (c : RecomputeCall) : ClusterAssignment :=
  let rows := buildBrokerEntries c.registered c.alive c.draining c.now (w.current.map (·.brokers))
  {c.base with
    brokers := rows
    consumerGroups := balanceGroups (w.current.map (·.consumerGroups)) rows c.groups}

def exec (w : GroupWriter) : GroupWriterOp → Option GroupWriter
  | .start fresh => some {w with current := w.file.or (if fresh then none else w.current)}
  | .updateAssignment c written =>
    some {current := some (w.recomputed c),file := if written then some (w.recomputed c) else w.file}

end GroupWriter

def GroupWriterStep (w : GroupWriter) (op : GroupWriterOp) (w' : GroupWriter) : Prop := w.exec op=some w'

variable {out : List BrokerAssignment}

section Rows

variable {registered alive draining : List String} {now : String} {prev : Option (List BrokerAssignment)}

theorem addMissing_health (h : String → BrokerHealth) {b : String}
    (hout : ∀r∈out,r.health=h r.id) (hb : (∀r∈out,r.id≠b) → h b=.alive) :
    ∀r∈addMissing now out b,r.health=h r.id := by
  intro r hr
  unfold addMissing at hr
  split_ifs at hr with hany
  · exact hout r hr
  · have hnone : ∀q∈out,q.id≠b := by simpa using hany
    rcases List.mem_append.mp hr with hr|hr
    · exact hout r hr
    · rw [List.mem_singleton.mp hr]
      exact (hb hnone).symm

theorem mem_addMissing (b : String) {r : BrokerAssignment} (hr : r∈out) :
    r∈addMissing now out b := by
  unfold addMissing
  split_ifs
  · exact hr
  · exact List.mem_append_left _ hr

theorem addMissing_foldl_health (h : String → BrokerHealth) {l : List String}
    (hout : ∀r∈out,r.health=h r.id) (hl : ∀b∈l,(∀r∈out,r.id≠b) → h b=.alive) :
    ∀r∈l.foldl (addMissing now) out,r.health=h r.id := by
  induction l generalizing out with
  | nil => exact hout
  | cons b l ih =>
    rw [List.foldl_cons]
    apply ih
    · exact addMissing_health h hout (hl b (List.mem_cons_self ..))
    · intro c hc hnone
      apply hl c (List.mem_cons_of_mem _ hc)
      intro r hr
      exact hnone r (mem_addMissing b hr)

theorem buildBrokerEntries_agree : RowsAgree (buildBrokerEntries registered alive draining now prev) := by
  have hall : ∀r∈buildBrokerEntries registered alive draining now prev,
      r.health=if r.id∈registered then brokerHealth alive draining r.id else .alive := by
    intro r hr
    rw [buildBrokerEntries,List.mem_insertionSort] at hr
    refine addMissing_foldl_health
      (fun id => if id∈registered then brokerHealth alive draining id else .alive) ?_ ?_ r hr
    · intro q hq
      obtain ⟨id,hid,rfl⟩ := List.mem_map.mp hq
      exact (if_pos hid).symm
    · intro b _ hnone
      apply if_neg
      intro hb
      exact hnone _ (List.mem_map_of_mem hb) rfl
  intro r hr q hq heq
  rw [hall r hr,hall q hq,heq]

end Rows

section Entries

variable {prevMap : PrevGroups} {brokers : List BrokerAssignment}
  {prev : Option (List ConsumerGroupAssignment)} {groups : List GroupSpec}

theorem prevGroups_some {k : String} {g : ConsumerGroupAssignment}
    (h : (prevGroups prev).lookup k=some g) : g∈prev.getD [] ∧ g.groupId=k := by
  obtain ⟨x,hx,hkey,rfl⟩ := lookup_tableOf_some h
  exact ⟨hx,hkey⟩

theorem groupEntry_groupId (hp : ∀k g,prevMap.lookup k=some g → g.groupId=k) (groupId : String) :
    (groupEntry prevMap brokers groupId).groupId=groupId := by
  unfold groupEntry
  cases hl : prevMap.lookup groupId with
  | none => rfl
  | some ga =>
    dsimp only
    split_ifs
    · exact hp _ _ hl
    · rfl

theorem placeGroup_foldl (prevMap : PrevGroups) (brokers : List BrokerAssignment)
    (s : List ConsumerGroupAssignment × List String)
    (hs : s.1=s.2.map (groupEntry prevMap brokers)) (hn : s.2.Nodup) (groups : List GroupSpec) :
    (groups.foldl (placeGroup prevMap brokers) s).1=
      (groups.foldl (placeGroup prevMap brokers) s).2.map (groupEntry prevMap brokers) ∧
    (groups.foldl (placeGroup prevMap brokers) s).2.Nodup ∧
    ∀k,k∈(groups.foldl (placeGroup prevMap brokers) s).2 ↔ k∈s.2 ∨ ∃g∈groups,g.groupId=k := by
  induction groups generalizing s with
  | nil => exact ⟨hs,hn,by simp⟩
  | cons g groups ih =>
    rw [List.foldl_cons]
    by_cases hg : g.groupId∈s.2
    · have hsame : placeGroup prevMap brokers s g=s := if_pos hg
      rw [hsame]
      obtain ⟨h1,h2,h3⟩ := ih s hs hn
      refine ⟨h1,h2,fun k => ?_⟩
      rw [h3 k]
      constructor
      · intro h
        rcases h with h|⟨q,hq,hk⟩
        · exact Or.inl h
        · exact Or.inr ⟨q,List.mem_cons_of_mem _ hq,hk⟩
      · intro h
        rcases h with h|⟨q,hq,hk⟩
        · exact Or.inl h
        · rcases List.mem_cons.mp hq with rfl|hq
          · exact Or.inl (hk ▸ hg)
          · exact Or.inr ⟨q,hq,hk⟩
    · have hnew : placeGroup prevMap brokers s
        g=(s.1++[groupEntry prevMap brokers g.groupId],s.2++[g.groupId]) :=
        if_neg hg
      rw [hnew]
      obtain ⟨h1,h2,h3⟩ := ih (s.1++[groupEntry prevMap brokers g.groupId],s.2++[g.groupId])
        (by simp [hs]) (by simpa using List.Nodup.concat hg hn)
      refine ⟨h1,h2,fun k => ?_⟩
      rw [h3 k]
      simp [or_assoc,eq_comm]

theorem mem_values {m : PrevGroups} {ga : ConsumerGroupAssignment} :
    ga∈m.entries.map (·.2) ↔ ∃k,m.lookup k=some ga := by
  constructor
  · intro h
    obtain ⟨⟨k,v⟩,hkv,rfl⟩ := List.mem_map.mp h
    exact ⟨k,AList.mem_lookup_iff.mpr hkv⟩
  · intro ⟨k,hk⟩
    exact List.mem_map.mpr ⟨⟨k,ga⟩,AList.mem_lookup_iff.mp hk,rfl⟩

theorem mem_carriedGroups (hp : ∀k g,prevMap.lookup k=some g → g.groupId=k) (placed : List String)
    (ga : ConsumerGroupAssignment) : ga∈carriedGroups prevMap brokers placed ↔
      ga.groupId∉placed ∧ prevMap.lookup ga.groupId=some ga ∧ ga.broker∈aliveSet brokers := by
  rw [carriedGroups,List.mem_insertionSort,List.mem_filter,mem_values,decide_eq_true_iff]
  constructor
  · intro ⟨⟨k,hk⟩,hout,halive⟩
    refine ⟨hout,?_,halive⟩
    rw [hp k ga hk]
    exact hk
  · intro ⟨hout,hl,halive⟩
    exact ⟨⟨_,hl⟩,hout,halive⟩

theorem carriedGroups_nodup (hp : ∀k g,prevMap.lookup k=some g → g.groupId=k)
    (placed : List String) : ((carriedGroups prevMap brokers placed).map (·.groupId)).Nodup := by
  have hkeys : (prevMap.entries.map (·.2)).map (·.groupId)=prevMap.keys := by
    rw [List.map_map]
    apply List.map_congr_left
    intro ⟨k,g⟩ hg
    exact hp k g (AList.mem_lookup_iff.mpr hg)
  have hall : ((prevMap.entries.map (·.2)).map (·.groupId)).Nodup := by
    rw [hkeys]
    exact prevMap.keys_nodup
  have hperm := (List.perm_insertionSort (fun a b : ConsumerGroupAssignment => a.groupId≤b.groupId)
    ((prevMap.entries.map (·.2)).filter (fun ga => decide (ga.groupId∉placed ∧
      ga.broker∈aliveSet brokers)))).map
      (·.groupId)
  apply hperm.nodup_iff.mpr
  exact hall.sublist (List.filter_sublist.map _)

theorem mem_balanceGroups (hne : brokers≠[]) (e : ConsumerGroupAssignment) :
    e∈balanceGroups prev brokers groups ↔
      (∃g∈groups,e=groupEntry (prevGroups prev) brokers g.groupId) ∨
      ((∀g∈groups,g.groupId≠e.groupId) ∧ (prevGroups prev).lookup e.groupId=some e ∧
        e.broker∈aliveSet brokers) := by
  have hp : ∀k g,(prevGroups prev).lookup k=some g → g.groupId=k := fun _ _ h => (prevGroups_some h).2
  obtain ⟨h1,_,h3⟩ := placeGroup_foldl (prevGroups prev) brokers ([],[]) rfl
    List.nodup_nil groups
  rw [balanceGroups,if_neg hne,List.mem_append,mem_carriedGroups hp,h1,List.mem_map]
  constructor
  · intro h
    rcases h with ⟨k,hk,rfl⟩|⟨hout,hl,halive⟩
    · rcases (h3 k).mp hk with hk|⟨g,hg,rfl⟩
      · cases hk
      · exact Or.inl ⟨g,hg,rfl⟩
    · refine Or.inr ⟨fun g hg heq => hout ((h3 _).mpr (Or.inr ⟨g,hg,heq⟩)),hl,halive⟩
  · intro h
    rcases h with ⟨g,hg,rfl⟩|⟨hnone,hl,halive⟩
    · exact Or.inl ⟨g.groupId,(h3 _).mpr (Or.inr ⟨g,hg,rfl⟩),rfl⟩
    · refine Or.inr ⟨fun hin => ?_,hl,halive⟩
      rcases (h3 _).mp hin with hin|⟨g,hg,heq⟩
      · cases hin
      · exact hnone g hg heq

theorem balanceGroups_nodup : ((balanceGroups prev brokers groups).map (·.groupId)).Nodup := by
  have hp : ∀k g,(prevGroups prev).lookup k=some g → g.groupId=k := fun _ _ h => (prevGroups_some h).2
  obtain ⟨h1,h2,_⟩ := placeGroup_foldl (prevGroups prev) brokers ([],[]) rfl
    List.nodup_nil groups
  unfold balanceGroups
  split_ifs
  · exact List.nodup_nil
  · have hplaced : (groups.foldl (placeGroup (prevGroups prev) brokers) ([],[])).1.map (·.groupId)=
        (groups.foldl (placeGroup (prevGroups prev) brokers) ([],[])).2 := by
      rw [h1,List.map_map]
      exact List.map_id'' (fun k => groupEntry_groupId hp k) _
    dsimp only
    rw [List.map_append,List.nodup_append]
    refine ⟨by rw [hplaced]; exact h2,carriedGroups_nodup hp _,?_⟩
    intro k hk l hl heq
    rw [hplaced] at hk
    obtain ⟨ga,hga,rfl⟩ := List.mem_map.mp hl
    exact ((mem_carriedGroups hp _ ga).mp hga).1 (heq ▸ hk)

end Entries

theorem mem_aliveSet {rows : List BrokerAssignment} (h : RowsAgree rows) (id : String) :
    id∈aliveSet rows ↔ ∃r∈rows,r.id=id ∧ r.health=.alive := by
  rw [aliveSet,List.mem_filter,isAlive_iff h,List.mem_map]
  constructor
  · intro hr
    exact hr.2
  · intro ⟨r,hr,hid,halive⟩
    exact ⟨⟨r,hr,hid⟩,r,hr,hid,halive⟩

/-- What every recompute writes: one entry a group, each for a broker that is alive in the same
file, or for no broker when none is. -/
structure Grounded (a : ClusterAssignment) : Prop where
  agree : RowsAgree a.brokers
  nodup : (a.consumerGroups.map (·.groupId)).Nodup
  empty : a.brokers=[] → a.consumerGroups=[]
  named : ∀e∈a.consumerGroups,e.broker∈aliveSet a.brokers ∨ (¬a.SomeAlive ∧ e.broker="")

section Stable

variable {a b : ClusterAssignment} {w : GroupWriter} {c : RecomputeCall} {key : String}

theorem explicitEntry_some (hn : (a.consumerGroups.map (·.groupId)).Nodup) {e : ConsumerGroupAssignment}
    (he : e∈a.consumerGroups) : a.explicitEntry e.groupId=some e.broker := by
  unfold ClusterAssignment.explicitEntry
  cases hf : a.consumerGroups.find? (·.groupId=e.groupId) with
  | none =>
    have := List.find?_eq_none.mp hf e he
    simp at this
  | some x =>
    have hid : x.groupId=e.groupId := by simpa using List.find?_some hf
    rw [List.inj_on_of_nodup_map hn (List.mem_of_find?_eq_some hf) he hid]
    rfl

theorem explicitEntry_none (h : ∀e∈a.consumerGroups,e.groupId≠key) : a.explicitEntry key=none := by
  unfold ClusterAssignment.explicitEntry
  rw [Option.map_eq_none_iff,List.find?_eq_none]
  simpa using h

theorem groupEntry_broker {a : ClusterAssignment} {key : String} {prevMap : PrevGroups}
    (h : ∀g,prevMap.lookup key=some g → g.broker∉aliveSet a.brokers) :
    (groupEntry prevMap a.brokers key).broker=(a.hashed key).getD "" := by
  unfold groupEntry
  cases hl : prevMap.lookup key with
  | none => rfl
  | some ga =>
    dsimp only
    rw [if_neg (h ga hl)]
    rfl

theorem recomputed_grounded (w : GroupWriter) (c : RecomputeCall) : Grounded (w.recomputed c) := by
  have hagree : RowsAgree (w.recomputed c).brokers := buildBrokerEntries_agree
  refine ⟨hagree,balanceGroups_nodup,fun hnil => if_pos hnil,fun e he => ?_⟩
  by_cases hne : (w.recomputed c).brokers=[]
  · have hnil : (w.recomputed c).consumerGroups=[] := if_pos hne
    rw [hnil] at he
    cases he
  · rcases (mem_balanceGroups hne e).mp he with ⟨g,_,rfl⟩|⟨_,_,halive⟩
    · by_cases hkept : ∃x,(prevGroups (w.current.map (·.consumerGroups))).lookup g.groupId=some x ∧
          x.broker∈aliveSet (w.recomputed c).brokers
      · obtain ⟨x,hx,halive⟩ := hkept
        apply Or.inl
        rw [groupEntry,hx]
        dsimp only
        rw [if_pos halive]
        exact halive
      · have hmint := groupEntry_broker (fun x hx halive => hkept ⟨x,hx,halive⟩)
        rw [hmint]
        by_cases hsome : (w.recomputed c).SomeAlive
        · obtain ⟨id,hid⟩ := hashed_some hagree g.groupId hsome
          rw [hid]
          exact Or.inl ((mem_aliveSet hagree id).mpr (hashed_alive hagree hid))
        · rw [hashed_none hagree g.groupId hsome]
          exact Or.inr ⟨hsome,rfl⟩
    · exact Or.inl halive

theorem groupWriter_grounded (run : Reaches GroupWriterStep (fun _ _ => True) {} w) :
    ∀a,w.current=some a ∨ w.file=some a → Grounded a := by
  induction run with
  | start =>
    intro a h
    rcases h with h|h <;> cases h
  | @next w w' op _ _ hstep ih =>
    intro a ha
    cases op with
    | start fresh =>
      cases hstep
      apply ih
      rcases ha with ha|ha
      · cases hf : w.file with
        | some x =>
          rw [hf] at ha
          exact Or.inr ha
        | none =>
          rw [hf] at ha
          cases fresh with
          | true => cases ha
          | false => exact Or.inl ha
      · exact Or.inr ha
    | updateAssignment c written =>
      cases hstep
      have hnew : ∀x,some (w.recomputed c)=some x → Grounded x := by
        intro x hx
        cases hx
        exact recomputed_grounded w c
      rcases ha with ha|ha
      · exact hnew a ha
      · cases written with
        | true => exact hnew a ha
        | false => exact ih a (Or.inr ha)

open GroupTakeoverDriver

theorem coordinatorOf_entry (hn : (a.consumerGroups.map (·.groupId)).Nodup) {e : ConsumerGroupAssignment}
    (he : e∈a.consumerGroups) : coordinatorOf a e.groupId=some e.broker := by
  simp only [coordinatorOf,explicitEntry_some hn he]

theorem coordinatorOf_hashed (h : ∀e∈a.consumerGroups,e.groupId≠key) : coordinatorOf a key=a.hashed key := by
  simp only [coordinatorOf,explicitEntry_none h]
  rfl

def SameHealth (b a : ClusterAssignment) : Prop :=
  b.brokers.map (fun r => (r.id,r.health))=a.brokers.map (fun r => (r.id,r.health))

instance (b a : ClusterAssignment) : Decidable (SameHealth b a) :=
  inferInstanceAs (Decidable
    (b.brokers.map (fun r => (r.id,r.health))=a.brokers.map (fun r => (r.id,r.health))))

theorem SameHealth.row (h : SameHealth b a) (id : String) (x : BrokerHealth) :
    (∃r∈b.brokers,r.id=id ∧ r.health=x) ↔ ∃r∈a.brokers,r.id=id ∧ r.health=x := by
  have hmem : (id,x)∈b.brokers.map (fun r => (r.id,r.health)) ↔
    (id,x)∈a.brokers.map (fun r => (r.id,r.health)) := by
    rw [show b.brokers.map (fun r => (r.id,r.health))=a.brokers.map (fun r => (r.id,r.health)) from h]
  simpa [Prod.ext_iff] using hmem

theorem SameHealth.someAlive (h : SameHealth b a) : b.SomeAlive ↔ a.SomeAlive := by
  constructor
  · intro ⟨r,hr,hx⟩
    obtain ⟨q,hq,_,hy⟩ := (h.row r.id .alive).mp ⟨r,hr,rfl,hx⟩
    exact ⟨q,hq,hy⟩
  · intro ⟨r,hr,hx⟩
    obtain ⟨q,hq,_,hy⟩ := (h.row r.id .alive).mpr ⟨r,hr,rfl,hx⟩
    exact ⟨q,hq,hy⟩

theorem SameHealth.nil (h : SameHealth b a) : b.brokers=[] ↔ a.brokers=[] := by
  have hlen := congrArg List.length (show b.brokers.map (fun r => (r.id,r.health))=_ from h)
  rw [List.length_map,List.length_map] at hlen
  rw [← List.length_eq_zero_iff,← List.length_eq_zero_iff,hlen]

theorem recomputed_stable (hg : Grounded a) (hc : w.current=some a) (hrows : SameHealth (w.recomputed c) a)
    (halive : a.SomeAlive) (key : String) : coordinatorOf (w.recomputed c) key=coordinatorOf a key := by
  have hg' := recomputed_grounded w c
  have hhash : (w.recomputed c).hashed key=a.hashed key := hashed_congr hg'.agree key (by rw [hrows])
  have hne : (w.recomputed c).brokers≠[] := by
    intro hnil
    obtain ⟨r,hr,_⟩ := halive
    rw [hrows.nil.mp hnil] at hr
    cases hr
  have hprev : w.current.map (·.consumerGroups)=some a.consumerGroups := by rw [hc]; rfl
  have hmem (e : ConsumerGroupAssignment) : e∈(w.recomputed c).consumerGroups ↔ _ := mem_balanceGroups hne e
  rw [hprev] at hmem
  by_cases hentry : ∃e∈a.consumerGroups,e.groupId=key
  · obtain ⟨e,he,rfl⟩ := hentry
    have hbroker : e.broker∈aliveSet (w.recomputed c).brokers := by
      rcases hg.named e he with h|⟨hdark,_⟩
      · exact (mem_aliveSet hg'.agree _).mpr ((hrows.row _ _).mpr ((mem_aliveSet hg.agree _).mp h))
      · exact absurd halive hdark
    have hl : (prevGroups (some a.consumerGroups)).lookup e.groupId=some e := lookup_tableOf_mem hg.nodup he
    have he' : e∈(w.recomputed c).consumerGroups := by
      rw [hmem]
      by_cases hrep : ∃g∈c.groups,g.groupId=e.groupId
      · obtain ⟨g,hgin,hid⟩ := hrep
        refine Or.inl ⟨g,hgin,?_⟩
        rw [groupEntry,hid,hl]
        dsimp only
        exact (if_pos hbroker).symm
      · exact Or.inr ⟨fun g hgin hid => hrep ⟨g,hgin,hid⟩,hl,hbroker⟩
    rw [coordinatorOf_entry hg.nodup he,coordinatorOf_entry hg'.nodup he']
  · have hnone : ∀e∈a.consumerGroups,e.groupId≠key := fun e he hid => hentry ⟨e,he,hid⟩
    have hl : (prevGroups (some a.consumerGroups)).lookup key=none := lookup_tableOf_none.mpr hnone
    have hids : ∀k g,(prevGroups (some a.consumerGroups)).lookup k=some g → g.groupId=k :=
      fun _ _ h => (prevGroups_some h).2
    rw [coordinatorOf_hashed hnone]
    by_cases hrep : ∃g∈c.groups,g.groupId=key
    · obtain ⟨g,hgin,rfl⟩ := hrep
      have hin : groupEntry (prevGroups (some a.consumerGroups)) (w.recomputed c).brokers g.groupId∈
          (w.recomputed c).consumerGroups := (hmem _).mpr (Or.inl ⟨g,hgin,rfl⟩)
      have hcoord := coordinatorOf_entry hg'.nodup hin
      rw [groupEntry_groupId hids,groupEntry_broker (by rw [hl]; intro x hx; cases hx)] at hcoord
      obtain ⟨id,hid⟩ := hashed_some hg.agree g.groupId halive
      rw [hcoord,hhash,hid]
      rfl
    · rw [coordinatorOf_hashed,hhash]
      intro e he hid
      rcases (hmem e).mp he with ⟨g,hgin,rfl⟩|⟨_,hsome,_⟩
      · rw [groupEntry_groupId hids] at hid
        exact hrep ⟨g,hgin,hid⟩
      · rw [hid,hl] at hsome
        cases hsome

theorem coordinatorOf_dark (hg : Grounded a) (hdark : ¬a.SomeAlive) (key : String) :
    coordinatorOf a key=some "" ∧ (∃e∈a.consumerGroups,e.groupId=key) ∨
      coordinatorOf a key=none ∧ ¬∃e∈a.consumerGroups,e.groupId=key := by
  by_cases hentry : ∃e∈a.consumerGroups,e.groupId=key
  · obtain ⟨e,he,rfl⟩ := hentry
    refine Or.inl ⟨?_,e,he,rfl⟩
    rw [coordinatorOf_entry hg.nodup he]
    rcases hg.named e he with h|⟨_,h⟩
    · obtain ⟨r,hr,_,hx⟩ := (mem_aliveSet hg.agree _).mp h
      exact absurd ⟨r,hr,hx⟩ hdark
    · rw [h]
  · refine Or.inr ⟨?_,hentry⟩
    rw [coordinatorOf_hashed (fun e he hid => hentry ⟨e,he,hid⟩)]
    exact hashed_none hg.agree key hdark

theorem recomputed_dark (hne : (w.recomputed c).brokers≠[]) (hdark : ¬(w.recomputed c).SomeAlive)
    (key : String) :
    (∃e∈(w.recomputed c).consumerGroups,e.groupId=key) ↔ ∃g∈c.groups,g.groupId=key := by
  have hids : ∀k g,(prevGroups (w.current.map (·.consumerGroups))).lookup k=some g → g.groupId=k :=
    fun _ _ h => (prevGroups_some h).2
  constructor
  · intro ⟨e,he,hid⟩
    rcases (mem_balanceGroups hne e).mp he with ⟨g,hgin,rfl⟩|⟨_,_,halive⟩
    · exact ⟨g,hgin,(groupEntry_groupId hids _).symm.trans hid⟩
    · obtain ⟨r,hr,_,hx⟩ := (mem_aliveSet (recomputed_grounded w c).agree _).mp halive
      exact absurd ⟨r,hr,hx⟩ hdark
  · intro ⟨g,hgin,hid⟩
    exact ⟨_,(mem_balanceGroups hne _).mpr (Or.inl ⟨g,hgin,rfl⟩),(groupEntry_groupId hids _).trans hid⟩

end Stable

/-- A recompute over unchanged rows leaves every coordinator in place exactly when somebody is
alive, there are no brokers at all, or the groups reported are those that have an entry. -/
theorem group_coordinator_stable {w : GroupWriter} {a : ClusterAssignment} (c : RecomputeCall)
    (run : Reaches GroupWriterStep (fun _ _ => True) {} w) (current : w.current=some a)
    (rows : SameHealth (w.recomputed c) a) :
    ((∀self key,(AssignmentSource.mk self (some (w.recomputed c))).groupCoordinator key=
        (AssignmentSource.mk self (some a)).groupCoordinator key) ↔
      a.brokers=[] ∨ a.SomeAlive ∨
        ∀key,(∃g∈c.groups,g.groupId=key) ↔ ∃e∈a.consumerGroups,e.groupId=key) ∧
    (a.consumerGroups.map (·.groupId)).Nodup ∧ ((w.recomputed c).consumerGroups.map (·.groupId)).Nodup := by
  have hg := groupWriter_grounded run a (Or.inl current)
  have hg' := recomputed_grounded w c
  refine ⟨⟨fun h => ?_,fun h self key => ?_⟩,hg.nodup,hg'.nodup⟩
  · by_cases hne : a.brokers=[]
    · exact Or.inl hne
    by_cases halive : a.SomeAlive
    · exact Or.inr (Or.inl halive)
    refine Or.inr (Or.inr (fun key => ?_))
    have hsame := h "" key
    rw [groupCoordinator_eq rfl,groupCoordinator_eq rfl] at hsame
    have hdark' : ¬(w.recomputed c).SomeAlive := fun hx => halive (rows.someAlive.mp hx)
    rw [← recomputed_dark (fun hx => hne (rows.nil.mp hx)) hdark' key]
    rcases coordinatorOf_dark hg halive key with ⟨h1,h2⟩|⟨h1,h2⟩
    · rcases coordinatorOf_dark hg' hdark' key with ⟨_,h4⟩|⟨h3,_⟩
      · exact ⟨fun _ => h2,fun _ => h4⟩
      · rw [h1,h3] at hsame
        cases hsame
    · rcases coordinatorOf_dark hg' hdark' key with ⟨h3,_⟩|⟨_,h4⟩
      · rw [h1,h3] at hsame
        cases hsame
      · exact ⟨fun hx => absurd hx h4,fun hx => absurd hx h2⟩
  · rw [groupCoordinator_eq rfl,groupCoordinator_eq rfl]
    by_cases halive : a.SomeAlive
    · exact recomputed_stable hg current rows halive key
    have hdark' : ¬(w.recomputed c).SomeAlive := fun hx => halive (rows.someAlive.mp hx)
    have hentries : (∃e∈(w.recomputed c).consumerGroups,e.groupId=key) ↔ ∃e∈a.consumerGroups,e.groupId=key := by
      rcases h with hnil|hx|hall
      · rw [hg.empty hnil,hg'.empty (rows.nil.mpr hnil)]
      · exact absurd hx halive
      · by_cases hne : a.brokers=[]
        · rw [hg.empty hne,hg'.empty (rows.nil.mpr hne)]
        · exact (recomputed_dark (fun hx => hne (rows.nil.mp hx)) hdark' key).trans (hall key)
    rcases coordinatorOf_dark hg halive key with ⟨h1,h2⟩|⟨h1,h2⟩
    · rcases coordinatorOf_dark hg' hdark' key with ⟨h3,_⟩|⟨_,h4⟩
      · rw [h1,h3]
      · exact absurd (hentries.mpr h2) h4
    · rcases coordinatorOf_dark hg' hdark' key with ⟨_,h4⟩|⟨h3,_⟩
      · exact absurd (hentries.mp h4) h2
      · rw [h1,h3]

def twoBrokers (draining : List String) (groups : List GroupSpec) : RecomputeCall :=
  ⟨⟨1,1,[]⟩,["kaas-0","kaas-1"],["kaas-0"],draining,"t",groups⟩

theorem group_coordinator_stable_reported :
    ∃w a,Reaches GroupWriterStep (fun _ _ => True) {} w ∧ w.current=some a ∧
      SameHealth (w.recomputed (twoBrokers [] [⟨"payments"⟩])) a ∧ a.SomeAlive ∧
      (∃e∈a.consumerGroups,e.groupId="billing") ∧
      ∀self key,(AssignmentSource.mk self
        (some (w.recomputed (twoBrokers [] [⟨"payments"⟩])))).groupCoordinator key=
        (AssignmentSource.mk self (some a)).groupCoordinator key := by
  let w : GroupWriter := ⟨some (GroupWriter.recomputed {} (twoBrokers [] [⟨"billing"⟩])),none⟩
  have hrun : Reaches GroupWriterStep (fun _ _ => True) {} w :=
    .next (.updateAssignment (twoBrokers [] [⟨"billing"⟩]) false) .start trivial rfl
  have hrows : SameHealth (w.recomputed (twoBrokers [] [⟨"payments"⟩]))
      (GroupWriter.recomputed {} (twoBrokers [] [⟨"billing"⟩])) := by decide +kernel
  have halive : (GroupWriter.recomputed {} (twoBrokers [] [⟨"billing"⟩])).SomeAlive := by decide +kernel
  refine ⟨w,_,hrun,rfl,hrows,halive,by decide +kernel,?_⟩
  exact (group_coordinator_stable _ hrun rfl hrows).1.mpr (Or.inr (Or.inl halive))

/-- While the last broker drains, a group that is reported for the first time gets a coordinator
without a name. -/
theorem group_coordinator_moves : ¬∀(w : GroupWriter) (a : ClusterAssignment) (c : RecomputeCall),
      Reaches GroupWriterStep (fun _ _ => True) {} w → w.current=some a → SameHealth (w.recomputed c) a →
      ∀self key,(AssignmentSource.mk self (some (w.recomputed c))).groupCoordinator key=
        (AssignmentSource.mk self (some a)).groupCoordinator key := by
  intro h
  have hmoved := h ⟨some (GroupWriter.recomputed {} (twoBrokers ["kaas-0"] [])),none⟩ _
    (twoBrokers ["kaas-0"] [⟨"billing"⟩])
    (.next (.updateAssignment (twoBrokers ["kaas-0"] []) false) .start trivial rfl) rfl (by decide +kernel)
    "kaas-0" "billing"
  revert hmoved
  decide +kernel

end Kaas
