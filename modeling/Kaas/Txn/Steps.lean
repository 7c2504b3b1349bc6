import Kaas.Txn.State

namespace Kaas

/-! One lemma for what each operation can do. -/

variable {o : Option TxnEntry}

section Entries

variable {e : TxnEntry} {x : Option TxnEntry} {pid epoch : Int} {commit : Bool}

theorem wantPrepare_preparing (h : e.state=wantPrepare commit) : e.preparing := by
  cases commit with
  | true => exact Or.inl h
  | false => exact Or.inr h

theorem preparing_iff : e.preparing ↔ ∃commit,e.state=wantPrepare commit := by
  constructor
  · intro h
    rcases h with h|h
    · exact ⟨true,h⟩
    · exact ⟨false,h⟩
  · intro ⟨commit,h⟩
    exact wantPrepare_preparing h

theorem wantPrepare_inj {a b : Bool} (h : wantPrepare a=wantPrepare b) : a=b := by
  cases a <;> cases b <;> first | rfl | cases h

@[simp] theorem wantPrepare_ne_ongoing (commit : Bool) : wantPrepare commit≠.ongoing := by
  cases commit <;> decide

@[simp] theorem wantPrepare_ne_empty (commit : Bool) : wantPrepare commit≠.empty := by
  cases commit <;> decide

@[simp] theorem wantComplete_ne_ongoing (commit : Bool) : wantComplete commit≠.ongoing := by
  cases commit <;> decide

@[simp] theorem wantComplete_ne_wantPrepare (a b : Bool) : wantComplete a≠wantPrepare b := by
  cases a <;> cases b <;> decide

theorem not_preparing_of_complete (h : e.state=wantComplete commit) : ¬e.preparing := by
  intro hprep
  obtain ⟨c,hc⟩ := preparing_iff.mp hprep
  exact wantComplete_ne_wantPrepare commit c (h.symm.trans hc)

theorem validate_ok (h : TxnEntry.validate pid epoch x=.ok e) : x=some e ∧ e.pid=pid ∧ e.epoch=epoch := by
  unfold TxnEntry.validate at h
  split at h
  · cases h
  · split_ifs at h with hp he
    · cases h
      exact ⟨rfl,not_not.mp hp,not_not.mp he⟩

theorem pushMissing_foldl (l : List Int) (s : List Int × Bool) :
    (∀p,p∈(l.foldl pushMissing s).1 ↔ p∈s.1 ∨ p∈l) ∧
      ((l.foldl pushMissing s).2=false → (l.foldl pushMissing s).1=s.1 ∧ s.2=false) := by
  induction l generalizing s with
  | nil => exact ⟨by simp,fun h => ⟨rfl,h⟩⟩
  | cons p l ih =>
    rw [List.foldl_cons]
    by_cases hp : p∈s.1
    · have hsame : pushMissing s p=s := if_pos hp
      rw [hsame]
      refine ⟨fun q => ?_,(ih s).2⟩
      rw [(ih s).1 q,List.mem_cons]
      constructor
      · intro h
        exact h.imp id Or.inr
      · intro h
        rcases h with h|rfl|h
        · exact Or.inl h
        · exact Or.inl hp
        · exact Or.inr h
    · have hnew : pushMissing s p=(s.1++[p],true) := if_neg hp
      rw [hnew]
      refine ⟨fun q => ?_,fun h => ?_⟩
      · rw [(ih _).1 q,List.mem_append,List.mem_singleton,List.mem_cons]
        exact or_assoc
      · have := ((ih _).2 h).2
        cases this

def TxnEntry.Records (partitions : List TxnTopic) (topic : String) (p : Int) : Prop :=
  ∃t∈partitions,t.topic=topic ∧ p∈t.partitions

instance (partitions : List TxnTopic) (topic : String) (p : Int) :
    Decidable (TxnEntry.Records partitions topic p) :=
  inferInstanceAs (Decidable (∃t∈partitions,t.topic=topic ∧ p∈t.partitions))

theorem mergeTopic_records (add : TxnTopic) (ps : List TxnTopic) (topic : String) (p : Int) :
    TxnEntry.Records (mergeTopic add ps).1 topic p ↔
      TxnEntry.Records ps topic p ∨ (add.topic=topic ∧ p∈add.partitions) := by
  induction ps with
  | nil => simp [mergeTopic,TxnEntry.Records]
  | cons t ps ih =>
    unfold mergeTopic
    by_cases ht : t.topic=add.topic
    · rw [if_pos ht]
      have hmem := (pushMissing_foldl add.partitions (t.partitions,false)).1 p
      simp only [TxnEntry.Records,List.exists_mem_cons_iff,hmem]
      constructor
      · intro h
        rcases h with ⟨htopic,h|h⟩|h
        · exact Or.inl (Or.inl ⟨htopic,h⟩)
        · exact Or.inr ⟨ht ▸ htopic,h⟩
        · exact Or.inl (Or.inr h)
      · intro h
        rcases h with (⟨htopic,h⟩|h)|⟨htopic,h⟩
        · exact Or.inl ⟨htopic,Or.inl h⟩
        · exact Or.inr h
        · exact Or.inl ⟨ht.trans htopic,Or.inr h⟩
    · rw [if_neg ht]
      simp only [TxnEntry.Records,List.exists_mem_cons_iff] at ih ⊢
      rw [ih,or_assoc]

theorem mergeTopic_unchanged {add : TxnTopic} {ps : List TxnTopic}
    (h : (mergeTopic add ps).2=false) : (mergeTopic add ps).1=ps := by
  induction ps with
  | nil => cases h
  | cons t ps ih =>
    unfold mergeTopic at h ⊢
    by_cases ht : t.topic=add.topic
    · rw [if_pos ht] at h ⊢
      dsimp only at h ⊢
      rw [((pushMissing_foldl add.partitions (t.partitions,false)).2 h).1]
    · rw [if_neg ht] at h ⊢
      dsimp only
      rw [ih h]

theorem mergePartitions_foldl (additions : List TxnTopic) (s : List TxnTopic × Bool) :
    (∀topic p,TxnEntry.Records
      (additions.foldl (fun s add => ((mergeTopic add s.1).1,s.2||(mergeTopic add s.1).2))
        s).1 topic p ↔ TxnEntry.Records s.1 topic p ∨ TxnEntry.Records additions topic p) ∧
      ((additions.foldl (fun s add => ((mergeTopic add s.1).1,s.2||(mergeTopic add s.1).2)) s).2=false →
        (additions.foldl (fun s add => ((mergeTopic add s.1).1,s.2||(mergeTopic add s.1).2)) s).1=s.1 ∧
          s.2=false) := by
  induction additions generalizing s with
  | nil => exact ⟨fun topic p => by simp [TxnEntry.Records],fun h => ⟨rfl,h⟩⟩
  | cons add additions ih =>
    rw [List.foldl_cons]
    refine ⟨fun topic p => ?_,fun h => ?_⟩
    · rw [(ih _).1 topic p,mergeTopic_records,or_assoc]
      simp [TxnEntry.Records]
    · obtain ⟨h1,h2⟩ := (ih _).2 h
      obtain ⟨h3,h4⟩ := Bool.or_eq_false_iff.mp h2
      exact ⟨h1.trans (mergeTopic_unchanged h4),h3⟩

theorem mergePartitions_records (ps additions : List TxnTopic) (topic : String) (p : Int) :
    TxnEntry.Records (mergePartitions ps additions).1 topic p ↔
      TxnEntry.Records ps topic p ∨ TxnEntry.Records additions topic p :=
  (mergePartitions_foldl additions (ps,false)).1 topic p

theorem mergePartitions_unchanged {ps additions : List TxnTopic}
    (h : (mergePartitions ps additions).2=false) : (mergePartitions ps additions).1=ps :=
  ((mergePartitions_foldl additions (ps,false)).2 h).1

theorem addPartitions_ok {additions : List TxnTopic} {nowMs : Int} {u : Unit}
    (h : TxnEntry.addPartitions pid epoch additions nowMs x=.ok (o,u)) :
    ∃e,x=some e ∧ e.pid=pid ∧ e.epoch=epoch ∧ ¬e.preparing ∧ o.or x=some (TxnEntry.opened nowMs
        {e with partitions := (mergePartitions e.partitions additions).1}) := by
  unfold TxnEntry.addPartitions at h
  split at h
  · cases h
  · rename_i e hv
    obtain ⟨rfl,hpid,hepoch⟩ := validate_ok hv
    by_cases hprep : e.preparing
    · rw [if_pos hprep] at h
      cases h
    rw [if_neg hprep] at h
    dsimp only at h
    split_ifs at h with hsame
    · cases h
      refine ⟨e,rfl,hpid,hepoch,hprep,?_⟩
      rw [mergePartitions_unchanged hsame.1,TxnEntry.opened,if_neg (not_not.mpr hsame.2)]
      rfl
    · cases h
      exact ⟨e,rfl,hpid,hepoch,hprep,rfl⟩

theorem addOffsets_ok {groupId : String} {nowMs : Int} {u : Unit}
    (h : TxnEntry.addOffsets pid epoch groupId nowMs x=.ok (o,u)) :
    ∃e,x=some e ∧ e.pid=pid ∧ e.epoch=epoch ∧ ¬e.preparing ∧ o.or x=some (TxnEntry.opened nowMs
        {e with groups := if groupId∈e.groups then e.groups else e.groups++[groupId]}) := by
  unfold TxnEntry.addOffsets at h
  split at h
  · cases h
  · rename_i e hv
    obtain ⟨rfl,hpid,hepoch⟩ := validate_ok hv
    split_ifs at h with hprep hsame hin
    · cases h
      refine ⟨e,rfl,hpid,hepoch,hprep,?_⟩
      rw [if_pos hsame.1,TxnEntry.opened,if_neg (not_not.mpr hsame.2)]
      rfl
    · cases h
      refine ⟨e,rfl,hpid,hepoch,hprep,?_⟩
      rw [if_pos hin]
      rfl
    · cases h
      refine ⟨e,rfl,hpid,hepoch,hprep,?_⟩
      rw [if_neg hin]
      rfl

theorem prepare_ok {out : EndTxnOutcome} (h : TxnEntry.prepare pid epoch commit x=.ok (o,out)) :
    ∃e,x=some e ∧ e.pid=pid ∧ e.epoch=epoch ∧
      ((e.state=.ongoing ∧ o=some {e with state := wantPrepare commit} ∧ out=⟨e.partitions,e.groups,true⟩) ∨
        (e.state=wantPrepare commit ∧ o=none ∧ out=⟨e.partitions,e.groups,true⟩) ∨
        (e.state=wantComplete commit ∧ o=none ∧ out={})) := by
  unfold TxnEntry.prepare at h
  split at h
  · cases h
  · rename_i e hv
    obtain ⟨rfl,hpid,hepoch⟩ := validate_ok hv
    refine ⟨e,rfl,hpid,hepoch,?_⟩
    cases hs : e.state with
    | empty =>
      rw [hs] at h
      cases h
    | ongoing =>
      rw [hs] at h
      cases h
      exact Or.inl ⟨rfl,rfl,rfl⟩
    | prepareCommit | prepareAbort =>
      rw [hs] at h
      dsimp only at h
      split_ifs at h with hwant
      · cases h
        exact Or.inr (Or.inl ⟨not_not.mp hwant,rfl,rfl⟩)
    | completeCommit =>
      rw [hs] at h
      cases commit with
      | true =>
        cases h
        exact Or.inr (Or.inr ⟨rfl,rfl,rfl⟩)
      | false => cases h
    | completeAbort =>
      rw [hs] at h
      cases commit with
      | true => cases h
      | false =>
        cases h
        exact Or.inr (Or.inr ⟨rfl,rfl,rfl⟩)

def TxnEntry.completed (commit : Bool) (e : TxnEntry) : TxnEntry :=
  {e with state := wantComplete commit,groups := [],partitions := [],ongoingSinceMs := 0}

theorem complete_ok {calls : List HookCall}
    (h : TxnEntry.complete pid epoch commit x=.ok (o,calls)) :
    ∃e,x=some e ∧ e.pid=pid ∧ e.epoch=epoch ∧
      ((e.state=wantPrepare commit ∧ o=some (e.completed commit) ∧
        calls=e.groups.map (fun g => ⟨g,e.pid,commit⟩)) ∨
        (e.state=wantComplete commit ∧ o=none ∧ calls=[])) := by
  unfold TxnEntry.complete at h
  split at h
  · cases h
  · rename_i e hv
    obtain ⟨rfl,rfl,hepoch⟩ := validate_ok hv
    refine ⟨e,rfl,rfl,hepoch,?_⟩
    split_ifs at h with hdone hwant
    · cases h
      exact Or.inr ⟨hdone,rfl,rfl⟩
    · cases h
      exact Or.inl ⟨not_not.mp hwant,rfl,rfl⟩

@[simp] theorem opened_state (nowMs : Int) (e : TxnEntry) : (e.opened nowMs).state=.ongoing := by
  unfold TxnEntry.opened
  split_ifs with h
  · rfl
  · exact not_not.mp h

@[simp] theorem opened_pid (nowMs : Int) (e : TxnEntry) : (e.opened nowMs).pid=e.pid := by
  unfold TxnEntry.opened
  split_ifs <;> rfl

@[simp] theorem opened_epoch (nowMs : Int) (e : TxnEntry) : (e.opened nowMs).epoch=e.epoch := by
  unfold TxnEntry.opened
  split_ifs <;> rfl

@[simp] theorem opened_partitions (nowMs : Int) (e : TxnEntry) : (e.opened nowMs).partitions=e.partitions := by
  unfold TxnEntry.opened
  split_ifs <;> rfl

@[simp] theorem opened_groups (nowMs : Int) (e : TxnEntry) : (e.opened nowMs).groups=e.groups := by
  unfold TxnEntry.opened
  split_ifs <;> rfl

theorem opened_since (nowMs : Int) (e : TxnEntry) :
    (e.opened nowMs).ongoingSinceMs=if e.state=.ongoing then e.ongoingSinceMs else nowMs := by
  unfold TxnEntry.opened
  by_cases h : e.state=.ongoing
  · rw [if_neg (not_not.mpr h),if_pos h]
  · rw [if_pos h,if_neg h]

theorem rejoin_cases (timeoutMs alloc : Int) (x : Option TxnEntry) :
    ((∀e,x=some e → e.epoch=i16Max) ∧ (TxnEntry.rejoin timeoutMs alloc x).pid=alloc ∧
      (TxnEntry.rejoin timeoutMs alloc x).epoch=0 ∧ (TxnEntry.rejoin timeoutMs alloc x).state=.empty ∧
      (TxnEntry.rejoin timeoutMs alloc x).partitions=[] ∧ (TxnEntry.rejoin timeoutMs alloc x).groups=[] ∧
      (TxnEntry.rejoin timeoutMs alloc x).ongoingSinceMs=0) ∨
    ∃e,x=some e ∧ e.epoch≠i16Max ∧ ∃timeout,
      TxnEntry.rejoin timeoutMs alloc x={e with epoch := e.epoch+1,transactionTimeoutMs := timeout} := by
  cases x with
  | none =>
    refine Or.inl ⟨nofun,?_⟩
    unfold TxnEntry.rejoin
    dsimp only
    split_ifs <;> exact ⟨rfl,rfl,rfl,rfl,rfl,rfl⟩
  | some e =>
    by_cases hmax : e.epoch=i16Max
    · refine Or.inl ⟨fun e' he => by cases he; exact hmax,?_⟩
      unfold TxnEntry.rejoin
      dsimp only
      rw [if_pos hmax]
      split_ifs <;> exact ⟨rfl,rfl,rfl,rfl,rfl,rfl⟩
    · refine Or.inr ⟨e,rfl,hmax,?_⟩
      unfold TxnEntry.rejoin
      dsimp only
      rw [if_neg hmax]
      split_ifs
      · exact ⟨timeoutMs,rfl⟩
      · exact ⟨e.transactionTimeoutMs,rfl⟩

end Entries

section Stores

variable {α : Type} {s : TxnStore} {io : SlotIo} {txnId : String}
  {f : Option TxnEntry → Except TxnStateError (Option TxnEntry × α)}

@[simp] theorem insert_slotFor (e : TxnEntry) (id : String) : (s.insert txnId e).slotFor id=s.slotFor id := rfl

theorem insert_entry (s : TxnStore) (txnId : String) (e : TxnEntry) (id : String) :
    (s.insert txnId e).entry id=if id=txnId then some e else s.entry id := by
  unfold TxnStore.entry
  rw [insert_slotFor]
  by_cases hslot : s.slotFor id=s.slotFor txnId
  · have hnew : (s.insert txnId e).slots (s.slotFor id)=(s.slots (s.slotFor id)).insert txnId e := by
      rw [hslot]
      exact Function.update_self ..
    rw [hnew]
    by_cases hid : id=txnId
    · rw [if_pos hid,hid,AList.lookup_insert]
    · rw [if_neg hid,AList.lookup_insert_ne hid]
  · have hsame : (s.insert txnId e).slots (s.slotFor id)=s.slots (s.slotFor id) :=
      Function.update_of_ne hslot ..
    rw [hsame,if_neg (fun hid => hslot (by rw [hid]))]

theorem access_cases (s : TxnStore) (io : SlotIo) (txnId : String)
    (f : Option TxnEntry → Except TxnStateError (Option TxnEntry × α)) :
    (∃err,s.access io txnId f=(s,.error err)) ∨
      ∃o a,txnId≠"" ∧ f (s.entry txnId)=.ok (o,a) ∧ (s.access io txnId f).2=.ok a ∧
        (∀id,(s.access io txnId f).1.entry id=if id=txnId then o.or (s.entry txnId) else s.entry id) ∧
        ∀slot,(s.access io txnId f).1.slots slot=s.slots slot ∨
          slot=s.slotFor txnId ∧ ∃e,(s.access io txnId f).1.slots slot=(s.slots slot).insert txnId e := by
  unfold TxnStore.access
  by_cases hid : txnId=""
  · rw [if_pos hid]
    exact Or.inl ⟨_,rfl⟩
  by_cases hload : io.load=false
  · rw [if_neg hid,if_pos hload]
    exact Or.inl ⟨_,rfl⟩
  rw [if_neg hid,if_neg hload]
  cases hf : f (s.entry txnId) with
  | error err => exact Or.inl ⟨err,rfl⟩
  | ok r =>
    obtain ⟨o,a⟩ := r
    cases o with
    | none =>
      refine Or.inr ⟨none,a,hid,rfl,rfl,fun id => ?_,fun slot => Or.inl rfl⟩
      by_cases heq : id=txnId
      · rw [if_pos heq,heq]
        rfl
      · rw [if_neg heq]
    | some e =>
      dsimp only
      by_cases hp : io.persist=true
      · rw [if_pos hp]
        refine Or.inr ⟨some e,a,hid,rfl,rfl,fun id => insert_entry s txnId e id,fun slot => ?_⟩
        by_cases hslot : slot=s.slotFor txnId
        · refine Or.inr ⟨hslot,e,?_⟩
          rw [hslot]
          exact Function.update_self ..
        · exact Or.inl (Function.update_of_ne hslot ..)
      · rw [if_neg hp]
        exact Or.inl ⟨_,rfl⟩

theorem access_succeeds {e : TxnEntry} {a : α} (hid : txnId≠"")
    (hf : f (s.entry txnId)=.ok (some e,a)) : s.access {} txnId f=(s.insert txnId e,.ok a) := by
  unfold TxnStore.access
  rw [if_neg hid,if_neg (by decide),hf]
  rfl

def TxnEntry.swept (nowMs : Int) (owns : OwnsTxn) (txnId : String) (e : TxnEntry) : TxnEntry :=
  if e.overdue nowMs ∧ owns.owns txnId=true then e.reaped else e

def abortRecord (nowMs : Int) (owns : OwnsTxn) (txnId : String) (e : TxnEntry) : Option TxnAbortRecord :=
  if e.overdue nowMs ∧ owns.owns txnId=true then some ⟨txnId,e.pid,e.epoch,e.reaped.epoch,e.groups⟩ else none

theorem reapOne_lookup (nowMs : Int) (owns : OwnsTxn) (s : TxnSlot × List TxnAbortRecord)
    (txnId id : String) : (TxnStore.reapOne nowMs owns s txnId).1.lookup id=
      if id=txnId then (s.1.lookup id).map (TxnEntry.swept nowMs owns id) else s.1.lookup id := by
  unfold TxnStore.reapOne
  cases hl : s.1.lookup txnId with
  | none =>
    dsimp only
    by_cases hid : id=txnId
    · rw [if_pos hid,hid,hl]
      rfl
    · rw [if_neg hid]
  | some e =>
    dsimp only
    split_ifs with hdue hid hid
    · rw [hid,hl,AList.lookup_insert,Option.map_some,TxnEntry.swept,if_pos hdue]
    · rw [AList.lookup_insert_ne hid]
    · rw [hid,hl,Option.map_some,TxnEntry.swept,if_neg hdue]
    · rfl

theorem reapOne_records (nowMs : Int) (owns : OwnsTxn) (s : TxnSlot × List TxnAbortRecord)
    (txnId : String) : (TxnStore.reapOne nowMs owns s txnId).2=
      s.2++((s.1.lookup txnId).bind (abortRecord nowMs owns txnId)).toList := by
  unfold TxnStore.reapOne
  cases hl : s.1.lookup txnId with
  | none => simp
  | some e =>
    dsimp only [Option.bind_some]
    unfold abortRecord
    split_ifs <;> simp

theorem reapOne_foldl (nowMs : Int) (owns : OwnsTxn) {l : List String} (hn : l.Nodup)
    (s : TxnSlot × List TxnAbortRecord) :
    (∀id,(l.foldl (TxnStore.reapOne nowMs owns) s).1.lookup id=
      if id∈l then (s.1.lookup id).map (TxnEntry.swept nowMs owns id) else s.1.lookup id) ∧
    (l.foldl (TxnStore.reapOne nowMs owns) s).2=
      s.2++l.filterMap (fun id => (s.1.lookup id).bind (abortRecord nowMs owns id)) := by
  induction l generalizing s with
  | nil => exact ⟨fun id => by simp,by simp⟩
  | cons k l ih =>
    obtain ⟨hk,hl⟩ := List.nodup_cons.mp hn
    obtain ⟨h1,h2⟩ := ih hl (TxnStore.reapOne nowMs owns s k)
    rw [List.foldl_cons]
    constructor
    · intro id
      rw [h1 id,reapOne_lookup]
      by_cases hid : id=k
      · rw [if_pos hid,if_neg (hid ▸ hk),if_pos (hid ▸ List.mem_cons_self ..)]
      · rw [if_neg hid]
        simp [hid]
    · have hrest : l.filterMap (fun id => ((TxnStore.reapOne nowMs owns s k).1.lookup id).bind
          (abortRecord nowMs owns id))=
          l.filterMap (fun id => (s.1.lookup id).bind (abortRecord nowMs owns id)) := by
        apply List.filterMap_congr
        intro id hid
        have hne : id≠k := by
          rintro rfl
          exact hk hid
        rw [reapOne_lookup,if_neg hne]
      rw [h2,reapOne_records,hrest,List.filterMap_cons,List.append_assoc]
      cases (s.1.lookup k).bind (abortRecord nowMs owns k) <;> rfl

theorem reapSlot_lookup (nowMs : Int) (owns : OwnsTxn) (m : TxnSlot) (id : String) :
    (TxnStore.reapSlot nowMs owns m).1.lookup id=(m.lookup id).map (TxnEntry.swept nowMs owns id) := by
  rw [TxnStore.reapSlot,(reapOne_foldl nowMs owns m.keys_nodup (m,[])).1 id]
  by_cases hid : id∈m.keys
  · rw [if_pos hid]
  · rw [if_neg hid,AList.lookup_eq_none.mpr (fun h => hid (AList.mem_keys.mp h))]
    rfl

theorem reapSlot_records (nowMs : Int) (owns : OwnsTxn) (m : TxnSlot) :
    (TxnStore.reapSlot nowMs owns m).2=
      m.keys.filterMap (fun id => (m.lookup id).bind (abortRecord nowMs owns id)) := by
  rw [TxnStore.reapSlot,(reapOne_foldl nowMs owns m.keys_nodup (m,[])).2]
  rfl

def Swept (s : TxnStore) (io : Nat → SlotIo) (slot : Nat) : Prop :=
  slot<s.numSlots ∧ (io slot).load=true ∧ (io slot).persist=true

instance (s : TxnStore) (io : Nat → SlotIo) (slot : Nat) : Decidable (Swept s io slot) :=
  inferInstanceAs (Decidable (_ ∧ _ ∧ _))

theorem abortOverdueOwned_entry (s : TxnStore) (io : Nat → SlotIo) (nowMs : Int) (owns : OwnsTxn)
    (id : String) :
    (s.abortOverdueOwned io nowMs owns).1.entry id=
      if Swept s io (s.slotFor id) then (s.entry id).map (TxnEntry.swept nowMs owns id) else s.entry id := by
  change (if Swept s io (s.slotFor id) then (TxnStore.reapSlot nowMs owns (s.slots (s.slotFor id))).1
    else s.slots (s.slotFor id)).lookup id=_
  by_cases h : Swept s io (s.slotFor id)
  · rw [if_pos h,if_pos h,reapSlot_lookup]
    rfl
  · rw [if_neg h,if_neg h]
    rfl

def Placed (s : TxnStore) : Prop := 0<s.numSlots ∧ ∀slot id,id∈s.slots slot → s.slotFor id=slot ∧ id≠""

theorem placed_open (n : Nat) : Placed (TxnStore.openStore n) := by
  constructor
  · unfold TxnStore.openStore
    dsimp only
    split_ifs <;> omega
  · intro slot id hid
    exact absurd hid (AList.notMem_empty id)

theorem access_numSlots : (s.access io txnId f).1.numSlots=s.numSlots := by
  unfold TxnStore.access
  split_ifs
  · rfl
  · rfl
  · split <;> rfl
  · split <;> rfl

theorem placed_access (h : Placed s) : Placed (s.access io txnId f).1 := by
  rcases access_cases s io txnId f with ⟨err,herr⟩|⟨o,a,hid,_,_,_,hslots⟩
  · rw [herr]
    exact h
  · have hfor (id : String) : (s.access io txnId f).1.slotFor id=s.slotFor id := by
      unfold TxnStore.slotFor
      rw [access_numSlots]
    refine ⟨by rw [access_numSlots]; exact h.1,fun slot id hmem => ?_⟩
    rw [hfor]
    rcases hslots slot with hsame|⟨rfl,e,hnew⟩
    · rw [hsame] at hmem
      exact h.2 slot id hmem
    · rw [hnew] at hmem
      rcases (AList.mem_insert _).mp hmem with rfl|hmem
      · exact ⟨rfl,hid⟩
      · exact h.2 _ id hmem

theorem placed_abortOverdueOwned (h : Placed s) (io : Nat → SlotIo) (nowMs : Int) (owns : OwnsTxn) :
    Placed (s.abortOverdueOwned io nowMs owns).1 := by
  refine ⟨h.1,fun slot id hmem => h.2 slot id ?_⟩
  have hslot : (s.abortOverdueOwned io nowMs owns).1.slots slot=
      if Swept s io slot then (TxnStore.reapSlot nowMs owns (s.slots slot)).1 else s.slots slot := rfl
  rw [hslot] at hmem
  by_cases hs : Swept s io slot
  · rw [if_pos hs,← AList.lookup_isSome,reapSlot_lookup,Option.isSome_map,AList.lookup_isSome] at hmem
    exact hmem
  · rw [if_neg hs] at hmem
    exact hmem

theorem pendingOf_some {owns : OwnsTxn} {e : TxnEntry} {d : PendingMarkerDispatch} :
    TxnStore.pendingOf owns txnId e=some d ↔ e.preparing ∧ e.partitions≠[] ∧ owns.owns txnId=true ∧
      d=⟨txnId,e.pid,e.epoch,e.state=.prepareCommit,e.partitions⟩ := by
  unfold TxnStore.pendingOf
  constructor
  · intro h
    split_ifs at h with hc
    cases h
    exact ⟨hc.1,hc.2.1,hc.2.2,rfl⟩
  · intro ⟨h1,h2,h3,h4⟩
    rw [if_pos ⟨h1,h2,h3⟩,h4]

theorem mem_pendingMarkerDispatches (h : Placed s) (loads : Nat → Bool) (owns : OwnsTxn)
    (d : PendingMarkerDispatch) : d∈s.pendingMarkerDispatches loads owns ↔
      loads (s.slotFor d.txnId)=true ∧ ∃e,s.entry d.txnId=some e ∧
        TxnStore.pendingOf owns d.txnId e=some d := by
  rw [TxnStore.pendingMarkerDispatches,List.mem_flatMap]
  constructor
  · intro ⟨slot,_,hd⟩
    split_ifs at hd with hload
    · obtain ⟨⟨id,e⟩,hin,hp⟩ := List.mem_filterMap.mp hd
      have hid : d.txnId=id := by rw [(pendingOf_some.mp hp).2.2.2]
      have hl : (s.slots slot).lookup id=some e := AList.mem_lookup_iff.mpr hin
      have hslot := (h.2 slot id (AList.lookup_isSome.mp (by rw [hl]; rfl))).1
      rw [hid]
      refine ⟨by rw [hslot]; exact hload,e,?_,hp⟩
      rw [TxnStore.entry,hslot]
      exact hl
    · cases hd
  · intro ⟨hload,e,he,hp⟩
    have hlt : s.slotFor d.txnId<s.numSlots := Nat.mod_lt _ h.1
    refine ⟨s.slotFor d.txnId,List.mem_range.mpr hlt,?_⟩
    rw [if_pos hload]
    exact List.mem_filterMap.mpr ⟨⟨d.txnId,e⟩,AList.mem_lookup_iff.mp he,hp⟩

end Stores

end Kaas
