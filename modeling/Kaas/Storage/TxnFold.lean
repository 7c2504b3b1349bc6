import Kaas.Storage.TxnIndex

namespace Kaas

structure LogEntry where
  offset : Int
  raw : Bytes
  deriving DecidableEq, Repr

namespace LogEntry

def lastOffset (e : LogEntry) : Int := e.offset+lastOffsetDelta e.raw

def dataOf (pid : Int) (e : LogEntry) : Bool :=
  decide (57≤e.raw.length ∧ producerId e.raw=pid) && isTransactional e.raw && !isControl e.raw

def markerOf (pid : Int) (e : LogEntry) : Bool :=
  decide (57≤e.raw.length ∧ producerId e.raw=pid) && isControl e.raw

def abortOf (pid : Int) (e : LogEntry) : Bool :=
  e.markerOf pid && decide (controlCommit e.raw=some false)

end LogEntry

def MarkedTransactional (raw : Bytes) : Prop := isControl raw=true → isTransactional raw=true

instance (raw : Bytes) : Decidable (MarkedTransactional raw) :=
  inferInstanceAs (Decidable (isControl raw=true → isTransactional raw=true))

theorem MarkedTransactional.rewritten (h : MarkedTransactional raw) (o : Int) :
    MarkedTransactional (rewriteBase raw o) := by
  unfold MarkedTransactional isControl isTransactional
  rw [(rewriteBase_fields raw o).2.2.1]
  exact h

/-! The reference: which transaction of a producer a log leaves open. -/

def openStep (pid : Int) (cur : Option Int) (e : LogEntry) : Option Int :=
  if e.markerOf pid then none
  else if e.dataOf pid then some (cur.getD e.offset)
  else cur

def openAt (pid : Int) (log : List LogEntry) : Option Int := log.foldl (openStep pid) none

theorem openAt_append (pid : Int) (a b : List LogEntry) :
    openAt pid (a++b)=b.foldl (openStep pid) (openAt pid a) := List.foldl_append

theorem openAt_concat (pid : Int) (log : List LogEntry) (e : LogEntry) :
    openAt pid (log++[e])=openStep pid (openAt pid log) e := by
  rw [openAt_append]
  rfl

variable {pid : Int} {log : List LogEntry}

theorem foldl_openStep_marker (u v : Option Int)
    (h : ∃e∈log,e.markerOf pid=true) : log.foldl (openStep pid) u=log.foldl (openStep pid) v := by
  induction log generalizing u v with
  | nil =>
    obtain ⟨e,he,_⟩ := h
    cases he
  | cons x log ih =>
    by_cases hx : x.markerOf pid=true
    · simp only [List.foldl_cons,openStep,hx,if_true]
    · obtain ⟨e,he,hm⟩ := h
      have hrest : ∃e∈log,e.markerOf pid=true := by
        rcases List.mem_cons.mp he with rfl|he
        · exact absurd hm hx
        · exact ⟨e,he,hm⟩
      exact ih _ _ hrest

theorem foldl_openStep_some (o : Int)
    (h : ∀e∈log,e.markerOf pid=false) : log.foldl (openStep pid) (some o)=some o := by
  induction log with
  | nil => rfl
  | cons x log ih =>
    have hx : openStep pid (some o) x=some o := by
      simp [openStep,h x (List.mem_cons_self ..)]
    rw [List.foldl_cons,hx]
    exact ih (fun e he => h e (List.mem_cons_of_mem _ he))

theorem foldl_openStep_mem (pid : Int) (log : List LogEntry) (u : Option Int) (o : Int)
    (h : log.foldl (openStep pid) u=some o) : u=some o ∨ ∃e∈log,e.offset=o := by
  induction log generalizing u with
  | nil => exact Or.inl h
  | cons x log ih =>
    rcases ih _ h with hx|⟨e,he,heo⟩
    · unfold openStep at hx
      split_ifs at hx
      · cases u with
        | none => exact Or.inr ⟨x,List.mem_cons_self ..,Option.some.inj hx⟩
        | some v => exact Or.inl hx
      · exact Or.inl hx
    · exact Or.inr ⟨e,List.mem_cons_of_mem _ he,heo⟩

theorem openAt_mem {o : Int} (h : openAt pid log=some o) : ∃e∈log,e.offset=o := by
  rcases foldl_openStep_mem pid log none o h with hn|he
  · cases hn
  · exact he

theorem openAt_dropped (pid start : Int) (a b : List LogEntry) (ha : ∀e∈a,e.offset< start)
    (h : ∀o,openAt pid (a++b)=some o → start≤o) : openAt pid (a++b)=openAt pid b := by
  rw [openAt_append] at h ⊢
  by_cases hm : ∃e∈b,e.markerOf pid=true
  · exact foldl_openStep_marker _ _ hm
  · have hnone : ∀e∈b,e.markerOf pid=false := fun e he =>
      Bool.eq_false_iff.mpr (fun hmark => hm ⟨e,he,hmark⟩)
    cases hu : openAt pid a with
    | none => rfl
    | some x =>
      obtain ⟨e,he,rfl⟩ := openAt_mem hu
      rw [hu,foldl_openStep_some _ hnone] at h
      have h1 := h e.offset rfl
      have h2 := ha e he
      omega

theorem recordDataBatch_lookup (idx : OpenTxnIndex) (pid o q : Int) :
    (idx.recordDataBatch pid o).lookup q=
      if q=pid then some ((idx.lookup pid).getD o) else idx.lookup q := by
  unfold OpenTxnIndex.recordDataBatch
  cases h : idx.lookup pid with
  | some v =>
    dsimp only
    split_ifs with hq
    · rw [hq,h]; rfl
    · rfl
  | none =>
    dsimp only
    split_ifs with hq
    · rw [hq,AList.lookup_insert]; rfl
    · exact AList.lookup_insert_ne hq

theorem recordTxn_open (idx : OpenTxnIndex) (aborted : AbortedTxnIndex) {raw : Bytes} (o : Int)
    (hc : MarkedTransactional raw) (pid : Int) :
    (recordTxn idx aborted raw o).1.lookup pid=openStep pid (idx.lookup pid) ⟨o,raw⟩ := by
  unfold recordTxn parseBatchTxnInfo
  by_cases hl : raw.length<57
  · have hshort : ¬57≤ raw.length := by omega
    simp [hl,openStep,LogEntry.markerOf,LogEntry.dataOf,hshort]
  · have hlong : 57≤ raw.length := by omega
    simp only [hl,if_false]
    by_cases ht : isTransactional raw=true
    · by_cases hm : isControl raw=true
      · have hclose : (idx.erase (producerId raw)).lookup pid=openStep pid (idx.lookup pid) ⟨o,raw⟩ := by
          by_cases hp : producerId raw=pid
          · simp [openStep,LogEntry.markerOf,hlong,hm,hp]
          · rw [AList.lookup_erase_ne (fun he => hp he.symm)]
            simp [openStep,LogEntry.markerOf,LogEntry.dataOf,hp]
        simp only [ht,hm,if_true,OpenTxnIndex.close]
        cases idx.lookup (producerId raw) with
        | none => exact hclose
        | some first =>
          dsimp only
          split_ifs <;> exact hclose
      · simp only [ht,hm,if_true,Bool.false_eq_true,if_false]
        rw [recordDataBatch_lookup]
        by_cases hp : pid=producerId raw
        · subst hp
          simp [openStep,LogEntry.markerOf,LogEntry.dataOf,hlong,ht,hm]
        · simp [openStep,LogEntry.markerOf,LogEntry.dataOf,hp,Ne.symm hp]
    · have hm : isControl raw=false := Bool.eq_false_iff.mpr (fun h => ht (hc h))
      simp [openStep,LogEntry.markerOf,LogEntry.dataOf,ht,hm]

theorem lookup_foldl_insert {β : Type} {l : List (Sigma (fun _ : Int => β))} (hl : l.NodupKeys)
    (m : AList (fun _ : Int => β)) (pid : Int) :
    ((l.map (fun e => (e.1,e.2))).foldl (fun (m : AList (fun _ : Int => β)) e => m.insert e.1 e.2)
      m).lookup pid=
      (l.dlookup pid).or (m.lookup pid) := by
  induction l generalizing m with
  | nil => rfl
  | cons e l ih =>
    obtain ⟨hne,hl⟩ := List.nodupKeys_cons.mp hl
    rw [List.map_cons,List.foldl_cons,ih hl]
    by_cases hp : pid=e.1
    · subst hp
      rw [List.dlookup_eq_none.mpr hne,List.dlookup_cons_eq,AList.lookup_insert]
      rfl
    · rw [List.dlookup_cons_ne l ⟨e.1,e.2⟩ hp,AList.lookup_insert_ne hp]

theorem lookup_collected {β : Type} (m : AList (fun _ : Int => β)) (pid : Int) :
    ((m.entries.map (fun e => (e.1,e.2))).foldl
      (fun (m : AList (fun _ : Int => β)) e => m.insert e.1 e.2) ∅).lookup pid=m.lookup pid := by
  rw [lookup_foldl_insert m.nodupKeys]
  change (m.lookup pid).or ((∅ : AList (fun _ : Int => β)).lookup pid)=_
  rw [AList.lookup_empty]
  cases m.lookup pid <;> rfl

theorem minOpenOffset_some {idx : OpenTxnIndex} {m : Int} (h : idx.minOpenOffset=some m) :
    (∃pid,idx.lookup pid=some m) ∧ ∀pid o,idx.lookup pid=some o → m≤o := by
  obtain ⟨hmem,hle⟩ := List.min?_eq_some_iff.mp h
  refine ⟨?_,fun pid o ho => hle o ?_⟩
  · obtain ⟨e,he,rfl⟩ := List.mem_map.mp hmem
    exact ⟨e.1,AList.mem_lookup_iff.mpr he⟩
  · exact List.mem_map.mpr ⟨⟨pid,o⟩,AList.mem_lookup_iff.mp ho,rfl⟩

theorem minOpenOffset_none {idx : OpenTxnIndex} (h : idx.minOpenOffset=none) (pid : Int) :
    idx.lookup pid=none := by
  have hnil : idx.entries.map Sigma.snd=[] := List.min?_eq_none_iff.mp h
  cases hp : idx.lookup pid with
  | none => rfl
  | some o =>
    have hm : (⟨pid,o⟩ : Sigma (fun _ : Int => Int))∈idx.entries := AList.mem_lookup_iff.mp hp
    rw [List.map_eq_nil_iff.mp hnil] at hm
    cases hm

end Kaas
