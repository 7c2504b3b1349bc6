import Kaas.Broker.ControlBatch
import Kaas.Storage.Retention
import Kaas.Storage.Transactions

namespace Kaas

variable {g g' : PartitionInner} {history : List LogEntry} {crc : Crc32c} {t u : TxnLog}

/-- The marks that bound what a fetch may see: none of them goes down from `g` to `g'`. -/
structure MarksRise (g g' : PartitionInner) : Prop where
  logStart : g.logStart≤g'.logStart
  lastStable : lastStableOffset g≤lastStableOffset g'
  highWater : g.highWater≤g'.highWater

/-- A transaction that is open in `g'` only was opened at or above the high watermark of `g`. -/
theorem TxnsSound.marksRise (h : TxnsSound g history) (hs : g.logStart≤g'.logStart)
    (hw : g.highWater≤g'.highWater)
    (hopen : ∀pid o,g'.openTxns.lookup pid=some o → g.openTxns.lookup pid=some o ∨ g.highWater≤o) :
    MarksRise g g' := by
  have hle := h.bounds.2
  refine ⟨hs,?_,hw⟩
  rw [lastStableOffset.eq_1 g']
  cases hm : g'.openTxns.minOpenOffset with
  | none => exact hle.trans hw
  | some m =>
    obtain ⟨pid,hp⟩ := (minOpenOffset_some hm).1
    rcases hopen pid m hp with ho|ho
    · exact lastStableOffset_le g pid m ho
    · exact hle.trans ho

theorem appendLocked_entries {c : AppendCall} {s s' : Store} {r : Except StorageError Appended}
    (call : appendLocked c.cfg c.env c.epoch c.batch s=some (s',r)) :
    s'.openTxns=s.openTxns ∧ s'.highWater=s.highWater ∨
      storedEntries c.batch r=[⟨s.highWater,rewriteBase c.batch s.highWater⟩] := by
  cases appendLocked_step call with
  | refused e _ | known base _ => exact .inl ⟨rfl,rfl⟩
  | rollFailed accepted s1 e _ roll | failed accepted s1 d e _ roll _ _ =>
    have hl := rollIfDue_ledger roll
    exact .inl ⟨hl.openTxns,hl.highWater⟩
  | stored accepted s1 d a _ roll _ _ => exact .inr (storedEntries_advance (rollIfDue_ledger roll) ..)

theorem marksRise_step {op : TxnOp} (h : TxnLogSound crc t) (hok : TxnOk crc t op)
    (hs : TxnStep crc t op u) : MarksRise t.store.toPartitionInner u.store.toPartitionInner := by
  have hsame (g' : PartitionInner) (ho : ∀pid,g'.openTxns.lookup pid=t.store.openTxns.lookup pid)
      (hstart : t.store.logStart≤g'.logStart) (hw : g'.highWater=t.store.highWater) :
      MarksRise t.store.toPartitionInner g' :=
    h.txns.marksRise hstart hw.ge (fun pid o hp => .inl ((ho pid).symm.trans hp))
  cases op with
  | append c =>
    obtain ⟨⟨s,r⟩,call,rfl⟩ := Option.map_eq_some_iff.mp hs
    have hstart := (appendLocked_kept call).2
    rcases appendLocked_entries call with ⟨ho,hw⟩|he
    · exact hsame _ (fun _ => by rw [ho]) hstart.ge hw
    · have hu := (txnLogSound_append h hok call).txns
      rw [he] at hu
      have hlast := hu.counted _ (List.mem_append_right _ List.mem_cons_self)
      refine h.txns.marksRise hstart.ge (hlast.1.trans hlast.2.le) (fun pid o hp => ?_)
      -- The index is the fold over the log, and the log has one more batch, at the high watermark.
      rw [hu.index,hstart,retainedFrom,List.filter_append,openAt,List.foldl_append] at hp
      rcases foldl_openStep_mem _ _ _ _ hp with ho|⟨e,he,rfl⟩
      · exact .inl ((h.txns.index pid).trans ho)
      · rw [List.mem_singleton.mp (List.mem_of_mem_filter he)]
        exact .inr (le_refl _)
  | commit env =>
    obtain rfl|⟨s,seq,cp,hc,rfl⟩ := hs.commit_cases
    · exact hsame _ (fun _ => rfl) (le_refl _) rfl
    · obtain ⟨_,_,hs,_⟩ := commitLocked_ok hc
      have hkept : MarksRise t.store.toPartitionInner s.toPartitionInner :=
        hsame _ (fun _ => by rw [hs]) (by rw [hs]) (by rw [hs])
      unfold writeDue
      cases cp with
      | none => exact hkept
      | some cp =>
        dsimp only
        split_ifs <;> exact hkept
  | deleteRecords env target =>
    cases hs
    rcases deleteRecords_cases env target t.store with hd|⟨start,_,hlt,hd⟩
    · exact hsame _ (fun _ => by rw [hd]) (by rw [hd]) (by rw [hd])
    · exact hsame _ (fun _ => by rw [hd]; rfl) (by rw [hd]; exact hlt.le) (by rw [hd]; rfl)
  | reopen closing opening =>
    unfold TxnStep TxnLog.exec at hs
    dsimp only at hs
    split at hs
    · cases hs
    · split at hs
      · cases hs
      · rename_i s hc _ d p ho
        cases hs
        obtain ⟨_,hw,hhigh⟩ := diskSound_reopen h.disk hok.1 hok.2 hc ho
        exact hsame _ hw.openTxns hw.logStart.ge hhigh

/-- From any state of a run to any later one the log start, the last stable offset and the high
watermark never go down, whatever is appended, committed, deleted and opened again in between. -/
theorem marks_never_fall (run : Reaches (TxnStep crc) (TxnOk crc) ⟨firstStore,[]⟩ t)
    (more : Reaches (TxnStep crc) (TxnOk crc) t u) :
      MarksRise t.store.toPartitionInner u.store.toPartitionInner := by
  have h0 : TxnLogSound crc ⟨firstStore,[]⟩ :=
    ⟨firstStore_diskSound crc,⟨.nil,by simp,fun _ => rfl,(nomatch ·,·,·),by decide⟩⟩
  have ht := run.invariant h0 (fun _ _ _ h hok hs => txnLogSound_step h hok hs)
  have hu : TxnLogSound crc u ∧ MarksRise t.store.toPartitionInner u.store.toPartitionInner := by
    induction more with
    | start => exact ⟨ht,le_refl _,le_refl _,le_refl _⟩
    | next op _ hok hs ih =>
      have h := marksRise_step ih.1 hok hs
      exact ⟨txnLogSound_step ih.1 hok hs,ih.2.1.trans h.1,ih.2.2.trans h.2,ih.2.3.trans h.3⟩
  exact hu.2

instance TxnOk.decidable (crc : Crc32c) (t : TxnLog) : (op : TxnOp) → Decidable (TxnOk crc t op)
  | .append c => inferInstanceAs (Decidable (∀accepted,admission _ _ _=.admitted accepted → _ ∧ _ ∧ _))
  | .commit _ => .isTrue trivial
  | .deleteRecords _ target => match h : deleteTarget t.store.toPartitionInner target with
    | .ok start => decidable_of_iff (t.store.logStart< start → start≤lastStableOffset t.store.toPartitionInner)
      ⟨fun hle x hx => by cases h.symm.trans hx; exact hle,fun hle => hle start h⟩
    | .error e => .isTrue fun x hx => by cases h.symm.trans hx
  | .reopen _ _ => inferInstanceAs (Decidable (_ ∧ _))

/-- A transaction, its retry, its marker and a second transaction; then the first record is given
up, and the partition is closed and opened again. -/
theorem marks_rise_reopened :
    ∃t,runChecked (TxnLog.exec castagnoli) (TxnOk castagnoli) [.append txnData,.append txnData,
        .append {batch := buildControlBatch castagnoli 7 0 true 0},.append {batch := txnBatch 7 1}]
          ⟨firstStore,[]⟩=some t ∧
      (t.store.logStart,lastStableOffset t.store.toPartitionInner,t.store.highWater)=(0,2,3) ∧
    ∃u,runChecked (TxnLog.exec castagnoli) (TxnOk castagnoli) [.deleteRecords {} 1,.reopen {} {}] t=some u ∧
      u.store.logStart=1 ∧ MarksRise t.store.toPartitionInner u.store.toPartitionInner := by
  refine runChecked_outcome (p := fun t =>
    (t.store.logStart,lastStableOffset t.store.toPartitionInner,t.store.highWater)=
      (0,2,3) ∧ ∃u∈runChecked (TxnLog.exec castagnoli) (TxnOk castagnoli) [.deleteRecords {} 1,.reopen {} {}] t,
      u.store.logStart=1) (fun _ _ _ h => h) (by decide +kernel) fun t hrun ⟨hmarks,hmore⟩ => ⟨hmarks,?_⟩
  exact runChecked_outcome (fun _ _ _ h => h) hmore fun u hu hstart => ⟨hstart,marks_never_fall hrun hu⟩

end Kaas
