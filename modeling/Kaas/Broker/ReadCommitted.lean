import Kaas.Broker.Trim
import Kaas.Storage.Contents
import Kaas.Storage.Restart

namespace Kaas

theorem completeRun_fragment {crc : Crc32c} {bs : List Bytes} {frag : Bytes} (hc : ∀b∈bs,CompleteBatch crc b)
    (hf : frag.length<27) : completeRun crc (bs.flatten++frag)=bs := by
  have hstop : ∃e,(logFraming crc).next frag=.error e := by
    cases hn : (logFraming crc).next frag with
    | error e => exact ⟨e,rfl⟩
    | ok p =>
      have hlong := ((frame_iff_complete crc p.1).mp (Framing.frame_of_next (r := p.2) hn)).long
      have hlen := congrArg List.length ((logFraming crc).sound (f := p.1) (r := p.2) hn).1
      rw [List.length_append] at hlen
      omega
  obtain ⟨e,he⟩ := hstop
  exact (Framing.splits_of_frames bs (fun b hb => (frame_iff_complete crc b).mpr (hc b hb)) frag e he).decode_eq

/-- The data batch at position `i` and the first offset of its transaction, when the next marker of
its producer is an abort. -/
def abortedFrom (history : List LogEntry) (i : Nat) : Option (LogEntry × Int) :=
  match history[i]? with
  | none => none
  | some e =>
    if e.dataOf (producerId e.raw) &&
        ((history.drop (i+1)).find? (LogEntry.markerOf (producerId e.raw))).any
          (LogEntry.abortOf (producerId e.raw)) then
      (openAt (producerId e.raw) (history.take (i+1))).map (fun first => (e,first))
    else none

/-- What a read-committed consumer needs to filter: every data batch it is given of a transaction
that the log aborts is in a transaction it is told of. -/
def AbortsListed (crc : Crc32c) (history : List LogEntry) (r : FetchResponse) : Prop :=
  ∀i e first,abortedFrom history i=some (e,first) → e.raw∈completeRun crc r.records →
    ⟨producerId e.raw,first⟩∈r.abortedTransactions

/-- No aborted transaction that starts below the fetch offset has a data batch that reaches the
offset and ends below the cap. -/
def StartsWithin (history : List LogEntry) (fetchOffset cap : Int) : Prop :=
  ∀i<history.length,(abortedFrom history i).all (fun p => decide
    (fetchOffset≤p.2 ∨ lastOffset p.1.raw<fetchOffset ∨ cap≤lastOffset p.1.raw))=true

/-- The same for the batches that lie whole in the first `maxBytes` from the fetch offset on. -/
def StartsWithinRead (history : List LogEntry) (fetchOffset cap : Int) (maxBytes : Nat) : Prop :=
  ∀i<history.length,(abortedFrom history i).all (fun p => decide
    (fetchOffset≤p.2 ∨ lastOffset p.1.raw<fetchOffset ∨ cap≤lastOffset p.1.raw ∨
      maxBytes<(wanted fetchOffset ((history.take (i+1)).map LogEntry.raw)).flatten.length))=true

instance (history : List LogEntry) (fetchOffset cap : Int) : Decidable (StartsWithin history fetchOffset cap) :=
  inferInstanceAs (Decidable (∀i<history.length,_))

instance (history : List LogEntry) (fetchOffset cap : Int) (maxBytes : Nat) :
    Decidable (StartsWithinRead history fetchOffset cap maxBytes) :=
  inferInstanceAs (Decidable (∀i<history.length,_))

variable {i : Nat} {e : LogEntry} {first : Int}

theorem abortedFrom_some {history : List LogEntry} (h : abortedFrom history i=some (e,first)) :
    history[i]?=some e ∧ e.dataOf (producerId e.raw)=true ∧
    (∃m,(history.drop (i+1)).find? (LogEntry.markerOf (producerId e.raw))=some m ∧
      m.abortOf (producerId e.raw)=true) ∧
    openAt (producerId e.raw) (history.take (i+1))=some first := by
  unfold abortedFrom at h
  cases he : history[i]? with
  | none => rw [he] at h; cases h
  | some x =>
    rw [he] at h
    dsimp only at h
    split_ifs at h with hc
    obtain ⟨f,hf,hp⟩ := Option.map_eq_some_iff.mp h
    obtain ⟨rfl,rfl⟩ := Prod.mk.inj hp
    obtain ⟨hd,hm⟩ := Bool.and_eq_true_iff.mp hc
    obtain ⟨m,hm,ha⟩ := (Option.any_eq_true _ _).mp hm
    exact ⟨rfl,hd,⟨m,hm,ha⟩,hf⟩

theorem abortedFrom_all {history : List LogEntry} {p : Nat → LogEntry × Int → Bool}
    (h : ∀i<history.length,(abortedFrom history i).all (p i)=true)
    (ha : abortedFrom history i=some (e,first)) : p i (e,first)=true := by
  obtain ⟨hi,_⟩ := List.getElem?_eq_some_iff.mp (abortedFrom_some ha).1
  have hp := h i hi
  rw [ha] at hp
  exact hp

theorem abortedFrom_concat {history : List LogEntry} {x : LogEntry}
    (h : abortedFrom (history++[x]) i=some (e,first)) :
    abortedFrom history i=some (e,first) ∨
    (x.abortOf (producerId e.raw)=true ∧ openAt (producerId e.raw) history=some first) := by
  obtain ⟨he,hd,⟨m,hm,ha⟩,ho⟩ := abortedFrom_some h
  by_cases hi : i<history.length
  · rw [List.getElem?_append_left hi] at he
    rw [List.take_append_of_le_length (by omega)] at ho
    rw [List.drop_append_of_le_length (by omega),List.find?_append] at hm
    cases hf : (history.drop (i+1)).find? (LogEntry.markerOf (producerId e.raw)) with
    | some m' =>
      rw [hf] at hm
      cases hm
      refine Or.inl ?_
      rw [abortedFrom,he]
      dsimp only
      rw [hf,if_pos (by simp [hd,ha]),ho]
      rfl
    | none =>
      rw [hf] at hm
      have hx : m=x := List.mem_singleton.mp (List.mem_of_find?_eq_some hm)
      refine Or.inr ⟨hx ▸ ha,?_⟩
      have hno : ∀y∈history.drop (i+1),y.markerOf (producerId e.raw)=false := fun y hy =>
        Bool.eq_false_iff.mpr (List.find?_eq_none.mp hf y hy)
      rw [← List.take_append_drop (i+1) history,openAt_append,ho,foldl_openStep_some _ hno]
  · rw [List.drop_eq_nil_of_le (by simp; omega)] at hm
    cases hm

theorem mem_record (idx : AbortedTxnIndex) (entry e : AbortedTxn) : e∈idx.record entry ↔ e=entry ∨ e∈idx := by
  unfold AbortedTxnIndex.record
  conv_rhs => rw [← List.takeWhile_append_dropWhile (p :=
    fun e => decide (e.firstOffset<entry.firstOffset)) (l := idx)]
  simp only [List.mem_append,List.mem_cons]
  tauto

theorem recordTxn_kept (idx : OpenTxnIndex) {aborted : AbortedTxnIndex} (raw : Bytes) (o : Int)
    {e : AbortedTxn} (h : e∈aborted) : e∈(recordTxn idx aborted raw o).2 := by
  unfold recordTxn OpenTxnIndex.close
  cases parseBatchTxnInfo raw with
  | none => exact h
  | some info =>
    cases hf : idx.lookup info.producerId with
    | none =>
      simp only [hf]
      split_ifs <;> exact h
    | some first =>
      simp only [hf]
      split_ifs
      · exact (mem_record _ _ _).mpr (Or.inr h)
      · exact h
      · exact h
      · exact h

theorem recordTxn_aborts {idx : OpenTxnIndex} (aborted : AbortedTxnIndex) {raw : Bytes} {o pid : Int}
    (hc : MarkedTransactional raw) (ha : LogEntry.abortOf pid ⟨o,raw⟩=true) (hf : idx.lookup pid=some first) :
    ⟨pid,first,o⟩∈(recordTxn idx aborted raw o).2 := by
  simp only [LogEntry.abortOf,LogEntry.markerOf,Bool.and_eq_true,decide_eq_true_eq] at ha
  obtain ⟨⟨⟨hl,hp⟩,hm⟩,hcommit⟩ := ha
  have hlong : ¬raw.length<57 := by omega
  have hrec : (recordTxn idx aborted raw o).2=aborted.record ⟨pid,first,o⟩ := by
    simp only [recordTxn,parseBatchTxnInfo,hlong,if_false,hc hm,hm,if_true,OpenTxnIndex.close,hp,hf,hcommit]
  rw [hrec]
  exact (mem_record _ _ _).mpr (Or.inl rfl)

/-- What is appended is well formed, no file operation fails, and an index entry that is due has
room. -/
def HistoryOk (crc : Crc32c) (t : TxnLog) : TxnOp → Prop
  | .append c => c.env={ageMs := c.env.ageMs} ∧
    ∀accepted,admission t.store.toPartitionInner c.epoch c.batch=.admitted accepted →
      WellFormed crc c.batch ∧ MarkedTransactional c.batch ∧ t.store.highWater+recordCount c.batch<2^63 ∧
      (rollDue c.cfg c.env t.store.active c.batch=false → EntryFits c.cfg t.store)
  | .commit _ => True
  | _ => False

instance (crc : Crc32c) (t : TxnLog) : (op : TxnOp) → Decidable (HistoryOk crc t op)
  | .append c => inferInstanceAs (Decidable (c.env={ageMs := c.env.ageMs} ∧
    ∀accepted,admission t.store.toPartitionInner c.epoch c.batch=.admitted accepted →
      WellFormed crc c.batch ∧ MarkedTransactional c.batch ∧ t.store.highWater+recordCount c.batch<2^63 ∧
      (rollDue c.cfg c.env t.store.active c.batch=false → EntryFits c.cfg t.store)))
  | .commit _ => .isTrue trivial
  | .deleteRecords _ _ | .reopen _ _ => .isFalse id

/-- The segments hold the batches appended so far, and the indexes know their transactions. -/
structure Fetchable (crc : Crc32c) (t : TxnLog) : Prop where
  filed : ∃rows,Filed crc t.store rows ∧ t.store.contents rows=t.history.map LogEntry.raw
  published : t.store.snapshot=snapshotOf t.store.toPartitionInner
  logStart : t.store.logStart=0
  chained : Chained 0 (t.history.map LogEntry.raw) t.store.highWater
  complete : ∀e∈t.history,CompleteBatch crc e.raw
  based : ∀e∈t.history,e.offset=baseOffset e.raw
  opened : ∀pid,t.store.openTxns.lookup pid=openAt pid t.history
  aborted : ∀i e first,abortedFrom t.history i=some (e,first) →
    ∃last,⟨producerId e.raw,first,last⟩∈t.store.abortedTxns

section Steps

variable {crc : Crc32c} {t : TxnLog}

theorem fetchable_stored (h : Fetchable crc t) {c : AppendCall} {accepted : Bool} (hb : WellFormed crc c.batch)
    (hc : MarkedTransactional c.batch) (hu : t.store.highWater+recordCount c.batch<2^63) {s1 : Store}
    (hroll : rollIfDue c.cfg c.env c.batch t.store=(s1,.ok ())) {d : Dir} {a : ActiveSegment}
    (rows rows' : SegmentName → List Bytes) (hsame : t.store.contents rows=t.history.map LogEntry.raw)
    (hf : Filed crc (advance c.cfg accepted c.batch {s1 with active := a,dir := d}).1 rows')
    (hcont : (advance c.cfg accepted c.batch {s1 with active := a,dir := d}).1.contents rows'=
      t.store.contents rows++[rewriteBase c.batch t.store.highWater]) :
    Fetchable crc ⟨(advance c.cfg accepted c.batch {s1 with active := a,dir := d}).1,
      t.history++[⟨t.store.highWater,rewriteBase c.batch t.store.highWater⟩]⟩ := by
  have hl := rollIfDue_ledger hroll
  have hle := h.chained.bounds.1
  have hcounted := hb.counted
  have hfields := rewriteBase_fields c.batch t.store.highWater
  have hcount := rewriteBase_recordCount c.batch t.store.highWater
  unfold recordCount at hu
  have hbase := rewriteBase_assigned c.batch t.store.highWater (by omega) (by omega)
  have hmarked := hc.rewritten t.store.highWater
  have hhw : (advance c.cfg accepted c.batch {s1 with active := a,dir := d}).1.highWater=
      t.store.highWater+recordCount c.batch := by
    rw [← hl.highWater] at hu hle ⊢
    exact advance_highWater_eq c.cfg accepted c.batch s1 a d (by omega) hcounted hu
  have htxns : recordTxn s1.openTxns s1.abortedTxns (rewriteBase c.batch s1.highWater) s1.highWater=
      recordTxn t.store.openTxns t.store.abortedTxns (rewriteBase c.batch t.store.highWater)
        t.store.highWater := by
    rw [hl.openTxns,hl.abortedTxns,hl.highWater]
  refine ⟨⟨rows',hf,by rw [hcont,hsame]; simp⟩,rfl,hl.logStart.trans h.logStart,?_,?_,?_,?_,?_⟩
  · rw [hhw,← hcount,List.map_append]
    exact h.chained.concat _ hbase (by rw [hfields.2.2.2.1]; exact hcounted)
  · intro e he
    rcases List.mem_append.mp he with he|he
    · exact h.complete e he
    · rw [List.mem_singleton.mp he]
      exact rewriteBase_complete _ hb.toCompleteBatch
  · intro e he
    rcases List.mem_append.mp he with he|he
    · exact h.based e he
    · rw [List.mem_singleton.mp he]
      exact hbase.symm
  · intro pid
    change (recordTxn s1.openTxns s1.abortedTxns (rewriteBase c.batch s1.highWater) s1.highWater).1.lookup pid=_
    rw [htxns,recordTxn_open _ _ _ hmarked,openAt_concat,h.opened]
  · intro i e first he
    change ∃last,_∈(recordTxn s1.openTxns s1.abortedTxns (rewriteBase c.batch s1.highWater) s1.highWater).2
    rw [htxns]
    rcases abortedFrom_concat he with hold|⟨ha,ho⟩
    · obtain ⟨last,hm⟩ := h.aborted i e first hold
      exact ⟨last,recordTxn_kept _ _ _ hm⟩
    · exact ⟨_,recordTxn_aborts _ hmarked ha ((h.opened _).trans ho)⟩

theorem fetchable_append (h : Fetchable crc t) {c : AppendCall} (hok : HistoryOk crc t (.append c)) {s : Store}
    {r : Except StorageError Appended} (call : appendLocked c.cfg c.env c.epoch c.batch t.store=some (s,r)) :
    Fetchable crc ⟨s,t.history++storedEntries c.batch r⟩ := by
  obtain ⟨henv,hok⟩ := hok
  cases hallowed : admission t.store.toPartitionInner c.epoch c.batch with
  | refused e | known base =>
    rw [appendLocked,hallowed] at call
    obtain ⟨rfl,rfl⟩ := Prod.mk.inj (Option.some.inj call)
    exact (List.append_nil t.history).symm ▸ h
  | admitted accepted =>
    obtain ⟨hb,hc,hu,hfit⟩ := hok accepted hallowed
    obtain ⟨rows,hf,hsame⟩ := h.filed
    obtain ⟨s1,d,a,rows',hcall,hroll,hf',hcont⟩ := filed_append hf hallowed hb
      hu (by rw [← henv]; exact hfit)
    rw [← henv] at hcall hroll
    obtain ⟨rfl,rfl⟩ := Prod.mk.inj (Option.some.inj (hcall.symm.trans call))
    rw [storedEntries_advance (rollIfDue_ledger hroll)]
    exact fetchable_stored h hb hc hu hroll rows rows' hsame hf' hcont

theorem fetchable_commit (h : Fetchable crc t) {env : IoEnv} {u : TxnLog}
    (hs : TxnStep crc t (.commit env) u) : Fetchable crc u := by
  obtain rfl|⟨s,seq,cp,hc,rfl⟩ := hs.commit_cases
  · exact h
  · obtain ⟨_,_,hs,_⟩ := commitLocked_ok hc
    obtain ⟨rows,hf,hsame⟩ := h.filed
    have hsync := Dir.SameData.sync t.store.dir t.store.active.info.name
    have hidx := (t.store.dir.onLog_rest t.store.active.info.name LogFile.syncAll).1
    have hkept (d : Dir) (byte : Int) (hd : t.store.dir.SameData d) (hi : d.indexes=t.store.dir.indexes) :
        Fetchable crc ⟨{t.store with dir := d,lastCheckpointByte := byte},t.history⟩ :=
      ⟨⟨rows,filed_synced hf byte hd hi,hsame⟩,h.published,h.logStart,h.chained,h.complete,h.based,
        h.opened,h.aborted⟩
    rw [hs]
    unfold writeDue
    cases cp with
    | none => exact hkept _ _ hsync hidx
    | some cp =>
      dsimp only
      split_ifs
      · exact hkept _ _ (hsync.trans (.of_logs rfl)) hidx
      · exact hkept _ _ hsync hidx

theorem fetchable_step {u : TxnLog} {op : TxnOp} (h : Fetchable crc t) (hok : HistoryOk crc t op)
    (hs : TxnStep crc t op u) : Fetchable crc u := by
  cases op with
  | append c =>
    obtain ⟨⟨s,r⟩,call,rfl⟩ := Option.map_eq_some_iff.mp hs
    exact fetchable_append h hok call
  | commit env => exact fetchable_commit h hs
  | deleteRecords env target | reopen closing opening => exact absurd hok id

theorem firstStore_fetchable (crc : Crc32c) : Fetchable crc ⟨firstStore,[]⟩ :=
  ⟨⟨_,firstStore_filed crc,rfl⟩,rfl,rfl,Chained.nil _,by simp,by simp,fun _ => rfl,fun _ _ _ h => by cases h⟩

end Steps

section Response

variable {crc : Crc32c} {t : TxnLog} {cap : Int}

theorem trimmed_run (cap : Int) {bs : List Bytes}
    (hc : ∀b∈bs,CompleteBatch crc b ∧ -2^63≤lastOffset b ∧ lastOffset b<2^63)
    (n : Nat) : ∃k,completeRun crc (trimToOffset (bs.flatten.take n) cap)=bs.take k ∧
      (∀b∈bs.take k,lastOffset b<cap) ∧ (bs.take k).flatten.length≤n ∧
      ∀j<bs.length,k≤j → (∃b∈bs.take (j+1),cap≤lastOffset b) ∨ n<(bs.take (j+1)).flatten.length := by
  have hlong : ∀b∈bs,27≤b.length := fun b hb => by have := (hc b hb).1.long; omega
  obtain ⟨k,piece,hk,he,hp,_⟩ := trimmed_longest cap hlong n
  refine ⟨k,?_,hk.served.1,hk.served.2,fun j hj hkj => ?_⟩
  · rw [trimToOffset_row (fun b hb => (hc b hb).1.trimmable (hc b hb).2 cap) n,he]
    exact completeRun_fragment (fun b hb => (hc b (List.mem_of_mem_take hb)).1) hp
  · by_contra hno
    push Not at hno
    have := hk.longest (j+1) hj ⟨hno.1,hno.2⟩
    omega

theorem trimmed_mem_iff {front : List Bytes} {b : Bytes} {rest : List Bytes}
    (hc : ∀x∈front++b::rest,CompleteBatch crc x ∧ -2^63≤lastOffset x ∧ lastOffset x<2^63)
    (hlt : ∀x∈front,lastOffset x<lastOffset b) (n : Nat) :
    b∈completeRun crc (trimToOffset ((front++b::rest).flatten.take n) cap) ↔
      lastOffset b<cap ∧ (front++[b]).flatten.length≤n := by
  obtain ⟨k,hrun,hbelow,hfit,hnext⟩ := trimmed_run cap hc n
  have hfirst : (front++b::rest).take (front.length+1)=front++[b] := by
    rw [List.take_append,List.take_of_length_le (by omega),Nat.add_sub_cancel_left]
    rfl
  rw [hrun]
  constructor
  · intro hm
    have hk : front.length<k := by
      by_contra hk
      rw [List.take_append_of_le_length (by omega)] at hm
      exact lt_irrefl _ (hlt b (List.mem_of_mem_take hm))
    have hpre : front++[b] <+: (front++b::rest).take k := by
      rw [← hfirst]
      exact List.take_prefix_take_left (by omega)
    exact ⟨hbelow b hm,(flatten_length_le hpre).trans hfit⟩
  · rintro ⟨hcap,hlen⟩
    have hk : front.length<k := by
      by_contra hk
      rcases hnext front.length (by simp) (by omega) with ⟨x,hx,hle⟩|hcut
      · rw [hfirst] at hx
        rcases List.mem_append.mp hx with hx|hx
        · have := hlt x hx
          omega
        · rw [List.mem_singleton.mp hx] at hle
          omega
      · rw [hfirst] at hcut
        omega
    have hmem : b∈(front++b::rest).take (front.length+1) := by rw [hfirst]; simp
    exact (List.take_prefix_take_left (by omega)).subset hmem

theorem mem_abortedInRange {g : PartitionInner} {start stop pid : Int} :
    (⟨pid,first⟩ : AbortedTransaction)∈(abortedInRange g start stop).map (fun a => ⟨a.producerId,
      a.firstOffset⟩) ↔ (∃last,⟨pid,first,last⟩∈g.abortedTxns) ∧ start≤first ∧ first< stop := by
  simp only [abortedInRange,AbortedTxnIndex.inRange,List.mem_map,List.mem_filter,decide_eq_true_eq]
  constructor
  · rintro ⟨⟨p,f,l⟩,⟨hm,hr⟩,he⟩
    cases he
    exact ⟨⟨l,hm⟩,hr⟩
  · rintro ⟨⟨l,hm⟩,hr⟩
    exact ⟨_,⟨hm,hr⟩,rfl⟩

theorem Fetchable.split (h : Fetchable crc t) (he : t.history[i]?=some e) :
    ∃rest,t.history.map LogEntry.raw=(t.history.take i).map LogEntry.raw++e.raw::rest ∧
      (t.history.take (i+1)).map LogEntry.raw=(t.history.take i).map LogEntry.raw++[e.raw] ∧
      (∀x∈t.history.take i,lastOffset x.raw<baseOffset e.raw) ∧ baseOffset e.raw≤lastOffset e.raw := by
  obtain ⟨hi,hget⟩ := List.getElem?_eq_some_iff.mp he
  have hsplit : t.history=t.history.take i++e::t.history.drop (i+1) := by
    conv_lhs => rw [← List.take_append_drop i t.history,List.drop_eq_getElem_cons hi,hget]
  have htake : t.history.take (i+1)=t.history.take i++[e] := by rw [List.take_succ_eq_append_getElem hi,hget]
  have hmap : t.history.map LogEntry.raw=
      (t.history.take i).map LogEntry.raw++e.raw::(t.history.drop (i+1)).map LogEntry.raw := by
    conv_lhs => rw [hsplit]
    simp
  refine ⟨_,hmap,by rw [htake]; simp,fun x hx => ?_,?_⟩
  · have hch := h.chained
    rw [hmap] at hch
    obtain ⟨mid,h1,h2⟩ := hch.split
    rw [h2.head.1]
    exact (h1.bounds.2 x.raw (List.mem_map_of_mem hx)).2
  · have := h.chained.counted e.raw (List.mem_map_of_mem (List.mem_of_getElem? he))
    unfold lastOffset
    omega

theorem Fetchable.first_le (h : Fetchable crc t)
    (ha : abortedFrom t.history i=some (e,first)) : first≤baseOffset e.raw := by
  obtain ⟨he,_,_,ho⟩ := abortedFrom_some ha
  obtain ⟨hi,hget⟩ := List.getElem?_eq_some_iff.mp he
  obtain ⟨_,_,_,hlt,_⟩ := h.split he
  obtain ⟨x,hx,rfl⟩ := openAt_mem ho
  rw [List.take_succ_eq_append_getElem hi,hget] at hx
  rw [h.based x (List.mem_of_mem_take (by rw [List.take_succ_eq_append_getElem hi,hget]; exact hx))]
  rcases List.mem_append.mp hx with hx|hx
  · have := hlt x hx
    have := h.chained.counted x.raw (List.mem_map_of_mem (List.mem_of_mem_take hx))
    unfold lastOffset at *
    omega
  · rw [List.mem_singleton.mp hx]

theorem Fetchable.ranged (h : Fetchable crc t) (b : Bytes) (hb : b∈t.history.map LogEntry.raw) :
    CompleteBatch crc b ∧ 0≤lastOffset b ∧ lastOffset b<2^63 := by
  obtain ⟨e,he,rfl⟩ := List.mem_map.mp hb
  obtain ⟨rows,hf,_⟩ := h.filed
  have hhigh := hf.active.high
  have hbounds := h.chained.bounds.2 e.raw (List.mem_map_of_mem he)
  have hcount := h.chained.counted e.raw (List.mem_map_of_mem he)
  exact ⟨h.complete e he,by unfold lastOffset; omega,by omega⟩

theorem Fetchable.wanted_split (h : Fetchable crc t) (he : t.history[i]?=some e)
    (start : Int) (hr : start≤lastOffset e.raw) :
    ∃rest,wanted start (t.history.map LogEntry.raw)=
        wanted start ((t.history.take i).map LogEntry.raw)++e.raw::rest ∧
      wanted start ((t.history.take (i+1)).map LogEntry.raw)=
        wanted start ((t.history.take i).map LogEntry.raw)++[e.raw] := by
  obtain ⟨rest,hmap,htake,_,_⟩ := h.split he
  have hreach : reaches start e.raw=true := decide_eq_true hr
  refine ⟨wanted start rest,?_,?_⟩
  · rw [hmap,wanted_append,wanted,wanted,List.filter_cons_of_pos hreach]
    rfl
  · rw [htake,wanted_append]
    exact congrArg _ (List.filter_cons_of_pos hreach)

theorem Fetchable.wanted_max (h : Fetchable crc t) (start : Int) :
    wanted (max start t.store.logStart) (t.history.map LogEntry.raw)=wanted start
      (t.history.map LogEntry.raw) := by
  refine List.filter_congr (fun b hb => ?_)
  have := (h.ranged b hb).2.1
  rw [h.logStart]
  simp only [reaches,decide_eq_decide]
  omega

end Response

def FetchGate.passes (gate : FetchGate) : Bool :=
  gate.topicKnown && decide (gate.owns≠some false) && gate.authorized

theorem readOneAt_committed (lso : Int) {gate : FetchGate} (s : Store) (fetchOffset maxBytes : Int)
    (hg : gate.passes=true) :
    (readOneAt lso gate s ⟨fetchOffset,maxBytes,true⟩).records=
        trimToOffset (if lso≤fetchOffset then [] else readSnapshot s.dir s.snapshot fetchOffset
          maxBytes.toNat) lso ∧
    (readOneAt lso gate s ⟨fetchOffset,maxBytes,true⟩).abortedTransactions=
      (abortedInRange s.toPartitionInner fetchOffset lso).map (fun a => ⟨a.producerId,a.firstOffset⟩) := by
  simp only [FetchGate.passes,Bool.and_eq_true,decide_eq_true_eq] at hg
  obtain ⟨⟨h1,h2⟩,h3⟩ := hg
  simp [readOneAt,fetchBytes,h1,h2,h3]

theorem readOneAt_turned (lso : Int) {gate : FetchGate} (s : Store) (req : FetchRequest)
    (hg : gate.passes=false) : (readOneAt lso gate s req).records=[] := by
  simp only [FetchGate.passes,Bool.and_eq_false_iff,decide_eq_false_iff_not,not_not] at hg
  unfold readOneAt
  rcases hg with (h|h)|h
  · rw [if_pos (by simp [h])]
    rfl
  · split_ifs <;> rfl
  · rw [if_pos (c := (!gate.authorized)=true) (by simp [h])]
    split_ifs <;> rfl

section Listing

variable {crc : Crc32c} {t : TxnLog}

theorem Fetchable.listed (h : Fetchable crc t) {fetchOffset lso : Int}
    (ha : abortedFrom t.history i=some (e,first)) (hle : fetchOffset≤first) (hlt : lastOffset e.raw<lso) :
    (⟨producerId e.raw,first⟩ : AbortedTransaction)∈
      (abortedInRange t.store.toPartitionInner fetchOffset lso).map
        (fun a => ⟨a.producerId,a.firstOffset⟩) := by
  have hfirst := h.first_le ha
  obtain ⟨_,_,_,_,hbase⟩ := h.split (abortedFrom_some ha).1
  exact mem_abortedInRange.mpr ⟨h.aborted i e first ha,hle,by omega⟩

theorem Fetchable.response_mem (h : Fetchable crc t) (gate : FetchGate)
    (lso fetchOffset maxBytes : Int) (hu : fetchOffset<2^63) (b : Bytes)
    (hb : b∈completeRun crc (readOneAt lso gate t.store ⟨fetchOffset,maxBytes,true⟩).records) :
    gate.passes=true ∧ fetchOffset≤lastOffset b ∧ lastOffset b<lso := by
  have hnil : completeRun crc []=[] := (completeRun_flatten crc [] (by simp)).1
  cases hg : gate.passes with
  | false =>
    rw [readOneAt_turned _ _ _ hg,hnil] at hb
    cases hb
  | true =>
    rw [(readOneAt_committed lso t.store fetchOffset maxBytes hg).1,h.published] at hb
    obtain ⟨rows,hf,hsame⟩ := h.filed
    obtain ⟨bs,hread,hbs⟩ := hf.read_members fetchOffset maxBytes.toNat hu
    rw [hsame] at hbs
    have hc (x : Bytes) (hx : x∈bs) : CompleteBatch crc x ∧ -2^63≤lastOffset x ∧ lastOffset x<2^63 := by
      obtain ⟨h1,h2,h3⟩ := h.ranged x (hbs x hx).1
      exact ⟨h1,by omega,h3⟩
    by_cases hlso : lso≤fetchOffset
    · rw [if_pos hlso,show trimToOffset [] lso=[] from rfl,hnil] at hb
      cases hb
    · rw [if_neg hlso,hread] at hb
      obtain ⟨k,hrun,hbelow,_⟩ := trimmed_run lso hc maxBytes.toNat
      rw [hrun] at hb
      have := (hbs b (List.mem_of_mem_take hb)).2
      exact ⟨rfl,by omega,hbelow b hb⟩

theorem Fetchable.response_mem_iff (h : Fetchable crc t) (gate : FetchGate)
    (lso fetchOffset maxBytes : Int) (hu : fetchOffset<2^63) (hg : gate.passes=true)
    (near : ∀c∈t.store.closed++[t.store.active.info],
      c.baseOffset-max fetchOffset t.store.logStart≤2^31) (he : t.history[i]?=some e) :
    e.raw∈completeRun crc (readOneAt lso gate t.store ⟨fetchOffset,maxBytes,true⟩).records ↔
      fetchOffset≤lastOffset e.raw ∧ lastOffset e.raw<lso ∧
      (wanted fetchOffset ((t.history.take (i+1)).map LogEntry.raw)).flatten.length≤ maxBytes.toNat := by
  obtain ⟨rows,hf,hsame⟩ := h.filed
  by_cases hr : fetchOffset≤lastOffset e.raw ∧ lastOffset e.raw<lso
  · obtain ⟨hreach,hlt⟩ := hr
    have hread := hf.read_taken fetchOffset maxBytes.toNat hu near
    rw [hsame,h.wanted_max] at hread
    obtain ⟨rest,hsplit,hfront⟩ := h.wanted_split he fetchOffset hreach
    obtain ⟨_,_,_,hbelow,hbase⟩ := h.split he
    have hc (x : Bytes) (hx : x∈wanted fetchOffset (t.history.map LogEntry.raw)) :
        CompleteBatch crc x ∧ -2^63≤lastOffset x ∧ lastOffset x<2^63 := by
      obtain ⟨h1,h2,h3⟩ := h.ranged x (List.mem_of_mem_filter hx)
      exact ⟨h1,by omega,h3⟩
    have hless (x : Bytes) (hx : x∈wanted fetchOffset ((t.history.take i).map LogEntry.raw)) :
        lastOffset x<lastOffset e.raw := by
      obtain ⟨y,hy,rfl⟩ := List.mem_map.mp (List.mem_of_mem_filter hx)
      have := hbelow y hy
      omega
    rw [(readOneAt_committed lso t.store fetchOffset maxBytes hg).1,if_neg (by omega),h.published,hread]
    rw [hsplit] at hc ⊢
    rw [trimmed_mem_iff hc hless,hfront]
    exact ⟨fun hm => ⟨hreach,hm⟩,fun hm => hm.2⟩
  · constructor
    · intro hm
      exact absurd (h.response_mem gate lso fetchOffset maxBytes hu e.raw hm).2 hr
    · exact fun hm => absurd ⟨hm.1,hm.2.1⟩ hr

end Listing

theorem aborted_batches_listed (crc : Crc32c) (t : TxnLog)
    (run : Reaches (TxnStep crc) (HistoryOk crc) ⟨firstStore,[]⟩ t) (gate : FetchGate)
    (lso fetchOffset maxBytes : Int) (hu : fetchOffset<2^63) :
    (StartsWithin t.history fetchOffset lso →
      AbortsListed crc t.history (readOneAt lso gate t.store ⟨fetchOffset,maxBytes,true⟩)) ∧
    (gate.passes=true →
      (∀c∈t.store.closed++[t.store.active.info],c.baseOffset-max fetchOffset t.store.logStart≤2^31) →
      (AbortsListed crc t.history (readOneAt lso gate t.store ⟨fetchOffset,maxBytes,true⟩) ↔
        StartsWithinRead t.history fetchOffset lso maxBytes.toNat)) := by
  have h := run.invariant (firstStore_fetchable crc) (fun _ _ _ h hok hs => fetchable_step h hok hs)
  refine ⟨fun hw i e first ha hm => ?_,fun hg near => ⟨fun hl i hi => ?_,fun hw i e first ha hm => ?_⟩⟩
  · obtain ⟨hg,hreach,hlt⟩ := h.response_mem gate lso fetchOffset maxBytes hu e.raw hm
    have hstart := abortedFrom_all hw ha
    simp only [decide_eq_true_eq] at hstart
    rw [(readOneAt_committed lso t.store fetchOffset maxBytes hg).2]
    exact h.listed ha (by omega) hlt
  · cases ha : abortedFrom t.history i with
    | none => rfl
    | some p =>
      obtain ⟨e,first⟩ := p
      have hin := h.response_mem_iff gate lso fetchOffset maxBytes hu hg near (abortedFrom_some ha).1
      simp only [Option.all_some,decide_eq_true_eq]
      by_contra hno
      have hlisted := hl i e first ha (hin.mpr ⟨by omega,by omega,by omega⟩)
      rw [(readOneAt_committed lso t.store fetchOffset maxBytes hg).2] at hlisted
      have := (mem_abortedInRange.mp hlisted).2.1
      omega
  · obtain ⟨hreach,hlt,hfit⟩ := (h.response_mem_iff gate lso fetchOffset maxBytes hu hg near
      (abortedFrom_some ha).1).mp hm
    have hstart := abortedFrom_all hw ha
    simp only [decide_eq_true_eq] at hstart
    rw [(readOneAt_committed lso t.store fetchOffset maxBytes hg).2]
    exact h.listed ha (by omega) hlt

def abortedHistory : List TxnOp :=
  [.append {batch := txnBatch 7 0},.append {batch := txnBatch 7 1},
    .append {batch := buildControlBatch castagnoli 7 0 false 0}]

theorem aborted_txn_listed :
    ∃t,runChecked (TxnLog.exec castagnoli) (HistoryOk castagnoli) abortedHistory
      ⟨firstStore,[]⟩=some t ∧ abortedFrom t.history 1=some (⟨1,rewriteBase (txnBatch 7 1) 1⟩,0) ∧
      AbortsListed castagnoli t.history (readOneAt 3 {} t.store ⟨0,1000,true⟩) ∧
      (readOneAt 3 {} t.store ⟨0,1000,true⟩).abortedTransactions=[⟨7,0⟩] := by
  refine runChecked_outcome (p := fun t => abortedFrom t.history 1=some (⟨1,rewriteBase (txnBatch 7 1) 1⟩,0) ∧
    StartsWithin t.history 0 3 ∧ (readOneAt 3 {} t.store ⟨0,1000,true⟩).abortedTransactions=[⟨7,0⟩])
    (fun _ _ _ h => h) (by decide +kernel) fun t hreach ⟨hfrom,hwithin,hlist⟩ => ?_
  exact ⟨hfrom,(aborted_batches_listed castagnoli t hreach {} 3 0 1000 (by omega)).1 hwithin,hlist⟩

/-- A fetch that starts at the second batch of the transaction is given the batch and not told of
the abort. -/
theorem mid_txn_fetch_unlisted :
    WellFormed castagnoli (txnBatch 7 0) ∧ WellFormed castagnoli (txnBatch 7 1) ∧
    WellFormed castagnoli (buildControlBatch castagnoli 7 0 false 0) ∧
    ∃t,runAll (TxnLog.exec castagnoli) abortedHistory ⟨firstStore,[]⟩=some t ∧
      abortedFrom t.history 1=some (⟨1,rewriteBase (txnBatch 7 1) 1⟩,0) ∧
      rewriteBase (txnBatch 7 1) 1∈completeRun castagnoli (readOne {} t.store ⟨1,1000,true⟩).records ∧
      (readOne {} t.store ⟨1,1000,true⟩).abortedTransactions=[] ∧
      ¬AbortsListed castagnoli t.history (readOne {} t.store ⟨1,1000,true⟩) := by
  refine ⟨by decide +kernel,by decide +kernel,by decide +kernel,exists_outcome_of (p := fun _ => _ ∧ _ ∧ _)
    (by decide +kernel) fun t h => ⟨h.1,h.2.1,h.2.2,fun hl => ?_⟩⟩
  have := hl 1 _ _ h.1 h.2.1
  rw [h.2.2] at this
  cases this

end Kaas
