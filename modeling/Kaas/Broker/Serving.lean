import Kaas.Broker.ReadCommitted

namespace Kaas

/-! What a read of a whole partition returns. -/

/-- The segments and index files of a partition nothing is being written to: one row of batches
behind the other, and index entries that point at batches of their row. -/
structure SegmentSet (crc : Crc32c) (d : Dir) (snap : ReadSnapshot)
    (rows : SegmentName → List Bytes) : Prop where
  started : 0≤ snap.logStart ∧ snap.logStart<2^63
  closed : ∀p∈snap.closed.zip (upperBounds snap.closed snap.activeMeta.baseOffset),
    SegmentReadable crc d p.1 (rows p.1.name) [] [] p.2
  active : ∃hi,SegmentReadable crc d snap.activeMeta (rows snap.activeMeta.name) [] [] hi

def ReadSnapshot.contents (snap : ReadSnapshot) (rows : SegmentName → List Bytes) : List Bytes :=
  (snap.closed++[snap.activeMeta]).flatMap (fun c => rows c.name)

def lastPosition (data : Bytes) : Nat :=
  if data.length/8=0 then 0 else (readIndexEntry data (data.length/8-1)).2

/-- The segment begins no further than `2^31` above the start, or no index entry lies behind its
first byte. -/
def IndexWithin (d : Dir) (start : Int) (c : SegmentMeta) : Prop :=
  c.baseOffset-start≤2^31 ∨ lastPosition (d.indexData c.name)=0

instance (d : Dir) (start : Int) (c : SegmentMeta) : Decidable (IndexWithin d start c) :=
  inferInstanceAs (Decidable (_ ∨ _))

theorem Filed.segmentSet {crc : Crc32c} {s : Store} {rows : SegmentName → List Bytes}
    (h : Filed crc s rows) : SegmentSet crc s.dir (snapshotOf s.toPartitionInner) rows := by
  have hs := h.started
  have hhigh := h.active.high
  exact ⟨⟨hs.1,by change s.logStart<2^63; omega⟩,h.closed,s.highWater,h.active⟩

section Exact

variable {crc : Crc32c} {d : Dir} {m : SegmentMeta} {row : List Bytes} {hi start : Int}

theorem searchIndexBytes_far (h : SegmentReadable crc d m row [] [] hi) (hs : 0≤ start ∧ start<2^63)
    (far : 2^31< m.baseOffset-start) :
    searchIndexBytes (d.indexData m.name) m.baseOffset start=lastPosition (d.indexData m.name) := by
  have hch := h.chained
  rw [List.append_nil] at hch
  have hle := hch.bounds.1
  have hlow := h.low
  have hhigh := h.high
  have hwrap : wrapI64 (start-m.baseOffset)=start-m.baseOffset := wrapI64_of_range _ (by omega) (by omega)
  unfold searchIndexBytes lastPosition
  rw [hwrap]
  split_ifs
  · rfl
  · omega
  · omega
  · rfl

theorem SegmentReadable.nonempty (h : SegmentReadable crc d m row [] [] hi) (b : Bytes)
    (hb : b∈row) : b≠[] := by
  intro hnil
  have := (h.complete b hb).long
  rw [hnil] at this
  simp at this

theorem searchIndexBytes_split (h : SegmentReadable crc d m row [] [] hi) (hs : 0≤ start ∧ start<2^63) :
    ∃j,searchIndexBytes (d.indexData m.name) m.baseOffset start=(row.take j).flatten.length ∧
      (wanted start (row.take j)=[] ↔ IndexWithin d start m) := by
  by_cases near : m.baseOffset-start≤2^31
  · obtain ⟨j,hj,hbelow⟩ := searchIndexBytes_near h hs near
    exact ⟨j,hj,iff_of_true (wanted_nil_of_below hbelow) (Or.inl near)⟩
  · have hfar := searchIndexBytes_far h hs (by omega)
    by_cases hz : lastPosition (d.indexData m.name)=0
    · exact ⟨0,by simp [hfar,hz],iff_of_true (by simp [wanted]) (Or.inr hz)⟩
    · have hch := h.chained
      have hidx := h.index
      rw [List.append_nil] at hch hidx
      have hle := hch.bounds
      have hlow := h.low
      have hhigh := h.high
      obtain ⟨j,hj,_⟩ := searchIndexBytes_boundary _ _ _ start _ hidx hch ⟨hlow,by omega⟩ hs
      refine ⟨j,hj,iff_of_false (fun hnil => ?_) (fun hw => hw.elim near hz)⟩
      -- every batch of the segment lies above the start, so a skipped one is a wanted one
      have hall : wanted start (row.take j)=row.take j := by
        refine List.filter_eq_self.mpr (fun b hb => ?_)
        have hbase := (hle.2 b (List.mem_of_mem_take hb)).1
        have hcount := hch.counted b (List.mem_of_mem_take hb)
        exact decide_eq_true (by unfold lastOffset; omega)
      rw [hall] at hnil
      rw [hfar,hnil] at hj
      exact hz hj

end Exact

theorem flatMap_left_out {α β : Type} {cs : List α} (whole part rest : α → List (List β))
    (hsplit : ∀c∈cs,whole c=part c++rest c)
    (hlen : (cs.flatMap whole).flatten.length≤(cs.flatMap rest).flatten.length) :
    ∀c∈cs,(part c).flatten=[] := by
  have hle (l : List α) (hl : ∀c∈l,whole c=part c++rest c) :
      (l.flatMap rest).flatten.length≤(l.flatMap whole).flatten.length := by
    induction l with
    | nil => simp
    | cons c l ih =>
      have := ih (fun x hx => hl x (List.mem_cons_of_mem c hx))
      simp only [List.flatMap_cons,List.flatten_append,List.length_append,hl c (List.mem_cons_self ..)]
      omega
  induction cs with
  | nil => simp
  | cons c cs ih =>
    have hrest := fun x hx => hsplit x (List.mem_cons_of_mem c hx)
    have htail := hle cs hrest
    simp only [List.flatMap_cons,List.flatten_append,List.length_append,
      hsplit c (List.mem_cons_self ..)] at hlen
    intro x hx
    rcases List.mem_cons.mp hx with rfl|hx
    · exact List.eq_nil_of_length_eq_zero (by omega)
    · exact ih hrest (by omega) x hx

section Snapshot

variable {crc : Crc32c} {d : Dir} {snap : ReadSnapshot} {rows : SegmentName → List Bytes}

theorem SegmentSet.readable (h : SegmentSet crc d snap rows) (c : SegmentMeta)
    (hc : c∈snap.closed++[snap.activeMeta]) : ∃hi,SegmentReadable crc d c (rows c.name) [] [] hi := by
  rcases List.mem_append.mp hc with hc|hc
  · obtain ⟨up,hup⟩ := mem_zip_upperBounds snap.activeMeta.baseOffset hc
    exact ⟨up,h.closed _ hup⟩
  · rw [List.mem_singleton.mp hc]
    exact h.active

theorem SegmentSet.read_split (h : SegmentSet crc d snap rows) (start : Int) (hu : start<2^63) :
    ∃part rest : SegmentMeta → List Bytes,
      (∀c∈snap.closed++[snap.activeMeta],wanted (max start snap.logStart) (rows c.name)=part c++rest c) ∧
      (∀c∈snap.closed++[snap.activeMeta],part c=[] ↔ IndexWithin d (max start snap.logStart) c) ∧
      (∀c∈snap.closed++[snap.activeMeta],∀b∈part c,b≠[]) ∧
      ∀maxBytes,readSnapshot d snap start maxBytes=
        ((snap.closed++[snap.activeMeta]).flatMap rest).flatten.take maxBytes := by
  have hstarted := h.started
  have hs : 0≤ max start snap.logStart ∧ max start snap.logStart<2^63 := by omega
  have hex (c : SegmentMeta) : ∃j,c∈snap.closed++[snap.activeMeta] →
      searchIndexBytes (d.indexData c.name) c.baseOffset (max start snap.logStart)=
        ((rows c.name).take j).flatten.length ∧
      (wanted (max start snap.logStart) ((rows c.name).take j)=[] ↔
        IndexWithin d (max start snap.logStart) c) := by
    by_cases hc : c∈snap.closed++[snap.activeMeta]
    · obtain ⟨hi,hr⟩ := h.readable c hc
      obtain ⟨j,hj⟩ := searchIndexBytes_split hr hs
      exact ⟨j,fun _ => hj⟩
    · exact ⟨0,fun hm => absurd hm hc⟩
  choose skip hskip using hex
  have hsplit (c : SegmentMeta) : wanted (max start snap.logStart) (rows c.name)=
      wanted (max start snap.logStart) ((rows c.name).take (skip c))++
        wanted (max start snap.logStart) ((rows c.name).drop (skip c)) := by
    rw [← wanted_append,List.take_append_drop]
  refine ⟨fun c => wanted (max start snap.logStart) ((rows c.name).take (skip c)),
    fun c => wanted (max start snap.logStart) ((rows c.name).drop (skip c)),fun c _ => hsplit c,
    fun c hc => (hskip c hc).2,fun c hc b hb => ?_,fun maxBytes => ?_⟩
  · obtain ⟨hi,hr⟩ := h.readable c hc
    exact hr.nonempty b (List.mem_of_mem_take (List.mem_of_mem_filter hb))
  · rw [readSnapshot_want _ maxBytes (fun p hp hup => ?_) (fun c hc n => ?_),fill_take,List.nil_append]
    · have hnil := (h.closed p hp).wanted_nil hup
      rw [hsplit p.1] at hnil
      exact (List.append_eq_nil_iff.mp hnil).2
    · obtain ⟨hi,hr⟩ := h.readable c hc
      exact readSegment_from hr unreadable_nil n (hskip c hc).1

end Snapshot

theorem readSnapshot_exact_iff (crc : Crc32c) (d : Dir) (snap : ReadSnapshot) (rows : SegmentName →
    List Bytes) (h : SegmentSet crc d snap rows) (start : Int) (hu : start<2^63) :
    (∀maxBytes,readSnapshot d snap start maxBytes=
      (wanted (max start snap.logStart) (snap.contents rows)).flatten.take maxBytes) ↔
    ∀c∈snap.closed++[snap.activeMeta],IndexWithin d (max start snap.logStart) c := by
  obtain ⟨part,rest,hsplit,hwithin,hne,hread⟩ := h.read_split start hu
  have hall : wanted (max start snap.logStart) (snap.contents rows)=
      (snap.closed++[snap.activeMeta]).flatMap (fun c => wanted (max start snap.logStart) (rows c.name)) :=
    (wanted_flatMap _ (fun c => rows c.name) _).symm
  rw [hall]
  constructor
  · intro hexact c hc
    -- a limit that everything fits into shows every missing byte
    have hlen := congrArg List.length ((hread _).symm.trans (hexact ((snap.closed++[snap.activeMeta]).flatMap
      (fun c => wanted (max start snap.logStart) (rows c.name))).flatten.length))
    rw [List.length_take,List.length_take,Nat.min_self] at hlen
    have hnil := flatMap_left_out _ part rest hsplit (by omega) c hc
    rw [← hwithin c hc,List.eq_nil_iff_forall_not_mem]
    intro b hb
    exact hne c hc b hb (List.flatten_eq_nil_iff.mp hnil b hb)
  · intro hin maxBytes
    rw [hread maxBytes]
    congr 2
    refine List.flatMap_congr (fun c hc => ?_)
    rw [hsplit c hc,(hwithin c hc).mpr (hin c hc),List.nil_append]

theorem Fetchable.segmentSet {crc : Crc32c} {t : TxnLog} (h : Fetchable crc t) :
    ∃rows,SegmentSet crc t.store.dir t.store.snapshot rows ∧
      t.store.snapshot.contents rows=t.history.map LogEntry.raw := by
  obtain ⟨rows,hf,hsame⟩ := h.filed
  rw [h.published]
  exact ⟨rows,hf.segmentSet,hsame⟩

theorem fetchable_of_run {crc : Crc32c} {ops : List TxnOp} {t : TxnLog}
    (h : runChecked (TxnLog.exec crc) (HistoryOk crc) ops ⟨firstStore,[]⟩=some t) : Fetchable crc t := by
  have hreach : Reaches (TxnStep crc) (HistoryOk crc) ⟨firstStore,[]⟩ t :=
    runChecked_reaches (f := TxnLog.exec crc) (fun _ _ _ h => h) _ _ _ t .start h
  exact hreach.invariant (firstStore_fetchable crc) (fun _ _ _ h hok hs => fetchable_step h hok hs)

def widestBatch : Bytes := encodeBatch castagnoli {lastOffsetDelta := 2147483647}

def wideHistory : List TxnOp :=
  [.append {batch := widestBatch},.append {batch := widestBatch},
    .append {cfg := {segmentBytes := 100},batch := plainBatch},
    .append {cfg := {indexIntervalBytes := 1},batch := plainBatch}]

/-- A read from the start of the log leaves the third batch out. -/
theorem far_segment_skips :
    ∃t rows,runChecked (TxnLog.exec castagnoli) (HistoryOk castagnoli) wideHistory
      ⟨firstStore,[]⟩=some t ∧ SegmentSet castagnoli t.store.dir t.store.snapshot rows ∧
      t.store.snapshot.contents rows=[widestBatch,rewriteBase widestBatch 2147483648,
        rewriteBase plainBatch 4294967296,rewriteBase plainBatch 4294967297] ∧
      readSnapshot t.store.dir t.store.snapshot 0 1000=
        widestBatch++rewriteBase widestBatch 2147483648++rewriteBase plainBatch 4294967297 ∧
      readSnapshot t.store.dir t.store.snapshot 0 1000≠
        (wanted (max 0 t.store.snapshot.logStart) (t.store.snapshot.contents rows)).flatten.take 1000 := by
  obtain ⟨t,ht,hrows,hread,hne⟩ :
      ∃t∈runChecked (TxnLog.exec castagnoli) (HistoryOk castagnoli) wideHistory ⟨firstStore,[]⟩,
      t.history.map LogEntry.raw=[widestBatch,rewriteBase widestBatch 2147483648,
          rewriteBase plainBatch 4294967296,rewriteBase plainBatch 4294967297] ∧
        readSnapshot t.store.dir t.store.snapshot 0 1000=
          widestBatch++rewriteBase widestBatch 2147483648++rewriteBase plainBatch 4294967297 ∧
        readSnapshot t.store.dir t.store.snapshot 0 1000≠
          (wanted (max 0 t.store.snapshot.logStart) (t.history.map LogEntry.raw)).flatten.take 1000 := by
    decide +kernel
  obtain ⟨rows,hset,hsame⟩ := (fetchable_of_run ht).segmentSet
  exact ⟨t,rows,ht,hset,hsame.trans hrows,hread,by rw [hsame]; exact hne⟩

theorem near_segments_read_exact :
    ∃t rows,runChecked (TxnLog.exec castagnoli) (HistoryOk castagnoli) wideHistory
      ⟨firstStore,[]⟩=some t ∧ SegmentSet castagnoli t.store.dir t.store.snapshot rows ∧
      ∀maxBytes,readSnapshot t.store.dir t.store.snapshot 2147483648 maxBytes=
        (wanted (max 2147483648 t.store.snapshot.logStart)
          (t.store.snapshot.contents rows)).flatten.take maxBytes := by
  obtain ⟨t,ht,h⟩ : ∃t∈runChecked (TxnLog.exec castagnoli) (HistoryOk castagnoli) wideHistory
      ⟨firstStore,[]⟩,∀c∈t.store.snapshot.closed++[t.store.snapshot.activeMeta],
        IndexWithin t.store.dir (max 2147483648 t.store.snapshot.logStart) c := by decide +kernel
  obtain ⟨rows,hset,_⟩ := (fetchable_of_run ht).segmentSet
  exact ⟨t,rows,ht,hset,(readSnapshot_exact_iff castagnoli _ _ _ hset 2147483648 (by decide)).mpr h⟩

def StartsWhole (crc : Crc32c) (records : Bytes) : Prop := ∃b,CompleteBatch crc b ∧ b <+: records

def FetchRequest.cap (s : Store) (req : FetchRequest) : Int :=
  if req.readCommitted then lastStableOffset s.toPartitionInner else s.snapshot.highWater

/-- A partition holds a batch that a read from `start` is led to: a segment of it has the batch in
its row, and the search of that segment's index does not lead behind it. -/
structure Holds (crc : Crc32c) (s : Store) (b : Bytes) (start : Int) : Prop where
  sorted : ((s.snapshot.closed++[s.snapshot.activeMeta]).map SegmentMeta.baseOffset).Pairwise (· < ·)
  row : ∃m∈s.snapshot.closed++[s.snapshot.activeMeta],LedTo crc s.dir m b start ∧
    ∀c∈s.snapshot.closed++[s.snapshot.activeMeta],m.baseOffset<c.baseOffset → lastOffset b<c.baseOffset

theorem trimLoop_ge (bytes : Bytes) (cap : Int) (n pos p : Nat)
    (h : trimLoop bytes cap n pos=some p) : pos≤p := by
  induction n generalizing pos with
  | zero => cases h
  | succ n ih =>
    rw [trimLoop] at h
    split_ifs at h
    · exact le_of_eq (Option.some.inj h)
    · exact le_of_eq (Option.some.inj h)
    · have := ih _ h
      omega

theorem trimToOffset_prefix (bytes : Bytes) (cap : Int) : trimToOffset bytes cap <+: bytes := by
  rw [trimToOffset_eq]
  exact List.take_prefix _ _

theorem trimToOffset_first {cap : Int} {b : Bytes} (hb : Trimmable cap b) (extra : Bytes) {n : Nat}
    (hn : b.length≤n) (hcap : lastOffset b<cap) : b <+: trimToOffset ((b++extra).take n) cap := by
  have hlong := hb.long
  have hlen : ([]++(b++extra).take n).length=min n (b.length+extra.length) := by simp
  have hturn := trimLoop_turn hb [] extra n ((b++extra).take n).length (by omega)
  rw [if_neg (by omega),if_neg (by rw [hlen,List.length_nil]; omega)] at hturn
  simp only [List.nil_append,List.length_nil,Nat.zero_add] at hturn
  have hwhole : b <+: (b++extra).take n := by
    rw [List.take_append,List.take_of_length_le hn]
    exact List.prefix_append _ _
  rw [trimToOffset_eq,hturn]
  refine List.prefix_take_iff.mpr ⟨hwhole,?_⟩
  cases hp : trimLoop ((b++extra).take n) cap ((b++extra).take n).length b.length with
  | none => exact hwhole.length_le
  | some p => exact trimLoop_ge _ _ _ _ _ hp

theorem not_startsWhole {crc : Crc32c} {b : Bytes} (hb : CompleteBatch crc b) {records : Bytes}
    (hp : records <+: b) (hlt : records.length<b.length) : ¬StartsWhole crc records := by
  rintro ⟨c,hc,hcr⟩
  have hlong := hc.long
  have hcb : c <+: b := hcr.trans hp
  obtain ⟨rest,rfl⟩ := hcb
  have hfield : batchLength (c++rest)=batchLength c := by
    rw [batchLength,batchLength,i32At,i32At,slice_append_left _ _ (by omega)]
  have hsize := hb.sized
  rw [hfield,hc.sized] at hsize
  have := hcr.length_le
  omega

theorem readOneAt_records (lso : Int) {gate : FetchGate} (s : Store) (req : FetchRequest)
    (hg : gate.passes=true) : (readOneAt lso gate s req).records=
      if req.readCommitted then trimToOffset (fetchBytes lso s req) lso else fetchBytes lso s req := by
  simp only [FetchGate.passes,Bool.and_eq_true,decide_eq_true_eq] at hg
  obtain ⟨⟨h1,h2⟩,h3⟩ := hg
  simp [readOneAt,h1,h2,h3]

/-- Where the index leads to the batch that holds the fetch offset, the response begins with a whole
batch exactly if that batch fits the limit. -/
theorem fetch_progress_iff (crc : Crc32c) (s : Store) (b : Bytes) (req : FetchRequest)
    (h : Holds crc s b req.fetchOffset) (gate : FetchGate) (hg : gate.passes=true)
    (hmax : 0≤ req.partitionMaxBytes) (hstart : s.snapshot.logStart≤ req.fetchOffset)
    (hat : baseOffset b≤ req.fetchOffset ∧ req.fetchOffset≤lastOffset b) (hcap : lastOffset b< req.cap s) :
    StartsWhole crc (readOne gate s req).records ↔ (b.length : Int)≤ req.partitionMaxBytes := by
  obtain ⟨m,hm,hled,hnext⟩ := h.row
  obtain ⟨hcomplete,hbase,hlast⟩ := hled.within
  have hlow := hled.low
  obtain ⟨extra,hread⟩ := readSnapshot_begins h.sorted hm hled hnext hstart hat req.partitionMaxBytes.toNat
  have hrecords : (readOne gate s req).records=
      if req.readCommitted then trimToOffset ((b++extra).take req.partitionMaxBytes.toNat) (req.cap s)
      else (b++extra).take req.partitionMaxBytes.toNat := by
    rw [readOne,readOneAt_records _ s req hg,fetchBytes,hread]
    cases hc : req.readCommitted with
    | false => simp
    | true =>
      have hlso : req.cap s=lastStableOffset s.toPartitionInner := by simp [FetchRequest.cap,hc]
      rw [hlso] at hcap ⊢
      simp [show ¬lastStableOffset s.toPartitionInner≤ req.fetchOffset by omega]
  rw [hrecords]
  by_cases hfit : b.length≤ req.partitionMaxBytes.toNat
  · refine iff_of_true ⟨b,hcomplete,?_⟩ (by omega)
    split_ifs
    · exact trimToOffset_first (hcomplete.trimmable ⟨by omega,by omega⟩ _) extra hfit hcap
    · rw [List.take_append,List.take_of_length_le hfit]
      exact List.prefix_append _ _
  · have hshort : (b++extra).take req.partitionMaxBytes.toNat=b.take req.partitionMaxBytes.toNat :=
      List.take_append_of_le_length (by omega)
    have hlen : (b.take req.partitionMaxBytes.toNat).length<b.length := by
      rw [List.length_take]
      omega
    rw [hshort]
    refine iff_of_false ?_ (by omega)
    split_ifs
    · have htrim := trimToOffset_prefix (b.take req.partitionMaxBytes.toNat) (req.cap s)
      exact not_startsWhole hcomplete (htrim.trans (List.take_prefix _ _)) (lt_of_le_of_lt htrim.length_le hlen)
    · exact not_startsWhole hcomplete (List.take_prefix _ _) hlen

theorem Filed.holds {crc : Crc32c} {s : Store} {rows : SegmentName → List Bytes} (h : Filed crc s rows)
    (hp : s.snapshot=snapshotOf s.toPartitionInner) (b : Bytes) (hb : b∈s.contents rows)
    {start : Int} (hat : baseOffset b≤ start ∧ start≤lastOffset b) : Holds crc s b start := by
  obtain ⟨c,hc,hrow⟩ := List.mem_flatMap.mp hb
  obtain ⟨pre,post,hsplit⟩ := List.append_of_mem hrow
  have hle := upperBounds_least h.sorted
  refine ⟨by rw [hp,List.map_append]; exact h.sorted,c,by rw [hp]; exact hc,?_⟩
  rw [hp]
  rcases List.mem_append.mp hc with hc|hc
  · obtain ⟨up,hup⟩ := mem_zip_upperBounds s.active.info.baseOffset hc
    have hread := h.closed _ hup
    have hbelow := (hread.chained.bounds.2 b (List.mem_append_left [] hrow)).2
    dsimp only at hread hbelow
    rw [hsplit] at hread
    refine ⟨hread.led hat,fun x hx hlt => ?_⟩
    rcases List.mem_append.mp hx with hx|hx
    · exact hbelow.trans_le ((hle _ hup).2 x hx hlt)
    · rw [List.mem_singleton.mp hx]
      exact hbelow.trans_le (hle _ hup).1
  · rw [List.mem_singleton.mp hc] at hsplit ⊢
    have hread := h.active
    rw [hsplit] at hread
    refine ⟨hread.led hat,fun x hx hlt => ?_⟩
    rcases List.mem_append.mp hx with hx|hx
    · have := (List.pairwise_append.mp h.sorted).2.2 _ (List.mem_map_of_mem hx) _ (List.mem_singleton.mpr rfl)
      omega
    · rw [List.mem_singleton.mp hx] at hlt
      exact absurd hlt (lt_irrefl _)

theorem one_batch_held :
    ∃t,runChecked (TxnLog.exec castagnoli) (HistoryOk castagnoli) [.append {batch := plainBatch}]
        ⟨firstStore,[]⟩= some t ∧
      Holds castagnoli t.store plainBatch 0 ∧ t.store.snapshot.logStart=0 ∧ baseOffset plainBatch=0 ∧
      lastOffset plainBatch=0 ∧ (∀maxBytes committed,FetchRequest.cap t.store ⟨0,maxBytes,committed⟩=1) ∧
      (readOne {} t.store ⟨0,60,false⟩).records=plainBatch.take 60 := by
  obtain ⟨t,ht,hrows,hstart,hlso,hhw,hrec⟩ :
      ∃t∈runChecked (TxnLog.exec castagnoli) (HistoryOk castagnoli) [.append {batch := plainBatch}]
      ⟨firstStore,[]⟩,t.history.map LogEntry.raw=[plainBatch] ∧
        t.store.snapshot.logStart=0 ∧ lastStableOffset t.store.toPartitionInner=1 ∧
          t.store.snapshot.highWater=1 ∧
        (readOne {} t.store ⟨0,60,false⟩).records=plainBatch.take 60 := by decide +kernel
  have hf := fetchable_of_run ht
  obtain ⟨rows,hfiled,hsame⟩ := hf.filed
  have hbase : baseOffset plainBatch=0 := by decide +kernel
  have hlast : lastOffset plainBatch=0 := by decide +kernel
  refine ⟨t,ht,hfiled.holds hf.published plainBatch (by rw [hsame,hrows]; simp) ⟨hbase.le,hlast.ge⟩,
    hstart,hbase,hlast,
    fun maxBytes committed => ?_,hrec⟩
  unfold FetchRequest.cap
  split_ifs
  · exact hlso
  · exact hhw

def indexedAppend (batch : Bytes) : PartitionOp := .append {cfg := {indexIntervalBytes := 1},batch := batch}

def indexedStore : Option Store :=
  runAll (Store.exec castagnoli)
    [indexedAppend plainBatch,indexedAppend plainBatch,indexedAppend plainBatch] firstStore

def reopened (image : Dir) : Option Store :=
  (openPartition castagnoli {} image).2.toOption.bind fun p =>
    (Store.exec castagnoli ⟨p,(openPartition castagnoli {} image).1⟩ (indexedAppend wideBatch))

/-- A limit of one byte less than the batch returns no whole batch, however often the consumer asks.
And a crash that takes two of three batches and leaves their index entries hides the batch that is
written in their place. -/
theorem short_fetch_stalls :
    (∃t,runChecked (TxnLog.exec castagnoli) (HistoryOk castagnoli) [.append {batch := plainBatch}]
      ⟨firstStore,[]⟩=
        some t ∧
      Holds castagnoli t.store plainBatch 0 ∧ lastOffset plainBatch<FetchRequest.cap t.store ⟨0,60,false⟩ ∧
      (readOne {} t.store ⟨0,60,false⟩).records=plainBatch.take 60 ∧
      ¬StartsWhole castagnoli (readOne {} t.store ⟨0,60,false⟩).records) ∧
    ∃s∈indexedStore,s.dir.CrashImage (s.dir.cutTo (segmentName 0 0) 61) ∧
      ∃t∈reopened (s.dir.cutTo (segmentName 0 0) 61),
        t.dir.logData (segmentName 0 0)=plainBatch++rewriteBase wideBatch 1 ∧ t.snapshot.highWater=7 ∧
        (readOne {} t ⟨2,1000,false⟩).records=[] ∧
          (readOne {} t ⟨1,1000,false⟩).records=rewriteBase wideBatch 1 := by
  refine ⟨?_,?_⟩
  · obtain ⟨t,ht,hh,_,_,hlast,hcap,hrec⟩ := one_batch_held
    refine ⟨t,ht,hh,by rw [hlast,hcap]; decide,hrec,?_⟩
    have hcomplete : CompleteBatch castagnoli plainBatch := by decide +kernel
    rw [hrec]
    exact not_startsWhole hcomplete (List.take_prefix _ _) (by decide +kernel)
  · obtain ⟨s,hs,hkeys,hsynced,hread⟩ : ∃s∈indexedStore,s.dir.logs.keys=[segmentName 0 0] ∧
        (s.dir.logs.lookup (segmentName 0 0)).map LogFile.synced=some 0 ∧
        ∃t∈reopened (s.dir.cutTo (segmentName 0 0) 61),
          t.dir.logData (segmentName 0 0)=plainBatch++rewriteBase wideBatch 1 ∧ t.snapshot.highWater=7 ∧
          (readOne {} t ⟨2,1000,false⟩).records=[] ∧
          (readOne {} t ⟨1,1000,false⟩).records=rewriteBase wideBatch 1 := by decide +kernel
    exact ⟨s,hs,crashImage_cutTo hkeys hsynced (Nat.zero_le _),hread⟩

theorem fetch_progress_one :
    ∃t,Holds castagnoli t plainBatch 0 ∧ lastOffset plainBatch<FetchRequest.cap t ⟨0,61,true⟩ ∧
      StartsWhole castagnoli (readOne {} t ⟨0,61,true⟩).records := by
  obtain ⟨t,_,hh,hstart,hbase,hlast,hcap,_⟩ := one_batch_held
  have hbelow : lastOffset plainBatch<FetchRequest.cap t.store ⟨0,61,true⟩ := by
    rw [hlast,hcap]
    decide
  have hlen : plainBatch.length=61 := by decide +kernel
  exact ⟨t.store,hh,hbelow,(fetch_progress_iff castagnoli t.store plainBatch ⟨0,61,true⟩ hh {} rfl (by decide)
    (le_of_eq hstart) ⟨le_of_eq hbase,ge_of_eq hlast⟩ hbelow).mpr (by rw [hlen]; decide)⟩

end Kaas
