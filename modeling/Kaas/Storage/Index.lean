import Kaas.Storage.Durable

namespace Kaas

/-! A segment and its index over any sequence of appends, rolls, reopens and crashes. -/

structure SegmentStore where
  dir : Dir
  active : ActiveSegment
  next : Int

def firstSegment (base epoch : Int) : SegmentStore :=
  ⟨ActiveSegment.created {} (segmentName base epoch),ActiveSegment.fresh base epoch,base⟩

namespace SegmentStore

/-- The owner writes the next offset into the batch, and counts its records once it is stored. -/
def append (env : IoEnv) (batch : Bytes) (interval : Nat) (s : SegmentStore) : SegmentStore :=
  match s.active.appendBatch env s.dir (rewriteBase batch s.next) interval with
  | (d,.error _) => {s with dir := d}
  | (d,.ok a) => ⟨d,a,wrapI64 (s.next+lastOffsetDelta batch+1)⟩

def roll (env : IoEnv) (epoch : Int) (s : SegmentStore) : SegmentStore :=
  match s.active.rollFast env s.dir s.next epoch with
  | (d,.error _) => {s with dir := d,active := s.active.closeHandles}
  | (d,.ok (a,_)) => {s with dir := d,active := a}

def reopen (s : SegmentStore) : SegmentStore :=
  {s with
    dir := (s.active.closeHandles.openHandles s.dir).1
    active := (s.active.closeHandles.openHandles s.dir).2}

/-- A segment found on disk: handles, recovery scan, and what the scan rejects is cut off. -/
def recover (crc : Crc32c) (d : Dir) (info : SegmentMeta) : SegmentStore :=
  let o := (ActiveSegment.openMetaOnly info).openHandles d
  ⟨(repairTail crc o.1 o.2).1,(repairTail crc o.1 o.2).2,(recoveryScan crc o.1 o.2).highWatermark⟩

def log (s : SegmentStore) : Bytes := s.dir.logData s.active.info.name

def index (s : SegmentStore) : Bytes := s.dir.indexData s.active.info.name

end SegmentStore

inductive SegmentOp
  | append (env : IoEnv) (batch : Bytes) (interval : Nat)
  | roll (env : IoEnv) (epoch : Int)
  | reopen
  | crash (image : Dir)

inductive SegmentStep (crc : Crc32c) : SegmentStore → SegmentOp → SegmentStore → Prop
  | append {s : SegmentStore} (env : IoEnv) (batch : Bytes) (interval : Nat) :
      SegmentStep crc s (.append env batch interval) (s.append env batch interval)
  | roll {s : SegmentStore} (env : IoEnv) (epoch : Int) :
      SegmentStep crc s (.roll env epoch) (s.roll env epoch)
  | reopen {s : SegmentStore} : SegmentStep crc s .reopen s.reopen
  | crash {s : SegmentStore} {image : Dir} (left : s.dir.CrashImage image) :
      SegmentStep crc s (.crash image) (.recover crc image s.active.info)

def IndexIncreasing (data : Bytes) : Prop :=
  ∀i j,i<j → j<data.length/8 → (readIndexEntry data i).1<(readIndexEntry data j).1 ∧
    (readIndexEntry data i).2<(readIndexEntry data j).2

/-- What an index has to say of its log: every entry is the offset and the first byte of a batch of
it, the entries grow, and a read from the position looked up skips no batch it has to return. -/
structure IndexValid (crc : Crc32c) (base : Int) (log index : Bytes) : Prop where
  points : IndexSound index base (completeRun crc log)
  increasing : IndexIncreasing index
  finds : ∀start,base≤ start → start<2^63 →
    ∃j,searchIndexBytes index base start=((completeRun crc log).take j).flatten.length ∧
      ∀b∈(completeRun crc log).take j,lastOffset b< start

/-- A crash that does the index no harm: what is left of the accounted log are batches that were
written, the entries left point at them, and the scan finds no fragment and no foreign batch. -/
structure Recoverable (crc : Crc32c) (a : ActiveSegment) (log found index : Bytes) : Prop where
  whole : tornTail crc found=[] ∨ 12≤(tornTail crc found).length
  chained : Chained a.info.baseOffset (completeRun crc found)
    (endOffset a.info.baseOffset (completeRun crc found))
  written : completeRun crc (found.take a.logSize) <+: completeRun crc (log.take a.logSize)
  covered : ∀i< index.length/8,
    (readIndexEntry index i).2<(completeRun crc (found.take a.logSize)).flatten.length

/-- An index entry is not put in front of older ones, a segment is rolled with its handles open and
opened again with no bytes behind its accounted end, and crashes leave the index its batches. -/
def SegmentOk (crc : Crc32c) (s : SegmentStore) : SegmentOp → Prop
  | .append _ batch interval => Storable crc batch ∧ s.next+recordCount batch<2^63 ∧
      (interval≤ subU64 s.active.logSize s.active.lastIndexedLogPos →
        s.index.length≤ s.active.indexPos+8)
  | .roll _ _ => s.active.logOpen=true
  | .reopen => s.log.length=s.active.logSize
  | .crash image => Recoverable crc s.active s.log (image.logData s.active.info.name)
      (image.indexData s.active.info.name)

instance (crc : Crc32c) (a : ActiveSegment) (log found index : Bytes) :
    Decidable (Recoverable crc a log found index) :=
  decidable_of_iff ((tornTail crc found=[] ∨ 12≤(tornTail crc found).length) ∧
      Chained a.info.baseOffset (completeRun crc found)
        (endOffset a.info.baseOffset (completeRun crc found)) ∧
      completeRun crc (found.take a.logSize) <+: completeRun crc (log.take a.logSize) ∧
      ∀i< index.length/8,
        (readIndexEntry index i).2<(completeRun crc (found.take a.logSize)).flatten.length)
    ⟨fun h => ⟨h.1,h.2.1,h.2.2.1,h.2.2.2⟩,fun h => ⟨h.whole,h.chained,h.written,h.covered⟩⟩

instance (crc : Crc32c) (s : SegmentStore) : (op : SegmentOp) → Decidable (SegmentOk crc s op)
  | .append _ batch interval => inferInstanceAs (Decidable (Storable crc batch ∧
      s.next+recordCount batch<2^63 ∧ (interval≤ subU64 s.active.logSize s.active.lastIndexedLogPos →
        s.index.length≤ s.active.indexPos+8)))
  | .roll _ _ => inferInstanceAs (Decidable (s.active.logOpen=true))
  | .reopen => inferInstanceAs (Decidable (s.log.length=s.active.logSize))
  | .crash image => inferInstanceAs (Decidable (Recoverable crc s.active s.log
      (image.logData s.active.info.name) (image.indexData s.active.info.name)))

def SegmentStore.exec (s : SegmentStore) : SegmentOp → Option SegmentStore
  | .append env batch interval => some (s.append env batch interval)
  | .roll env epoch => some (s.roll env epoch)
  | .reopen => some s.reopen
  | .crash _ => none

theorem SegmentStore.exec_step (crc : Crc32c) (s : SegmentStore) (op : SegmentOp) (t : SegmentStore)
    (h : s.exec op=some t) : SegmentStep crc s op t := by
  cases op with
  | append env batch interval => cases h; exact .append env batch interval
  | roll env epoch => cases h; exact .roll env epoch
  | reopen => cases h; exact .reopen
  | crash image => cases h

theorem IndexIncreasing.cut {data data' : Bytes} (h : IndexIncreasing data) (hp : data' <+: data) :
    IndexIncreasing data' := by
  obtain ⟨more,rfl⟩ := hp
  intro i j hij hj
  rw [← readIndexEntry_append data' more i (by omega),← readIndexEntry_append data' more j (by omega)]
  exact h i j hij (by simp only [List.length_append]; omega)

variable {hi base : Int} {row : List Bytes} {idx : Bytes} {env : IoEnv} {d : Dir}

theorem IndexIncreasing.concat {data : Bytes} {bs : List Bytes} (h : IndexIncreasing data)
    (hs : IndexSound data base bs) (hch : Chained base bs hi) (hne : ∀b∈bs,b≠[])
    (hd : data.length%8=0) (hr : 0≤hi-base ∧ hi-base<2^31) (hp : bs.flatten.length<2^32) :
    IndexIncreasing (data++(beBytes 4 ((hi-base)%2^32).toNat++beBytes 4 bs.flatten.length)) := by
  intro i j hij hj
  simp only [List.length_append,beBytes_length] at hj
  rw [readIndexEntry_append _ _ i (by omega)]
  by_cases hlt : j<data.length/8
  · rw [readIndexEntry_append _ _ j (by omega)]
    exact h i j hij hlt
  · have hj8 : j=data.length/8 := by omega
    obtain ⟨pre,b,post,hrow,he⟩ := hs i (by omega)
    rw [hj8,readIndexEntry_new data _ _ hd hr hp,he]
    have hb := hch.bounds.2 b (by simp [hrow])
    have hcount := hch.counted b (by simp [hrow])
    have hlong := List.length_pos_iff.mpr (hne b (by simp [hrow]))
    have hlen : bs.flatten.length=pre.flatten.length+(b.length+post.flatten.length) := by simp [hrow]
    unfold lastOffset at hb
    simp only
    omega

theorem completeRun_row {crc : Crc32c} {log : Bytes} (hc : ∀b∈row,CompleteBatch crc b)
    (hh : log.take row.flatten.length=row.flatten) : ∃more,completeRun crc log=row++more := by
  obtain ⟨gs,t,stop,hs⟩ := Framing.splits_exists (F := logFraming crc) (log.drop row.flatten.length)
  have ha := hs.append row (fun b hb => (frame_iff_complete crc b).mpr (hc b hb))
  have hwhole := List.take_append_drop row.flatten.length log
  rw [hh] at hwhole
  rw [hwhole] at ha
  exact ⟨gs,ha.decode_eq⟩

theorem RowFilled.ne_nil {crc : Crc32c} {f : LogFile}
    (h : RowFilled crc base f idx row hi) : ∀b∈row,b≠[] := by
  rintro b hb rfl
  have := (h.complete [] hb).long
  simp at this

theorem RowFilled.valid {crc : Crc32c} {f : LogFile}
    (h : RowFilled crc base f idx row hi) (hi : IndexIncreasing idx) : IndexValid crc base f.data idx := by
  obtain ⟨more,hrun⟩ := completeRun_row h.complete h.held
  have hle := h.chained.bounds.1
  have hlow := h.low
  have hhigh := h.high
  refine ⟨by rw [hrun]; exact h.index.extend more,hi,fun start hs hu => ?_⟩
  obtain ⟨j,hj,hbelow⟩ := searchIndexBytes_boundary idx base _ start row h.index h.chained ⟨hlow,by omega⟩
    ⟨by omega,hu⟩
  have htake : (completeRun crc f.data).take (min j row.length)=row.take j := by
    rw [hrun,List.take_append_of_le_length (Nat.min_le_right _ _)]
    exact List.take_eq_take_min.symm
  exact ⟨min j row.length,by rw [htake]; exact hj,by rw [htake]; exact hbelow hs⟩

def RolledSound (crc : Crc32c) (d : Dir) (n : SegmentName) (f : LogFile) : Prop :=
  ∃base e row hi,n.parse=some (base,e) ∧ RowFilled crc base f (d.indexData n) row hi ∧
    IndexIncreasing (d.indexData n) ∧ row.flatten.length≤f.synced

structure SegmentSound (crc : Crc32c) (s : SegmentStore) : Prop where
  named : ∃e,s.active.info.name.parse=some (s.active.info.baseOffset,e)
  row : ∃row,RowFilled crc s.active.info.baseOffset ((s.dir.logs.lookup s.active.info.name).getD {})
    s.index row s.next ∧ row.flatten.length=s.active.logSize
  increasing : IndexIncreasing s.index
  cursor : s.active.indexPos%8=0 ∧ s.active.indexPos≤ s.index.length
  present : s.active.logOpen=true → s.active.info.name∈s.dir.logs
  rolled : ∀n f,n≠s.active.info.name → s.dir.logs.lookup n=some f → RolledSound crc s.dir n f
  checkpoint : s.dir.checkpoint=.absent

theorem logData_getD (d : Dir) (n : SegmentName) : d.logData n=((d.logs.lookup n).getD {}).data := by
  unfold Dir.logData
  cases d.logs.lookup n <;> rfl

theorem SegmentSound.valid {crc : Crc32c} {s : SegmentStore} (h : SegmentSound crc s)
    (n : SegmentName) (base e : Int) (hn : n∈s.dir.logs) (hp : n.parse=some (base,e)) :
    IndexValid crc base (s.dir.logData n) (s.dir.indexData n) := by
  rw [logData_getD]
  by_cases hact : n=s.active.info.name
  · obtain ⟨e',hp'⟩ := h.named
    rw [hact,hp'] at hp
    obtain ⟨rfl,_⟩ := Prod.mk.inj (Option.some.inj hp)
    obtain ⟨row,hr,_⟩ := h.row
    rw [hact]
    exact hr.valid h.increasing
  · obtain ⟨f,hf⟩ := Dir.lookup_of_mem hn
    obtain ⟨b,e',row,hi,hp',hr,hinc,_⟩ := h.rolled n f hact hf
    rw [hp'] at hp
    obtain ⟨rfl,_⟩ := Prod.mk.inj (Option.some.inj hp)
    rw [hf]
    exact hr.valid hinc

section Steps

variable {crc : Crc32c} {s : SegmentStore}

theorem firstSegment_sound (crc : Crc32c) (epoch : Int) (h : 0≤base ∧ base<2^63) :
    SegmentSound crc (firstSegment base epoch) := by
  have hidx : (firstSegment base epoch).index=[] := by
    rw [SegmentStore.index]
    exact (indexData_created {} _ _).trans (if_pos rfl)
  have hlook (n : SegmentName) : (firstSegment base epoch).dir.logs.lookup n=
      if n=segmentName base epoch then some {} else none := ActiveSegment.created_lookup {} _ n
  refine ⟨⟨_,segmentName_parse epoch ⟨by omega,h.2⟩⟩,⟨[],?_,rfl⟩,?_,?_,fun _ => ?_,?_,rfl⟩
  · rw [hidx,hlook,show (firstSegment base epoch).active.info.name=segmentName base epoch from rfl,if_pos rfl]
    exact ⟨rfl,by simp,Chained.nil _,fun i hi => by simp at hi,h.1,h.2⟩
  · rw [hidx]
    intro i j _ hj
    simp at hj
  · rw [hidx]
    exact ⟨rfl,le_refl _⟩
  · exact (ActiveSegment.mem_created _ _ _).mpr (Or.inl rfl)
  · intro n f hn hf
    have hn' : n≠segmentName base epoch := hn
    rw [hlook,if_neg hn'] at hf
    cases hf

theorem segmentSound_write (h : SegmentSound crc s) (ho : s.active.logOpen=true) (buf : Bytes) :
    SegmentSound crc
      {s with dir := s.dir.onLog s.active.info.name (fun f => f.writeAt buf s.active.logSize)} := by
  obtain ⟨hidx,_,_,_,hcp⟩ := s.dir.onLog_rest s.active.info.name (fun f => f.writeAt buf s.active.logSize)
  have hdata (n : SegmentName) :
      (s.dir.onLog s.active.info.name (fun f => f.writeAt buf s.active.logSize)).indexData n=
        s.dir.indexData n := by rw [Dir.indexData,hidx]; rfl
  obtain ⟨f,hf⟩ := Dir.lookup_of_mem (h.present ho)
  obtain ⟨row,hr,hsize⟩ := h.row
  rw [hf] at hr
  refine ⟨h.named,⟨row,?_,hsize⟩,?_,?_,fun _ => (s.dir.mem_onLog _ _ _).mpr (h.present ho),?_,
    hcp.trans h.checkpoint⟩
  · rw [SegmentStore.index,hdata,Dir.onLog_lookup,if_pos rfl,hf]
    refine hr.congr (LogFile.writeAt_take _ buf _ _ ?_ (le_of_eq hsize))
    rw [← hsize]
    exact hr.length_le
  · rw [SegmentStore.index,hdata]
    exact h.increasing
  · rw [SegmentStore.index,hdata]
    exact h.cursor
  · intro n g hn hg
    rw [Dir.onLog_lookup,if_neg hn] at hg
    rw [RolledSound,hdata]
    exact h.rolled n g hn hg

theorem segmentSound_index (h : SegmentSound crc s) {raw : Bytes} {interval : Nat}
    {a : ActiveSegment}
    (hr : RowFilled crc s.active.info.baseOffset ((s.dir.logs.lookup s.active.info.name).getD {})
      s.index row s.next)
    (hsize : row.flatten.length=s.active.logSize) (hb : baseOffset raw=s.next)
    (hfree : interval≤ subU64 s.active.logSize s.active.lastIndexedLogPos →
      s.index.length≤ s.active.indexPos+8)
    (write : s.active.appendBatch env s.dir raw interval=(d,.ok a)) :
    IndexSound (d.indexData s.active.info.name) s.active.info.baseOffset (row++[raw]) ∧
    IndexIncreasing (d.indexData s.active.info.name) ∧
    a.indexPos%8=0 ∧ a.indexPos≤(d.indexData s.active.info.name).length := by
  obtain ⟨hcur,hlen⟩ := h.cursor
  rcases appendBatch_entry write hr.chained ⟨hr.low,hr.high⟩ hsize hb hlen hfree with
    ⟨hd,ha⟩|⟨hd,ha,h1,h2,h3⟩
  · rw [hd,ha]
    exact ⟨hr.index.extend _,h.increasing,hcur,hlen⟩
  · change d.indexData s.active.info.name=s.index.take s.active.indexPos++_ at hd
    have hcut : s.index.take s.active.indexPos <+: s.index := List.take_prefix _ _
    have htake : (s.index.take s.active.indexPos).length=s.active.indexPos := by
      rw [List.length_take]
      omega
    have hsound := (hr.index.cut hcut).concat raw (by omega) (by rw [hb]; omega) h3
    rw [hb] at hsound
    rw [hd]
    refine ⟨hsound,(h.increasing.cut hcut).concat (hr.index.cut hcut) hr.chained hr.ne_nil
      (by omega) ⟨h1,h2⟩ h3,
      by omega,?_⟩
    simp only [List.length_append,beBytes_length]
    omega

theorem segmentSound_append (h : SegmentSound crc s) {batch : Bytes} {interval : Nat}
    (hok : SegmentOk crc s (.append env batch interval)) : SegmentSound crc (s.append env batch interval) := by
  obtain ⟨hs,hu,hfree⟩ := hok
  unfold SegmentStore.append
  rcases hw : s.active.appendBatch env s.dir (rewriteBase batch s.next) interval with ⟨d,e|a⟩
  · rcases ActiveSegment.appendBatch_error _ _ _ _ _ _ _ hw with rfl|⟨ho,buf,rfl⟩
    · exact h
    · exact segmentSound_write h ho buf
  · obtain ⟨row,hr,hsize⟩ := h.row
    have hlow := hr.low
    have hle := hr.chained.bounds.1
    have hcount := hs.2
    unfold recordCount at hu
    have hdelta := rewriteBase_lastOffsetDelta batch s.next
    have hbase := rewriteBase_assigned batch s.next (by omega) hr.high
    have hnext : wrapI64 (s.next+lastOffsetDelta batch+1)=s.next+recordCount (rewriteBase batch s.next) := by
      rw [wrapI64_of_range _ (by omega) (by omega),recordCount,hdelta]
      omega
    have hwrote := ActiveSegment.appendBatch_wrote _ _ _ _ _ _ _ hw
    obtain ⟨f,hf⟩ := Dir.lookup_of_mem (h.present hwrote.opened)
    obtain ⟨hsound,hinc,hcur⟩ := segmentSound_index h hr hsize hbase hfree hw
    have hlook (n : SegmentName) : d.logs.lookup n=if n=s.active.info.name then
        some (f.writeAt (rewriteBase batch s.next) s.active.logSize) else s.dir.logs.lookup n := by
      rw [hwrote.logs,Dir.onLog_lookup,hf]
      rfl
    rw [hf] at hr
    refine ⟨?_,⟨row++[rewriteBase batch s.next],?_,?_⟩,?_,?_,fun _ => ?_,?_,?_⟩
    · simp only [hwrote.named,hwrote.based]
      exact h.named
    · simp only [SegmentStore.index,hwrote.named,hwrote.based,hlook,if_true,hnext,Option.getD_some,← hsize]
      exact hr.concat _ (rewriteBase_complete _ hs.1) hbase (by rw [hdelta]; exact hcount)
        (by rw [recordCount,hdelta]; omega) hsound
    · simp [hwrote.logSize,hsize]
    · simp only [SegmentStore.index,hwrote.named]
      exact hinc
    · simp only [SegmentStore.index,hwrote.named]
      exact hcur
    · simp only [hwrote.named]
      exact AList.lookup_isSome.mp (by rw [hlook,if_pos rfl]; rfl)
    · intro n g hn hg
      simp only [hwrote.named] at hn hg
      rw [hlook,if_neg hn] at hg
      rw [RolledSound,(appendBatch_index hw).1 n hn]
      exact h.rolled n g hn hg
    · exact hwrote.rest.checkpoint.trans h.checkpoint

theorem segmentSound_dropped (h : SegmentSound crc s) (hi : d.indexes=s.dir.indexes)
    (hcp : d.checkpoint=s.dir.checkpoint)
    (hrow : ∀row,RowFilled crc s.active.info.baseOffset ((s.dir.logs.lookup s.active.info.name).getD {})
        s.index row s.next →
      RowFilled crc s.active.info.baseOffset ((d.logs.lookup s.active.info.name).getD {}) s.index row s.next)
    (hothers : ∀n g,n≠s.active.info.name → d.logs.lookup n=some g → s.dir.logs.lookup n=some g) :
    SegmentSound crc {s with dir := d,active := s.active.closeHandles} := by
  have hdata (n : SegmentName) : d.indexData n=s.dir.indexData n := by rw [Dir.indexData,hi]; rfl
  obtain ⟨row,hr,hsize⟩ := h.row
  refine ⟨h.named,⟨row,?_,hsize⟩,?_,?_,?_,fun n g hn hg => ?_,hcp.trans h.checkpoint⟩
  · simp only [SegmentStore.index,ActiveSegment.closeHandles,hdata]
    exact hrow row hr
  · simp only [SegmentStore.index,ActiveSegment.closeHandles,hdata]
    exact h.increasing
  · simp only [SegmentStore.index,ActiveSegment.closeHandles,hdata]
    exact h.cursor
  · rintro ⟨⟩
  · rw [RolledSound,hdata]
    exact h.rolled n g hn (hothers n g hn hg)

theorem rolledSound_synced (h : SegmentSound crc s) (ho : s.active.logOpen=true) {n : SegmentName} {g : LogFile}
    (hg : (s.active.syncedDir s.dir).logs.lookup n=some g) :
      RolledSound crc (s.active.syncedDir s.dir) n g := by
  obtain ⟨row,hr,_⟩ := h.row
  obtain ⟨f,hf⟩ := Dir.lookup_of_mem (h.present ho)
  obtain ⟨e,hparse⟩ := h.named
  have hdata : (s.active.syncedDir s.dir).indexData n=s.dir.indexData n := by
    rw [Dir.indexData,s.active.syncedDir_indexes]
    rfl
  rw [hf] at hr
  rw [RolledSound,hdata]
  rw [ActiveSegment.syncedDir_lookup] at hg
  by_cases hn : n=s.active.info.name
  · rw [if_pos ⟨ho,hn⟩,hn,hf] at hg
    cases hg
    rw [hn]
    exact ⟨_,e,row,_,hparse,hr.congr rfl,h.increasing,hr.length_le⟩
  · rw [if_neg (fun hc => hn hc.2)] at hg
    exact h.rolled n g hn hg

theorem SegmentSound.next_range (h : SegmentSound crc s) : 0≤ s.next ∧ s.next<2^63 := by
  obtain ⟨row,hr,_⟩ := h.row
  have := hr.low
  have := hr.chained.bounds.1
  exact ⟨by omega,hr.high⟩

theorem segmentSound_created (h : SegmentSound crc s) (ho : s.active.logOpen=true) (epoch : Int) :
    SegmentSound crc {s with
      dir := ActiveSegment.created (s.active.syncedDir s.dir) (segmentName s.next epoch)
      active := ActiveSegment.fresh s.next epoch} := by
  obtain ⟨hlow,hhigh⟩ := h.next_range
  have hidx (n : SegmentName) := indexData_created (s.active.syncedDir s.dir) (segmentName s.next epoch) n
  have hlook := ActiveSegment.created_lookup (s.active.syncedDir s.dir) (segmentName s.next epoch)
  have hempty : (ActiveSegment.created (s.active.syncedDir s.dir) (segmentName s.next epoch)).indexData
      (segmentName s.next epoch)=[] := (hidx _).trans (if_pos rfl)
  refine ⟨⟨_,segmentName_parse epoch ⟨by omega,hhigh⟩⟩,⟨[],?_,rfl⟩,?_,?_,fun _ => ?_,?_,?_⟩
  · simp only [SegmentStore.index,ActiveSegment.fresh,hempty,hlook,if_true,Option.getD_some]
    exact ⟨rfl,by simp,Chained.nil _,fun i hi => by simp at hi,hlow,hhigh⟩
  · simp only [SegmentStore.index,ActiveSegment.fresh,hempty]
    intro i j _ hj
    simp at hj
  · simp [SegmentStore.index,ActiveSegment.fresh]
  · exact (ActiveSegment.mem_created _ _ _).mpr (Or.inl rfl)
  · intro n g hn hg
    have hn' : n≠segmentName s.next epoch := hn
    rw [hlook,if_neg hn'] at hg
    rw [RolledSound,hidx,if_neg hn']
    exact rolledSound_synced h ho hg
  · exact (s.active.syncedDir_segmentsOnly s.dir).checkpoint.trans h.checkpoint

theorem segmentSound_unrolled (h : SegmentSound crc s) (ho : s.active.logOpen=true) {epoch : Int}
    (hd : d=s.dir ∨ d=s.active.syncedDir s.dir ∨
      d=(s.active.syncedDir s.dir).eraseLog (segmentName s.next epoch)) :
    SegmentSound crc {s with dir := d,active := s.active.closeHandles} := by
  obtain ⟨f,hf⟩ := Dir.lookup_of_mem (h.present ho)
  have hsyncedRow (row : List Bytes) (hr : RowFilled crc s.active.info.baseOffset
      ((s.dir.logs.lookup s.active.info.name).getD {}) s.index row s.next) :
      RowFilled crc s.active.info.baseOffset
        (((s.active.syncedDir s.dir).logs.lookup s.active.info.name).getD {}) s.index row s.next := by
    rw [ActiveSegment.syncedDir_lookup,if_pos ⟨ho,rfl⟩,hf]
    rw [hf] at hr
    exact hr.congr rfl
  have hsame (n : SegmentName) (g : LogFile) (hn : n≠s.active.info.name)
      (hg : (s.active.syncedDir s.dir).logs.lookup n=some g) : s.dir.logs.lookup n=some g := by
    rwa [ActiveSegment.syncedDir_lookup,if_neg (fun hc => hn hc.2)] at hg
  have hrest := s.active.syncedDir_segmentsOnly s.dir
  rcases hd with rfl|rfl|rfl
  · exact segmentSound_dropped h rfl rfl (fun _ hr => hr) (fun _ _ _ hg => hg)
  · exact segmentSound_dropped h (s.active.syncedDir_indexes s.dir) hrest.checkpoint hsyncedRow hsame
  · refine segmentSound_dropped h (s.active.syncedDir_indexes s.dir) hrest.checkpoint ?_ ?_
    · intro row hr
      by_cases hn : s.active.info.name=segmentName s.next epoch
      · -- only an empty segment rolls to its own name
        obtain ⟨e,hparse⟩ := h.named
        obtain ⟨hlow,hhigh⟩ := h.next_range
        have hb : s.active.info.baseOffset=s.next := segmentName_base ⟨by omega,hhigh⟩ hn hparse
        have hnil : row=[] := by
          by_contra hne
          have := hr.chained.lt_of_ne_nil hne
          omega
        subst hnil
        exact ⟨by simp,by simp,hr.chained,hr.index,hr.low,hr.high⟩
      · rw [Dir.eraseLog_lookup_ne _ _ _ hn]
        exact hsyncedRow row hr
    · intro n g hn hg
      by_cases he : n=segmentName s.next epoch
      · have hm := Dir.mem_of_lookup hg
        rw [Dir.mem_eraseLog] at hm
        exact absurd he hm.1
      · rw [Dir.eraseLog_lookup_ne _ _ _ he] at hg
        exact hsame n g hn hg

theorem segmentSound_roll (h : SegmentSound crc s) {epoch : Int}
    (hok : SegmentOk crc s (.roll env epoch)) : SegmentSound crc (s.roll env epoch) := by
  unfold SegmentStore.roll
  rcases ActiveSegment.rollFast_cases env s.active s.dir s.next epoch with hc|⟨d,e,hc,hd⟩
  · rw [hc]
    exact segmentSound_created h hok epoch
  · rw [hc]
    exact segmentSound_unrolled h hok hd

theorem openHandles_spec (a : ActiveSegment) (d : Dir) (h : (a.logOpen && a.indexOpen)=false) :
    (∀n,(a.openHandles d).1.logs.lookup n=
      if n=a.info.name then some ((d.logs.lookup n).getD {}) else d.logs.lookup n) ∧
    (∀n,(a.openHandles d).1.indexData n=d.indexData n) ∧ (a.openHandles d).1.checkpoint=d.checkpoint ∧
    (a.openHandles d).2={a with
      logOpen := true
      indexOpen := true
      indexPos := 0
      logSize := (d.logData a.info.name).length
      info := {a.info with size := (d.logData a.info.name).length}
      lastIndexedLogPos := (d.indexData a.info.name).length/8*4096} := by
  rw [ActiveSegment.openHandles,if_neg (by rw [h]; decide)]
  refine ⟨fun n => ?_,fun n => ?_,rfl,rfl⟩
  · split_ifs with hn
    · rw [hn]
      exact AList.lookup_insert _
    · exact AList.lookup_insert_ne hn
  · by_cases hn : n=a.info.name
    · rw [hn]
      simp [Dir.indexData]
    · simp [Dir.indexData,AList.lookup_insert_ne hn]

theorem segmentSound_reopen (h : SegmentSound crc s) (hok : SegmentOk crc s .reopen) :
    SegmentSound crc s.reopen := by
  obtain ⟨hlook,hidx,hcp,ha⟩ := openHandles_spec s.active.closeHandles s.dir rfl
  obtain ⟨row,hr,hsize⟩ := h.row
  have hlen : (s.dir.logData s.active.info.name).length=s.active.logSize := hok
  unfold SegmentStore.reopen
  generalize s.active.closeHandles.openHandles s.dir=o at hlook hidx hcp ha
  obtain ⟨d,a⟩ := o
  dsimp only at hlook hidx hcp ha ⊢
  have hname : a.info.name=s.active.info.name := by rw [ha]; rfl
  have hbase : a.info.baseOffset=s.active.info.baseOffset := by rw [ha]; rfl
  have hfile : d.logs.lookup s.active.info.name=some ((s.dir.logs.lookup s.active.info.name).getD {}) :=
    (hlook _).trans (if_pos rfl)
  have hindex : (SegmentStore.mk d a s.next).index=s.index := by
    rw [SegmentStore.index,hname,hidx]
    rfl
  refine ⟨?_,⟨row,?_,?_⟩,?_,?_,fun _ => ?_,fun n g hn hg => ?_,hcp.trans h.checkpoint⟩
  · rw [hname,hbase]
    exact h.named
  · rw [hindex,hname,hbase,hfile]
    exact hr
  · rw [hsize,← hlen,ha]
    rfl
  · rw [hindex]
    exact h.increasing
  · rw [ha]
    exact ⟨rfl,Nat.zero_le _⟩
  · rw [hname]
    exact AList.lookup_isSome.mp (by rw [hfile]; rfl)
  · rw [hname] at hn
    rw [RolledSound,hidx]
    have hsame : d.logs.lookup n=s.dir.logs.lookup n := (hlook n).trans (if_neg hn)
    exact h.rolled n g hn (hsame.symm.trans hg)

/-- What the recovery of a segment finds in a directory without a checkpoint. -/
structure Recovered (crc : Crc32c) (d : Dir) (info : SegmentMeta) (t : SegmentStore) : Prop where
  named : t.active.info.name=info.name
  based : t.active.info.baseOffset=info.baseOffset
  file : t.dir.logs.lookup info.name=some (repairedFile crc ((d.logs.lookup info.name).getD {}))
  others : ∀n,n≠info.name → t.dir.logs.lookup n=d.logs.lookup n
  indexes : ∀n,t.dir.indexData n=d.indexData n
  checkpoint : t.dir.checkpoint=.absent
  cursor : t.active.indexPos=0
  marked : t.active.lastIndexedLogPos=(d.indexData info.name).length/8*4096
  logSize : t.active.logSize=(repairedFile crc ((d.logs.lookup info.name).getD {})).data.length
  next : t.next=endOffset info.baseOffset (completeRun crc (d.logData info.name))

theorem recover_recovered (crc : Crc32c) (info : SegmentMeta) (hcp : d.checkpoint=.absent) :
    Recovered crc d info (.recover crc d info) := by
  obtain ⟨hlook,hidx,hck,ha⟩ := openHandles_spec (ActiveSegment.openMetaOnly info) d rfl
  unfold SegmentStore.recover
  generalize (ActiveSegment.openMetaOnly info).openHandles d=o at hlook hidx hck ha
  obtain ⟨d1,a⟩ := o
  dsimp only at hlook hidx hck ha ⊢
  have hname : a.info.name=info.name := by rw [ha]; rfl
  have hbase : a.info.baseOffset=info.baseOffset := by rw [ha]; rfl
  have hpos : a.indexPos=0 := by rw [ha]
  have hmark : a.lastIndexedLogPos=(d.indexData info.name).length/8*4096 := by rw [ha]; rfl
  have hl : d1.logs.lookup a.info.name=some ((d.logs.lookup info.name).getD {}) := by
    rw [hname]
    exact (hlook _).trans (if_pos rfl)
  have hne (n : SegmentName) (hn : n≠info.name) : d1.logs.lookup n=d.logs.lookup n :=
    (hlook n).trans (if_neg hn)
  have hsize : a.logSize=((d.logs.lookup info.name).getD {}).data.length := by
    rw [ha]
    exact congrArg List.length (logData_getD d info.name)
  have hstart : recoveryStart d1 a=(0,a.info.baseOffset) := by rw [recoveryStart,hck,hcp]
  obtain ⟨hnext,_,hkeep,hcut⟩ := repairTail_spec hl hsize (by
    rw [hstart]
    exact boundary_zero crc _ _)
  rw [hbase,← logData_getD] at hnext
  by_cases ht : (tornTail crc ((d.logs.lookup info.name).getD {}).data).length<12
  · rw [hkeep ht]
    refine ⟨hname,hbase,?_,hne,hidx,hck.trans hcp,hpos,hmark,?_,hnext⟩
    · rw [repairedFile,if_pos ht,← hl,hname]
    · rw [repairedFile,if_pos ht]
      exact hsize
  · rw [hcut (by omega)]
    obtain ⟨r1,_,_,_,r5⟩ := d1.onLog_rest a.info.name (fun g =>
      g.truncate (completeRun crc ((d.logs.lookup info.name).getD {}).data).flatten.length)
    have hlen := congrArg List.length (log_eq_run crc ((d.logs.lookup info.name).getD {}).data)
    rw [List.length_append] at hlen
    refine ⟨hname,hbase,?_,?_,?_,r5.trans (hck.trans hcp),hpos,hmark,?_,hnext⟩
    · rw [Dir.onLog_lookup,if_pos hname.symm,hl,repairedFile,if_neg ht]
      rfl
    · intro n hn
      rw [Dir.onLog_lookup,if_neg (by rw [hname]; exact hn)]
      exact hne n hn
    · intro n
      rw [← hidx n,Dir.indexData,r1]
      rfl
    · rw [repairedFile,if_neg ht]
      simp only [LogFile.truncate,List.length_take]
      omega

theorem IndexSound.left {idx' : Bytes} {left found : List Bytes} (h : IndexSound idx base row)
    (hp : idx' <+: idx) (hleft : left <+: row) (hfound : left <+: found)
    (hc : ∀i< idx'.length/8,(readIndexEntry idx' i).2<left.flatten.length) : IndexSound idx' base found := by
  intro i hi
  obtain ⟨pre,b,post,hrow,he⟩ := h.cut hp i hi
  have hlt := hc i hi
  rw [he] at hlt
  obtain ⟨lost,hlost⟩ := hleft
  obtain ⟨more,hmore⟩ := hfound
  rw [hrow] at hlost
  rcases List.append_eq_append_iff.mp hlost with ⟨c,hpre,_⟩|⟨c,hkept,hc⟩
  · rw [hpre] at hlt
    simp at hlt
  · cases c with
    | nil =>
      rw [hkept] at hlt
      simp at hlt
    | cons b' c =>
      obtain ⟨rfl,_⟩ := List.cons_eq_cons.mp hc
      exact ⟨pre,b,c++more,by rw [← hmore,hkept]; simp,he⟩

theorem segmentSound_crash (h : SegmentSound crc s) {image : Dir} (left : s.dir.CrashImage image)
    (hok : SegmentOk crc s (.crash image)) : SegmentSound crc (.recover crc image s.active.info) := by
  have hrec := recover_recovered crc s.active.info (left.checkpoint.trans h.checkpoint)
  generalize SegmentStore.recover crc image s.active.info=t at hrec
  obtain ⟨hwhole,hchained,hwritten,hcovered⟩ := hok
  obtain ⟨row,hr,hsize⟩ := h.row
  obtain ⟨e,hparse⟩ := h.named
  have hcut := left.indexes s.active.info.name
  have hdata := repairedFile_data
    (by rw [← logData_getD]; exact hwhole)
  rw [← logData_getD] at hdata
  have hrow : completeRun crc (s.log.take s.active.logSize)=row := by
    have hheld := hr.held
    rw [hsize,← logData_getD] at hheld
    rw [SegmentStore.log,hheld]
    exact (completeRun_flatten crc row hr.complete).1
  have hfound : completeRun crc ((image.logData s.active.info.name).take s.active.logSize) <+:
      completeRun crc (image.logData s.active.info.name) := by
    obtain ⟨more,hmore⟩ := completeRun_row
      (completeRun_complete crc ((image.logData s.active.info.name).take s.active.logSize)) (by
        have hl := log_eq_run crc ((image.logData s.active.info.name).take s.active.logSize)
        have hle := congrArg List.length hl
        rw [List.length_append,List.length_take] at hle
        have ht := congrArg (List.take
          (completeRun crc ((image.logData s.active.info.name).take s.active.logSize)).flatten.length) hl
        rw [List.take_left,List.take_take,Nat.min_eq_left (by omega)] at ht
        exact ht)
    exact ⟨more,hmore.symm⟩
  rw [hrow] at hwritten
  have hidx : t.index=image.indexData s.active.info.name := by
    rw [SegmentStore.index,hrec.named,hrec.indexes]
  refine ⟨⟨e,by rw [hrec.named,hrec.based]; exact hparse⟩,
    ⟨completeRun crc (image.logData s.active.info.name),?_,?_⟩,?_,?_,fun _ => ?_,?_,hrec.checkpoint⟩
  · rw [hrec.based,hrec.named,hrec.file,hrec.next,hidx]
    refine ⟨?_,completeRun_complete crc _,hchained,hr.index.left hcut hwritten hfound hcovered,
      hr.low,(endOffset_range (parse_range hparse) _).2⟩
    rw [Option.getD_some,hdata,List.take_length]
  · rw [hrec.logSize,hdata]
  · rw [hidx]
    exact h.increasing.cut hcut
  · rw [hrec.cursor]
    exact ⟨rfl,Nat.zero_le _⟩
  · rw [hrec.named]
    exact AList.lookup_isSome.mp (by rw [hrec.file]; rfl)
  · intro n g hn hg
    rw [hrec.named] at hn
    rw [hrec.others n hn] at hg
    obtain ⟨f,hf⟩ := Dir.lookup_of_mem ((left.names n).mp (Dir.mem_of_lookup hg))
    have himage := left.logs n f g hf hg
    obtain ⟨base,e',row',hi,hp,hr',hinc,hsync⟩ := h.rolled n f hn hf
    have hcutn := left.indexes n
    refine ⟨base,e',row',hi,hp,?_,?_,?_⟩
    · rw [hrec.indexes]
      have hcongr := hr'.congr (himage.take_eq _ hsync)
      exact ⟨hcongr.held,hcongr.complete,hcongr.chained,hcongr.index.cut hcutn,hcongr.low,hcongr.high⟩
    · rw [hrec.indexes]
      exact hinc.cut hcutn
    · have hlong := himage.long
      have hlen := hr'.length_le
      rw [himage.durable]
      omega

theorem segmentSound_step {t : SegmentStore} {op : SegmentOp} (h : SegmentSound crc s)
    (hok : SegmentOk crc s op)
    (hs : SegmentStep crc s op t) : SegmentSound crc t := by
  cases hs with
  | append env batch interval => exact segmentSound_append h hok
  | roll env epoch => exact segmentSound_roll h hok
  | reopen => exact segmentSound_reopen h hok
  | crash left => exact segmentSound_crash h left hok

end Steps

/-- In every run of a segment the index of every segment written is valid for its log. -/
theorem segment_index_valid (crc : Crc32c) (base epoch : Int) (hb : 0≤base ∧ base<2^63) (s : SegmentStore)
    (run : Reaches (SegmentStep crc) (SegmentOk crc) (firstSegment base epoch) s) (n : SegmentName)
    (b e : Int) (hn : n∈s.dir.logs) (hp : n.parse=some (b,e)) :
    IndexValid crc b (s.dir.logData n) (s.dir.indexData n) := by
  have h := run.invariant (firstSegment_sound crc epoch hb)
    (fun _ _ _ h hok hs => segmentSound_step h hok hs)
  exact h.valid n b e hn hp

theorem reopened_index_valid :
    ∃s,runChecked SegmentStore.exec (SegmentOk castagnoli) [.append {} plainBatch 1,
        .append {} plainBatch 1,.reopen,.append {} plainBatch 1] (firstSegment 0 0)=some s ∧
      s.dir.CrashImage (s.dir.cutTo (segmentName 0 0) 183) ∧
      IndexValid castagnoli 0
        ((SegmentStore.recover castagnoli (s.dir.cutTo (segmentName 0 0) 183) s.active.info).dir.logData
          (segmentName 0 0))
        ((SegmentStore.recover castagnoli (s.dir.cutTo (segmentName 0 0) 183) s.active.info).dir.indexData
          (segmentName 0 0)) := by
  refine runChecked_outcome (p := fun s => s.dir.logs.keys=[segmentName 0 0] ∧
    (s.dir.logs.lookup (segmentName 0 0)).map LogFile.synced=some 0 ∧
    SegmentOk castagnoli s (.crash (s.dir.cutTo (segmentName 0 0) 183)) ∧
    segmentName 0 0∈(SegmentStore.recover castagnoli (s.dir.cutTo (segmentName 0 0) 183)
      s.active.info).dir.logs)
    (SegmentStore.exec_step castagnoli) (by decide +kernel) fun s hreach ⟨hkeys,hsynced,hok,hmem⟩ => ?_
  have himage : s.dir.CrashImage (s.dir.cutTo (segmentName 0 0) 183) :=
    crashImage_cutTo hkeys hsynced (Nat.zero_le _)
  exact ⟨himage,segment_index_valid castagnoli 0 0 (by decide) _ (.next _ hreach hok (.crash himage))
    _ 0 0 hmem (by decide)⟩

/-- A crash loses two of three unsynced batches and none of the index: the entry at byte 122
outlives the batch it was made for, and a read at offset 2 starts in the middle of the batch that
holds it. -/
theorem stale_index_hides_batch :
    WellFormed castagnoli plainBatch ∧ WellFormed castagnoli wideBatch ∧
    ∃s,Reaches (SegmentStep castagnoli) (fun _ _ => True) (firstSegment 0 0) s ∧
      segmentName 0 0∈s.dir.logs ∧
      readBatches (s.dir.logData (segmentName 0 0)) 0 2 1000=rewriteBase wideBatch 1 ∧
      readBatches (s.dir.logData (segmentName 0 0))
        (searchIndexBytes (s.dir.indexData (segmentName 0 0)) 0 2) 2 1000=[] ∧
      ¬IndexValid castagnoli 0 (s.dir.logData (segmentName 0 0)) (s.dir.indexData (segmentName 0 0)) := by
  let recovered : SegmentStore → SegmentStore := fun s =>
    .recover castagnoli (s.dir.cutTo (segmentName 0 0) 61) s.active.info
  obtain ⟨s,hs,t,ht,hkeys,hsynced,hmem,hfront,hindexed,hlen,hentry,hlog⟩ :
      ∃s∈runAll SegmentStore.exec [.append {} plainBatch 1,.append {} plainBatch 1,
      .append {} plainBatch 1] (firstSegment 0 0),
      ∃t∈runAll SegmentStore.exec [.append {} wideBatch 1] (recovered s),s.dir.logs.keys=[segmentName 0 0] ∧
        (s.dir.logs.lookup (segmentName 0 0)).map LogFile.synced=some 0 ∧ segmentName 0 0∈t.dir.logs ∧
        readBatches (t.dir.logData (segmentName 0 0)) 0 2 1000=rewriteBase wideBatch 1 ∧
        readBatches (t.dir.logData (segmentName 0 0))
          (searchIndexBytes (t.dir.indexData (segmentName 0 0)) 0 2) 2 1000=[] ∧
        (t.dir.indexData (segmentName 0 0)).length=16 ∧
          readIndexEntry (t.dir.indexData (segmentName 0 0)) 1=(2,122) ∧
        completeRun castagnoli (t.dir.logData (segmentName 0 0))=
          [rewriteBase plainBatch 0,rewriteBase wideBatch 1] := by decide +kernel
  have himage : s.dir.CrashImage (s.dir.cutTo (segmentName 0 0) 61) :=
    crashImage_cutTo hkeys hsynced (Nat.zero_le _)
  have hreach := runAll_reaches (SegmentStore.exec_step castagnoli) _ (fun _ _ _ => trivial) _ _ s .start hs
  refine ⟨by decide +kernel,by decide +kernel,t,
    runAll_reaches (SegmentStore.exec_step castagnoli) _ (fun _ _ _ => trivial) _ (recovered s) t
      (.next _ hreach trivial (.crash himage)) ht,hmem,hfront,hindexed,fun hv => ?_⟩
  obtain ⟨pre,b,post,hrow,he⟩ := hv.points 1 (by rw [hlen]; decide)
  rw [hlog] at hrow
  rw [hentry] at he
  -- the batches of the log start at bytes 0 and 61
  rcases List.cons_eq_append_iff.mp hrow with ⟨rfl,_⟩|⟨pre,rfl,htail⟩
  · exact absurd (Prod.mk.inj he).2 (by decide)
  · rcases List.append_eq_singleton_iff.mp htail.symm with ⟨rfl,_⟩|⟨_,h⟩
    · exact absurd (Prod.mk.inj he).2 (by decide +kernel)
    · cases h

end Kaas
