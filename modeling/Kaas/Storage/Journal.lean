import Kaas.Storage.ReadSpec
import Kaas.Storage.Repair

namespace Kaas

/-- A log file and its index hold a row of batches from `base` to `hi`; other bytes may follow
it. -/
structure RowFilled (crc : Crc32c) (base : Int) (f : LogFile) (idx : Bytes) (row : List Bytes)
    (hi : Int) : Prop where
  held : f.data.take row.flatten.length=row.flatten
  complete : ∀b∈row,CompleteBatch crc b
  chained : Chained base row hi
  index : IndexSound idx base row
  low : 0≤base
  high : hi<2^63

variable {hi base : Int} {idx batch : Bytes} {row : List Bytes} {d d' : Dir} {env : IoEnv}
  {a : ActiveSegment} {interval : Nat}

theorem RowFilled.length_le {crc : Crc32c} {f : LogFile}
    (h : RowFilled crc base f idx row hi) : row.flatten.length≤f.data.length := by
  have hl := congrArg List.length h.held
  rw [List.length_take] at hl
  omega

theorem RowFilled.congr {crc : Crc32c} {f g : LogFile} (h : RowFilled crc base f idx row hi)
    (hg : g.data.take row.flatten.length=f.data.take row.flatten.length) :
    RowFilled crc base g idx row hi :=
  ⟨hg.trans h.held,h.complete,h.chained,h.index,h.low,h.high⟩

/-- A directory whose every log holds a row of its own, the rows apart from each other. -/
structure Journal (crc : Crc32c) (d : Dir) (rows : SegmentName → List Bytes)
    (ends : SegmentName → Int) : Prop where
  filled : ∀n f,d.logs.lookup n=some f →
    ∃base e,n.parse=some (base,e) ∧ RowFilled crc base f (d.indexData n) (rows n) (ends n)
  apart : ∀n∈d.logs,∀n'∈d.logs,∀b e b' e',n.parse=some (b,e) → n'.parse=some (b',e') →
    b<b' → ends n≤b'
  distinct : ∀n∈d.logs,∀n'∈d.logs,∀b e e',n.parse=some (b,e) → n'.parse=some (b,e') → n=n'

/-- The active segment of a journal: its row ends where the accounted log ends, its index where
the index cursor stands, and the rows of the other segments are synced. -/
structure JournalActive (s : Store) (rows : SegmentName → List Bytes) (ends : SegmentName → Int) : Prop where
  opened : s.active.logOpen=true
  size : (rows s.active.info.name).flatten.length=s.active.logSize
  ends : ends s.active.info.name=s.highWater
  cursor : (s.dir.indexData s.active.info.name).length=s.active.indexPos ∧ s.active.indexPos%8=0
  synced : ∀n f,n≠s.active.info.name → s.dir.logs.lookup n=some f → (rows n).flatten.length≤f.synced

theorem Journal.congr {crc : Crc32c} {rows : SegmentName → List Bytes} {ends : SegmentName → Int}
    (h : Journal crc d rows ends) (hm : ∀n,n∈d'.logs ↔ n∈d.logs) (hi : ∀n,d'.indexData n=d.indexData n)
    (hf : ∀n f f',d.logs.lookup n=some f → d'.logs.lookup n=some f' →
      f'.data.take (rows n).flatten.length=f.data.take (rows n).flatten.length) :
    Journal crc d' rows ends where
  filled := by
    intro n f' hl'
    obtain ⟨f,hl⟩ := Dir.lookup_of_mem ((hm n).mp (Dir.mem_of_lookup hl'))
    obtain ⟨base,e,hp,hr⟩ := h.filled n f hl
    exact ⟨base,e,hp,by rw [hi]; exact hr.congr (hf n f f' hl hl')⟩
  apart := fun n hn n' hn' => h.apart n ((hm n).mp hn) n' ((hm n').mp hn')
  distinct := fun n hn n' hn' => h.distinct n ((hm n).mp hn) n' ((hm n').mp hn')

section Steps

variable {crc : Crc32c} {s : Store} {f : LogFile} {fs : List Bytes}
  {rows : SegmentName → List Bytes} {ends : SegmentName → Int}

theorem Journal.ends_le (h : Journal crc s.dir rows ends) (ht : Tracks crc s f fs)
    (ha : JournalActive s rows ends) (n : SegmentName) (hn : n∈s.dir.logs) : ends n≤ s.highWater := by
  obtain ⟨htop,e,hp,hall⟩ := ht.top
  obtain ⟨g,hg⟩ := Dir.lookup_of_mem hn
  obtain ⟨b,e',hp',hr⟩ := h.filled n g hg
  obtain ⟨b0,e0,hp0,hr0⟩ := h.filled _ f ht.file
  rw [hp] at hp0
  obtain ⟨rfl,_⟩ := Prod.mk.inj (Option.some.inj hp0)
  have hbounds := hr0.chained.bounds.1
  rw [ha.ends] at hbounds
  rcases hall n hn b e' hp' with hlt|⟨rfl,_⟩
  · have := h.apart n hn _ htop b e' _ e hp' hp hlt
    omega
  · rw [h.distinct n hn _ htop _ e' e hp' hp,ha.ends]

theorem Journal.nonneg (h : Journal crc s.dir rows ends) (ht : Tracks crc s f fs)
    (ha : JournalActive s rows ends) : 0≤ s.highWater := by
  obtain ⟨b,e,_,hr⟩ := h.filled _ f ht.file
  have := hr.chained.bounds.1
  have := hr.low
  rw [ha.ends] at *
  omega

theorem indexData_created (d : Dir) (m n : SegmentName) :
    (ActiveSegment.created d m).indexData n=if n=m then [] else d.indexData n := by
  unfold Dir.indexData ActiveSegment.created
  split_ifs with h
  · rw [h,AList.lookup_insert]; rfl
  · rw [AList.lookup_insert_ne h]

theorem journal_syncedDir (h : Journal crc s.dir rows ends) :
    Journal crc (s.active.syncedDir s.dir) rows ends := by
  refine h.congr (s.active.mem_syncedDir s.dir) (fun n => ?_) (fun n g g' hg hg' => ?_)
  · rw [Dir.indexData,s.active.syncedDir_indexes]; rfl
  · rw [ActiveSegment.syncedDir_lookup,hg] at hg'
    split_ifs at hg'
    · cases hg'; rfl
    · cases hg'; rfl

theorem Journal.created (h : Journal crc d rows ends) (b epoch : Int) (hr : 0≤b ∧ b<2^63)
    (hbelow : ∀n∈d.logs,∀b' e,n.parse=some (b',e) → b'<b) (hends : ∀n∈d.logs,ends n≤b) :
    Journal crc (ActiveSegment.created d (segmentName b epoch))
      (Function.update rows (segmentName b epoch) []) (Function.update ends (segmentName b epoch) b) := by
  have hr' : -2^63≤b ∧ b<2^63 := ⟨by omega,hr.2⟩
  refine ⟨?_,apart_created epoch hr' hends (fun n hn b' e hp => (hbelow n hn b' e hp).le) h.apart,
    fun n hn n' hn' b1 e1 e2 hp1 hp2 => ?_⟩
  · refine Dir.filled_update (P := fun n f row hi => ∃base e,n.parse=some (base,e) ∧
      RowFilled crc base f ((ActiveSegment.created d (segmentName b epoch)).indexData n) row hi)
      (ActiveSegment.created_lookup d _) ⟨b,_,segmentName_parse epoch hr',?_⟩ (fun n f hn hf => ?_)
    · rw [indexData_created,if_pos rfl]
      exact ⟨by simp,by simp,Chained.nil _,fun i hi => by simp at hi,hr.1,hr.2⟩
    · rw [indexData_created,if_neg hn]
      exact h.filled n f hf
  · by_cases h1 : n=segmentName b epoch
    · by_cases h2 : n'=segmentName b epoch
      · rw [h1,h2]
      · have heq := segmentName_base hr' h1 hp1
        have := hbelow n' (mem_of_created hn' h2) _ _ hp2
        omega
    · by_cases h2 : n'=segmentName b epoch
      · have heq := segmentName_base hr' h2 hp2
        have := hbelow n (mem_of_created hn h1) _ _ hp1
        omega
      · exact h.distinct n (mem_of_created hn h1) n' (mem_of_created hn' h2) b1 e1 e2 hp1 hp2

theorem journal_rolled (h : Journal crc s.dir rows ends) (ht : Tracks crc s f fs)
    (ha : JournalActive s rows ends) (hp : 0<s.active.logSize) :
    Journal crc (rolled s).dir (Function.update rows (segmentName s.highWater s.epoch) [])
      (Function.update ends (segmentName s.highWater s.epoch) s.highWater) ∧
    JournalActive (rolled s) (Function.update rows (segmentName s.highWater s.epoch) [])
      (Function.update ends (segmentName s.highWater s.epoch) s.highWater) := by
  have hlt := ht.above (ht.ne_nil hp)
  have hmem := s.active.mem_syncedDir s.dir
  refine ⟨(journal_syncedDir h).created s.highWater s.epoch ⟨h.nonneg ht ha,
    ht.ranged.2⟩ (fun n hn b e hpn => ?_)
    (fun n hn => h.ends_le ht ha n ((hmem n).mp hn)),rfl,?_,?_,?_,?_⟩
  · obtain ⟨_,_,_,hall⟩ := ht.top
    have := hall n ((hmem n).mp hn) b e hpn
    omega
  · change (Function.update rows _ [] (segmentName s.highWater s.epoch)).flatten.length=0
    rw [Function.update_self]
    rfl
  · exact Function.update_self _ _ _
  · change ((ActiveSegment.created _ _).indexData (segmentName s.highWater s.epoch)).length=0 ∧ 0%8=0
    rw [indexData_created,if_pos rfl]
    exact ⟨rfl,rfl⟩
  · intro n g hn hg
    change n≠segmentName s.highWater s.epoch at hn
    change (ActiveSegment.created _ _).logs.lookup n=some g at hg
    rw [ActiveSegment.created_lookup,if_neg hn,ActiveSegment.syncedDir_lookup] at hg
    rw [Function.update_of_ne hn]
    by_cases hact : n=s.active.info.name
    · rw [if_pos ⟨ha.opened,hact⟩,hact,ht.file] at hg
      cases hg
      obtain ⟨b,e,_,hr⟩ := h.filled _ f ht.file
      rw [hact]
      exact hr.length_le
    · rw [if_neg (fun hc => hact hc.2)] at hg
      exact ha.synced n g hact hg

theorem journal_write (h : Journal crc s.dir rows ends) (ht : Tracks crc s f fs)
    (ha : JournalActive s rows ends) (buf : Bytes) :
    Journal crc (s.dir.onLog s.active.info.name (fun f => f.writeAt buf s.active.logSize)) rows ends ∧
    JournalActive {s with
      dir := s.dir.onLog s.active.info.name (fun f => f.writeAt buf s.active.logSize)} rows ends := by
  have hidx := (s.dir.onLog_rest s.active.info.name (fun f => f.writeAt buf s.active.logSize)).1
  refine ⟨h.congr (s.dir.mem_onLog _ _) (fun n => by rw [Dir.indexData,hidx]; rfl)
    (fun n g g' hg hg' => ?_),ha.opened,ha.size,ha.ends,?_,fun n g hn hg => ?_⟩
  · rw [Dir.onLog_lookup] at hg'
    split_ifs at hg' with hn
    · subst hn
      rw [ht.file] at hg
      cases hg
      rw [ht.file] at hg'
      cases hg'
      exact LogFile.writeAt_take f buf _ _ ht.sized (le_of_eq ha.size)
    · rw [hg] at hg'
      cases hg'
      rfl
  · change (Dir.indexData _ s.active.info.name).length=_ ∧ _
    rw [Dir.indexData,hidx]
    exact ha.cursor
  · change (s.dir.onLog _ _).logs.lookup n=some g at hg
    rw [Dir.onLog_lookup,if_neg hn] at hg
    exact ha.synced n g hn hg

theorem IndexSound.extend {data : Bytes} {bs : List Bytes} (h : IndexSound data base bs)
    (more : List Bytes) : IndexSound data base (bs++more) := by
  intro i hi
  obtain ⟨pre,b,post,rfl,he⟩ := h i hi
  exact ⟨pre,b,post++more,by simp,he⟩

theorem readIndexEntry_append (data more : Bytes) (i : Nat) (h : i*8+8≤data.length) :
    readIndexEntry (data++more) i=readIndexEntry data i := by
  unfold readIndexEntry i32At
  rw [slice_append_left _ _ (by omega),slice_append_left _ _ (by omega)]

theorem readIndexEntry_new (data : Bytes) (rel : Int) (pos : Nat) (hd : data.length%8=0)
    (hr : 0≤ rel ∧ rel<2^31) (hp : pos<2^32) :
    readIndexEntry (data++(beBytes 4 (rel%2^32).toNat++beBytes 4 pos)) (data.length/8)=(rel,pos) := by
  have hpos : data.length/8*8=data.length := by omega
  have h1 : slice (data++(beBytes 4 (rel%2^32).toNat++beBytes 4 pos)) data.length (data.length+4)=
      beBytes 4 (rel%2^32).toNat :=
    slice_field _ _ _ _ _ rfl (by rw [beBytes_length])
  have h2 : slice (data++(beBytes 4 (rel%2^32).toNat++beBytes 4 pos)) (data.length+4)
      (data.length+8)= beBytes 4 pos := by
    have h := slice_field (data++beBytes 4 (rel%2^32).toNat) (beBytes 4 pos) [] (data.length+4)
      (data.length+8) (by rw [List.length_append,beBytes_length]) (by rw [beBytes_length])
    rwa [List.append_nil,List.append_assoc] at h
  unfold readIndexEntry i32At
  rw [hpos,h1,h2,beNat_beBytes,beNat_beBytes]
  have hrel : (rel%2^32).toNat%256^4=rel.toNat := by omega
  have hpos' : pos%256^4=pos := Nat.mod_eq_of_lt (by omega)
  rw [hrel,hpos',toSigned,if_pos (by omega)]
  congr 1
  omega

theorem IndexSound.concat {data : Bytes} {bs : List Bytes} (h : IndexSound data base bs)
    (b : Bytes) (hd : data.length%8=0) (hr : 0≤baseOffset b-base ∧ baseOffset b-base<2^31)
    (hp : bs.flatten.length<2^32) :
    IndexSound (data++(beBytes 4 ((baseOffset b-base)%2^32).toNat++beBytes 4 bs.flatten.length)) base
      (bs++[b]) := by
  intro i hi
  by_cases hlt : i<data.length/8
  · rw [readIndexEntry_append _ _ _ (by omega)]
    exact h.extend [b] i hlt
  · have hi8 : i=data.length/8 := by
      simp only [List.length_append,beBytes_length] at hi
      omega
    rw [hi8,readIndexEntry_new data _ _ hd hr hp]
    exact ⟨bs,b,[],rfl,rfl⟩

theorem RowFilled.concat {idx' : Bytes}
    (h : RowFilled crc base f idx row hi) (b : Bytes) (hc : CompleteBatch crc b) (hb : baseOffset b=hi)
    (hd : 0≤lastOffsetDelta b) (hu : hi+recordCount b<2^63) (hidx : IndexSound idx' base (row++[b])) :
    RowFilled crc base (f.writeAt b row.flatten.length) idx' (row++[b]) (hi+recordCount b) where
  held := by
    have hl : (row++[b]).flatten.length=row.flatten.length+b.length := by simp
    rw [hl,LogFile.writeAt_take_end f _ _ h.length_le,h.held]
    simp
  complete := by
    intro x hx
    rcases List.mem_append.mp hx with hx|hx
    · exact h.complete x hx
    · rw [List.mem_singleton.mp hx]
      exact hc
  chained := h.chained.concat b hb hd
  index := hidx
  low := h.low
  high := hu

theorem appendBatch_index {b : ActiveSegment} {raw : Bytes}
    (h : a.appendBatch env d raw interval=(d',.ok b)) :
    (∀n,n≠a.info.name → d'.indexData n=d.indexData n) ∧
    ((d'.indexData a.info.name=d.indexData a.info.name ∧ b.indexPos=a.indexPos) ∨
      ∃entry,a.indexEntry (baseOffset raw)=.ok entry ∧ b.indexPos=a.indexPos+8 ∧
        d'.indexData a.info.name=(d.indexData a.info.name).take a.indexPos++
          List.replicate (a.indexPos-(d.indexData a.info.name).length) 0++entry++
          (d.indexData a.info.name).drop (a.indexPos+entry.length)) := by
  have hidx := (d.onLog_rest a.info.name (fun f => f.writeAt raw a.logSize)).1
  have hsame (n : SegmentName) :
      (d.onLog a.info.name (fun f => f.writeAt raw a.logSize)).indexData n=d.indexData n := by
    rw [Dir.indexData,hidx]; rfl
  obtain ⟨_,_,⟨rfl,rfl⟩|⟨entry,he,rfl,rfl⟩⟩ := ActiveSegment.appendBatch_ok env a b d d' raw interval h
  · exact ⟨fun n _ => hsame n,Or.inl ⟨hsame _,rfl⟩⟩
  · refine ⟨fun n hn => ?_,Or.inr ⟨entry,he,rfl,?_⟩⟩
    · rw [Dir.indexData,ActiveSegment.writeIndex,AList.lookup_insert_ne hn]
      exact hsame n
    · rw [Dir.indexData,ActiveSegment.writeIndex,AList.lookup_insert,hsame]
      rfl

theorem appendBatch_entry {b : ActiveSegment} {raw : Bytes} (h : a.appendBatch env d raw interval=(d',.ok b))
    (hch : Chained a.info.baseOffset row hi) (hr : 0≤ a.info.baseOffset ∧ hi<2^63)
    (hsize : row.flatten.length=a.logSize) (hb : baseOffset raw=hi)
    (hcur : a.indexPos≤(d.indexData a.info.name).length)
    (hfree : interval≤ subU64 a.logSize a.lastIndexedLogPos →
      (d.indexData a.info.name).length≤ a.indexPos+8) :
    (d'.indexData a.info.name=d.indexData a.info.name ∧ b.indexPos=a.indexPos) ∨
    (d'.indexData a.info.name=(d.indexData a.info.name).take a.indexPos++
        (beBytes 4 ((hi-a.info.baseOffset)%2^32).toNat++beBytes 4 row.flatten.length) ∧
      b.indexPos=a.indexPos+8 ∧ 0≤hi-a.info.baseOffset ∧ hi-a.info.baseOffset<2^31 ∧
      row.flatten.length<2^32) := by
  by_cases hdue : interval≤ subU64 a.logSize a.lastIndexedLogPos
  · rcases (appendBatch_index h).2 with hsame|⟨entry,he,hpos,hd⟩
    · exact Or.inl hsame
    · have hle := hch.bounds.1
      have hwrap : wrapI64 (hi-a.info.baseOffset)=hi-a.info.baseOffset :=
        wrapI64_of_range _ (by omega) (by omega)
      unfold ActiveSegment.indexEntry at he
      rw [hb,hwrap] at he
      split_ifs at he with hrange hfits
      cases he
      have hz : a.indexPos-(d.indexData a.info.name).length=0 := by omega
      have hend : (d.indexData a.info.name).drop (a.indexPos+8)=[] := List.drop_eq_nil_of_le (hfree hdue)
      refine Or.inr ⟨?_,hpos,by omega,hrange.2,by omega⟩
      simp only [hd,hz,hsize,List.length_append,beBytes_length,Nat.reduceAdd,hend]
      simp
  · obtain ⟨rfl,rfl⟩ := ActiveSegment.appendBatch_unindexed _ _ _ _ _ _ _ h hdue
    refine Or.inl ⟨?_,rfl⟩
    rw [Dir.indexData,(d.onLog_rest _ _).1]
    rfl

theorem rowFilled_stored (h : Journal crc s.dir rows ends) (ht : Tracks crc s f fs)
    (ha : JournalActive s rows ends)
    (hs : Storable crc batch) (hu : s.highWater+recordCount batch<2^63)
    (write : s.active.appendBatch env s.dir (rewriteBase batch s.highWater) interval=(d,.ok a)) :
    RowFilled crc s.active.info.baseOffset (f.writeAt (rewriteBase batch s.highWater) s.active.logSize)
      (d.indexData s.active.info.name) (rows s.active.info.name++[rewriteBase batch s.highWater])
      (s.highWater+recordCount batch) ∧
    (d.indexData s.active.info.name).length=a.indexPos ∧ a.indexPos%8=0 := by
  have h0 := h.nonneg ht ha
  have hbaseOff := rewriteBase_assigned batch s.highWater (by omega) ht.ranged.2
  have hdelta : 0≤lastOffsetDelta (rewriteBase batch s.highWater) := by
    rw [rewriteBase_lastOffsetDelta]
    exact hs.2
  have hcount := rewriteBase_recordCount batch s.highWater
  obtain ⟨_,e,hparse,_⟩ := ht.top
  obtain ⟨b0,e0,hp0,hr0⟩ := h.filled _ f ht.file
  rw [hparse] at hp0
  obtain ⟨rfl,rfl⟩ := Prod.mk.inj (Option.some.inj hp0)
  rw [ha.ends] at hr0
  have hbounds := hr0.chained.bounds.1
  obtain ⟨hc1,hc2⟩ := ha.cursor
  have hentry := appendBatch_entry write hr0.chained
    ⟨hr0.low,ht.ranged.2⟩ ha.size hbaseOff (le_of_eq hc1.symm) (fun _ => by omega)
  constructor
  · rw [← ha.size,← hcount]
    refine hr0.concat _ (rewriteBase_complete _ hs.1) hbaseOff hdelta (by rw [hcount]; exact hu) ?_
    rcases hentry with ⟨hi,_⟩|⟨hi,_,h1,h2,h3⟩
    · rw [hi]
      exact hr0.index.extend _
    · have hnew := hr0.index.concat (rewriteBase batch s.highWater) (by rw [hc1]; exact hc2)
        (by rw [hbaseOff]; exact ⟨h1,h2⟩) h3
      rw [hbaseOff] at hnew
      rw [hi,← hc1,List.take_length]
      exact hnew
  · rcases hentry with ⟨hi,hpos⟩|⟨hi,hpos,_⟩
    · rw [hi,hpos]
      exact ⟨hc1,hc2⟩
    · rw [hi,hpos,← hc1]
      exact ⟨by simp,by omega⟩

theorem journal_stored (h : Journal crc s.dir rows ends) (ht : Tracks crc s f fs)
    (ha : JournalActive s rows ends) {cfg : PartitionConfig} (accepted : Bool)
    (hs : Storable crc batch) (hu : s.highWater+recordCount batch<2^63)
    (write : s.active.appendBatch env s.dir (rewriteBase batch s.highWater) cfg.indexIntervalBytes=(d,.ok a)) :
    Journal crc d
      (Function.update rows s.active.info.name
        (rows s.active.info.name++[rewriteBase batch s.highWater]))
      (Function.update ends s.active.info.name (s.highWater+recordCount batch)) ∧
    JournalActive (advance cfg accepted batch {s with active := a,dir := d}).1
      (Function.update rows s.active.info.name
        (rows s.active.info.name++[rewriteBase batch s.highWater]))
      (Function.update ends s.active.info.name (s.highWater+recordCount batch)) := by
  have hw := ActiveSegment.appendBatch_wrote _ _ _ _ _ _ _ write
  have hother := (appendBatch_index write).1
  have hhw := advance_highWater_eq cfg accepted batch s a d ht.ranged.1 hs.2 hu
  obtain ⟨hrow,hcursor⟩ := rowFilled_stored h ht ha hs hu write
  obtain ⟨_,e,hparse,_⟩ := ht.top
  have hmem := hw.mem_logs
  have hlook := hw.lookup ht.file
  refine ⟨⟨?_,?_,?_⟩,?_⟩
  · refine Dir.filled_update (P := fun n f row hi => ∃base e,n.parse=some (base,e) ∧
      RowFilled crc base f (d.indexData n) row hi) hlook ⟨_,_,hparse,hrow⟩ (fun n g hn hg => ?_)
    rw [hother n hn]
    exact h.filled n g hg
  · exact fun n hn n' hn' => ht.top.apart _ h.apart n ((hmem n).mp hn) n' ((hmem n').mp hn')
  · exact fun n hn n' hn' => h.distinct n ((hmem n).mp hn) n' ((hmem n').mp hn')
  · refine ⟨hw.stays,?_,?_,?_,?_⟩
    · change (Function.update rows _ _ a.info.name).flatten.length=a.logSize
      rw [hw.named,Function.update_self,hw.logSize,← ha.size]
      simp
    · change Function.update ends _ _ a.info.name=_
      rw [hw.named,Function.update_self,hhw]
    · change (d.indexData a.info.name).length=a.indexPos ∧ a.indexPos%8=0
      rw [hw.named]
      exact hcursor
    · intro n g hn hg
      change n≠a.info.name at hn
      rw [hw.named] at hn
      change d.logs.lookup n=some g at hg
      rw [hlook,if_neg hn] at hg
      rw [Function.update_of_ne hn]
      exact ha.synced n g hn hg

end Steps

/-- An open partition that keeps a journal, unless a failed roll has left the placeholder. -/
structure Journaled (crc : Crc32c) (s : Store) (rows : SegmentName → List Bytes)
    (ends : SegmentName → Int) : Prop where
  journal : Journal crc s.dir rows ends
  active : (s.active.logOpen=false ∧ s.active.logSize=0) ∨ JournalActive s rows ends

/-- Over a step the rows grow at their ends, and what is synced of them stays synced. -/
structure Grows (d d' : Dir) (rows rows' : SegmentName → List Bytes) : Prop where
  grown : ∀n∈d.logs,rows n <+: rows' n
  synced : ∀n f,d.logs.lookup n=some f → ∃f',d'.logs.lookup n=some f' ∧
    ∀k≤(rows n).flatten.length,k≤f.synced → k≤f'.synced

theorem Grows.refl (d : Dir) (rows : SegmentName → List Bytes) : Grows d d rows rows :=
  ⟨fun _ _ => List.prefix_refl _,fun _ f h => ⟨f,h,fun _ _ hk => hk⟩⟩

theorem flatten_length_le {xs ys : List Bytes} (h : xs <+: ys) : xs.flatten.length≤ys.flatten.length := by
  obtain ⟨zs,rfl⟩ := h
  simp

theorem Grows.trans {d'' : Dir} {r r' r'' : SegmentName → List Bytes} (h : Grows d d' r r')
    (h' : Grows d' d'' r' r'') : Grows d d'' r r'' where
  grown := by
    intro n hn
    obtain ⟨f,hf⟩ := Dir.lookup_of_mem hn
    obtain ⟨f',hf',_⟩ := h.synced n f hf
    exact (h.grown n hn).trans (h'.grown n (Dir.mem_of_lookup hf'))
  synced := by
    intro n f hf
    obtain ⟨f',hf',h1⟩ := h.synced n f hf
    obtain ⟨f'',hf'',h2⟩ := h'.synced n f' hf'
    refine ⟨f'',hf'',fun k hk hs => h2 k ?_ (h1 k hk hs)⟩
    exact le_trans hk (flatten_length_le (h.grown n (Dir.mem_of_lookup hf)))

theorem grows_onLog {rows : SegmentName → List Bytes} {n : SegmentName} (g : LogFile → LogFile)
    (hg : ∀f,d.logs.lookup n=some f → ∀k≤(rows n).flatten.length,k≤f.synced → k≤(g f).synced) :
    Grows d (d.onLog n g) rows rows := by
  refine ⟨fun _ _ => List.prefix_refl _,fun m f hf => ?_⟩
  rw [Dir.onLog_lookup]
  split_ifs with hm
  · subst hm
    exact ⟨g f,by rw [hf]; rfl,hg f hf⟩
  · exact ⟨f,hf,fun _ _ hk => hk⟩

theorem grows_write {s : Store} {rows : SegmentName → List Bytes} {ends : SegmentName → Int}
    (ha : JournalActive s rows ends) (buf : Bytes) :
    Grows s.dir (s.dir.onLog s.active.info.name (fun f => f.writeAt buf s.active.logSize)) rows rows := by
  refine grows_onLog _ (fun g _ k hk hsync => ?_)
  rw [ha.size] at hk
  simp only [LogFile.writeAt]
  omega

def Covered (d : Dir) (rows : SegmentName → List Bytes) (b : Bytes) : Prop :=
  ∃n f pre post,d.logs.lookup n=some f ∧ rows n=pre++b::post ∧ (pre++[b]).flatten.length≤f.synced

theorem Covered.grow {rows rows' : SegmentName → List Bytes} {b : Bytes} (h : Covered d rows b)
    (hg : Grows d d' rows rows') : Covered d' rows' b := by
  obtain ⟨n,f,pre,post,hf,hrow,hs⟩ := h
  obtain ⟨f',hf',hk⟩ := hg.synced n f hf
  obtain ⟨more,hmore⟩ := hg.grown n (Dir.mem_of_lookup hf)
  refine ⟨n,f',pre,post++more,hf',by rw [← hmore,hrow]; simp,hk _ ?_ hs⟩
  rw [hrow]
  simp

section Runs

variable {crc : Crc32c} {s s1 s' : Store} {rows : SegmentName → List Bytes}
  {ends : SegmentName → Int} {cps : RecoveryCheckpoint → Prop}

theorem JournalActive.tracks (ha : JournalActive s rows ends) (h : StoreSound crc s cps) :
    ∃f fs,Tracks crc s f fs := by
  rcases h.active with ⟨hc,_⟩|⟨f,fs,ht,_⟩
  · rw [ha.opened] at hc
    cases hc
  · exact ⟨f,fs,ht⟩

theorem grows_syncedDir (a : ActiveSegment) (d : Dir) (rows : SegmentName → List Bytes)
    (hlen : ∀f,d.logs.lookup a.info.name=some f → (rows a.info.name).flatten.length≤f.data.length) :
    Grows d (a.syncedDir d) rows rows := by
  unfold ActiveSegment.syncedDir
  split_ifs
  · exact grows_onLog _ (fun f hf k hk _ => le_trans hk (hlen f hf))
  · exact .refl d rows

theorem Journal.length_le (h : Journal crc s.dir rows ends) (n : SegmentName) (f : LogFile)
    (hf : s.dir.logs.lookup n=some f) : (rows n).flatten.length≤f.data.length := by
  obtain ⟨_,_,_,hr⟩ := h.filled n f hf
  exact hr.length_le

theorem journaled_rollIfDue (h : Journaled crc s rows ends) (hs : StoreSound crc s cps)
    {cfg : PartitionConfig} {r : Except StorageError Unit}
    (roll : rollIfDue cfg env batch s=(s1,r)) :
    ∃rows' ends',Journaled crc s1 rows' ends' ∧ Grows s.dir s1.dir rows rows' ∧
      (s1.closed≠s.closed → ∀n f,s.dir.logs.lookup n=some f → ∀b∈rows n,Covered s1.dir rows' b) := by
  rcases rollIfDue_cases cfg env batch s with hr|⟨hp,hr⟩|⟨hp,d,e,hr,hd⟩
  · obtain ⟨rfl,_⟩ := Prod.mk.inj (hr.symm.trans roll)
    exact ⟨rows,ends,h,.refl _ _,fun hne => absurd rfl hne⟩
  all_goals
    obtain ⟨rfl,_⟩ := Prod.mk.inj (hr.symm.trans roll)
    have ha := h.active.resolve_left (fun hc => by omega)
    obtain ⟨f,fs,ht⟩ := ha.tracks hs
    have hsync := grows_syncedDir s.active s.dir rows (fun g hg => h.journal.length_le _ g hg)
    have hfresh := not_mem_above (ht.top.congr (s.active.mem_syncedDir s.dir))
      s.epoch (ht.above (ht.ne_nil hp)) ht.ranged
    have hne (n : SegmentName) (hn : n∈(s.active.syncedDir s.dir).logs) :
        n≠segmentName s.highWater s.epoch := fun he => hfresh (he ▸ hn)
  · obtain ⟨hj,hja⟩ := journal_rolled h.journal ht ha hp
    have hgrow : Grows (s.active.syncedDir s.dir) (rolled s).dir rows
        (Function.update rows (segmentName s.highWater s.epoch) []) := by
      refine ⟨fun n hn => ?_,fun n g hg => ⟨g,?_,fun _ _ hk => hk⟩⟩
      · exact ⟨[],by rw [Function.update_of_ne (hne n hn),List.append_nil]⟩
      · change (ActiveSegment.created _ _).logs.lookup n=some g
        rw [ActiveSegment.created_lookup,if_neg (hne n (Dir.mem_of_lookup hg))]
        exact hg
    refine ⟨_,_,⟨hj,Or.inr hja⟩,hsync.trans hgrow,fun _ n g hg b hb => ?_⟩
    have hn := hne n ((s.active.mem_syncedDir s.dir n).mpr (Dir.mem_of_lookup hg))
    obtain ⟨g',hg',_⟩ := (hsync.trans hgrow).synced n g hg
    obtain ⟨pre,post,hrow⟩ := List.append_of_mem hb
    have hall := hja.synced n g' hn hg'
    rw [Function.update_of_ne hn,hrow] at hall
    refine ⟨n,g',pre,post,hg',by rw [Function.update_of_ne hn,hrow],le_trans ?_ hall⟩
    simp
  · refine ⟨rows,ends,?_,?_,fun hne => absurd rfl hne⟩
    · refine ⟨?_,Or.inl ⟨rfl,rfl⟩⟩
      rcases hd with rfl|rfl|rfl
      · exact h.journal
      · exact journal_syncedDir h.journal
      · refine (journal_syncedDir h.journal).congr (fun n => ?_) (fun n => rfl) (fun n g g' hg hg' => ?_)
        · rw [Dir.mem_eraseLog]
          exact ⟨fun hn => hn.2,fun hn => ⟨hne n hn,hn⟩⟩
        · rw [Dir.eraseLog_lookup_ne _ _ _ (hne n (Dir.mem_of_lookup hg)),hg] at hg'
          cases hg'
          rfl
    · rcases hd with rfl|rfl|rfl
      · exact .refl _ _
      · exact hsync
      · refine hsync.trans ⟨fun _ _ => List.prefix_refl _,fun n g hg => ⟨g,?_,fun _ _ hk => hk⟩⟩
        rw [Dir.eraseLog_lookup_ne _ _ _ (hne n (Dir.mem_of_lookup hg))]
        exact hg

theorem journaled_append (h : Journaled crc s rows ends) (hs : StoreSound crc s cps)
    {c : AppendCall} {r : Except StorageError Appended}
    (hc : c.Keepable crc s) (call : appendLocked c.cfg c.env c.epoch c.batch s=some (s',r)) :
    ∃rows' ends',Journaled crc s' rows' ends' ∧ Grows s.dir s'.dir rows rows' ∧
      (s'.closed≠s.closed → ∀n f,s.dir.logs.lookup n=some f → ∀b∈rows n,Covered s'.dir rows' b) ∧
      ∀assigned seq triggered,r=.ok (.stored assigned seq triggered) →
        baseOffset (rewriteBase c.batch assigned)=assigned ∧
          ∃n∈s'.dir.logs,rewriteBase c.batch assigned∈rows' n := by
  cases appendLocked_step call with
  | refused e _ | known base _ => exact ⟨rows,ends,h,.refl _ _,fun hne => absurd rfl hne,by rintro _ _ _ ⟨⟩⟩
  | rollFailed accepted s1 e _ roll =>
    obtain ⟨rows',ends',hj,hg,hcov⟩ := journaled_rollIfDue h hs roll
    exact ⟨rows',ends',hj,hg,hcov,by rintro _ _ _ ⟨⟩⟩
  | failed accepted s1 d e _ roll _ hd =>
    obtain ⟨rows',ends',hj,hg,hcov⟩ := journaled_rollIfDue h hs roll
    have hs1 := storeSound_rollIfDue hs roll
    rcases hd with rfl|⟨hopen,buf,rfl⟩
    · exact ⟨rows',ends',hj,hg,hcov,by rintro _ _ _ ⟨⟩⟩
    · have ha := hj.active.resolve_left (fun hc => by rw [hopen] at hc; cases hc.1)
      obtain ⟨f,fs,ht⟩ := ha.tracks hs1
      obtain ⟨hj',ha'⟩ := journal_write hj.journal ht ha buf
      have hg' := grows_write ha buf
      exact ⟨rows',ends',⟨hj',Or.inr ha'⟩,hg.trans hg',
        fun hne n g hl b hb => (hcov hne n g hl b hb).grow hg',by rintro _ _ _ ⟨⟩⟩
  | stored accepted s1 d a admitted roll long write =>
    obtain ⟨rows',ends',hj,hg,hcov⟩ := journaled_rollIfDue h hs roll
    have hs1 := storeSound_rollIfDue hs roll
    obtain ⟨hst,hu⟩ := hc accepted admitted
    rw [← (rollIfDue_ledger roll).highWater] at hu
    have hw := ActiveSegment.appendBatch_wrote _ _ _ _ _ _ _ write
    have ha := hj.active.resolve_left (fun hc => by rw [hw.opened] at hc; cases hc.1)
    obtain ⟨f,fs,ht⟩ := ha.tracks hs1
    obtain ⟨hj',ha'⟩ := journal_stored hj.journal ht ha accepted hst hu write
    have hg' : Grows s1.dir d rows' (Function.update rows' s1.active.info.name
        (rows' s1.active.info.name++[rewriteBase c.batch s1.highWater])) := by
      refine ⟨fun n _ => ?_,fun n g hl => ?_⟩
      · by_cases hn : n=s1.active.info.name
        · subst hn
          rw [Function.update_self]
          exact List.prefix_append _ _
        · exact ⟨[],by rw [Function.update_of_ne hn,List.append_nil]⟩
      · rw [hw.logs]
        exact (grows_write ha _).synced n g hl
    refine ⟨_,_,⟨hj',Or.inr ha'⟩,hg.trans hg',fun hne n g hl b hb => (hcov hne n g hl b hb).grow hg',?_⟩
    rintro assigned seq triggered ⟨⟩
    refine ⟨by rw [rewriteBase_baseOffset]; exact wrapI64_of_range _ ht.ranged.1 ht.ranged.2,
      s1.active.info.name,?_,by rw [Function.update_self]; simp⟩
    exact (hw.mem_logs _).mpr ht.top.1

theorem journaled_commit (h : Journaled crc s rows ends) {seq : Nat}
    {cp : Option RecoveryCheckpoint} (call : commitLocked env s=(s',.ok (seq,cp))) :
    Journaled crc s' rows ends ∧ Grows s.dir s'.dir rows rows ∧
    ∀n f,s.dir.logs.lookup n=some f → ∀b∈rows n,Covered s'.dir rows b := by
  obtain ⟨ho,_,hs,_⟩ := commitLocked_ok call
  have hdir : s'.dir=s.dir.onLog s.active.info.name LogFile.syncAll := by rw [hs]
  have hactive : s'.active=s.active := by rw [hs]
  have hhw : s'.highWater=s.highWater := by rw [hs]
  have ha := h.active.resolve_left (fun hc => by rw [ho] at hc; cases hc.1)
  have hidx (n : SegmentName) : s'.dir.indexData n=s.dir.indexData n := by
    rw [hdir,Dir.indexData,(s.dir.onLog_rest _ _).1]; rfl
  have hlook (n : SegmentName) : s'.dir.logs.lookup n=if n=s.active.info.name then
      (s.dir.logs.lookup s.active.info.name).map LogFile.syncAll else s.dir.logs.lookup n := by
    rw [hdir,Dir.onLog_lookup]
  have hgrow : Grows s.dir s'.dir rows rows := by
    rw [hdir]
    exact grows_onLog _ (fun f hf k hk _ => le_trans hk (h.journal.length_le _ f hf))
  have hj : Journal crc s'.dir rows ends := by
    refine h.journal.congr (fun n => by rw [hdir]; exact s.dir.mem_onLog _ _ n) hidx
      (fun n f f' hf hf' => ?_)
    rw [hlook] at hf'
    split_ifs at hf' with hn
    · subst hn
      rw [hf] at hf'
      cases hf'
      rfl
    · rw [hf] at hf'
      cases hf'
      rfl
  have hja : JournalActive s' rows ends := by
    refine ⟨by rw [hactive]; exact ha.opened,by rw [hactive]; exact ha.size,by rw [hactive,hhw]; exact ha.ends,
      by rw [hactive,hidx]; exact ha.cursor,fun n f hn hf => ?_⟩
    rw [hactive] at hn
    rw [hlook,if_neg hn] at hf
    exact ha.synced n f hn hf
  refine ⟨⟨hj,Or.inr hja⟩,hgrow,fun n f hf b hb => ?_⟩
  obtain ⟨f',hf',_⟩ := hgrow.synced n f hf
  obtain ⟨pre,post,hrow⟩ := List.append_of_mem hb
  have hall : (rows n).flatten.length≤f'.synced := by
    rw [hlook] at hf'
    split_ifs at hf' with hn
    · subst hn
      rw [hf] at hf'
      cases hf'
      exact h.journal.length_le _ f hf
    · exact ha.synced n f' hn hf'
  exact ⟨n,f',pre,post,hf',hrow,le_trans (by rw [hrow]; simp) hall⟩

end Runs

end Kaas
