import Kaas.Math.Budget
import Kaas.Storage.Anchor
import Kaas.Storage.Journal

namespace Kaas

/-! Reading a row of a segment that holds nothing else. -/

def Unreadable (junk : Bytes) : Prop := ∀start maxBytes n out,readLoop start maxBytes n junk out=out

theorem unreadable_nil : Unreadable [] := fun start maxBytes n out => readLoop_nil start maxBytes n out

theorem readLoop_fill (crc : Crc32c) (start : Int) (maxBytes : Nat) (bs : List Bytes) (junk : Bytes)
    (hjunk : Unreadable junk)
    (hc : ∀b∈bs,CompleteBatch crc b ∧ -2^63≤lastOffset b ∧ lastOffset b<2^63) (n : Nat)
    (hn : bs.length<n) (out : Bytes) :
    readLoop start maxBytes n (bs.flatten++junk) out=fill maxBytes (wanted start bs) out := by
  induction bs generalizing n out with
  | nil =>
    rw [List.flatten_nil,List.nil_append,hjunk]
    rfl
  | cons b bs ih =>
    obtain ⟨m,rfl⟩ : ∃m,n=m+1 := ⟨n-1,by omega⟩
    have hm : bs.length< m := by simpa using hn
    obtain ⟨hb,hrest⟩ := List.forall_mem_cons.mp hc
    rw [readLoop_cons start maxBytes m hb]
    by_cases hmax : out.length< maxBytes
    · rw [if_pos hmax]
      by_cases hr : reaches start b=true
      · rw [if_pos hr,wanted,List.filter_cons_of_pos hr,fill,if_pos hmax]
        exact ih hrest m hm _
      · rw [if_neg hr,wanted,List.filter_cons_of_neg hr]
        exact ih hrest m hm _
    · rw [if_neg hmax,fill_full _ (by omega)]

theorem wanted_append (start : Int) (as bs : List Bytes) :
    wanted start (as++bs)=wanted start as++wanted start bs := List.filter_append ..

variable {hi start : Int} {d : Dir} {m : SegmentMeta} {row : List Bytes} {segments : List (SegmentMeta × Int)}

theorem wanted_nil_of_below {bs : List Bytes} (h : ∀b∈bs,lastOffset b< start) :
    wanted start bs=[] := by
  refine List.filter_eq_nil_iff.mpr (fun b hb => ?_)
  have := h b hb
  simp only [reaches,decide_eq_true_eq]
  omega

theorem readSegment_from {crc : Crc32c} {junk : Bytes}
    (h : SegmentReadable crc d m row [] junk hi) (hjunk : Unreadable junk) (maxBytes : Nat) {j : Nat}
    (hj : searchIndexBytes (d.indexData m.name) m.baseOffset start=(row.take j).flatten.length) :
    readSegment d m start maxBytes=fill maxBytes (wanted start (row.drop j)) [] := by
  obtain ⟨n,hn,hread⟩ := readSegment_loop h.data h.complete hj maxBytes
  rw [hread]
  exact readLoop_fill crc start maxBytes _ junk hjunk (fun b hb => h.within b (List.mem_of_mem_drop hb)) n hn []

theorem searchIndexBytes_near {crc : Crc32c}
    (h : SegmentReadable crc d m row [] [] hi) (hs : 0≤ start ∧ start<2^63)
    (near : m.baseOffset-start≤2^31) :
    ∃j,searchIndexBytes (d.indexData m.name) m.baseOffset start=(row.take j).flatten.length ∧
      ∀b∈row.take j,lastOffset b< start := by
  have hch := h.chained
  have hidx := h.index
  rw [List.append_nil] at hch hidx
  have hle := hch.bounds
  have hlow := h.low
  have hhigh := h.high
  by_cases hb : m.baseOffset≤ start
  · obtain ⟨j,hj,hbelow⟩ := searchIndexBytes_boundary _ _ _ start _ hidx hch ⟨hlow,by omega⟩ hs
    exact ⟨j,hj,hbelow hb⟩
  · have hwrap : wrapI64 (start-m.baseOffset)=start-m.baseOffset := wrapI64_of_range _ (by omega) (by omega)
    refine ⟨0,?_,by simp⟩
    unfold searchIndexBytes
    rw [hwrap]
    split_ifs
    · rfl
    · rfl
    · omega
    · omega

theorem readSegment_fill {crc : Crc32c}
    (h : SegmentReadable crc d m row [] [] hi) (maxBytes : Nat) (hs : 0≤ start ∧ start<2^63)
    (near : m.baseOffset-start≤2^31) :
    readSegment d m start maxBytes=fill maxBytes (wanted start row) [] := by
  obtain ⟨j,hj,hbelow⟩ := searchIndexBytes_near h hs near
  have hwanted : wanted start row=wanted start (row.drop j) := by
    conv_lhs => rw [← List.take_append_drop j row]
    rw [wanted_append,wanted_nil_of_below hbelow,List.nil_append]
  rw [hwanted]
  exact readSegment_from h unreadable_nil maxBytes hj

theorem readClosed_want (want : SegmentMeta → List Bytes) (maxBytes : Nat)
    (hskip : ∀p∈segments,p.2≤ start → want p.1=[])
    (hread : ∀p∈segments,∀n,readSegment d p.1 start n=fill n (want p.1) []) (out : Bytes) :
    readClosed d start maxBytes segments out=fill maxBytes (segments.flatMap (fun p => want p.1)) out := by
  induction segments generalizing out with
  | nil => rfl
  | cons p segments ih =>
    have hrest := ih (fun q hq => hskip q (List.mem_cons_of_mem _ hq))
      (fun q hq => hread q (List.mem_cons_of_mem _ hq))
    rw [List.flatMap_cons,fill_append]
    by_cases hfull : maxBytes≤out.length
    · rw [readClosed_full _ _ _ hfull,fill_full _ hfull,fill_full _ hfull]
    · simp only [readClosed,if_neg hfull]
      by_cases hup : p.2≤ start
      · rw [if_pos hup,hskip p (List.mem_cons_self ..) hup]
        exact hrest out
      · have hbehind := fill_behind maxBytes (want p.1) out [] (by omega)
        rw [List.append_nil] at hbehind
        rw [if_neg hup,hread p (List.mem_cons_self ..),hbehind]
        exact hrest _

theorem flatMap_zip_upperBounds (closed : List SegmentMeta) (activeBase : Int)
    (row : SegmentMeta → List Bytes) :
    (closed.zip (upperBounds closed activeBase)).flatMap (fun p => row p.1)=closed.flatMap row := by
  conv_rhs => rw [← map_fst_upperBounds closed activeBase]
  rw [List.flatMap_map]

theorem mem_zip_upperBounds {closed : List SegmentMeta} (activeBase : Int) {c : SegmentMeta}
    (h : c∈closed) : ∃up,(c,up)∈closed.zip (upperBounds closed activeBase) := by
  rw [← map_fst_upperBounds closed activeBase] at h
  obtain ⟨⟨c',up⟩,hp,rfl⟩ := List.mem_map.mp h
  exact ⟨up,hp⟩

theorem wanted_flatMap (start : Int) (row : SegmentMeta → List Bytes) (cs : List SegmentMeta) :
    cs.flatMap (fun c => wanted start (row c))=wanted start (cs.flatMap row) := List.filter_flatMap.symm

theorem SegmentReadable.wanted_nil {crc : Crc32c}
    (h : SegmentReadable crc d m row [] [] hi) (hup : hi≤ start) : wanted start row=[] := by
  have hch := h.chained
  rw [List.append_nil] at hch
  exact wanted_nil_of_below (fun b hb => by have := (hch.bounds.2 b hb).2; omega)

theorem readSnapshot_want {snap : ReadSnapshot} (want : SegmentMeta → List Bytes) (maxBytes : Nat)
    (hskip : ∀p∈snap.closed.zip (upperBounds snap.closed snap.activeMeta.baseOffset),
      p.2≤ max start snap.logStart → want p.1=[])
    (hread : ∀c∈snap.closed++[snap.activeMeta],∀n,readSegment d c (max start snap.logStart) n=fill n
      (want c) []) :
    readSnapshot d snap start maxBytes=
      (fill maxBytes ((snap.closed++[snap.activeMeta]).flatMap want) []).take maxBytes := by
  have hclosed := readClosed_want want maxBytes hskip
    (fun p hp => hread p.1 (List.mem_append_left _ (List.of_mem_zip hp).1)) []
  rw [flatMap_zip_upperBounds _ _ want] at hclosed
  unfold readSnapshot
  dsimp only
  rw [hclosed,List.flatMap_append,List.flatMap_singleton,fill_append]
  generalize fill maxBytes (snap.closed.flatMap want) []=out
  by_cases hlt : out.length< maxBytes
  · have hbehind := fill_behind maxBytes (want snap.activeMeta) out [] (by omega)
    rw [List.append_nil] at hbehind
    rw [if_pos hlt,hbehind,hread _ (by simp)]
  · rw [if_neg hlt,fill_full _ (by omega)]

theorem readSnapshot_fill {crc : Crc32c} {snap : ReadSnapshot} (rows : SegmentName → List Bytes)
    (hc : ∀p∈snap.closed.zip (upperBounds snap.closed snap.activeMeta.baseOffset),
      SegmentReadable crc d p.1 (rows p.1.name) [] [] p.2)
    (ha : SegmentReadable crc d snap.activeMeta (rows snap.activeMeta.name) [] [] hi)
    (maxBytes : Nat) (hl : 0≤ snap.logStart) (hu : max start snap.logStart<2^63)
    (near : ∀c∈snap.closed++[snap.activeMeta],c.baseOffset-max start snap.logStart≤2^31) :
    readSnapshot d snap start maxBytes=(fill maxBytes (wanted (max start snap.logStart)
      ((snap.closed++[snap.activeMeta]).flatMap (fun c => rows c.name))) []).take maxBytes := by
  have hs : 0≤ max start snap.logStart ∧ max start snap.logStart<2^63 := ⟨by omega,hu⟩
  have hread (c : SegmentMeta) (hcm : c∈snap.closed++[snap.activeMeta]) (n : Nat) :
      readSegment d c (max start snap.logStart) n=fill n
        (wanted (max start snap.logStart) (rows c.name)) [] := by
    have hnear := near c hcm
    rcases List.mem_append.mp hcm with hcm|hcm
    · obtain ⟨up,hup⟩ := mem_zip_upperBounds snap.activeMeta.baseOffset hcm
      exact readSegment_fill (hc _ hup) n hs hnear
    · rw [List.mem_singleton.mp hcm] at hnear ⊢
      exact readSegment_fill ha n hs hnear
  rw [readSnapshot_want (fun c => wanted (max start snap.logStart) (rows c.name)) maxBytes
    (fun p hp hup => SegmentReadable.wanted_nil (hc p hp) hup) hread,wanted_flatMap]

theorem SegmentReadable.congr {crc : Crc32c} {d' : Dir} {m' : SegmentMeta} {bs lost : List Bytes}
    {junk : Bytes} (h : SegmentReadable crc d m bs lost junk hi) (hb : m'.baseOffset=m.baseOffset)
    (hl : d'.logData m'.name=d.logData m.name) (hx : d'.indexData m'.name=d.indexData m.name) :
    SegmentReadable crc d' m' bs lost junk hi :=
  ⟨hl.trans h.data,h.complete,by rw [hb]; exact h.chained,by rw [hb,hx]; exact h.index,by rw [hb]; exact h.low,
    h.high⟩

/-- The segments of a partition whose files can be written: each holds its row of batches and
nothing else, one row behind the other up to the high watermark. -/
structure Filed (crc : Crc32c) (s : Store) (rows : SegmentName → List Bytes) : Prop where
  started : 0≤ s.logStart ∧ s.logStart≤ s.highWater
  named : ∀c∈s.closed++[s.active.info],∃e,c.name.parse=some (c.baseOffset,e)
  sorted : (s.closed.map SegmentMeta.baseOffset++[s.active.info.baseOffset]).Pairwise (· < ·)
  closed : ∀p∈s.closed.zip (upperBounds s.closed s.active.info.baseOffset),
    SegmentReadable crc s.dir p.1 (rows p.1.name) [] [] p.2
  active : SegmentReadable crc s.dir s.active.info (rows s.active.info.name) [] [] s.highWater
  opened : s.active.logOpen=true ∧ s.active.indexOpen=true ∧ s.active.info.name∈s.dir.logs
  sized : (rows s.active.info.name).flatten.length=s.active.logSize
  cursor : (s.dir.indexData s.active.info.name).length=s.active.indexPos ∧ s.active.indexPos%8=0

def Store.contents (s : Store) (rows : SegmentName → List Bytes) : List Bytes :=
  (s.closed++[s.active.info]).flatMap (fun c => rows c.name)

/-- An index entry that is due has room for the distance from the segment's base and for the log
position. -/
def EntryFits (cfg : PartitionConfig) (s : Store) : Prop :=
  cfg.indexIntervalBytes≤ subU64 s.active.logSize s.active.lastIndexedLogPos →
    s.highWater-s.active.info.baseOffset<2^31 ∧ s.active.logSize<2^32

instance (cfg : PartitionConfig) (s : Store) : Decidable (EntryFits cfg s) :=
  inferInstanceAs (Decidable (cfg.indexIntervalBytes≤ subU64 s.active.logSize s.active.lastIndexedLogPos →
    s.highWater-s.active.info.baseOffset<2^31 ∧ s.active.logSize<2^32))

section Filing

variable {crc : Crc32c} {s : Store} {rows : SegmentName → List Bytes}

theorem zip_upperBounds_concat (closed : List SegmentMeta) (c : SegmentMeta) (activeBase : Int) :
    (closed++[c]).zip (upperBounds (closed++[c]) activeBase)=
      closed.zip (upperBounds closed c.baseOffset)++[(c,activeBase)] := by
  induction closed with
  | nil => rfl
  | cons x closed ih =>
    rw [List.cons_append,zip_upperBounds,ih,zip_upperBounds,List.cons_append]
    cases closed <;> rfl

theorem Filed.name_ne (h : Filed crc s rows) (base epoch : Int) (hr : -2^63≤base ∧ base<2^63)
    (hlt : s.active.info.baseOffset<base) (c : SegmentMeta) (hc : c∈s.closed++[s.active.info]) :
    c.name≠segmentName base epoch := by
  intro heq
  obtain ⟨e,hp⟩ := h.named c hc
  rw [heq,segmentName_parse epoch hr] at hp
  have hb := (Prod.mk.inj (Option.some.inj hp)).1
  rcases List.mem_append.mp hc with hc|hc
  · have := (List.pairwise_append.mp h.sorted).2.2 _ (List.mem_map_of_mem hc) _ (List.mem_singleton.mpr rfl)
    omega
  · rw [List.mem_singleton.mp hc] at hb
    omega

theorem Filed.closed_ne (h : Filed crc s rows) (c : SegmentMeta) (hc : c∈s.closed) :
    c.name≠s.active.info.name := by
  intro heq
  obtain ⟨e,hp⟩ := h.named c (List.mem_append_left _ hc)
  obtain ⟨e',hp'⟩ := h.named s.active.info (by simp)
  rw [heq,hp'] at hp
  have hb := (Prod.mk.inj (Option.some.inj hp)).1
  have := (List.pairwise_append.mp h.sorted).2.2 _ (List.mem_map_of_mem hc) _ (List.mem_singleton.mpr rfl)
  omega

theorem syncedDir_logData (a : ActiveSegment) (d : Dir) (n : SegmentName) :
    (a.syncedDir d).logData n=d.logData n := by
  rw [Dir.logData,ActiveSegment.syncedDir_lookup,Dir.logData]
  split_ifs
  · cases d.logs.lookup n <;> rfl
  · rfl

theorem Filed.next_name (h : Filed crc s rows) (hp : 0<s.active.logSize) :
    s.active.info.baseOffset<s.highWater ∧
      ∀c∈s.closed++[s.active.info],c.name≠segmentName s.highWater s.epoch := by
  have hch := h.active.chained
  rw [List.append_nil] at hch
  have hlow := h.active.low
  have hne : rows s.active.info.name≠[] := by
    intro hnil
    have := h.sized
    rw [hnil] at this
    simp at this
    omega
  have hlt := hch.lt_of_ne_nil hne
  exact ⟨hlt,h.name_ne s.highWater s.epoch ⟨by omega,h.active.high⟩ hlt⟩

theorem contents_rolled (h : Filed crc s rows) (hp : 0<s.active.logSize) :
    (rolled s).contents (Function.update rows (segmentName s.highWater s.epoch) [])=s.contents rows := by
  obtain ⟨_,hname⟩ := h.next_name hp
  have hrow (c : SegmentMeta) (hc : c∈s.closed++[s.active.info]) :
      Function.update rows (segmentName s.highWater s.epoch) [] c.name=rows c.name :=
    Function.update_of_ne (hname c hc) _ _
  have hkept : s.closed.flatMap (fun c => Function.update rows (segmentName s.highWater s.epoch) [] c.name)=
      s.closed.flatMap (fun c => rows c.name) :=
    List.flatMap_congr (fun c hc => hrow c (List.mem_append_left _ hc))
  have hact : Function.update rows (segmentName s.highWater s.epoch) [] s.active.closedMeta.name=
      rows s.active.info.name := hrow s.active.info (by simp)
  have hnew : Function.update rows (segmentName s.highWater s.epoch) []
      (ActiveSegment.fresh s.highWater s.epoch).info.name=[] := Function.update_self _ _ _
  change (s.closed++[s.active.closedMeta]++[(ActiveSegment.fresh s.highWater s.epoch).info]).flatMap _=_
  simp only [Store.contents,List.flatMap_append,List.flatMap_singleton,hkept,hact,hnew,List.append_nil]

theorem filed_rolled (h : Filed crc s rows) (hp : 0<s.active.logSize) :
    Filed crc (rolled s) (Function.update rows (segmentName s.highWater s.epoch) []) ∧
    (rolled s).contents (Function.update rows (segmentName s.highWater s.epoch) [])=s.contents rows := by
  have hlow := h.active.low
  have hhigh := h.active.high
  obtain ⟨hlt,hname⟩ := h.next_name hp
  have hrow (c : SegmentMeta) (hc : c∈s.closed++[s.active.info]) :
      Function.update rows (segmentName s.highWater s.epoch) [] c.name=rows c.name :=
    Function.update_of_ne (hname c hc) _ _
  have hlog (n : SegmentName) (hn : n≠segmentName s.highWater s.epoch) :
      (rolled s).dir.logData n=s.dir.logData n := by
    change (ActiveSegment.created (s.active.syncedDir s.dir) _).logData n=_
    rw [Dir.logData,ActiveSegment.created_lookup,if_neg hn]
    exact syncedDir_logData s.active s.dir n
  have hidx (n : SegmentName) : (rolled s).dir.indexData n=
      if n=segmentName s.highWater s.epoch then [] else s.dir.indexData n := by
    refine (indexData_created (s.active.syncedDir s.dir) _ n).trans ?_
    rw [Dir.indexData,s.active.syncedDir_indexes]
    rfl
  have hold (c c' : SegmentMeta) (hi : Int) (hc : c∈s.closed++[s.active.info]) (hn : c'.name=c.name)
      (hb : c'.baseOffset=c.baseOffset) (hr : SegmentReadable crc s.dir c (rows c.name) [] [] hi) :
      SegmentReadable crc (rolled s).dir c' (rows c.name) [] [] hi :=
    hr.congr hb (by rw [hn]; exact hlog _ (hname c hc)) (by rw [hn,hidx,if_neg (hname c hc)])
  refine ⟨⟨h.started,?_,?_,?_,?_,⟨rfl,rfl,?_⟩,?_,?_⟩,contents_rolled h hp⟩
  · intro c hc
    rcases List.mem_append.mp hc with hc|hc
    · rcases List.mem_append.mp hc with hc|hc
      · exact h.named c (List.mem_append_left _ hc)
      · rw [List.mem_singleton.mp hc]
        exact h.named s.active.info (by simp)
    · rw [List.mem_singleton.mp hc]
      exact ⟨_,segmentName_parse s.epoch ⟨by omega,hhigh⟩⟩
  · have hbases : (rolled s).closed.map SegmentMeta.baseOffset=
        s.closed.map SegmentMeta.baseOffset++[s.active.info.baseOffset] := List.map_append
    change List.Pairwise (· < ·) ((rolled s).closed.map SegmentMeta.baseOffset++[s.highWater])
    rw [hbases]
    refine List.pairwise_append.mpr ⟨h.sorted,by simp,fun b hb x hx => ?_⟩
    rw [List.mem_singleton.mp hx]
    rcases List.mem_append.mp hb with hb|hb
    · have := (List.pairwise_append.mp h.sorted).2.2 b hb _ (List.mem_singleton.mpr rfl)
      omega
    · rw [List.mem_singleton.mp hb]
      exact hlt
  · change ∀p∈(s.closed++[s.active.closedMeta]).zip
      (upperBounds (s.closed++[s.active.closedMeta]) s.highWater),_
    rw [zip_upperBounds_concat]
    intro p hp
    rcases List.mem_append.mp hp with hp|hp
    · have hc : p.1∈s.closed++[s.active.info] := List.mem_append_left _ (List.of_mem_zip hp).1
      rw [hrow _ hc]
      exact hold p.1 p.1 p.2 hc rfl rfl (h.closed p hp)
    · rw [List.mem_singleton.mp hp]
      change SegmentReadable crc _ s.active.closedMeta (Function.update rows _ [] s.active.info.name) [] [] _
      rw [hrow s.active.info (by simp)]
      exact hold s.active.info s.active.closedMeta _ (by simp) rfl rfl h.active
  · change SegmentReadable crc (rolled s).dir (ActiveSegment.fresh s.highWater s.epoch).info
      (Function.update rows _ [] (segmentName s.highWater s.epoch)) [] [] s.highWater
    rw [Function.update_self]
    refine ⟨?_,by simp,Chained.nil _,fun i hi => ?_,by change 0≤ s.highWater; omega,hhigh⟩
    · exact Dir.logData_of_lookup (rolled s).dir _ {} ((ActiveSegment.created_lookup _ _ _).trans (if_pos rfl))
    · change i<((rolled s).dir.indexData (segmentName s.highWater s.epoch)).length/8 at hi
      rw [hidx,if_pos rfl] at hi
      simp at hi
  · exact (ActiveSegment.mem_created _ _ _).mpr (Or.inl rfl)
  · change (Function.update rows _ [] (segmentName s.highWater s.epoch)).flatten.length=0
    rw [Function.update_self]
    rfl
  · change ((rolled s).dir.indexData (segmentName s.highWater s.epoch)).length=0 ∧ 0%8=0
    rw [hidx,if_pos rfl]
    exact ⟨rfl,rfl⟩

theorem appendBatch_succeeds (env : IoEnv) (a : ActiveSegment) (d : Dir) (raw : Bytes) (interval : Nat)
    (hl : 43≤ raw.length) (ho : a.logOpen=true ∧ a.indexOpen=true) (henv : env.write=none ∧ env.indexWrite=true)
    (hfit : interval≤ subU64 a.logSize a.lastIndexedLogPos → ∃entry,a.indexEntry (baseOffset raw)=.ok entry) :
    ∃d' b,a.appendBatch env d raw interval=(d',.ok b) ∧ b.indexOpen=true := by
  obtain ⟨hw,hx⟩ := henv
  unfold ActiveSegment.appendBatch
  rw [parseBatchOffsets,if_neg (by omega)]
  dsimp only
  rw [if_pos ho.1,hw]
  dsimp only
  unfold ActiveSegment.appendIndex
  by_cases hdue : interval≤ subU64 a.logSize a.lastIndexedLogPos
  · obtain ⟨entry,he⟩ := hfit hdue
    rw [if_pos hdue,if_pos ho.2,he]
    dsimp only
    rw [if_pos hx]
    exact ⟨_,_,rfl,ho.2⟩
  · rw [if_neg hdue]
    exact ⟨_,_,rfl,ho.2⟩

theorem segmentReadable_stored {d' : Dir} {a b : ActiveSegment}
    (h : SegmentReadable crc d a.info row [] [] hi) (hsize : row.flatten.length=a.logSize)
    (hmem : a.info.name∈d.logs)
    (hcur : (d.indexData a.info.name).length=a.indexPos ∧ a.indexPos%8=0) {env : IoEnv}
    {raw : Bytes} {interval : Nat}
    (hc : CompleteBatch crc raw) (hd : 0≤lastOffsetDelta raw) (hb : baseOffset raw=hi)
    (hu : hi+recordCount raw<2^63)
    (write : a.appendBatch env d raw interval=(d',.ok b)) :
    SegmentReadable crc d' b.info (row++[raw]) [] [] (hi+recordCount raw) ∧
    (d'.indexData b.info.name).length=b.indexPos ∧ b.indexPos%8=0 := by
  have hw := ActiveSegment.appendBatch_wrote _ _ _ _ _ _ _ write
  have hdata := h.data
  have hch := h.chained
  have hidx := h.index
  rw [List.append_nil] at hdata hch hidx
  obtain ⟨hlen,hcur⟩ := hcur
  have hentry := appendBatch_entry write hch ⟨h.low,h.high⟩ hsize hb (le_of_eq hlen.symm)
    (fun _ => by omega)
  have hlog : d'.logData a.info.name=row.flatten++raw := by
    obtain ⟨f,hf⟩ := Dir.lookup_of_mem hmem
    rw [Dir.logData_of_lookup _ _ f hf] at hdata
    have hl : d'.logs.lookup a.info.name=some (f.writeAt raw a.logSize) := by
      rw [hw.lookup hf,if_pos rfl]
    rw [Dir.logData_of_lookup _ _ _ hl,← hsize,LogFile.writeAt_data f raw _ (by rw [hdata]),hdata,
      List.take_length,
      List.drop_eq_nil_of_le (Nat.le_add_right _ _),List.append_nil]
  rw [hw.named]
  refine ⟨⟨?_,?_,?_,?_,by rw [hw.based]; exact h.low,hu⟩,?_⟩
  · rw [hw.named,hlog]
    simp
  · intro x hx
    rcases List.mem_append.mp hx with hx|hx
    · exact h.complete x hx
    · rw [List.mem_singleton.mp hx]
      exact hc
  · rw [hw.based,List.append_nil]
    exact hch.concat raw hb hd
  · rw [hw.named,hw.based,List.append_nil]
    rcases hentry with ⟨hi,_⟩|⟨hi,_,h1,h2,h3⟩
    · rw [hi]
      exact hidx.extend _
    · have hnew := hidx.concat raw (by omega) (by rw [hb]; exact ⟨h1,h2⟩) h3
      rw [hb] at hnew
      rw [hi,← hlen,List.take_length]
      exact hnew
  · rcases hentry with ⟨hi,hpos⟩|⟨hi,hpos,_⟩
    · rw [hi,hpos]
      exact ⟨hlen,hcur⟩
    · rw [hi,hpos,← hlen]
      exact ⟨by simp,by omega⟩

theorem filed_stored (h : Filed crc s rows) (cfg : PartitionConfig) (env : IoEnv) (accepted : Bool)
    (batch : Bytes)
    (d : Dir) (a : ActiveSegment) (hb : WellFormed crc batch) (hu : s.highWater+recordCount batch<2^63)
    (write : s.active.appendBatch env s.dir (rewriteBase batch s.highWater) cfg.indexIntervalBytes=(d,.ok a))
    (hx : a.indexOpen=true) :
    ∃rows',Filed crc (advance cfg accepted batch {s with active := a,dir := d}).1 rows' ∧
      (advance cfg accepted batch {s with active := a,dir := d}).1.contents rows'=
        s.contents rows++[rewriteBase batch s.highWater] := by
  have hw := ActiveSegment.appendBatch_wrote _ _ _ _ _ _ _ write
  have hother := (appendBatch_index write).1
  have hch := h.active.chained
  rw [List.append_nil] at hch
  have hlow := h.active.low
  have hle := hch.bounds.1
  have hhigh := h.active.high
  have hcounted := hb.counted
  have hdelta := rewriteBase_lastOffsetDelta batch s.highWater
  have hcount := rewriteBase_recordCount batch s.highWater
  have hbase := rewriteBase_assigned batch s.highWater (by omega) hhigh
  have hhw := advance_highWater_eq cfg accepted batch s a d (by omega) hcounted hu
  obtain ⟨hrow,hcur⟩ := segmentReadable_stored h.active h.sized h.opened.2.2 h.cursor
    (rewriteBase_complete _ hb.toCompleteBatch) (by rw [hdelta]; exact hcounted) hbase
    (by rw [hcount]; exact hu) write
  rw [hcount] at hrow
  have hinfo : (advance cfg accepted batch {s with active := a,dir := d}).1.active=a := rfl
  have hclosed : (advance cfg accepted batch {s with active := a,dir := d}).1.closed=s.closed := rfl
  have hdir : (advance cfg accepted batch {s with active := a,dir := d}).1.dir=d := rfl
  have hkept (c : SegmentMeta) (hc : c∈s.closed) : Function.update rows s.active.info.name
      (rows s.active.info.name++[rewriteBase batch s.highWater]) c.name=rows c.name :=
    Function.update_of_ne (h.closed_ne c hc) _ _
  refine ⟨Function.update rows s.active.info.name (rows s.active.info.name++[rewriteBase batch s.highWater]),
    ⟨⟨h.started.1,?_⟩,?_,?_,?_,?_,⟨hw.stays,hx,?_⟩,?_,?_⟩,?_⟩
  · have := h.started.2
    rw [hhw]
    change s.logStart≤ _
    unfold recordCount
    omega
  · rw [hclosed,hinfo]
    intro c hc
    rcases List.mem_append.mp hc with hc|hc
    · exact h.named c (List.mem_append_left _ hc)
    · rw [List.mem_singleton.mp hc,hw.named,hw.based]
      exact h.named s.active.info (by simp)
  · rw [hclosed,hinfo,hw.based]
    exact h.sorted
  · rw [hclosed,hinfo,hw.based,hdir]
    intro p hp
    have hc := (List.of_mem_zip hp).1
    rw [hkept _ hc]
    refine (h.closed p hp).congr rfl ?_ (hother _ (h.closed_ne _ hc))
    rw [Dir.logData,hw.logs,Dir.onLog_lookup,if_neg (h.closed_ne _ hc),Dir.logData]
  · rw [hinfo,hdir,hw.named,Function.update_self,hhw]
    exact hrow
  · rw [hinfo,hdir,hw.named]
    exact (hw.mem_logs _).mpr h.opened.2.2
  · rw [hinfo,hw.named,Function.update_self,hw.logSize,← h.sized]
    simp
  · rw [hinfo,hdir]
    exact hcur
  · have hrest : s.closed.flatMap (fun c => Function.update rows s.active.info.name
        (rows s.active.info.name++[rewriteBase batch s.highWater]) c.name)=s.closed.flatMap
          (fun c => rows c.name) :=
      List.flatMap_congr hkept
    simp only [Store.contents,hclosed,hinfo,List.flatMap_append,List.flatMap_singleton,hrest,
      hw.named,Function.update_self,List.append_assoc]

theorem indexEntry_fits (a : ActiveSegment) (raw : Bytes) (hb : a.info.baseOffset≤baseOffset raw)
    (hd : baseOffset raw-a.info.baseOffset<2^31) (hs : a.logSize<2^32) :
    ∃entry,a.indexEntry (baseOffset raw)=.ok entry := by
  have hwrap : wrapI64 (baseOffset raw-a.info.baseOffset)=baseOffset raw-a.info.baseOffset :=
    wrapI64_of_range _ (by omega) (by omega)
  rw [ActiveSegment.indexEntry,hwrap,if_pos ⟨by omega,hd⟩,if_pos hs]
  exact ⟨_,rfl⟩

theorem filed_append (h : Filed crc s rows) {cfg : PartitionConfig} {ageMs : Nat} {epoch : UInt32}
    {batch : Bytes}
    {accepted : Bool} (hallowed : admission s.toPartitionInner epoch batch=.admitted accepted)
    (hb : WellFormed crc batch) (hu : s.highWater+recordCount batch<2^63)
    (hfit : rollDue cfg {ageMs := ageMs} s.active batch=false → EntryFits cfg s) :
    ∃t d a rows',appendLocked cfg {ageMs := ageMs} epoch batch s=
        some ((advance cfg accepted batch {t with active := a,dir := d}).1,
          .ok (advance cfg accepted batch {t with active := a,dir := d}).2) ∧
      rollIfDue cfg {ageMs := ageMs} batch s=(t,.ok ()) ∧
      Filed crc (advance cfg accepted batch {t with active := a,dir := d}).1 rows' ∧
      (advance cfg accepted batch {t with active := a,dir := d}).1.contents rows'=
        s.contents rows++[rewriteBase batch s.highWater] := by
  have hlong := hb.headed
  have hstored (t : Store) (trows : SegmentName → List Bytes) (ht : Filed crc t trows)
      (hsame : t.contents trows=s.contents rows) (hhw : t.highWater=s.highWater)
      (hroll : rollIfDue cfg {ageMs := ageMs} batch s=(t,.ok ())) (hroom : EntryFits cfg t) :
      ∃d a rows',appendLocked cfg {ageMs := ageMs} epoch batch s=
          some ((advance cfg accepted batch {t with active := a,dir := d}).1,
            .ok (advance cfg accepted batch {t with active := a,dir := d}).2) ∧
        Filed crc (advance cfg accepted batch {t with active := a,dir := d}).1 rows' ∧
        (advance cfg accepted batch {t with active := a,dir := d}).1.contents rows'=
          s.contents rows++[rewriteBase batch s.highWater] := by
    have hch := ht.active.chained
    rw [List.append_nil] at hch
    have hle := hch.bounds.1
    have hlow := ht.active.low
    have hlen := rewriteBase_length batch t.highWater (by omega)
    have hbase := rewriteBase_assigned batch t.highWater (by omega) ht.active.high
    obtain ⟨d,a,write,hx⟩ :=
      appendBatch_succeeds {ageMs := ageMs} t.active t.dir (rewriteBase batch t.highWater)
      cfg.indexIntervalBytes (by omega) ⟨ht.opened.1,ht.opened.2.1⟩ ⟨rfl,rfl⟩ (fun hdue =>
        indexEntry_fits t.active _ (by rw [hbase]; exact hle) (by rw [hbase]; exact (hroom hdue).1)
          (hroom hdue).2)
    obtain ⟨rows',hf,hc⟩ := filed_stored ht cfg _ accepted batch d a hb (by rw [hhw]; exact hu) write hx
    refine ⟨d,a,rows',?_,hf,by rw [hc,hsame,hhw]⟩
    rw [appendLocked,hallowed]
    dsimp only
    rw [hroll]
    dsimp only
    rw [if_neg (by omega),storeBatch,parseBatchOffsets,if_neg (by omega),write]
  by_cases hdue : rollDue cfg {ageMs := ageMs} s.active batch=true
  · have hpos : 0<s.active.logSize := by
      simp only [rollDue,Bool.and_eq_true,decide_eq_true_eq] at hdue
      exact hdue.2
    have hroll := rollIfDue_succeeds h.opened.1 hdue ⟨rfl,rfl,rfl⟩
    have hroom : EntryFits cfg (rolled s) := by
      refine fun _ => ⟨?_,?_⟩
      · change s.highWater-s.highWater<2^31
        omega
      · change 0<2^32
        decide
    obtain ⟨hr,hc⟩ := filed_rolled h hpos
    obtain ⟨d,a,rows',h1,h2⟩ := hstored (rolled s) _ hr hc rfl hroll hroom
    exact ⟨_,d,a,rows',h1,hroll,h2⟩
  · have hnot : rollDue cfg {ageMs := ageMs} s.active batch=false := by simpa using hdue
    have hroll : rollIfDue cfg {ageMs := ageMs} batch s=(s,.ok ()) := if_neg hdue
    obtain ⟨d,a,rows',h1,h2⟩ := hstored s rows h rfl rfl hroll (hfit hnot)
    exact ⟨s,d,a,rows',h1,hroll,h2⟩

theorem wanted_filter {low : Int} (row : SegmentMeta → List Bytes)
    (h : ∀p∈segments,p.2≤low → wanted start (row p.1)=[]) :
    wanted start ((segments.filter (fun p => !decide (p.2≤low))).flatMap (fun p => row p.1))=
      wanted start (segments.flatMap (fun p => row p.1)) := by
  induction segments with
  | nil => rfl
  | cons p segments ih =>
    have hrest := ih (fun q hq => h q (List.mem_cons_of_mem _ hq))
    rw [List.flatMap_cons,wanted_append]
    by_cases hle : p.2≤low
    · rw [List.filter_cons_of_neg (by simpa using hle),h p (List.mem_cons_self ..) hle,hrest,List.nil_append]
    · rw [List.filter_cons_of_pos (by simpa using hle),List.flatMap_cons,wanted_append,hrest]

theorem filed_deleted (h : Filed crc s rows) {low : Int} (hlt : s.logStart<low)
    (hle : low≤ s.highWater)
    (hkept : ∀c∈(keepAbove s low).map Prod.fst++[s.active.info],d.logs.lookup c.name=s.dir.logs.lookup c.name ∧
      d.indexes.lookup c.name=s.dir.indexes.lookup c.name) :
    Filed crc {s with
      logStart := low
      closed := (keepAbove s low).map Prod.fst
      abortedTxns := s.abortedTxns.evictBelow low
      dir := d : Store}.publish rows ∧
    ∀start,low≤ start → wanted start (s.contents rows)=wanted start ({s with
      logStart := low
      closed := (keepAbove s low).map Prod.fst
      abortedTxns := s.abortedTxns.evictBelow low
      dir := d : Store}.publish.contents rows) := by
  have hstart := h.started
  have hact : s.active.info∈(keepAbove s low).map Prod.fst++[s.active.info] := by simp
  obtain ⟨hsuffix,hzip⟩ := upperBounds_kept h.sorted low (keepAbove s low) rfl
  have hmem (c : SegmentMeta) (hc : c∈(keepAbove s low).map Prod.fst++[s.active.info]) :
      c∈s.closed++[s.active.info] := by
    rcases List.mem_append.mp hc with hc|hc
    · exact List.mem_append_left _ (hsuffix.subset hc)
    · exact List.mem_append_right _ hc
  have hread (c : SegmentMeta) (hi : Int) (hc : c∈(keepAbove s low).map Prod.fst++[s.active.info])
      (hr : SegmentReadable crc s.dir c (rows c.name) [] [] hi) :
        SegmentReadable crc d c (rows c.name) [] [] hi :=
    hr.congr rfl (by rw [Dir.logData,(hkept c hc).1,Dir.logData])
      (by rw [Dir.indexData,(hkept c hc).2,Dir.indexData])
  have hlive : s.active.info.name∈d.logs := by
    rw [← AList.lookup_isSome,(hkept _ hact).1,AList.lookup_isSome]
    exact h.opened.2.2
  have hcursor : (d.indexData s.active.info.name).length=s.active.indexPos ∧ s.active.indexPos%8=0 := by
    rw [Dir.indexData,(hkept _ hact).2]
    exact h.cursor
  refine ⟨⟨⟨by change 0≤low; omega,hle⟩,fun c hc => h.named c (hmem c hc),?_,?_,hread _ _ hact h.active,
    ⟨h.opened.1,h.opened.2.1,hlive⟩,h.sized,hcursor⟩,?_⟩
  · exact h.sorted.sublist ((hsuffix.sublist.map _).append (List.Sublist.refl _))
  · intro p hp
    change p∈((keepAbove s low).map Prod.fst).zip (upperBounds ((keepAbove s low).map Prod.fst)
      s.active.info.baseOffset) at hp
    rw [hzip] at hp
    exact hread _ _ (List.mem_append_left _ (List.mem_map_of_mem hp)) (h.closed p (List.mem_filter.mp hp).1)
  · intro start hs
    have hbelow (p : SegmentMeta × Int) (hp : p∈s.closed.zip (upperBounds s.closed s.active.info.baseOffset))
        (hle : p.2≤low) : wanted start (rows p.1.name)=[] := by
      have hch := (h.closed p hp).chained
      rw [List.append_nil] at hch
      exact wanted_nil_of_below (fun b hb => by have := (hch.bounds.2 b hb).2; omega)
    have hfilter := wanted_filter (fun c => rows c.name) hbelow
    rw [flatMap_zip_upperBounds _ _ (fun c => rows c.name)] at hfilter
    change _=wanted start (((keepAbove s low).map Prod.fst++[s.active.info]).flatMap (fun c => rows c.name))
    rw [Store.contents,List.flatMap_append,List.flatMap_append,wanted_append,wanted_append,
      List.flatMap_map,← hfilter]
    rfl

theorem filed_synced (h : Filed crc s rows) (byte : Int) (hd : s.dir.SameData d)
    (hi : d.indexes=s.dir.indexes) : Filed crc {s with dir := d,lastCheckpointByte := byte} rows := by
  have hidx (n : SegmentName) : d.indexData n=s.dir.indexData n := by rw [Dir.indexData,hi]; rfl
  refine ⟨h.started,h.named,h.sorted,fun p hp => ?_,?_,
    ⟨h.opened.1,h.opened.2.1,(hd.mem _).mpr h.opened.2.2⟩,h.sized,?_⟩
  · exact (h.closed p hp).congr rfl (hd.logData _) (hidx _)
  · exact h.active.congr rfl (hd.logData _) (hidx _)
  · change (d.indexData s.active.info.name).length=_ ∧ _
    rw [hidx]
    exact h.cursor

theorem Filed.read_taken (h : Filed crc s rows) (start : Int) (maxBytes : Nat) (hu : start<2^63)
    (near : ∀c∈s.closed++[s.active.info],c.baseOffset-max start s.logStart≤2^31) :
    readSnapshot s.dir (snapshotOf s.toPartitionInner) start maxBytes=
      (wanted (max start s.logStart) (s.contents rows)).flatten.take maxBytes := by
  have hstart := h.started
  have hhigh := h.active.high
  have hread : readSnapshot s.dir (snapshotOf s.toPartitionInner) start maxBytes=(fill maxBytes (wanted
      (max start s.logStart) (s.contents rows)) []).take maxBytes :=
    readSnapshot_fill rows h.closed h.active maxBytes hstart.1
      (show max start s.logStart<2^63 by omega) near
  rw [hread,fill_take,List.nil_append]

theorem readSegment_members
    (h : SegmentReadable crc d m row [] [] hi) (maxBytes : Nat) (hs : 0≤ start ∧ start<2^63) :
    ∃bs : List Bytes,readSegment d m start maxBytes=bs.flatten ∧ ∀b∈bs,b∈row ∧ start≤lastOffset b := by
  obtain ⟨j,k,extra,_,hout,hjunk,_⟩ := readSegment_row h maxBytes hs (Or.inl rfl)
  refine ⟨(wanted start (row.drop j)).take k,by rw [hout,hjunk rfl,List.append_nil],fun b hb => ?_⟩
  obtain ⟨hm,hr⟩ := List.mem_filter.mp (List.mem_of_mem_take hb)
  exact ⟨List.mem_of_mem_drop hm,of_decide_eq_true hr⟩

theorem readClosed_members (maxBytes : Nat) (hs : 0≤ start ∧ start<2^63)
    (h : ∀p∈segments,SegmentReadable crc d p.1 (rows p.1.name) [] [] p.2)
    (out : Bytes) :
    ∃bs : List Bytes,readClosed d start maxBytes segments out=out++bs.flatten ∧
      ∀b∈bs,(∃p∈segments,b∈rows p.1.name) ∧ start≤lastOffset b := by
  induction segments generalizing out with
  | nil => exact ⟨[],by simp [readClosed],by simp⟩
  | cons p segments ih =>
    have hrest := ih (fun q hq => h q (List.mem_cons_of_mem _ hq))
    have hlater {bs : List Bytes} (hb : ∀b∈bs,(∃q∈segments,b∈rows q.1.name) ∧ start≤lastOffset b) :
        ∀b∈bs,(∃q∈p::segments,b∈rows q.1.name) ∧ start≤lastOffset b := by
      intro b hm
      obtain ⟨⟨q,hq,hr⟩,hl⟩ := hb b hm
      exact ⟨⟨q,List.mem_cons_of_mem _ hq,hr⟩,hl⟩
    simp only [readClosed]
    split_ifs
    · exact ⟨[],by simp,by simp⟩
    · obtain ⟨bs,he,hb⟩ := hrest out
      exact ⟨bs,he,hlater hb⟩
    · obtain ⟨cs,hseg,hcs⟩ := readSegment_members (h p (List.mem_cons_self ..)) (maxBytes-out.length) hs
      obtain ⟨bs,he,hb⟩ := hrest (out++readSegment d p.1 start (maxBytes-out.length))
      refine ⟨cs++bs,by rw [he,hseg,List.flatten_append,List.append_assoc],fun b hm => ?_⟩
      rcases List.mem_append.mp hm with hm|hm
      · exact ⟨⟨p,List.mem_cons_self ..,(hcs b hm).1⟩,(hcs b hm).2⟩
      · exact hlater hb b hm

theorem Filed.read_members (h : Filed crc s rows) (start : Int) (maxBytes : Nat) (hu : start<2^63) :
    ∃bs : List Bytes,readSnapshot s.dir
      (snapshotOf s.toPartitionInner) start maxBytes=bs.flatten.take maxBytes ∧
      ∀b∈bs,b∈s.contents rows ∧ max start s.logStart≤lastOffset b := by
  have hstart := h.started
  have hhigh := h.active.high
  have hs : 0≤ max start s.logStart ∧ max start s.logStart<2^63 := by omega
  obtain ⟨bs,hc,hb⟩ := readClosed_members maxBytes hs h.closed []
  have hin (b : Bytes) (hm : b∈bs) : b∈s.contents rows ∧ max start s.logStart≤lastOffset b := by
    obtain ⟨⟨p,hp,hr⟩,hl⟩ := hb b hm
    exact ⟨List.mem_flatMap.mpr ⟨p.1,List.mem_append_left _ (List.of_mem_zip hp).1,hr⟩,hl⟩
  have hread : readSnapshot s.dir (snapshotOf s.toPartitionInner) start maxBytes=
      (if bs.flatten.length< maxBytes then bs.flatten++readSegment s.dir s.active.info (max start s.logStart)
        (maxBytes-bs.flatten.length) else bs.flatten).take maxBytes := by
    rw [List.nil_append] at hc
    rw [← hc]
    rfl
  by_cases hlt : bs.flatten.length< maxBytes
  · obtain ⟨cs,hseg,hcs⟩ := readSegment_members h.active (maxBytes-bs.flatten.length) hs
    refine ⟨bs++cs,by rw [hread,if_pos hlt,hseg,List.flatten_append],fun b hm => ?_⟩
    rcases List.mem_append.mp hm with hm|hm
    · exact hin b hm
    · exact ⟨List.mem_flatMap.mpr ⟨s.active.info,by simp,(hcs b hm).1⟩,(hcs b hm).2⟩
  · exact ⟨bs,by rw [hread,if_neg hlt],hin⟩

theorem firstStore_filed (crc : Crc32c) : Filed crc firstStore (fun _ => []) := by
  refine ⟨by decide,fun c hc => ?_,by decide,(fun p hp => by cases hp),?_,⟨rfl,rfl,by decide⟩,rfl,by decide⟩
  · rw [List.mem_singleton.mp hc]
    exact ⟨0,by decide⟩
  · exact ⟨by decide,by simp,Chained.nil _,fun i hi => absurd hi (Nat.not_lt_zero i),by decide,by decide⟩

end Filing

end Kaas
