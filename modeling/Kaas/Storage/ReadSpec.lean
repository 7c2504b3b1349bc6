import Kaas.Storage.Chain
import Kaas.Storage.Read

namespace Kaas

def reaches (start : Int) (b : Bytes) : Bool := decide (start≤lastOffset b)

theorem readTurn_complete (crc : Crc32c) (b rest : Bytes) (start : Int) (hc : CompleteBatch crc b)
    (hl : -2^63≤lastOffset b) (hu : lastOffset b<2^63) :
    readTurn start (b++rest)=if reaches start b then .take b rest else .skip rest := by
  have h28 := hc.long
  have hs := hc.sized
  have e1 : b++rest=b.take 12++((b.drop 12).take 15++(b.drop 27++rest)) := by
    have e : b.drop 27=(b.drop 12).drop 15 := by rw [List.drop_drop]
    rw [e,← List.append_assoc ((b.drop 12).take 15),List.take_append_drop,← List.append_assoc,
      List.take_append_drop]
  have l1 : (b.take 12).length=12 := by simp; omega
  have l2 : ((b.drop 12).take 15).length=15 := by simp; omega
  have hlen : i32At (b.take 12) 8=batchLength b := by rw [batchLength,i32At,i32At,slice_take _ _ (by decide)]
  have hbase : i64At (b.take 12) 0=baseOffset b := by rw [baseOffset,i64At,i64At,slice_take _ _ (by decide)]
  have hdelta : i32At ((b.drop 12).take 15) 11=lastOffsetDelta b := by
    have e : slice b 23 (23+4)=slice ((b.drop 12).take 15) 11 (11+4) := by
      conv_lhs => rw [← List.take_append_drop 12 b]
      rw [slice_append_right _ _ (by omega),l1]
      conv_lhs => rw [← List.take_append_drop 15 (b.drop 12)]
      rw [slice_append_left _ _ (by omega)]
    rw [lastOffsetDelta,i32At,i32At,e]
  have hrest : (b.drop 27).length=(batchLength b).toNat-15 := by
    simp only [List.length_drop]
    omega
  have hwhole : b.take 12++(b.drop 12).take 15++b.drop 27=b := by
    have e : b.drop 27=(b.drop 12).drop 15 := by rw [List.drop_drop]
    rw [e,List.append_assoc,List.take_append_drop,List.take_append_drop]
  unfold readTurn
  rw [e1,readExact_append _ l1]
  simp only [hlen,readExact_append _ l2,hbase,hdelta]
  have hw : wrapI64 (baseOffset b+lastOffsetDelta b)=lastOffset b := wrapI64_of_range _ hl hu
  rw [if_neg (by omega),hw,readExact_append _ hrest]
  by_cases hr : lastOffset b< start
  · rw [if_pos hr,if_neg (by simp [reaches]; omega)]
    congr 1
    rw [← hrest,List.drop_left]
  · rw [if_neg hr,if_pos (by simp [reaches]; omega)]
    simp only [hwhole]

theorem readLoop_extends (start : Int) (maxBytes n : Nat) (f out : Bytes) :
    ∃extra,readLoop start maxBytes n f out=out++extra := by
  induction n generalizing f out with
  | zero => exact ⟨[],by simp [readLoop]⟩
  | succ n ih =>
    simp only [readLoop]
    split_ifs
    · split
      · exact ⟨[],by simp⟩
      · exact ih _ _
      · rename_i batch f' _
        obtain ⟨extra,he⟩ := ih f' (out++batch)
        exact ⟨batch++extra,by rw [he,List.append_assoc]⟩
    · exact ⟨[],by simp⟩

theorem readLoop_nil (start : Int) (maxBytes n : Nat) (out : Bytes) :
    readLoop start maxBytes n [] out=out := by
  cases n with
  | zero => rfl
  | succ n =>
    simp only [readLoop]
    split_ifs
    · rfl
    · rfl

def wanted (start : Int) (bs : List Bytes) : List Bytes := bs.filter (reaches start)

theorem readLoop_cons {crc : Crc32c} {b : Bytes} (start : Int) (maxBytes n : Nat)
    (hb : CompleteBatch crc b ∧ -2^63≤lastOffset b ∧ lastOffset b<2^63) (bs : List Bytes) (junk out : Bytes) :
    readLoop start maxBytes (n+1) ((b::bs).flatten++junk) out=
      if out.length< maxBytes then readLoop start maxBytes n (bs.flatten++junk)
        (if reaches start b then out++b else out)
      else out := by
  rw [List.flatten_cons,List.append_assoc,readLoop,readTurn_complete crc b _ start hb.1 hb.2.1 hb.2.2]
  by_cases hr : reaches start b=true
  · rw [if_pos hr,if_pos hr]
  · rw [if_neg hr,if_neg hr]

theorem readLoop_row (crc : Crc32c) (start : Int) (maxBytes : Nat) (junk : Bytes) (bs : List Bytes)
    (hc : ∀b∈bs,CompleteBatch crc b ∧ -2^63≤lastOffset b ∧ lastOffset b<2^63) (n : Nat)
    (hn : bs.length<n) (out : Bytes) :
    ∃k extra,readLoop start maxBytes n (bs.flatten++junk) out=
        out++((wanted start bs).take k).flatten++extra ∧ (junk=[] → extra=[]) ∧
      (out.length< maxBytes → wanted start bs≠[] → 1≤k) := by
  induction bs generalizing n out with
  | nil =>
    obtain ⟨extra,he⟩ := readLoop_extends start maxBytes n junk out
    refine ⟨0,extra,by simpa [wanted] using he,?_,fun _ h => absurd rfl h⟩
    rintro rfl
    rw [readLoop_nil] at he
    simpa using he
  | cons b bs ih =>
    obtain ⟨m,rfl⟩ : ∃m,n=m+1 := ⟨n-1,by omega⟩
    have hm : bs.length< m := by simpa using hn
    obtain ⟨hb,hrest⟩ := List.forall_mem_cons.mp hc
    rw [readLoop_cons start maxBytes m hb]
    by_cases hmax : out.length< maxBytes
    · rw [if_pos hmax]
      by_cases hr : reaches start b=true
      · rw [if_pos hr]
        obtain ⟨k,extra,he,hj,_⟩ := ih hrest m hm (out++b)
        exact ⟨k+1,extra,by simpa [wanted,hr] using he,hj,fun _ _ => by omega⟩
      · rw [if_neg hr]
        obtain ⟨k,extra,he,hj,hk⟩ := ih hrest m hm out
        have hw : wanted start (b::bs)=wanted start bs := by simp [wanted,hr]
        rw [hw]
        exact ⟨k,extra,he,hj,hk⟩
    · refine ⟨0,[],?_,fun _ => rfl,fun h => absurd h hmax⟩
      simp [hmax]

/-- Every entry of a sparse index points at the first byte of a batch and carries its offset. -/
def IndexSound (data : Bytes) (base : Int) (bs : List Bytes) : Prop :=
  ∀i<data.length/8,∃pre b post,bs=pre++b::post ∧
    readIndexEntry data i=(baseOffset b-base,pre.flatten.length)

theorem searchLoop_entry (data : Bytes) (target : Int) (n lo hi result : Nat) :
    searchLoop data target n lo hi result=result ∨
    ∃i≤hi,(readIndexEntry data i).1≤target ∧
      searchLoop data target n lo hi result=(readIndexEntry data i).2 := by
  induction n generalizing lo hi result with
  | zero => exact Or.inl rfl
  | succ n ih =>
    rw [searchLoop]
    by_cases h : lo≤hi
    · rw [if_pos h]
      have hmid : lo+(hi-lo)/2≤hi := by omega
      by_cases he : (readIndexEntry data (lo+(hi-lo)/2)).1≤target
      · rw [if_pos he]
        rcases ih (lo+(hi-lo)/2+1) hi (readIndexEntry data (lo+(hi-lo)/2)).2 with hr|⟨i,hi',hle,hr⟩
        · exact Or.inr ⟨_,hmid,he,hr⟩
        · exact Or.inr ⟨i,hi',hle,hr⟩
      · rw [if_neg he]
        split_ifs
        · exact Or.inl rfl
        · rcases ih lo (lo+(hi-lo)/2-1) result with hr|⟨i,hi',hle,hr⟩
          · exact Or.inl hr
          · exact Or.inr ⟨i,by omega,hle,hr⟩
    · rw [if_neg h]
      exact Or.inl rfl

theorem searchIndexBytes_boundary (data : Bytes) (base hi start : Int) (bs : List Bytes)
    (hidx : IndexSound data base bs) (hch : Chained base bs hi) (hb : 0≤base ∧ base<2^63)
    (hs : 0≤ start ∧ start<2^63) :
    ∃j,searchIndexBytes data base start=(bs.take j).flatten.length ∧
      (base≤ start → ∀b∈bs.take j,lastOffset b< start) := by
  have hwrap : wrapI64 (start-base)=start-base := wrapI64_of_range _ (by omega) (by omega)
  have hzero : ∃j,0=(bs.take j).flatten.length ∧ (base≤ start → ∀b∈bs.take j,lastOffset b< start) :=
    ⟨0,by simp,by simp⟩
  have hentry (i : Nat) (hi : i<data.length/8)
      (hle : base≤ start → (readIndexEntry data i).1≤ start-base) :
      ∃j,(readIndexEntry data i).2=(bs.take j).flatten.length ∧
        (base≤ start → ∀b∈bs.take j,lastOffset b< start) := by
    obtain ⟨pre,b,post,rfl,he⟩ := hidx i hi
    refine ⟨pre.length,by rw [he,List.take_left],fun hbs c hc => ?_⟩
    rw [List.take_left] at hc
    obtain ⟨mid,h1,h2⟩ := hch.split
    have := (h1.bounds.2 c hc).2
    have hm := h2.head.1
    have hle := hle hbs
    rw [he] at hle
    simp only at hle
    omega
  unfold searchIndexBytes
  rw [hwrap]
  split_ifs with h0 hr hneg
  · exact hzero
  · exact hzero
  · rcases searchLoop_entry data (start-base) (data.length/8) 0 (data.length/8-1) 0 with h|⟨i,hi,hle,h⟩
    · rw [h]; exact hzero
    · rw [h]; exact hentry i (by omega) (fun _ => hle)
  · refine hentry _ (by omega) (fun hbs => ?_)
    have hrel := (i32At_range data ((data.length/8-1)*8)).2
    change i32At data ((data.length/8-1)*8)≤ start-base
    omega

/-- What is known of one segment's log and index when it is read: a row of batches, possibly
followed by other bytes, and an index that may know of more batches than are left. -/
structure SegmentReadable (crc : Crc32c) (d : Dir) (m : SegmentMeta) (bs lost : List Bytes)
    (junk : Bytes) (hi : Int) : Prop where
  data : d.logData m.name=bs.flatten++junk
  complete : ∀b∈bs,CompleteBatch crc b
  chained : Chained m.baseOffset (bs++lost) hi
  index : IndexSound (d.indexData m.name) m.baseOffset (bs++lost)
  low : 0≤ m.baseOffset
  high : hi<2^63

theorem length_le_flatten {bs : List Bytes} (h : ∀b∈bs,b≠[]) : bs.length≤bs.flatten.length := by
  induction bs with
  | nil => simp
  | cons b bs ih =>
    have hb := List.length_pos_iff.mpr (h b (by simp))
    have := ih (fun c hc => h c (by simp [hc]))
    simp only [List.length_cons,List.flatten_cons,List.length_append]
    omega

variable {crc : Crc32c} {d : Dir} {m : SegmentMeta} {pre lost post : List Bytes} {b junk : Bytes}
    {hi start : Int}

theorem SegmentReadable.within {bs : List Bytes} (h : SegmentReadable crc d m bs lost junk hi)
    (b : Bytes) (hb : b∈bs) : CompleteBatch crc b ∧ -2^63≤lastOffset b ∧ lastOffset b<2^63 := by
  have hlow := h.low
  have hhigh := h.high
  have hbb := h.chained.bounds.2 b (List.mem_append_left lost hb)
  have hd := h.chained.counted b (List.mem_append_left lost hb)
  exact ⟨h.complete b hb,by unfold lastOffset; omega,by omega⟩

/-- A read that starts at a batch of the row has turns for all that stand behind it. -/
theorem readSegment_loop {bs : List Bytes} {j : Nat} (hdata : d.logData m.name=bs.flatten++junk)
    (hc : ∀b∈bs,CompleteBatch crc b)
    (hj : searchIndexBytes (d.indexData m.name) m.baseOffset start=(bs.take j).flatten.length)
    (maxBytes : Nat) :
    ∃n,(bs.drop j).length<n ∧
      readSegment d m start maxBytes=readLoop start maxBytes n ((bs.drop j).flatten++junk) [] := by
  have hdrop : (d.logData m.name).drop (bs.take j).flatten.length=(bs.drop j).flatten++junk := by
    have hsplit : bs.flatten=(bs.take j).flatten++(bs.drop j).flatten := by
      rw [← List.flatten_append,List.take_append_drop]
    rw [hdata,hsplit,List.append_assoc,List.drop_left]
  refine ⟨(d.logData m.name).length+1,?_,by unfold readSegment readBatches; rw [hj,hdrop]⟩
  have hle := length_le_flatten (fun b hb hnil => by
    have := (hc b (List.mem_of_mem_drop hb)).long
    rw [hnil] at this
    simp at this : ∀b∈bs.drop j,b≠[])
  have hl := congrArg List.length hdrop
  rw [List.length_drop,List.length_append] at hl
  omega

theorem readSegment_row {bs : List Bytes} (h : SegmentReadable crc d m bs lost junk hi)
    (maxBytes : Nat) (hs : 0≤ start ∧ start<2^63)
    (hlost : lost=[] ∨ (m.baseOffset≤ start ∧ ∃b∈bs,start≤lastOffset b)) :
    ∃j k extra,searchIndexBytes (d.indexData m.name) m.baseOffset start=(bs.take j).flatten.length ∧
      readSegment d m start maxBytes=((wanted start (bs.drop j)).take k).flatten++extra ∧
      (junk=[] → extra=[]) ∧ (m.baseOffset≤ start → ∀b∈bs.take j,lastOffset b< start) := by
  have hlow := h.low
  have hhigh := h.high
  have hle := h.chained.bounds
  obtain ⟨j,hj,hbefore⟩ := searchIndexBytes_boundary _ _ _ start _ h.index h.chained
    ⟨hlow,by omega⟩ hs
  -- the index cannot lead behind the row when a wanted batch stands in it
  have htake : (bs++lost).take j=bs.take j := by
    rcases hlost with rfl|⟨hms,b,hb,hreach⟩
    · rw [List.append_nil]
    · by_cases hjl : j≤bs.length
      · exact List.take_append_of_le_length hjl
      · have hmem : b∈(bs++lost).take j := by
          rw [List.take_append]
          exact List.mem_append_left _ (by rw [List.take_of_length_le (by omega)]; exact hb)
        have := hbefore hms b hmem
        omega
  rw [htake] at hj hbefore
  obtain ⟨n,hn,hread⟩ := readSegment_loop h.data h.complete hj maxBytes
  obtain ⟨k,extra,he,hjunk,_⟩ := readLoop_row crc start maxBytes junk (bs.drop j)
    (fun b hb => h.within b (List.mem_of_mem_drop hb)) n hn []
  exact ⟨j,k,extra,hj,hread.trans (by simpa using he),hjunk,hbefore⟩

/-- The log of a segment has a batch in a row of batches, possibly with other bytes behind the row,
and the search of its index for `start` leads to a batch of the row that is not behind it. -/
structure LedTo (crc : Crc32c) (d : Dir) (m : SegmentMeta) (b : Bytes) (start : Int) : Prop where
  low : 0≤ m.baseOffset
  row : ∃pre post junk hi,d.logData m.name=(pre++b::post).flatten++junk ∧
    (∀c∈pre++b::post,CompleteBatch crc c) ∧ Chained m.baseOffset (pre++b::post) hi ∧ hi<2^63 ∧
    ∃j≤pre.length,searchIndexBytes (d.indexData m.name) m.baseOffset start=(pre.take j).flatten.length

theorem LedTo.within (h : LedTo crc d m b start) :
    CompleteBatch crc b ∧ m.baseOffset≤baseOffset b ∧ lastOffset b<2^63 := by
  obtain ⟨pre,post,junk,hi,_,hc,hch,hhigh,_⟩ := h.row
  have hb := hch.bounds.2 b (by simp)
  exact ⟨hc b (by simp),hb.1,hb.2.trans hhigh⟩

theorem LedTo.first (h : LedTo crc d m b start) (hs : baseOffset b≤ start ∧ start≤lastOffset b)
    {maxBytes : Nat} (hm : 0< maxBytes) : b <+: readSegment d m start maxBytes := by
  obtain ⟨pre,post,junk,hi,hdata,hc,hch,hhigh,j,hj,hlead⟩ := h.row
  have hlow := h.low
  obtain ⟨mid,h1,h2⟩ := hch.split
  have hmid := h2.head.1
  have htake : (pre++b::post).take j=pre.take j := List.take_append_of_le_length hj
  rw [← htake] at hlead
  obtain ⟨n,hn,hread⟩ := readSegment_loop hdata hc hlead maxBytes
  have hall (c : Bytes) (hm : c∈(pre++b::post).drop j) :
      CompleteBatch crc c ∧ -2^63≤lastOffset c ∧ lastOffset c<2^63 := by
    have hcm := List.mem_of_mem_drop hm
    have hb := hch.bounds.2 c hcm
    have hd := hch.counted c hcm
    exact ⟨hc c hcm,by unfold lastOffset; omega,by omega⟩
  obtain ⟨k,extra,hout,_,hk⟩ := readLoop_row crc start maxBytes junk _ hall n hn []
  have hw : wanted start ((pre++b::post).drop j)=b::wanted start post := by
    rw [List.drop_append_of_le_length hj,wanted,List.filter_append]
    have hpre : (pre.drop j).filter (reaches start)=[] := by
      rw [List.filter_eq_nil_iff]
      intro c hc
      have := (h1.bounds.2 c (List.mem_of_mem_drop hc)).2
      simp only [reaches,decide_eq_true_eq]
      omega
    rw [hpre,List.nil_append,List.filter_cons_of_pos (by simp [reaches,hs.2])]
    rfl
  rw [hw,List.nil_append] at hout
  rw [hw] at hk
  obtain ⟨k',rfl⟩ : ∃k',k=k'+1 := ⟨k-1,by have := hk hm (by simp); omega⟩
  rw [hread,hout,List.take_succ_cons,List.flatten_cons,List.append_assoc]
  exact List.prefix_append _ _

theorem SegmentReadable.led (h : SegmentReadable crc d m (pre++b::post) lost junk hi)
    (hs : baseOffset b≤ start ∧ start≤lastOffset b) : LedTo crc d m b start := by
  obtain ⟨mid,hrow,hrest⟩ := h.chained.split
  have hle := hrest.bounds.1
  have hb := hrow.bounds.2 b (by simp)
  have hlow := h.low
  have hhigh := h.high
  obtain ⟨j,_,_,hj,_,_,hbefore⟩ := readSegment_row h 0 ⟨by omega,by omega⟩ (Or.inr ⟨by omega,b,by simp,hs.2⟩)
  have hjl : j≤pre.length := by
    by_contra hjl
    have hmem : b∈(pre++b::post).take j := by
      rw [show pre++b::post=(pre++[b])++post by simp,List.take_append]
      exact List.mem_append_left _ (by rw [List.take_of_length_le (by simp; omega)]; simp)
    have := hbefore (by omega) b hmem
    omega
  rw [List.take_append_of_le_length hjl] at hj
  exact ⟨hlow,pre,post,junk,mid,h.data,h.complete,hrow,by omega,j,hjl,hj⟩

theorem readClosed_extends (d : Dir) (start : Int) (maxBytes : Nat) (l : List (SegmentMeta × Int))
    (out : Bytes) :
    out <+: readClosed d start maxBytes l out := by
  induction l generalizing out with
  | nil => exact List.prefix_refl _
  | cons p l ih =>
    simp only [readClosed]
    split_ifs
    · exact List.prefix_refl _
    · exact ih out
    · exact (List.prefix_append _ _).trans (ih _)

theorem zip_upperBounds (m : SegmentMeta) (closed : List SegmentMeta) (activeBase : Int) :
    (m::closed).zip (upperBounds (m::closed) activeBase)=
      (m,(closed.head?.map SegmentMeta.baseOffset).getD activeBase)::
        closed.zip (upperBounds closed activeBase) := by
  cases closed with
  | nil => rfl
  | cons c closed => rfl

theorem readClosed_finds (d : Dir) (start : Int) (maxBytes : Nat) (closed : List SegmentMeta) (activeBase : Int)
    (hsorted : (closed.map SegmentMeta.baseOffset++[activeBase]).Pairwise (· < ·)) (hm : 0< maxBytes) :
    (activeBase≤ start → readClosed d start maxBytes (closed.zip (upperBounds closed activeBase)) []=[]) ∧
    ∀m∈closed,m.baseOffset≤ start → (∀c∈closed,m.baseOffset<c.baseOffset → start<c.baseOffset) →
      start<activeBase → readSegment d m start maxBytes <+:
        readClosed d start maxBytes (closed.zip (upperBounds closed activeBase)) [] := by
  induction closed with
  | nil => exact ⟨fun _ => rfl,by simp⟩
  | cons c closed ih =>
    rw [List.map_cons,List.cons_append,List.pairwise_cons] at hsorted
    obtain ⟨hc,hrest⟩ := hsorted
    obtain ⟨ih1,ih2⟩ := ih hrest
    have hupper : (closed.head?.map SegmentMeta.baseOffset).getD activeBase∈
        closed.map SegmentMeta.baseOffset++[activeBase] := by
      cases closed with
      | nil => simp
      | cons x closed => simp
    have hmin : ∀b∈closed.map SegmentMeta.baseOffset++[activeBase],
        (closed.head?.map SegmentMeta.baseOffset).getD activeBase≤b := by
      cases closed with
      | nil => simp
      | cons x closed =>
        intro b hb
        rw [List.map_cons,List.cons_append,List.pairwise_cons] at hrest
        rcases List.mem_cons.mp hb with rfl|hb
        · exact le_refl _
        · exact le_of_lt (hrest.1 b hb)
    have hskip (h : (closed.head?.map SegmentMeta.baseOffset).getD activeBase≤ start) :
        readClosed d start maxBytes ((c::closed).zip (upperBounds (c::closed) activeBase)) []=
          readClosed d start maxBytes (closed.zip (upperBounds closed activeBase)) [] := by
      rw [zip_upperBounds,readClosed,if_neg (by simp; omega),if_pos h]
    refine ⟨fun ha => ?_,fun m hmem hle hnext hact => ?_⟩
    · rw [hskip (le_trans (hmin activeBase (by simp)) ha)]
      exact ih1 ha
    · rcases List.mem_cons.mp hmem with rfl|hmem
      · have hu : start<(closed.head?.map SegmentMeta.baseOffset).getD activeBase := by
          cases closed with
          | nil => exact hact
          | cons x closed => exact hnext x (by simp) (hc _ (by simp))
        rw [zip_upperBounds,readClosed,if_neg (by simp; omega),if_neg (by omega)]
        simpa using readClosed_extends d start maxBytes (closed.zip (upperBounds closed activeBase))
          (readSegment d m start maxBytes)
      · have hlt := hmin m.baseOffset (List.mem_append_left _ (List.mem_map_of_mem hmem))
        rw [hskip (by omega)]
        exact ih2 m hmem hle (fun x hx => hnext x (by simp [hx])) hact

section Snapshot

variable {snap : ReadSnapshot}
  (hsorted : ((snap.closed++[snap.activeMeta]).map SegmentMeta.baseOffset).Pairwise (· < ·))
  (hm : m∈snap.closed++[snap.activeMeta])

include hsorted hm

theorem readSnapshot_begins (h : LedTo crc d m b start)
    (hnext : ∀c∈snap.closed++[snap.activeMeta],m.baseOffset<c.baseOffset → lastOffset b<c.baseOffset)
    (hstart : snap.logStart≤ start) (hs : baseOffset b≤ start ∧ start≤lastOffset b) (maxBytes : Nat) :
    ∃extra,readSnapshot d snap start maxBytes=(b++extra).take maxBytes := by
  by_cases hpos : 0< maxBytes
  · have hb := h.within.2.1
    have hfirst := h.first hs hpos
    have hs' : (snap.closed.map SegmentMeta.baseOffset++[snap.activeMeta.baseOffset]).Pairwise (· < ·) := by
      simpa using hsorted
    obtain ⟨hskip,hfind⟩ := readClosed_finds d start maxBytes snap.closed snap.activeMeta.baseOffset hs' hpos
    unfold readSnapshot
    rw [max_eq_left hstart]
    dsimp only
    have htake (out : Bytes) (ho : b <+: out) : ∃extra,out.take maxBytes=(b++extra).take maxBytes := by
      obtain ⟨rest,rfl⟩ := ho
      exact ⟨rest,rfl⟩
    apply htake
    rcases List.mem_append.mp hm with hm|hm
    · have hact : m.baseOffset< snap.activeMeta.baseOffset := by
        rw [List.pairwise_append] at hs'
        exact hs'.2.2 _ (List.mem_map_of_mem hm) _ (by simp)
      have hbase := hnext snap.activeMeta (by simp) hact
      have hpre := hfirst.trans (hfind m hm (by omega)
        (fun c hc hcb => by have := hnext c (by simp [hc]) hcb; omega) (by omega))
      split_ifs
      · exact hpre.trans (List.prefix_append _ _)
      · exact hpre
    · rw [List.mem_singleton.mp hm] at hfirst hb
      rw [hskip (by omega),if_pos (by simpa using hpos)]
      simpa using hfirst
  · refine ⟨[],?_⟩
    rw [show maxBytes=0 by omega]
    simp [readSnapshot]

theorem readSnapshot_first (h : SegmentReadable crc d m (pre++b::post) lost junk hi)
    (hnext : ∀c∈snap.closed++[snap.activeMeta],m.baseOffset<c.baseOffset → hi≤ c.baseOffset)
    (hstart : snap.logStart≤baseOffset b) {maxBytes : Nat} (hlen : b.length≤ maxBytes) :
    b <+: readSnapshot d snap (baseOffset b) maxBytes := by
  have hd := h.chained.counted b (by simp)
  have hat : baseOffset b≤baseOffset b ∧ baseOffset b≤lastOffset b := ⟨le_rfl,by unfold lastOffset; omega⟩
  have hb := (h.chained.bounds.2 b (by simp)).2
  obtain ⟨extra,he⟩ := readSnapshot_begins hsorted hm (h.led hat)
    (fun c hc hlt => hb.trans_le (hnext c hc hlt)) hstart hat maxBytes
  rw [he,List.take_append,List.take_of_length_le hlen]
  exact List.prefix_append _ _

end Snapshot

end Kaas
