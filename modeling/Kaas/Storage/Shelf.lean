import Kaas.Storage.Chain
import Kaas.Storage.Transactions

namespace Kaas

/-- A log file that holds a row of batches from `base` to `hi`; other bytes may follow it. -/
structure RowHeld (crc : Crc32c) (base : Int) (f : LogFile) (row : List Bytes) (hi : Int) : Prop where
  held : f.data.take row.flatten.length=row.flatten
  complete : ∀b∈row,CompleteBatch crc b
  chained : Chained base row hi

theorem RowHeld.congr {crc : Crc32c} {base hi : Int} {f g : LogFile} {row : List Bytes}
    (h : RowHeld crc base f row hi) (hg : g.data.take row.flatten.length=f.data.take row.flatten.length) :
    RowHeld crc base g row hi :=
  ⟨hg.trans h.held,h.complete,h.chained⟩

theorem RowHeld.concat {crc : Crc32c} {base hi : Int} {f : LogFile} {row : List Bytes} {size : Nat}
    {raw : Bytes}
    (h : RowHeld crc base f row hi) (hrow : row.flatten.length=size) (hsize : size≤f.data.length)
    (hc : CompleteBatch crc raw) (hb : baseOffset raw=hi) (hd : 0≤lastOffsetDelta raw) :
    RowHeld crc base (f.writeAt raw size) (row++[raw]) (hi+recordCount raw) := by
  refine ⟨?_,fun x hx => ?_,h.chained.concat raw hb hd⟩
  · have hl : (row++[raw]).flatten.length=size+raw.length := by simp [← hrow]
    have hheld := h.held
    rw [hrow] at hheld
    rw [hl,LogFile.writeAt_take_end f _ _ hsize,hheld]
    simp
  · rcases List.mem_append.mp hx with hx|hx
    · exact h.complete x hx
    · rw [List.mem_singleton.mp hx]
      exact hc

/-- Every log of a directory holds a row of its own, which ends below the bases above it. -/
structure Shelf (crc : Crc32c) (d : Dir) (rows : SegmentName → List Bytes)
    (ends : SegmentName → Int) : Prop where
  filled : ∀n f,d.logs.lookup n=some f →
    ∃base e,n.parse=some (base,e) ∧ RowHeld crc base f (rows n) (ends n)
  apart : ∀n∈d.logs,∀n'∈d.logs,∀b e b' e',n.parse=some (b,e) → n'.parse=some (b',e') →
    b<b' → ends n≤b'

/-- The active row ends with the accounted log, no row ends above the high watermark, and the other
files hold nothing but their rows. -/
structure ShelfActive (s : Store) (rows : SegmentName → List Bytes) (ends : SegmentName → Int) : Prop where
  size : (rows s.active.info.name).flatten.length=s.active.logSize
  last : ends s.active.info.name=s.highWater
  under : ∀n∈s.dir.logs,ends n≤ s.highWater
  whole : ∀n f,n≠s.active.info.name → s.dir.logs.lookup n=some f →
    f.data.length=(rows n).flatten.length

section Shelves

variable {crc : Crc32c} {d d' : Dir} {rows : SegmentName → List Bytes} {ends : SegmentName → Int}

theorem Shelf.congr (h : Shelf crc d rows ends) (hm : ∀n,n∈d'.logs → n∈d.logs)
    (hf : ∀n f f',d.logs.lookup n=some f → d'.logs.lookup n=some f' →
      f'.data.take (rows n).flatten.length=f.data.take (rows n).flatten.length) :
    Shelf crc d' rows ends where
  filled := by
    intro n f' hl'
    obtain ⟨f,hl⟩ := Dir.lookup_of_mem (hm n (Dir.mem_of_lookup hl'))
    obtain ⟨base,e,hp,hr⟩ := h.filled n f hl
    exact ⟨base,e,hp,hr.congr (hf n f f' hl hl')⟩
  apart := fun n hn n' hn' => h.apart n (hm n hn) n' (hm n' hn')

theorem Shelf.onLog (h : Shelf crc d rows ends) (n : SegmentName) (g : LogFile → LogFile)
    (hg : ∀f,d.logs.lookup n=some f →
      (g f).data.take (rows n).flatten.length=f.data.take (rows n).flatten.length) :
    Shelf crc (d.onLog n g) rows ends := by
  refine h.congr (fun m => (d.mem_onLog n g m).mp) (fun m f f' hf hf' => ?_)
  rw [Dir.onLog_lookup] at hf'
  split_ifs at hf' with hm
  · subst hm
    rw [hf] at hf'
    cases hf'
    exact hg f hf
  · rw [hf] at hf'
    cases hf'
    rfl

theorem Shelf.created (h : Shelf crc d rows ends) (b epoch : Int) (hr : -2^63≤b ∧ b<2^63)
    (hends : ∀n∈d.logs,ends n≤b)
    (hbelow : ∀n∈d.logs,∀b' e',n.parse=some (b',e') → b'≤b) :
    Shelf crc (ActiveSegment.created d (segmentName b epoch))
      (Function.update rows (segmentName b epoch) []) (Function.update ends (segmentName b epoch) b) where
  filled :=
    Dir.filled_update (P := fun n f row hi => ∃base e,n.parse=some (base,e) ∧
      RowHeld crc base f row hi) (ActiveSegment.created_lookup d _)
      ⟨b,_,segmentName_parse epoch hr,by simp,by simp,Chained.nil b⟩ (fun n f _ hf => h.filled n f hf)
  apart := apart_created epoch hr hends hbelow h.apart

end Shelves

section Steps

variable {crc : Crc32c} {s : Store} {f : LogFile} {fs : List Bytes}
  {rows : SegmentName → List Bytes} {ends : SegmentName → Int}

def WholeLog (s : Store) : Prop := (s.dir.logData s.active.info.name).length=s.active.logSize

instance (s : Store) : Decidable (WholeLog s) :=
  inferInstanceAs (Decidable ((s.dir.logData s.active.info.name).length=s.active.logSize))

theorem WholeLog.length (h : WholeLog s) (hf : s.dir.logs.lookup s.active.info.name=some f) :
    f.data.length=s.active.logSize := by
  rw [← h,Dir.logData_of_lookup _ _ f hf]

theorem Tracks.bases_le (ht : Tracks crc s f fs) (n : SegmentName) (hn : n∈s.dir.logs) (b e : Int)
    (hp : n.parse=some (b,e)) : b≤ s.highWater := by
  obtain ⟨_,_,_,hall⟩ := ht.top
  have hbase : s.active.info.baseOffset≤ s.highWater := by
    by_cases hnil : fs=[]
    · have he := ht.ends
      rw [hnil] at he
      exact le_of_eq he
    · exact le_of_lt (ht.above hnil)
  have := hall n hn b e hp
  omega

theorem shelf_started (h : Shelf crc s.dir rows ends) (ha : ShelfActive s rows ends) (ht : Tracks crc s f fs)
    {d : Dir} (hsame : s.dir.SameData d) {epoch : Int} (hwhole : f.data.length=s.active.logSize)
    {t : Store} (hdir : t.dir=ActiveSegment.created d (segmentName s.highWater epoch))
    (hactive : t.active=ActiveSegment.fresh s.highWater epoch) (hhigh : t.highWater=s.highWater) :
    Shelf crc t.dir (Function.update rows (segmentName s.highWater epoch) [])
      (Function.update ends (segmentName s.highWater epoch) s.highWater) ∧
    ShelfActive t (Function.update rows (segmentName s.highWater epoch) [])
      (Function.update ends (segmentName s.highWater epoch) s.highWater) := by
  have hd : Shelf crc d rows ends :=
    h.congr (fun n => (hsame.mem n).mp) (fun n g g' hg hg' => by rw [hsame.data_eq hg hg'])
  have hold (n : SegmentName) (hne : n≠segmentName s.highWater epoch) (hn : n∈t.dir.logs) : n∈s.dir.logs := by
    rw [hdir] at hn
    exact (hsame.mem n).mp (mem_of_created hn hne)
  constructor
  · rw [hdir]
    exact hd.created s.highWater epoch ht.ranged (fun n hn => ha.under n ((hsame.mem n).mp hn))
      (fun n hn b e hp => ht.bases_le n ((hsame.mem n).mp hn) b e hp)
  · have hname : t.active.info.name=segmentName s.highWater epoch := by rw [hactive]; rfl
    refine ⟨?_,?_,fun n hn => ?_,fun n g hne hg => ?_⟩
    · rw [hname,Function.update_self,hactive]
      rfl
    · rw [hname,Function.update_self,hhigh]
    · rw [hhigh]
      by_cases hne : n=segmentName s.highWater epoch
      · rw [hne,Function.update_self]
      · rw [Function.update_of_ne hne]
        exact ha.under n (hold n hne hn)
    · rw [hname] at hne
      rw [hdir,ActiveSegment.created_lookup,if_neg hne] at hg
      obtain ⟨g0,hg0⟩ := Dir.lookup_of_mem ((hsame.mem n).mp (Dir.mem_of_lookup hg))
      rw [Function.update_of_ne hne,hsame.data_eq hg0 hg]
      by_cases hact : n=s.active.info.name
      · subst hact
        rw [ht.file] at hg0
        cases hg0
        rw [hwhole,ha.size]
      · exact ha.whole n g0 hact hg0

theorem shelf_write (h : Shelf crc s.dir rows ends) (ha : ShelfActive s rows ends)
    (ht : Tracks crc s f fs) (buf : Bytes) :
    Shelf crc (s.dir.onLog s.active.info.name (fun f => f.writeAt buf s.active.logSize)) rows ends ∧
    ShelfActive {s with
      dir := s.dir.onLog s.active.info.name (fun f => f.writeAt buf s.active.logSize)} rows ends := by
  refine ⟨h.onLog _ _ (fun g hg => ?_),ha.size,ha.last,fun n hn => ?_,fun n g hne hg => ?_⟩
  · rw [ht.file] at hg
    cases hg
    exact LogFile.writeAt_take f buf _ _ ht.sized (le_of_eq ha.size)
  · exact ha.under n ((s.dir.mem_onLog _ _ n).mp hn)
  · change (s.dir.onLog _ _).logs.lookup n=some g at hg
    rw [Dir.onLog_lookup,if_neg hne] at hg
    exact ha.whole n g hne hg

theorem shelf_stored (h : Shelf crc s.dir rows ends) (ha : ShelfActive s rows ends) (ht : Tracks crc s f fs)
    {cfg : PartitionConfig} {env : IoEnv} (accepted : Bool) {batch : Bytes} {d : Dir}
    {a : ActiveSegment} (hs : Storable crc batch) (hu : s.highWater+recordCount batch<2^63)
    (write : s.active.appendBatch env s.dir (rewriteBase batch s.highWater) cfg.indexIntervalBytes=(d,.ok a)) :
    Shelf crc d
      (Function.update rows s.active.info.name (rows s.active.info.name++[rewriteBase batch s.highWater]))
      (Function.update ends s.active.info.name (s.highWater+recordCount batch)) ∧
    ShelfActive (advance cfg accepted batch {s with active := a,dir := d}).1
      (Function.update rows s.active.info.name (rows s.active.info.name++[rewriteBase batch s.highWater]))
      (Function.update ends s.active.info.name (s.highWater+recordCount batch)) := by
  have hw := ActiveSegment.appendBatch_wrote _ _ _ _ _ _ _ write
  have hpos : s.highWater<s.highWater+recordCount batch := by
    have := hs.2
    unfold recordCount
    omega
  have hbase := rewriteBase_assigned batch s.highWater ht.ranged.1 ht.ranged.2
  have hhw := advance_highWater_eq cfg accepted batch s a d ht.ranged.1 hs.2 hu
  have hmem := hw.mem_logs
  have hlook := hw.lookup ht.file
  obtain ⟨b0,e0,hp0,hr0⟩ := h.filled _ f ht.file
  have hrow := hr0.concat ha.size ht.sized (rewriteBase_complete s.highWater hs.1)
    (hbase.trans ha.last.symm) (by rw [rewriteBase_lastOffsetDelta]; exact hs.2)
  rw [ha.last,rewriteBase_recordCount] at hrow
  refine ⟨⟨?_,fun n hn n' hn' => ?_⟩,?_⟩
  · exact Dir.filled_update (P := fun n f row hi => ∃base e,n.parse=some (base,e) ∧
      RowHeld crc base f row hi) hlook ⟨b0,e0,hp0,hrow⟩ (fun n g _ hg => h.filled n g hg)
  · exact ht.top.apart _ h.apart n ((hmem n).mp hn) n' ((hmem n').mp hn')
  · refine ⟨?_,?_,fun n hn => ?_,fun n g hne hg => ?_⟩
    · change (Function.update rows _ _ a.info.name).flatten.length=a.logSize
      rw [hw.named,Function.update_self,hw.logSize,← ha.size]
      simp
    · change Function.update ends _ _ a.info.name=_
      rw [hw.named,Function.update_self,hhw]
    · rw [hhw]
      by_cases hact : n=s.active.info.name
      · rw [hact,Function.update_self]
      · rw [Function.update_of_ne hact]
        have := ha.under n ((hmem n).mp hn)
        omega
    · change n≠a.info.name at hne
      rw [hw.named] at hne
      change d.logs.lookup n=some g at hg
      rw [hlook,if_neg hne] at hg
      rw [Function.update_of_ne hne]
      exact ha.whole n g hne hg

end Steps

/-- The segments of an open partition: the files behind the closed ones are as long as accounted,
and the bases increase up to the active one. -/
structure Racked (crc : Crc32c) (s : Store) : Prop where
  opened : s.active.logOpen=true
  named : s.active.info.name.parse=some (s.active.info.baseOffset,s.active.info.epoch)
  rows : ∃rows ends,Shelf crc s.dir rows ends ∧ ShelfActive s rows ends
  sorted : (s.closed.map SegmentMeta.baseOffset++[s.active.info.baseOffset]).Pairwise (· < ·)
  listed : ∀m∈s.closed,∃f e,s.dir.logs.lookup m.name=some f ∧ m.name.parse=some (m.baseOffset,e) ∧
    f.data.length=m.size

namespace Racked

variable {crc : Crc32c} {s t : Store} {f : LogFile} {fs : List Bytes}

theorem below (h : Racked crc s) (m : SegmentMeta) (hm : m∈s.closed) :
    m.baseOffset<s.active.info.baseOffset :=
  (List.pairwise_append.mp h.sorted).2.2 _ (List.mem_map_of_mem hm) _ (List.mem_singleton.mpr rfl)

theorem closed_ne (h : Racked crc s) (m : SegmentMeta) (hm : m∈s.closed) : m.name≠s.active.info.name := by
  intro heq
  obtain ⟨_,e,_,hp,_⟩ := h.listed m hm
  rw [heq,h.named] at hp
  have := h.below m hm
  have := (Prod.mk.inj (Option.some.inj hp)).1
  omega

theorem parsed (h : Racked crc s) : ∀m∈s.closed++[s.active.info],∃e,m.name.parse=some (m.baseOffset,e) := by
  intro m hm
  rcases List.mem_append.mp hm with hm|hm
  · obtain ⟨_,e,_,hp,_⟩ := h.listed m hm
    exact ⟨e,hp⟩
  · rw [List.mem_singleton.mp hm]
    exact ⟨_,h.named⟩

theorem trimmed (h : Racked crc s)
    (htrim : ∀n f',t.dir.logs.lookup n=some f' → ∃f,s.dir.logs.lookup n=some f ∧ f'.data=f.data)
    (hclosed : t.closed <:+ s.closed) (hkept : ∀m∈t.closed,m.name∈t.dir.logs)
    (hactive : t.active=s.active) (hhigh : t.highWater=s.highWater) : Racked crc t := by
  obtain ⟨rows,ends,hs,ha⟩ := h.rows
  have hmem (n : SegmentName) (hn : n∈t.dir.logs) : n∈s.dir.logs := by
    obtain ⟨g',hg'⟩ := Dir.lookup_of_mem hn
    obtain ⟨g,hg,_⟩ := htrim n g' hg'
    exact Dir.mem_of_lookup hg
  refine ⟨by rw [hactive]; exact h.opened,by rw [hactive]; exact h.named,⟨rows,ends,?_,?_⟩,?_,?_⟩
  · refine hs.congr hmem (fun n g g' hg hg' => ?_)
    obtain ⟨g0,hg0,hd⟩ := htrim n g' hg'
    rw [hg] at hg0
    cases hg0
    rw [hd]
  · refine ⟨by rw [hactive]; exact ha.size,by rw [hactive,hhigh]; exact ha.last,
      fun n hn => by rw [hhigh]; exact ha.under n (hmem n hn),fun n g' hne hg' => ?_⟩
    obtain ⟨g,hg,hd⟩ := htrim n g' hg'
    rw [hactive] at hne
    rw [hd]
    exact ha.whole n g hne hg
  · rw [hactive]
    exact h.sorted.sublist ((hclosed.sublist.map _).append (List.Sublist.refl _))
  · intro m hm
    obtain ⟨g,e,hg,hp,hl⟩ := h.listed m (hclosed.subset hm)
    obtain ⟨g',hg'⟩ := Dir.lookup_of_mem (hkept m hm)
    obtain ⟨g0,hg0,hd⟩ := htrim m.name g' hg'
    rw [hg] at hg0
    cases hg0
    exact ⟨g',e,hg',hp,by rw [hd]; exact hl⟩

theorem congr (h : Racked crc s) (hsame : s.dir.SameData t.dir) (hclosed : t.closed=s.closed)
    (hactive : t.active=s.active) (hhigh : t.highWater=s.highWater) : Racked crc t := by
  refine h.trimmed (fun n f' hf' => ?_) (hclosed ▸ List.suffix_refl _) (fun m hm => ?_) hactive hhigh
  · obtain ⟨f,hf⟩ := Dir.lookup_of_mem ((hsame.mem n).mp (Dir.mem_of_lookup hf'))
    exact ⟨f,hf,hsame.data_eq hf hf'⟩
  · obtain ⟨f,_,hf,_⟩ := h.listed m (hclosed ▸ hm)
    exact (hsame.mem m.name).mpr (Dir.mem_of_lookup hf)

theorem started (h : Racked crc s) (ht : Tracks crc s f fs) (hwhole : WholeLog s) (d : Dir)
    (hsame : s.dir.SameData d) (epoch : Int) (he : 0≤epoch ∧ epoch<2^32)
    (hnew : segmentName s.highWater epoch∉s.dir.logs)
    (hdir : t.dir=ActiveSegment.created d (segmentName s.highWater epoch))
    (hactive : t.active=ActiveSegment.fresh s.highWater epoch) (hhigh : t.highWater=s.highWater)
    (hclosed : (0<s.active.logSize ∧ t.closed=s.closed++[s.active.closedMeta]) ∨
      t.closed=s.closed) : Racked crc t := by
  obtain ⟨rows,ends,hs,ha⟩ := h.rows
  have hbase : s.active.info.baseOffset≤ s.highWater := by
    obtain ⟨_,e,hp,_⟩ := ht.top
    exact ht.bases_le _ (Dir.mem_of_lookup ht.file) _ e hp
  have hbelow (m : SegmentMeta) (hm : m∈s.closed) : m.baseOffset<s.highWater := by
    have := h.below m hm
    omega
  have hsorted := List.pairwise_append.mp h.sorted
  have hold (m : SegmentMeta) (g : LogFile) (hg : s.dir.logs.lookup m.name=some g) :
      ∃g',t.dir.logs.lookup m.name=some g' ∧ g'.data=g.data := by
    have hn : m.name∈s.dir.logs := Dir.mem_of_lookup hg
    obtain ⟨g',hg'⟩ := Dir.lookup_of_mem ((hsame.mem m.name).mpr hn)
    refine ⟨g',?_,hsame.data_eq hg hg'⟩
    have hne : m.name≠segmentName s.highWater epoch := fun heq => hnew (heq ▸ hn)
    rw [hdir,ActiveSegment.created_lookup,if_neg hne]
    exact hg'
  refine ⟨by rw [hactive]; rfl,?_,⟨_,_,shelf_started hs ha ht hsame (hwhole.length ht.file) hdir
    hactive hhigh⟩,?_,?_⟩
  · rw [hactive]
    have hp := segmentName_parse epoch ht.ranged
    rw [Int.emod_eq_of_lt he.1 he.2] at hp
    exact hp
  · rw [hactive]
    change (t.closed.map SegmentMeta.baseOffset++[s.highWater]).Pairwise (· < ·)
    rcases hclosed with ⟨hpos,hc⟩|hc
    · have hlt := ht.above (ht.ne_nil hpos)
      rw [hc,List.map_append]
      refine List.pairwise_append.mpr ⟨h.sorted,List.pairwise_singleton _ _,fun b hb c hc => ?_⟩
      rw [List.mem_singleton.mp hc]
      rcases List.mem_append.mp hb with hb|hb
      · obtain ⟨m,hm,rfl⟩ := List.mem_map.mp hb
        exact hbelow m hm
      · rw [List.mem_singleton.mp hb]
        exact hlt
    · rw [hc]
      refine List.pairwise_append.mpr ⟨hsorted.1,List.pairwise_singleton _ _,fun b hb c hc => ?_⟩
      obtain ⟨m,hm,rfl⟩ := List.mem_map.mp hb
      rw [List.mem_singleton.mp hc]
      exact hbelow m hm
  · have hmem (m : SegmentMeta) (hm : m∈s.closed) : ∃f e,t.dir.logs.lookup m.name=some f ∧
        m.name.parse=some (m.baseOffset,e) ∧ f.data.length=m.size := by
      obtain ⟨g,e,hg,hp,hl⟩ := h.listed m hm
      obtain ⟨g',hg',hd⟩ := hold m g hg
      exact ⟨g',e,hg',hp,by rw [hd]; exact hl⟩
    intro m hm
    rcases hclosed with ⟨_,hc⟩|hc
    · rw [hc] at hm
      rcases List.mem_append.mp hm with hm|hm
      · exact hmem m hm
      · obtain ⟨g',hg',hd⟩ := hold s.active.closedMeta f ht.file
        rw [List.mem_singleton.mp hm]
        exact ⟨g',_,hg',h.named,by rw [hd]; exact hwhole.length ht.file⟩
    · exact hmem m (hc ▸ hm)

theorem listed_written (h : Racked crc s) (buf : Bytes) (d : Dir)
    (hd : d.logs=(s.dir.onLog s.active.info.name (fun f => f.writeAt buf s.active.logSize)).logs) :
    ∀m∈s.closed,∃f e,d.logs.lookup m.name=some f ∧ m.name.parse=some (m.baseOffset,e) ∧
      f.data.length=m.size := by
  intro m hm
  obtain ⟨g,e,hg,hrest⟩ := h.listed m hm
  refine ⟨g,e,?_,hrest⟩
  rw [hd,Dir.onLog_lookup,if_neg (h.closed_ne m hm)]
  exact hg

theorem write (h : Racked crc s) (ht : Tracks crc s f fs) (buf : Bytes) :
    Racked crc {s with dir := s.dir.onLog s.active.info.name (fun f => f.writeAt buf s.active.logSize)} := by
  obtain ⟨rows,ends,hs,ha⟩ := h.rows
  exact ⟨h.opened,h.named,⟨rows,ends,shelf_write hs ha ht buf⟩,h.sorted,h.listed_written buf _ rfl⟩

theorem stored (h : Racked crc s) (ht : Tracks crc s f fs) (cfg : PartitionConfig) (env : IoEnv)
    (accepted : Bool) (batch : Bytes) (d : Dir) (a : ActiveSegment)
    (hs : Storable crc batch) (hu : s.highWater+recordCount batch<2^63)
    (write : s.active.appendBatch env s.dir (rewriteBase batch s.highWater) cfg.indexIntervalBytes=(d,.ok a)) :
    Racked crc (advance cfg accepted batch {s with active := a,dir := d}).1 := by
  obtain ⟨rows,ends,hr,ha⟩ := h.rows
  have hw := ActiveSegment.appendBatch_wrote _ _ _ _ _ _ _ write
  refine ⟨hw.stays,?_,⟨_,_,shelf_stored hr ha ht accepted hs hu write⟩,?_,
    h.listed_written _ d hw.logs⟩
  · change a.info.name.parse=some (a.info.baseOffset,a.info.epoch)
    rw [hw.named,hw.based,hw.epoch]
    exact h.named
  · change (s.closed.map SegmentMeta.baseOffset++[a.info.baseOffset]).Pairwise (· < ·)
    rw [hw.based]
    exact h.sorted

end Racked

end Kaas
