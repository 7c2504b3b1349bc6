import Kaas.Storage.Journal

namespace Kaas

variable {base : Int} {crc : Crc32c}

theorem IndexSound.cut {data data' : Bytes} {bs : List Bytes} (h : IndexSound data base bs)
    (hp : data' <+: data) : IndexSound data' base bs := by
  obtain ⟨more,rfl⟩ := hp
  intro i hi
  rw [← readIndexEntry_append data' more i (by omega)]
  exact h i (by simp only [List.length_append]; omega)

theorem repairedFile_take {f : LogFile} (hwm : Int) {pos : Nat}
    (hb : Boundary crc base f.data pos hwm) : (repairedFile crc f).data.take pos=f.data.take pos := by
  unfold repairedFile
  split_ifs
  · rfl
  · simp only [LogFile.truncate,List.take_take,Nat.min_eq_left (boundary_le_run _ hb)]

theorem opened_metas {d d' : Dir} {p : Partition} {n : SegmentName} {f : LogFile}
    (htop : d.Top n base) (hl : d.logs.lookup n=some f) (h : Adopted crc d d' p n base f) :
    ((p.snapshot.closed++[p.snapshot.activeMeta]).map SegmentMeta.baseOffset).Pairwise (· < ·) ∧
    (∀m∈p.snapshot.closed++[p.snapshot.activeMeta],m.name∈d.logs ∧ ∃e,m.name.parse=some (m.baseOffset,e)) ∧
    ∀m∈listSegments d,∃m'∈p.snapshot.closed++[p.snapshot.activeMeta],
      m'.name=m.name ∧ m'.baseOffset=m.baseOffset := by
  obtain ⟨e,he,hg⟩ := listSegments_getLast htop hl
  have hclosed : p.snapshot.closed=(listSegments d).dropLast := by
    rw [h.snapshot]; exact h.closed
  have hactive : p.snapshot.activeMeta=p.active.info := by rw [h.snapshot]; rfl
  have hne : listSegments d≠[] := fun hnil => by rw [hnil] at hg; cases hg
  have hlast : (listSegments d).getLast hne=⟨base,e,f.data.length,n,unknownMaxTimestamp⟩ := by
    rw [List.getLast?_eq_some_getLast hne] at hg
    exact Option.some.inj hg
  have hsplit := List.dropLast_append_getLast hne
  rw [hlast] at hsplit
  have hparsed (m : SegmentMeta) (hm : m∈listSegments d) :
      m.name∈d.logs ∧ ∃e,m.name.parse=some (m.baseOffset,e) := by
    obtain ⟨⟨g,hp⟩,_⟩ := (mem_listSegments d m).mp hm
    obtain ⟨hk,hpar,_⟩ := present_parse hp
    exact ⟨hk,m.epoch,hpar⟩
  refine ⟨?_,fun m hm => ?_,fun m hm => ?_⟩
  · have hs := listSegments_sorted d
    rw [← hsplit,← List.pairwise_map (f := SegmentMeta.baseOffset) (R := (· < ·))] at hs
    rw [hclosed,hactive]
    simpa [h.based] using hs
  · rw [hclosed,hactive] at hm
    rcases List.mem_append.mp hm with hm|hm
    · exact hparsed m (List.dropLast_subset _ hm)
    · rw [List.mem_singleton.mp hm,h.named,h.based]
      exact ⟨htop.1,e,he⟩
  · rw [hclosed,hactive]
    rw [← hsplit] at hm
    rcases List.mem_append.mp hm with hm|hm
    · exact ⟨m,List.mem_append_left _ hm,rfl,rfl⟩
    · rw [List.mem_singleton.mp hm]
      exact ⟨p.active.info,by simp,h.named,h.based⟩

theorem covered_readable {d d2 d3 : Dir} {rows : SegmentName → List Bytes}
    {ends : SegmentName → Int} {b : Bytes} {n : SegmentName} (hj : Journal crc d rows ends)
    (hc : Covered d rows b) (htop : d.Top n base)
    (hcp : ∀cp,d.checkpoint=.present cp → CheckpointSound crc d cp) (image : d.CrashImage d2)
    {env : IoEnv} {p : Partition} (hopen : openPartition crc env d2=(d3,.ok p))
    (hstart : p.logStart≤0) {maxBytes : Nat} (hlen : b.length≤ maxBytes) :
    b <+: readSnapshot d3 p.snapshot (baseOffset b) maxBytes := by
  obtain ⟨m,f,pre,post,hf,hrow,hsync⟩ := hc
  obtain ⟨mb,me,hparse,hr⟩ := hj.filled m f hf
  rw [hrow] at hr
  have htop2 : d2.Top n base := htop.congr image.names
  obtain ⟨t,ht⟩ := Dir.lookup_of_mem htop2.1
  have hcp2 (cp : RecoveryCheckpoint) (h : d2.checkpoint=.present cp) : CheckpointSound crc d2 cp := by
    rw [image.checkpoint] at h
    exact (Keeps.crash image).sound (hcp cp h)
  have had := openPartition_adopts hopen htop2 ht hcp2
  -- the crash image of the batch's own log, and what the open makes of it
  have hm2 : m∈d2.logs := (image.names m).mpr (Dir.mem_of_lookup hf)
  obtain ⟨g,hg⟩ := Dir.lookup_of_mem hm2
  have htake : g.data.take (pre++[b]).flatten.length=(pre++[b]).flatten := by
    rw [(image.logs m f g hf hg).take_eq _ hsync]
    have hh := congrArg (List.take (pre++[b]).flatten.length) hr.held
    rw [List.take_take,Nat.min_eq_left (by simp)] at hh
    have hsplit : (pre++b::post).flatten=(pre++[b]).flatten++post.flatten := by simp
    rw [hh,hsplit,List.take_left]
  have hcomplete (x : Bytes) (hx : x∈pre++[b]) : CompleteBatch crc x :=
    hr.complete x (by rcases List.mem_append.mp hx with hx|hx <;> simp_all)
  have hboundary : Boundary crc mb g.data (pre++[b]).flatten.length (endOffset mb (pre++[b])) :=
    ⟨pre++[b],hcomplete,htake,rfl,rfl⟩
  have hfinal : ∃g',d3.logs.lookup m=some g' ∧ g'.data.take (pre++[b]).flatten.length=(pre++[b]).flatten := by
    by_cases hmn : m=n
    · subst hmn
      rw [ht] at hg
      cases hg
      exact ⟨_,had.file,(repairedFile_take _ hboundary).trans htake⟩
    · exact ⟨g,by rw [had.others m hmn]; exact hg,htake⟩
  obtain ⟨g',hg',htake'⟩ := hfinal
  obtain ⟨hsorted,hparsed,hlisted⟩ := opened_metas htop2 ht had
  have hmem : ⟨mb,me,g.data.length,m,unknownMaxTimestamp⟩∈listSegments d2 := by
    refine (mem_listSegments d2 _).mpr ⟨⟨g,present_of_lookup hg hparse⟩,?_⟩
    intro x y hx hbase
    obtain ⟨hk,hpar,_⟩ := present_parse hx
    have hxm := hj.distinct m (Dir.mem_of_lookup hf) x.name
      ((image.names _).mp hk) mb me x.epoch hparse (by rw [hpar,hbase])
    rw [← hxm,hparse] at hpar
    exact le_of_eq (Prod.mk.inj (Option.some.inj hpar)).2.symm
  obtain ⟨m',hm',hname,hbase⟩ := hlisted _ hmem
  have hread : SegmentReadable crc d3 m' (pre++b::[]) post (g'.data.drop (pre++[b]).flatten.length)
      (ends m) := by
    refine ⟨?_,hcomplete,?_,?_,?_,hr.high⟩
    · have hwhole := List.take_append_drop (pre++[b]).flatten.length g'.data
      rw [htake'] at hwhole
      rw [hname,Dir.logData_of_lookup _ _ g' hg']
      exact hwhole.symm
    · rw [hbase]
      simpa using hr.chained
    · rw [hname,hbase,had.indexes]
      simpa using hr.index.cut (image.indexes m)
    · rw [hbase]
      exact hr.low
  refine readSnapshot_first hsorted hm' hread (fun c hc hlt => ?_) ?_ hlen
  · obtain ⟨hk,e,hpc⟩ := hparsed c hc
    rw [hbase] at hlt
    exact hj.apart m (Dir.mem_of_lookup hf) c.name ((image.names _).mp hk) mb me c.baseOffset e hparse hpc hlt
  · have hb := (hr.chained.bounds.2 b (by simp)).1
    have hlow := hr.low
    rw [had.snapshot]
    change p.logStart≤_
    omega

end Kaas
