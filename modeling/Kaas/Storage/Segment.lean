import Kaas.Math.SortDedup
import Kaas.Storage.Directory

namespace Kaas

def unknownMaxTimestamp : Int := -1

structure SegmentMeta where
  baseOffset : Int
  epoch : Int
  size : Nat
  name : SegmentName
  maxTimestamp : Int
  deriving DecidableEq, Repr

def segmentName (baseOffset epoch : Int) : SegmentName := .stem (epoch%2^32).toNat baseOffset

def SegmentMeta.Before (a b : SegmentMeta) : Prop :=
  a.baseOffset<b.baseOffset ∨ (a.baseOffset=b.baseOffset ∧ b.epoch≤a.epoch)

instance : DecidableRel SegmentMeta.Before := fun a b => inferInstanceAs (Decidable
  (a.baseOffset<b.baseOffset ∨ (a.baseOffset=b.baseOffset ∧ b.epoch≤a.epoch)))

def metaOf (n : SegmentName) (f : LogFile) : Option SegmentMeta :=
  n.parse.map (fun p => ⟨p.1,p.2,f.data.length,n,unknownMaxTimestamp⟩)

def sortedSegments (d : Dir) : List SegmentMeta :=
  (d.logs.entries.filterMap (fun e => metaOf e.1 e.2)).insertionSort SegmentMeta.Before

def listSegments (d : Dir) : List SegmentMeta := dedupByKey SegmentMeta.baseOffset (sortedSegments d)

structure ActiveSegment where
  info : SegmentMeta
  logOpen : Bool
  indexOpen : Bool
  /-- cursor of the index handle -/
  indexPos : Nat
  logSize : Nat
  lastIndexedLogPos : Nat
  maxTimestamp : Int
  deriving DecidableEq, Repr

/-- What the environment decides during one call: the segment's age, and which of the
file operations fail (`write` gives the bytes that reached the file before the error). -/
structure IoEnv where
  ageMs : Nat := 0
  sync : Bool := true
  createLog : Bool := true
  createIndex : Bool := true
  write : Option Nat := none
  indexWrite : Bool := true
  remove : Bool := true
  persistProducers : Bool := true
  persistTxns : Bool := true
  persistManifest : Bool := true
  persistCheckpoint : Bool := true
  deriving DecidableEq, Repr

namespace ActiveSegment

def create (env : IoEnv) (d : Dir) (baseOffset epoch : Int) : Dir × Except IoError ActiveSegment :=
  if env.createLog then
    if env.createIndex then
      ({d with
          logs := d.logs.insert (segmentName baseOffset epoch) {}
          indexes := d.indexes.insert (segmentName baseOffset epoch) []},
        .ok ⟨⟨baseOffset,epoch,0,segmentName baseOffset epoch,unknownMaxTimestamp⟩,
          true,true,0,0,0,unknownMaxTimestamp⟩)
    else (d.eraseLog (segmentName baseOffset epoch),.error .fault)
  else (d,.error .fault)

def openMetaOnly (info : SegmentMeta) : ActiveSegment :=
  ⟨info,false,false,0,info.size,0,unknownMaxTimestamp⟩

/-- Handles are opened without truncation; a missing file is created empty. -/
def openHandles (a : ActiveSegment) (d : Dir) : Dir × ActiveSegment :=
  if a.logOpen && a.indexOpen then (d,a)
  else
    ({d with
        logs := d.logs.insert a.info.name ((d.logs.lookup a.info.name).getD {})
        indexes := d.indexes.insert a.info.name (d.indexData a.info.name)},
      {a with
        logOpen := true
        indexOpen := true
        indexPos := 0
        logSize := (d.logData a.info.name).length
        info := {a.info with size := (d.logData a.info.name).length}
        lastIndexedLogPos := (d.indexData a.info.name).length/8*4096})

def truncateTo (a : ActiveSegment) (d : Dir) (validEnd : Nat) : Dir × ActiveSegment :=
  if a.logSize≤validEnd then (d,a)
  else (d.onLog a.info.name (fun f => f.truncate validEnd),
    {a with logSize := validEnd,info := {a.info with size := validEnd}})

def closeHandles (a : ActiveSegment) : ActiveSegment := {a with logOpen := false,indexOpen := false}

def syncLog (env : IoEnv) (a : ActiveSegment) (d : Dir) : Dir × Except IoError Unit :=
  if a.logOpen then
    if env.sync then (d.onLog a.info.name LogFile.syncAll,.ok ()) else (d,.error .fault)
  else (d,.error .logHandleClosed)

def indexEntry (a : ActiveSegment) (batchBase : Int) : Except IoError Bytes :=
  if -2^31≤wrapI64 (batchBase-a.info.baseOffset) ∧ wrapI64 (batchBase-a.info.baseOffset)<2^31 then
    if a.logSize<2^32 then
      .ok (beBytes 4 (wrapI64 (batchBase-a.info.baseOffset)%2^32).toNat++beBytes 4 a.logSize)
    else .error .logSizeOverflow
  else .error .relOffsetOverflow

def writeIndex (a : ActiveSegment) (d : Dir) (entry : Bytes) : Dir :=
  {d with
    indexes := d.indexes.insert a.info.name
      ((d.indexData a.info.name).take a.indexPos++
        List.replicate (a.indexPos-(d.indexData a.info.name).length) 0++entry++
        (d.indexData a.info.name).drop (a.indexPos+entry.length))}

/-- The index half of `append_batch`: an entry once enough log was written since the last one. -/
def appendIndex (env : IoEnv) (a : ActiveSegment) (d : Dir) (batchBase : Int) (interval : Nat) :
    Dir × Except IoError ActiveSegment :=
  if interval≤ subU64 a.logSize a.lastIndexedLogPos then
    if a.indexOpen then
      match a.indexEntry batchBase with
      | .error e => (d,.error e)
      | .ok entry =>
        if env.indexWrite then
          (a.writeIndex d entry,
            .ok {a with indexPos := a.indexPos+8,lastIndexedLogPos := a.logSize})
        else (d,.error .fault)
    else (d,.error .indexHandleClosed)
  else (d,.ok a)

def grow (a : ActiveSegment) (raw : Bytes) : ActiveSegment :=
  {a with
    logSize := a.logSize+raw.length
    info := {a.info with size := a.logSize+raw.length}
    maxTimestamp := max a.maxTimestamp (batchMaxTimestamp raw)}

def appendBatch (env : IoEnv) (a : ActiveSegment) (d : Dir) (raw : Bytes) (interval : Nat) :
    Dir × Except IoError ActiveSegment :=
  match parseBatchOffsets raw with
  | .error e => (d,.error e)
  | .ok o =>
    if a.logOpen then
      match env.write with
      | some k => (d.onLog a.info.name (fun f => f.writeAt (raw.take k) a.logSize),.error .fault)
      | none =>
        match a.appendIndex env (d.onLog a.info.name (fun f => f.writeAt raw a.logSize))
          o.baseOffset interval with
        | (d,.error e) => (d,.error e)
        | (d,.ok a) => (d,.ok (a.grow raw))
    else (d,.error .logHandleClosed)

def closedMeta (a : ActiveSegment) : SegmentMeta :=
  {a.info with size := a.logSize,maxTimestamp := a.maxTimestamp}

/-- The fast half of a roll: fsync the outgoing log, then create the next segment. -/
def rollFast (env : IoEnv) (a : ActiveSegment) (d : Dir) (newBase epoch : Int) :
    Dir × Except IoError (ActiveSegment × SegmentMeta) :=
  match (if a.logOpen then a.syncLog env d else (d,.ok ())) with
  | (d,.error e) => (d,.error e)
  | (d,.ok _) => match create env d newBase epoch with
    | (d,.error e) => (d,.error e)
    | (d,.ok b) => (d,.ok (b,a.closedMeta))

end ActiveSegment

variable {d d' : Dir} {f : LogFile} {m : SegmentMeta} {n : SegmentName} {base : Int}

namespace ActiveSegment

theorem appendIndex_cases (env : IoEnv) (a : ActiveSegment) (d : Dir) (batchBase : Int)
    (interval : Nat) : (∃e,a.appendIndex env d batchBase interval=(d,.error e)) ∨
    a.appendIndex env d batchBase interval=(d,.ok a) ∨
    ∃entry,a.indexEntry batchBase=.ok entry ∧ a.appendIndex env d batchBase interval=
      (a.writeIndex d entry,.ok {a with indexPos := a.indexPos+8,lastIndexedLogPos := a.logSize}) := by
  unfold appendIndex
  cases he : a.indexEntry batchBase with
  | error e =>
    split_ifs
    · exact Or.inl ⟨_,rfl⟩
    · exact Or.inl ⟨_,rfl⟩
    · exact Or.inl ⟨_,rfl⟩
    · exact Or.inr (Or.inl rfl)
  | ok entry =>
    split_ifs
    · exact Or.inr (Or.inr ⟨entry,rfl,rfl⟩)
    · exact Or.inl ⟨_,rfl⟩
    · exact Or.inl ⟨_,rfl⟩
    · exact Or.inr (Or.inl rfl)

theorem appendBatch_error (env : IoEnv) (a : ActiveSegment) (d d' : Dir) (raw : Bytes)
    (interval : Nat) (e : IoError) (h : a.appendBatch env d raw interval=(d',.error e)) :
    d'=d ∨ (a.logOpen=true ∧ ∃buf,d'=d.onLog a.info.name (fun f => f.writeAt buf a.logSize)) := by
  unfold appendBatch at h
  split at h
  · exact Or.inl (Prod.mk.inj h).1.symm
  · rename_i o ho
    split_ifs at h with hopen
    · split at h
      · exact Or.inr ⟨hopen,_,(Prod.mk.inj h).1.symm⟩
      · rcases a.appendIndex_cases env (d.onLog a.info.name (fun f => f.writeAt raw a.logSize))
          o.baseOffset interval with ⟨e',hi⟩|hi|⟨entry,_,hi⟩
        · rw [hi] at h
          exact Or.inr ⟨hopen,raw,(Prod.mk.inj h).1.symm⟩
        · rw [hi] at h
          cases (Prod.mk.inj h).2
        · rw [hi] at h
          cases (Prod.mk.inj h).2
    · exact Or.inl (Prod.mk.inj h).1.symm

theorem appendBatch_ok (env : IoEnv) (a b : ActiveSegment) (d d' : Dir) (raw : Bytes)
    (interval : Nat) (h : a.appendBatch env d raw interval=(d',.ok b)) :
    43≤ raw.length ∧ a.logOpen=true ∧
    ((d'=d.onLog a.info.name (fun f => f.writeAt raw a.logSize) ∧ b=a.grow raw) ∨
     ∃entry,a.indexEntry (baseOffset raw)=.ok entry ∧
      d'=a.writeIndex (d.onLog a.info.name (fun f => f.writeAt raw a.logSize)) entry ∧
      b=({a with indexPos := a.indexPos+8,lastIndexedLogPos := a.logSize} : ActiveSegment).grow raw) := by
  unfold appendBatch at h
  split at h
  · cases (Prod.mk.inj h).2
  · rename_i o ho
    have hp : 43≤ raw.length ∧ o.baseOffset=baseOffset raw := by
      unfold parseBatchOffsets at ho
      split_ifs at ho with hl
      cases ho
      exact ⟨by omega,rfl⟩
    split_ifs at h with hopen
    · split at h
      · cases (Prod.mk.inj h).2
      · refine ⟨hp.1,hopen,?_⟩
        rcases a.appendIndex_cases env (d.onLog a.info.name (fun f => f.writeAt raw a.logSize))
          o.baseOffset interval with ⟨e',hi⟩|hi|⟨entry,hen,hi⟩
        · rw [hi] at h
          cases (Prod.mk.inj h).2
        · rw [hi] at h
          obtain ⟨h1,h2⟩ := Prod.mk.inj h
          exact Or.inl ⟨h1.symm,(Except.ok.inj h2).symm⟩
        · rw [hi] at h
          obtain ⟨h1,h2⟩ := Prod.mk.inj h
          rw [hp.2] at hen
          exact Or.inr ⟨entry,hen,h1.symm,(Except.ok.inj h2).symm⟩
    · cases (Prod.mk.inj h).2

theorem appendBatch_unindexed (env : IoEnv) (a b : ActiveSegment) (d d' : Dir) (raw : Bytes)
    (interval : Nat) (h : a.appendBatch env d raw interval=(d',.ok b))
    (hfew : ¬interval≤ subU64 a.logSize a.lastIndexedLogPos) :
    d'=d.onLog a.info.name (fun f => f.writeAt raw a.logSize) ∧ b=a.grow raw := by
  unfold appendBatch at h
  split at h
  · cases (Prod.mk.inj h).2
  · split_ifs at h
    · split at h
      · cases (Prod.mk.inj h).2
      · rw [appendIndex,if_neg hfew] at h
        obtain ⟨h1,h2⟩ := Prod.mk.inj h
        exact ⟨h1.symm,(Except.ok.inj h2).symm⟩
    · cases (Prod.mk.inj h).2

/-- What a successful append changes: the log grows by the batch at its accounted end. -/
structure Wrote (a b : ActiveSegment) (d d' : Dir) (raw : Bytes) : Prop where
  opened : a.logOpen=true
  logs : d'.logs=(d.onLog a.info.name (fun f => f.writeAt raw a.logSize)).logs
  rest : d.SegmentsOnly d'
  named : b.info.name=a.info.name
  based : b.info.baseOffset=a.info.baseOffset
  epoch : b.info.epoch=a.info.epoch
  logSize : b.logSize=a.logSize+raw.length
  stays : b.logOpen=true

theorem appendBatch_wrote (env : IoEnv) (a b : ActiveSegment) (d d' : Dir) (raw : Bytes)
    (interval : Nat) (h : a.appendBatch env d raw interval=(d',.ok b)) : Wrote a b d d' raw := by
  obtain ⟨_,h2,h3|⟨entry,_,h3⟩⟩ := appendBatch_ok env a b d d' raw interval h
  all_goals
    obtain ⟨rfl,rfl⟩ := h3
    have hr := d.onLog_segmentsOnly a.info.name (fun f => f.writeAt raw a.logSize)
    exact ⟨h2,rfl,⟨hr.manifest,hr.producers,hr.txns,hr.checkpoint⟩,rfl,rfl,rfl,rfl,h2⟩

theorem Wrote.mem_logs {a b : ActiveSegment} {raw : Bytes} (h : Wrote a b d d' raw)
    (n : SegmentName) : n∈d'.logs ↔ n∈d.logs := by
  rw [h.logs]
  exact d.mem_onLog _ _ n

theorem Wrote.lookup {a b : ActiveSegment} {raw : Bytes} (h : Wrote a b d d' raw)
    (hf : d.logs.lookup a.info.name=some f) (n : SegmentName) :
    d'.logs.lookup n=if n=a.info.name then some (f.writeAt raw a.logSize) else d.logs.lookup n := by
  rw [h.logs,Dir.onLog_lookup,hf]
  rfl

def fresh (baseOffset epoch : Int) : ActiveSegment :=
  ⟨⟨baseOffset,epoch,0,segmentName baseOffset epoch,unknownMaxTimestamp⟩,
    true,true,0,0,0,unknownMaxTimestamp⟩

def created (d : Dir) (n : SegmentName) : Dir :=
  {d with logs := d.logs.insert n {},indexes := d.indexes.insert n []}

theorem created_lookup (d : Dir) (n m : SegmentName) :
    (created d n).logs.lookup m=if m=n then some {} else d.logs.lookup m := by
  split_ifs with h
  · rw [h]; exact AList.lookup_insert _
  · exact AList.lookup_insert_ne h

theorem mem_created (d : Dir) (n m : SegmentName) : m∈(created d n).logs ↔ m=n ∨ m∈d.logs :=
  AList.mem_insert _

theorem create_cases (env : IoEnv) (d : Dir) (base epoch : Int) :
    create env d base epoch=(created d (segmentName base epoch),.ok (fresh base epoch)) ∨
    (∃e,create env d base epoch=(d,.error e)) ∨
    ∃e,create env d base epoch=(d.eraseLog (segmentName base epoch),.error e) := by
  unfold create
  split_ifs
  · exact Or.inl rfl
  · exact Or.inr (Or.inr ⟨_,rfl⟩)
  · exact Or.inr (Or.inl ⟨_,rfl⟩)

theorem syncLog_cases (env : IoEnv) (a : ActiveSegment) (d : Dir) :
    (a.logOpen=true ∧ a.syncLog env d=(d.onLog a.info.name LogFile.syncAll,.ok ())) ∨
    ∃e,a.syncLog env d=(d,.error e) := by
  unfold syncLog
  split_ifs with h
  · exact Or.inl ⟨h,rfl⟩
  · exact Or.inr ⟨_,rfl⟩
  · exact Or.inr ⟨_,rfl⟩

def syncedDir (a : ActiveSegment) (d : Dir) : Dir :=
  if a.logOpen then d.onLog a.info.name LogFile.syncAll else d

theorem syncedDir_lookup (a : ActiveSegment) (d : Dir) (m : SegmentName) :
    (a.syncedDir d).logs.lookup m=
      if a.logOpen=true ∧ m=a.info.name then (d.logs.lookup m).map LogFile.syncAll
      else d.logs.lookup m := by
  unfold syncedDir
  by_cases ho : a.logOpen=true
  · rw [if_pos ho,Dir.onLog_lookup]
    by_cases hm : m=a.info.name
    · subst hm; simp [ho]
    · simp [hm]
  · simp [ho]

theorem mem_syncedDir (a : ActiveSegment) (d : Dir) (m : SegmentName) :
    m∈(a.syncedDir d).logs ↔ m∈d.logs := by
  unfold syncedDir
  split_ifs
  · exact d.mem_onLog _ _ m
  · rfl

theorem syncedDir_indexes (a : ActiveSegment) (d : Dir) : (a.syncedDir d).indexes=d.indexes := by
  unfold syncedDir
  split_ifs
  · exact (d.onLog_rest a.info.name LogFile.syncAll).1
  · rfl

theorem syncedDir_segmentsOnly (a : ActiveSegment) (d : Dir) : d.SegmentsOnly (a.syncedDir d) := by
  unfold syncedDir
  split_ifs
  · exact d.onLog_segmentsOnly _ _
  · exact .refl d

theorem rollFast_cases (env : IoEnv) (a : ActiveSegment) (d : Dir) (base epoch : Int) :
    a.rollFast env d base epoch=
      (created (a.syncedDir d) (segmentName base epoch),.ok (fresh base epoch,a.closedMeta)) ∨
    ∃d' e,a.rollFast env d base epoch=(d',.error e) ∧ (d'=d ∨ d'=a.syncedDir d ∨
        d'=(a.syncedDir d).eraseLog (segmentName base epoch)) := by
  have hsync : (if a.logOpen then a.syncLog env d else (d,.ok ()))=(a.syncedDir d,.ok ()) ∨
      ∃e,(if a.logOpen then a.syncLog env d else (d,.ok ()))=(d,.error e) := by
    unfold syncedDir
    split_ifs
    · exact (a.syncLog_cases env d).imp (fun h => h.2) id
    · exact Or.inl rfl
  unfold rollFast
  obtain hs|⟨e,hs⟩ := hsync <;> rw [hs]
  · rcases create_cases env (a.syncedDir d) base epoch with hc|⟨e,hc⟩|⟨e,hc⟩
    · exact Or.inl (by simp only [hc])
    · exact Or.inr ⟨_,e,by simp only [hc],Or.inr (Or.inl rfl)⟩
    · exact Or.inr ⟨_,e,by simp only [hc],Or.inr (Or.inr rfl)⟩
  · exact Or.inr ⟨d,e,rfl,Or.inl rfl⟩

end ActiveSegment

def Dir.Present (d : Dir) (m : SegmentMeta) (f : LogFile) : Prop :=
  d.logs.lookup m.name=some f ∧ metaOf m.name f=some m

theorem metaOf_some (n : SegmentName) (f : LogFile) (m : SegmentMeta) :
    metaOf n f=some m ↔ n=.stem m.epoch.toNat m.baseOffset ∧ 0≤ m.epoch ∧ m.epoch<2^32 ∧
      -2^63≤ m.baseOffset ∧ m.baseOffset<2^63 ∧
      m=⟨m.baseOffset,m.epoch,f.data.length,n,unknownMaxTimestamp⟩ := by
  cases n with
  | placeholder => simp [metaOf,SegmentName.parse]
  | stem e b =>
    simp only [metaOf,SegmentName.parse]
    split_ifs with h
    · constructor
      · rintro hm
        cases hm
        simp only [Int.toNat_natCast,true_and,and_true]
        omega
      · rintro ⟨hn,h0,_,_,_,hm⟩
        simp only [SegmentName.stem.injEq] at hn
        rw [hm]
        simp only [Option.map_some,Option.some.injEq,SegmentMeta.mk.injEq,and_true,hn.2,true_and]
        omega
    · simp only [Option.map_none,reduceCtorEq,SegmentName.stem.injEq,false_iff]
      omega

theorem before_refl (a : SegmentMeta) : a.Before a := Or.inr ⟨rfl,le_refl _⟩

theorem before_trans (a b c : SegmentMeta) (h : a.Before b) (k : b.Before c) : a.Before c := by
  unfold SegmentMeta.Before at *
  omega

theorem before_total (a b : SegmentMeta) : a.Before b ∨ b.Before a := by
  unfold SegmentMeta.Before
  omega

theorem before_base (a b : SegmentMeta) (h : a.Before b) : a.baseOffset≤b.baseOffset := by
  unfold SegmentMeta.Before at h
  omega

theorem sortedSegments_pairwise (d : Dir) : (sortedSegments d).Pairwise SegmentMeta.Before :=
  have : IsTrans SegmentMeta SegmentMeta.Before := ⟨before_trans⟩
  have : Std.Total SegmentMeta.Before := ⟨before_total⟩
  List.pairwise_insertionSort _ _

theorem mem_sortedSegments (d : Dir) (m : SegmentMeta) : m∈sortedSegments d ↔ ∃f,d.Present m f := by
  rw [sortedSegments,List.mem_insertionSort,List.mem_filterMap]
  constructor
  · rintro ⟨⟨n,f⟩,he,hm⟩
    have hn : m.name=n := by
      have h := ((metaOf_some n f m).mp hm).2.2.2.2.2
      rw [h]
    refine ⟨f,?_⟩
    rw [Dir.Present,hn]
    exact ⟨AList.mem_lookup_iff.mpr he,hm⟩
  · rintro ⟨f,hl,hm⟩
    exact ⟨⟨m.name,f⟩,AList.mem_lookup_iff.mp hl,hm⟩

theorem present_eq {m' : SegmentMeta} {f' : LogFile} (h : d.Present m f)
    (h' : d.Present m' f') (hb : m.baseOffset=m'.baseOffset) (he : m.epoch=m'.epoch) : m=m' := by
  obtain ⟨hn,_,_,_,_,hm⟩ := (metaOf_some _ _ _).mp h.2
  obtain ⟨hn',_,_,_,_,hm'⟩ := (metaOf_some _ _ _).mp h'.2
  have hnn : m.name=m'.name := by rw [hn,hn',hb,he]
  have hff : f=f' := by
    have hl := h.1
    rw [hnn,h'.1] at hl
    exact (Option.some.inj hl).symm
  rw [hm,hm',hb,he,hnn,hff]

theorem listSegments_sorted (d : Dir) :
    (listSegments d).Pairwise (fun a b => a.baseOffset<b.baseOffset) :=
  dedupByKey_sorted before_base (sortedSegments_pairwise d)

theorem mem_listSegments (d : Dir) (m : SegmentMeta) : m∈listSegments d ↔ (∃f,d.Present m f) ∧
      ∀m' f',d.Present m' f' → m'.baseOffset=m.baseOffset → m'.epoch≤ m.epoch := by
  constructor
  · intro h
    refine ⟨(mem_sortedSegments d m).mp (mem_of_mem_dedupByKey h),?_⟩
    intro m' f' hp hb
    have hm' := (mem_sortedSegments d m').mpr ⟨f',hp⟩
    have hr := dedupByKey_least before_refl before_base _
      (sortedSegments_pairwise d) m h m' hm' hb
    unfold SegmentMeta.Before at hr
    omega
  · rintro ⟨⟨f,hp⟩,hmax⟩
    obtain ⟨x,hx,hb⟩ := key_mem_dedupByKey SegmentMeta.baseOffset
      ((mem_sortedSegments d m).mpr ⟨f,hp⟩)
    obtain ⟨g,hg⟩ := (mem_sortedSegments d x).mp (mem_of_mem_dedupByKey hx)
    have hr := dedupByKey_least before_refl before_base _
      (sortedSegments_pairwise d) x hx m ((mem_sortedSegments d m).mpr ⟨f,hp⟩) hb.symm
    have hle := hmax x g hg hb
    have he : x.epoch=m.epoch := by unfold SegmentMeta.Before at hr; omega
    rw [← present_eq hg hp hb he]
    exact hx

def Dir.Top (d : Dir) (n : SegmentName) (base : Int) : Prop :=
  n∈d.logs ∧ ∃e,n.parse=some (base,e) ∧
    ∀n'∈d.logs,∀b' e',n'.parse=some (b',e') → b'<base ∨ (b'=base ∧ e'≤e)

theorem Dir.Top.congr (h : d.Top n base) (hk : ∀n,n∈d'.logs ↔ n∈d.logs) : d'.Top n base := by
  obtain ⟨hn,e,he,hall⟩ := h
  exact ⟨(hk n).mpr hn,e,he,fun n' hn' => hall n' ((hk n').mp hn')⟩

theorem Dir.Top.apart (h : d.Top n base) {ends : SegmentName → Int}
    (hi : Int) (hapart : ∀m∈d.logs,∀m'∈d.logs,∀b e b' e',m.parse=some (b,e) → m'.parse=some (b',e') →
      b<b' → ends m≤b') : ∀m∈d.logs,∀m'∈d.logs,∀b e b' e',m.parse=some (b,e) → m'.parse=some (b',e') →
      b<b' → Function.update ends n hi m≤b' := by
  obtain ⟨_,e0,hparse,hall⟩ := h
  intro m hm m' hm' b e b' e' hp hp' hlt
  by_cases htop : m=n
  · rw [htop,hparse] at hp
    obtain ⟨rfl,_⟩ := Prod.mk.inj (Option.some.inj hp)
    have := hall m' hm' b' e' hp'
    omega
  · rw [Function.update_of_ne htop]
    exact hapart m hm m' hm' b e b' e' hp hp' hlt

theorem Dir.filled_update {d' : Dir} {g : LogFile} {rows : SegmentName → List Bytes} {ends : SegmentName → Int}
    {row : List Bytes} {hi : Int} {P : SegmentName → LogFile → List Bytes → Int → Prop}
    (hlook : ∀m,d'.logs.lookup m=if m=n then some g else d.logs.lookup m) (hnew : P n g row hi)
    (hold : ∀m f,m≠n → d.logs.lookup m=some f → P m f (rows m) (ends m)) :
    ∀m f,d'.logs.lookup m=some f → P m f (Function.update rows n row m) (Function.update ends n hi m) := by
  intro m f hf
  rw [hlook] at hf
  by_cases hm : m=n
  · subst hm
    rw [if_pos rfl] at hf
    cases hf
    rw [Function.update_self,Function.update_self]
    exact hnew
  · rw [if_neg hm] at hf
    rw [Function.update_of_ne hm,Function.update_of_ne hm]
    exact hold m f hm hf

theorem present_of_lookup {e : Int} (hl : d.logs.lookup n=some f) (hp : n.parse=some (base,e)) :
    d.Present ⟨base,e,f.data.length,n,unknownMaxTimestamp⟩ f :=
  ⟨hl,by simp only [metaOf,hp,Option.map_some]⟩

theorem present_parse (h : d.Present m f) :
    m.name∈d.logs ∧ m.name.parse=some (m.baseOffset,m.epoch) ∧
    m=⟨m.baseOffset,m.epoch,f.data.length,m.name,unknownMaxTimestamp⟩ := by
  obtain ⟨hl,hm⟩ := h
  obtain ⟨hn,h0,h32,hlo,hhi,he⟩ := (metaOf_some _ _ _).mp hm
  refine ⟨Dir.mem_of_lookup hl,?_,he⟩
  rw [hn]
  simp only [SegmentName.parse]
  rw [if_pos ⟨by omega,hlo,hhi⟩]
  simp only [Option.some.injEq,Prod.mk.injEq,true_and]
  omega

theorem stem_parse_injective {n' : SegmentName} {p : Int × Int} (h : n.parse=some p)
    (h' : n'.parse=some p) : n=n' := by
  cases n with
  | placeholder => cases h
  | stem e b =>
    cases n' with
    | placeholder => cases h'
    | stem e' b' =>
      simp only [SegmentName.parse] at h h'
      split_ifs at h h'
      cases h
      obtain ⟨hb,he⟩ := Prod.mk.inj (Option.some.inj h')
      rw [hb,Int.ofNat_inj.mp he]

theorem present_top {e : Int} (hl : d.logs.lookup n=some f) (he : n.parse=some (base,e))
    (hall : ∀n'∈d.logs,∀b' e',n'.parse=some (b',e') → b'<base ∨ (b'=base ∧ e'≤e)) :
    (⟨base,e,f.data.length,n,unknownMaxTimestamp⟩ : SegmentMeta)∈listSegments d := by
  refine (mem_listSegments d _).mpr ⟨⟨f,present_of_lookup hl he⟩,?_⟩
  intro m f' hp hb
  obtain ⟨hk,hpar,_⟩ := present_parse hp
  have := hall _ hk _ _ hpar
  simp only at hb ⊢
  omega

theorem listSegments_getLast (h : d.Top n base) (hl : d.logs.lookup n=some f) :
    ∃e,n.parse=some (base,e) ∧
      (listSegments d).getLast?=some ⟨base,e,f.data.length,n,unknownMaxTimestamp⟩ := by
  obtain ⟨_,e,he,hall⟩ := h
  have hm := present_top hl he hall
  have hne : listSegments d≠[] := List.ne_nil_of_mem hm
  obtain ⟨⟨g,hg⟩,_⟩ := (mem_listSegments d _).mp (List.getLast_mem hne)
  obtain ⟨hk,hpar,_⟩ := present_parse hg
  have habove := hall _ hk _ _ hpar
  refine ⟨e,he,?_⟩
  rw [List.getLast?_eq_some_getLast hne]
  rcases eq_getLast_or_lt (listSegments_sorted d) hne hm with heq|hlt
  · rw [← heq]
  · simp only at hlt
    omega

theorem top_of_getLast (h : (listSegments d).getLast?=some m) :
    d.Top m.name m.baseOffset ∧ ∃f,d.Present m f := by
  have hne : listSegments d≠[] := fun hnil => by rw [hnil] at h; cases h
  have hmem := List.mem_of_getLast? h
  have hlast : (listSegments d).getLast hne=m := by
    rw [List.getLast?_eq_some_getLast hne] at h
    exact Option.some.inj h
  obtain ⟨⟨f,hf⟩,_⟩ := (mem_listSegments d m).mp hmem
  obtain ⟨hk,hpar,_⟩ := present_parse hf
  refine ⟨⟨hk,m.epoch,hpar,?_⟩,f,hf⟩
  intro n' hn' b' e' hp'
  obtain ⟨g,hg⟩ := Dir.lookup_of_mem hn'
  obtain ⟨x,hx,hb⟩ := key_mem_dedupByKey SegmentMeta.baseOffset
    ((mem_sortedSegments d _).mpr ⟨g,present_of_lookup hg hp'⟩)
  have hle := ((mem_listSegments d x).mp hx).2 _ g (present_of_lookup hg hp') hb.symm
  simp only at hb hle
  rcases eq_getLast_or_lt (listSegments_sorted d) hne hx with heq|hlt
  · rw [hlast] at heq
    rw [heq] at hb hle
    exact Or.inr ⟨hb.symm,hle⟩
  · rw [hlast] at hlt
    omega

theorem listSegments_eq_nil (h : listSegments d=[]) (hn : n∈d.logs) : n.parse=none := by
  cases hp : n.parse with
  | none => rfl
  | some p =>
    obtain ⟨g,hg⟩ := Dir.lookup_of_mem hn
    obtain ⟨x,hx,_⟩ := key_mem_dedupByKey SegmentMeta.baseOffset
      ((mem_sortedSegments d _).mpr ⟨g,present_of_lookup hg hp⟩)
    have hx' : x∈listSegments d := hx
    rw [h] at hx'
    cases hx'

end Kaas
