import Kaas.Storage.Contents
import Kaas.Storage.Layout
import Kaas.Storage.Index

namespace Kaas

section Files

variable {d : Dir} {n : SegmentName} {crc : Crc32c} {s : Store} {f : LogFile}

theorem logData_congr {d' : Dir} (h : d'.logs.lookup n=d.logs.lookup n) :
    d'.logData n=d.logData n := by
  rw [Dir.logData,h]
  rfl

theorem stored_logs (hf : s.dir.logs.lookup s.active.info.name=some f) (hlen : f.data.length=s.active.logSize)
    {env : IoEnv} {raw : Bytes} {interval : Nat} {a : ActiveSegment}
    (write : s.active.appendBatch env s.dir raw interval=(d,.ok a)) :
    (∀n,n∈d.logs ↔ n∈s.dir.logs) ∧ (∀n,n≠s.active.info.name → d.logData n=s.dir.logData n) ∧
    d.logData s.active.info.name=f.data++raw := by
  have hw := ActiveSegment.appendBatch_wrote _ _ _ _ _ _ _ write
  refine ⟨fun n => ?_,fun n hn => ?_,?_⟩
  · exact hw.mem_logs n
  · apply logData_congr
    rw [hw.lookup hf,if_neg hn]
  · have hlook : d.logs.lookup s.active.info.name=some (f.writeAt raw s.active.logSize) := by
      rw [hw.lookup hf,if_pos rfl]
    rw [Dir.logData_of_lookup _ _ _ hlook,LogFile.writeAt_data _ _ _ (le_of_eq hlen.symm),← hlen,
      List.take_length,List.drop_eq_nil_of_le (by omega),List.append_nil]

theorem completeRun_append {data raw : Bytes} (hclean : tornTail crc data=[]) (hraw : CompleteBatch crc raw) :
    completeRun crc (data++raw)=completeRun crc data++[raw] ∧ tornTail crc (data++raw)=[] := by
  have hdata : data=(completeRun crc data).flatten := by
    have heq := log_eq_run crc data
    rw [hclean,List.append_nil] at heq
    exact heq
  have hflat : data++raw=(completeRun crc data++[raw]).flatten := by
    rw [List.flatten_append,← hdata]
    simp
  rw [hflat]
  apply completeRun_flatten crc (completeRun crc data++[raw])
  intro x hx
  rcases List.mem_append.mp hx with hx|hx
  · exact completeRun_complete crc _ x hx
  · rw [List.mem_singleton.mp hx]
    exact hraw

theorem listSegments_covers {d : Dir} {n : SegmentName} (hn : n∈d.logs) {b e : Int}
    (hp : n.parse=some (b,e)) : ∃c∈listSegments d,c.baseOffset=b ∧ (c.name=n ∨ e<c.epoch) := by
  obtain ⟨k,hk⟩ := Dir.lookup_of_mem hn
  have hpresent := present_of_lookup hk hp
  obtain ⟨c,hc,hb⟩ := key_mem_dedupByKey SegmentMeta.baseOffset ((mem_sortedSegments d _).mpr ⟨k,hpresent⟩)
  have hlisted : c∈listSegments d := hc
  obtain ⟨⟨g,hg⟩,hmax⟩ := (mem_listSegments d c).mp hlisted
  have hle : e≤c.epoch := hmax _ k hpresent hb.symm
  refine ⟨c,hlisted,hb,?_⟩
  rcases eq_or_lt_of_le hle with heq|hlt
  · have hparse := (present_parse hg).2.1
    rw [hb,← heq] at hparse
    exact Or.inl (stem_parse_injective hparse hp)
  · exact Or.inr hlt

end Files

/-- How far a call of `ensure_open` has come behind its lookup in the map. -/
inductive OpenPhase
  | started
  | read (m : ReadResult)
  | listed (m : ReadResult) (segments : List SegmentMeta)
  | opened (m : ReadResult) (closed : List SegmentMeta) (a : ActiveSegment)
  | scanned (m : ReadResult) (closed : List SegmentMeta) (a : ActiveSegment) (scan : ScanResult)
  | repaired (m : ReadResult) (closed : List SegmentMeta) (a : ActiveSegment) (hwm : Int)
  | ready (p : Partition)
  | inserted
  | dropped
  | failed (e : StorageError)

def OpenPhase.step (crc : Crc32c) (env : IoEnv) (d : Dir) : OpenPhase → Dir × OpenPhase
  | .started => match d.manifest.read with
    | .error e => (d,.failed e)
    | .ok m => (d,.read m)
  | .read m => (d,.listed m (listSegments d))
  | .listed m segments => match segments.getLast? with
    | some last =>
      (((ActiveSegment.openMetaOnly last).openHandles d).1,
        .opened m segments.dropLast ((ActiveSegment.openMetaOnly last).openHandles d).2)
    | none => match ActiveSegment.create env d m.values.2.1 m.values.1 with
      | (d,.error e) => (d,.failed (.io e))
      | (d,.ok a) => (d,.opened m [] a)
  | .opened m closed a => (d,.scanned m closed a (recoveryScan crc d a))
  | .scanned m closed a scan =>
    if scan.stop=.eof then (d,.repaired m closed a scan.highWatermark)
    else ((a.truncateTo d scan.validEnd).1,
      .repaired m closed (a.truncateTo d scan.validEnd).2 scan.highWatermark)
  | .repaired m closed a hwm => match restoreState d closed a hwm m.values.1 m.values.2.2 with
    | (d,.error e) => (d,.failed e)
    | (d,.ok g) => (d,.ready ⟨g,snapshotOf g⟩)
  | ph => (d,ph)

def OpenPhase.isInserted : OpenPhase → Bool
  | .inserted => true
  | _ => false

def OpenPhase.ofResult : Except StorageError Partition → OpenPhase
  | .error e => .failed e
  | .ok p => .ready p

def OpenPhase.next (crc : Crc32c) (env : IoEnv) (q : Dir × OpenPhase) : Dir × OpenPhase := q.2.step crc env q.1

theorem next_opened (crc : Crc32c) (env : IoEnv) (d : Dir) (m : ReadResult)
    (closed : List SegmentMeta) (a : ActiveSegment) :
    (OpenPhase.next crc env)^[2] (d,.opened m closed a)=((repairTail crc d a).1,
      .repaired m closed (repairTail crc d a).2 (recoveryScan crc d a).highWatermark) := by
  simp only [Function.iterate_succ_apply,Function.iterate_zero_apply,OpenPhase.next,OpenPhase.step,repairTail]
  split_ifs
  · rfl
  · rfl

theorem openPartition_eq (crc : Crc32c) (env : IoEnv) (d : Dir) : openPartition crc env d=
      ((openBlocking crc env d).1,(openBlocking crc env d).2.map (fun g => ⟨g,snapshotOf g⟩)) := by
  unfold openPartition
  rcases openBlocking crc env d with ⟨d',e|g⟩ <;> rfl

theorem steps_openPartition (crc : Crc32c) (env : IoEnv) (d : Dir) :
    (OpenPhase.next crc env)^[6] (d,.started)=
      ((openPartition crc env d).1,OpenPhase.ofResult (openPartition crc env d).2) := by
  have tail (d : Dir) (m : ReadResult) (closed : List SegmentMeta) (a : ActiveSegment) :
      (OpenPhase.next crc env)^[3] (d,.opened m closed a)=
        ((restoreState (repairTail crc d a).1 closed (repairTail crc d a).2
          (recoveryScan crc d a).highWatermark m.values.1 m.values.2.2).1,
        OpenPhase.ofResult ((restoreState (repairTail crc d a).1 closed (repairTail crc d a).2
          (recoveryScan crc d a).highWatermark m.values.1 m.values.2.2).2.map
            (fun g => ⟨g,snapshotOf g⟩))) := by
    rw [Function.iterate_succ_apply',next_opened,OpenPhase.next,OpenPhase.step]
    rcases restoreState (repairTail crc d a).1 closed (repairTail crc d a).2
      (recoveryScan crc d a).highWatermark m.values.1 m.values.2.2 with ⟨d',e|g⟩ <;> rfl
  rw [openPartition_eq]
  unfold openBlocking
  rw [Function.iterate_succ_apply,OpenPhase.next,OpenPhase.step]
  cases d.manifest.read with
  | error e => rfl
  | ok m =>
    dsimp only
    rw [Function.iterate_succ_apply,OpenPhase.next,OpenPhase.step,Function.iterate_succ_apply,
      OpenPhase.next,OpenPhase.step]
    unfold openActive
    cases (listSegments d).getLast? with
    | some last => exact tail _ m _ _
    | none =>
      dsimp only
      rcases ActiveSegment.create env d m.values.2.1 m.values.1 with ⟨d',e|a⟩
      · rfl
      · exact tail _ m _ _

/-- The bytes of an acknowledged batch and where they were written. -/
structure AckedBytes where
  name : SegmentName
  start : Nat
  bytes : Bytes

def AckedBytes.InPlace (e : AckedBytes) (d : Dir) : Prop :=
  ((d.logData e.name).drop e.start).take e.bytes.length=e.bytes

instance (e : AckedBytes) (d : Dir) : Decidable (e.InPlace d) := inferInstanceAs (Decidable (_=_))

/-- One partition key: its directory, the calls of `ensure_open` behind their lookup, the instance
in the map and what that instance has acknowledged. -/
structure OpenRace where
  dir : Dir := {}
  openers : List OpenPhase := []
  live : Option Partition := none
  acked : List AckedBytes := []

inductive OpenRaceOp
  | call
  | advance (i : Nat) (env : IoEnv)
  | enter (i : Nat)
  | append (c : AppendCall)
  | commit (env : IoEnv)

def ackedBytes (batch : Bytes) (s : Store) : Except StorageError Appended → List AckedBytes
  | .ok (.stored assigned _ _) =>
    [⟨s.active.info.name,s.active.logSize-(rewriteBase batch assigned).length,rewriteBase batch assigned⟩]
  | _ => []

namespace OpenRace

def advance (crc : Crc32c) (w : OpenRace) (i : Nat) (env : IoEnv) : OpenRace :=
  match w.openers[i]? with
  | none => w
  | some ph => {w with
      dir := (ph.step crc env w.dir).1
      openers := w.openers.set i (ph.step crc env w.dir).2}

/-- The entry of the map: the loser takes the instance that is there and drops its own. -/
def enter (w : OpenRace) (i : Nat) : OpenRace :=
  match w.openers[i]?,w.live with
  | some (.ready p),none => {w with live := some p,openers := w.openers.set i .inserted}
  | some (.ready _),some _ => {w with openers := w.openers.set i .dropped}
  | _,_ => w

def append (w : OpenRace) (c : AppendCall) : OpenRace :=
  match w.live with
  | none => w
  | some p => match appendLocked c.cfg c.env c.epoch c.batch ⟨p,w.dir⟩ with
    | none => w
    | some (s,r) => {w with
        dir := s.dir
        live := some s.toPartition
        acked := w.acked++ackedBytes c.batch s r}

def commit (w : OpenRace) (env : IoEnv) : OpenRace :=
  match w.live with
  | none => w
  | some p => match commitLocked env ⟨p,w.dir⟩ with
    | (s,.error _) => {w with dir := s.dir,live := some s.toPartition}
    | (s,.ok (_,cp)) => {w with dir := (writeDue env s cp).dir,live := some (writeDue env s cp).toPartition}

def exec (crc : Crc32c) (w : OpenRace) : OpenRaceOp → OpenRace
  | .call => if w.live.isSome then w else {w with openers := w.openers++[.started]}
  | .advance i env => w.advance crc i env
  | .enter i => w.enter i
  | .append c => w.append c
  | .commit env => w.commit env

end OpenRace

def OpenRaceStep (crc : Crc32c) (w : OpenRace) (op : OpenRaceOp) (w' : OpenRace) : Prop := w.exec crc op=w'

/-- Nothing in the directory has to be created or repaired: it has a segment, no two of one base,
and every log is a run of complete batches, from its checkpoint as well. -/
structure Intact (crc : Crc32c) (d : Dir) : Prop where
  rooted : ∃n∈d.logs,n.parse≠none
  distinct : ∀n∈d.logs,∀n'∈d.logs,∀b e e',n.parse=some (b,e) → n'.parse=some (b,e') → n=n'
  clean : ∀n,tornTail crc (d.logData n)=[]
  checkpoint : ∀cp,d.checkpoint=.present cp → ∀n∈d.logs,∀e,n.parse=some (cp.segmentBase,e) → 0≤ cp.bytePos →
    cp.bytePos≤(d.logData n).length ∧ tornTail crc ((d.logData n).drop cp.bytePos.toNat)=[]

def Dir.Unused (d : Dir) (base : Int) : Prop :=
  (-2^63≤base ∧ base<2^63) ∧ (∀n∈d.logs.keys,∀b∈n.parse,b.1≠base) ∧ match d.checkpoint with
    | .present cp => cp.segmentBase≠base
    | _ => True

/-- What the instance in the map admits is a complete batch and is stored, and a roll starts at a
new base. -/
def OpenRaceOk (crc : Crc32c) (w : OpenRace) : OpenRaceOp → Prop
  | .append c => ∀p∈w.live,∀accepted,admission p.toPartitionInner c.epoch c.batch=.admitted accepted →
      CompleteBatch crc c.batch ∧
      (rollDue c.cfg c.env p.active c.batch=true → w.dir.Unused p.highWater) ∧
      ((appendLocked c.cfg c.env c.epoch c.batch ⟨p,w.dir⟩).bind (fun q => q.2.toOption)).isSome=true
  | _ => True

/-! What the recovery does in a directory that needs no repair. -/

section Recovery

variable {crc : Crc32c} {d d' : Dir} {a : ActiveSegment}

theorem scan_eof {data : Bytes} {start : Nat} (hwm : Int) (h : tornTail crc (data.drop start)=[]) :
    (scanHighWatermarkFrom crc data start hwm).stop=.eof := by
  have hrun := log_eq_run crc (data.drop start)
  rw [h,List.append_nil] at hrun
  have hnil : (logFraming crc).next []=.error .eof := (next_eof_iff crc []).mpr (by decide)
  have hsplits := Framing.splits_of_frames (completeRun crc (data.drop start))
    (fun f hf => (frame_iff_complete crc f).mpr (completeRun_complete crc _ f hf)) [] .eof hnil
  rw [List.append_nil,← hrun] at hsplits
  rw [scan_splits crc data start hwm hsplits]

structure Attached (d : Dir) (a : ActiveSegment) : Prop where
  opened : a.logOpen=true
  present : a.info.name∈d.logs
  named : ∃e,a.info.name.parse=some (a.info.baseOffset,e)
  sized : a.logSize≤(d.logData a.info.name).length

theorem recoveryScan_eof (h : Intact crc d) (ha : Attached d a) : (recoveryScan crc d a).stop=.eof := by
  have hfull : tornTail crc ((d.logData a.info.name).drop 0)=[] := h.clean a.info.name
  unfold recoveryScan recoveryStart
  split
  · rename_i cp hcp
    split_ifs with hin
    · obtain ⟨e,he⟩ := ha.named
      rw [← hin.1] at he
      exact scan_eof _ (h.checkpoint cp hcp _ ha.present e he hin.2.1).2
    · exact scan_eof _ hfull
  · exact scan_eof _ hfull

structure SameLogs (d d' : Dir) : Prop where
  mem : ∀n,n∈d'.logs ↔ n∈d.logs
  data : ∀n,d'.logData n=d.logData n
  checkpoint : d'.checkpoint=d.checkpoint

theorem SameLogs.refl (d : Dir) : SameLogs d d := ⟨fun _ => Iff.rfl,fun _ => rfl,rfl⟩

theorem SameLogs.of_lookup (h : ∀n,d'.logs.lookup n=d.logs.lookup n)
    (hc : d'.checkpoint=d.checkpoint) : SameLogs d d' := by
  refine ⟨fun n => ?_,fun n => logData_congr (h n),hc⟩
  rw [← AList.lookup_isSome,← AList.lookup_isSome,h n]

theorem SameLogs.intact (h : SameLogs d d') (hi : Intact crc d) : Intact crc d' := by
  refine ⟨?_,?_,?_,?_⟩
  · obtain ⟨n,hn,hp⟩ := hi.rooted
    exact ⟨n,(h.mem n).mpr hn,hp⟩
  · intro n hn n' hn'
    exact hi.distinct n ((h.mem n).mp hn) n' ((h.mem n').mp hn')
  · intro n
    rw [h.data]
    exact hi.clean n
  · intro cp hcp n hn
    rw [h.data]
    rw [h.checkpoint] at hcp
    exact hi.checkpoint cp hcp n ((h.mem n).mp hn)

theorem openHandles_attached {last : SegmentMeta} (hn : last.name∈d.logs)
    (hp : ∃e,last.name.parse=some (last.baseOffset,e)) :
    SameLogs d ((ActiveSegment.openMetaOnly last).openHandles d).1 ∧
    Attached ((ActiveSegment.openMetaOnly last).openHandles d).1
      ((ActiveSegment.openMetaOnly last).openHandles d).2 ∧
    ((ActiveSegment.openMetaOnly last).openHandles d).2.logSize=
      (d.logData ((ActiveSegment.openMetaOnly last).openHandles d).2.info.name).length := by
  obtain ⟨hlook,_,hcp,ha⟩ := openHandles_spec (ActiveSegment.openMetaOnly last) d rfl
  have hsame : SameLogs d ((ActiveSegment.openMetaOnly last).openHandles d).1 := by
    refine .of_lookup (fun n => ?_) hcp
    rw [hlook n]
    split_ifs with hn'
    · obtain ⟨f,hf⟩ := Dir.lookup_of_mem hn
      rw [hn']
      change some ((d.logs.lookup last.name).getD {})=d.logs.lookup last.name
      rw [hf]
      rfl
    · rfl
  rw [ha]
  refine ⟨hsame,⟨rfl,(hsame.mem _).mpr hn,hp,?_⟩,rfl⟩
  exact le_of_eq (congrArg List.length (hsame.data last.name)).symm

theorem restoreState_sameLogs (d : Dir) (closed : List SegmentMeta) (a : ActiveSegment)
    (hwm epoch logStart : Int) : SameLogs d (restoreState d closed a hwm epoch logStart).1 ∧
    ∀g,(restoreState d closed a hwm epoch logStart).2=.ok g → g.active=a := by
  unfold restoreState
  split
  · exact ⟨.refl d,fun g hg => by cases hg⟩
  · split
    · exact ⟨.refl d,fun g hg => by cases hg⟩
    · refine ⟨⟨fun _ => Iff.rfl,fun _ => rfl,rfl⟩,?_⟩
      intro g hg
      cases hg
      rfl

end Recovery

variable {live : Option Partition} {ph : OpenPhase} {p : Partition} {env : IoEnv} {s : Store}

namespace OpenRace

variable {crc : Crc32c} {w : OpenRace}

/-- The directory of one state and what it has become: logs are never lost and only grow, and before
an instance is in the map they stay as they are. -/
structure Grows (d d' : Dir) (live : Option Partition) : Prop where
  mem : ∀n∈d.logs,n∈d'.logs
  grown : ∀n,d.logData n<+:d'.logData n
  still : live=none → ∀n,d'.logData n=d.logData n

theorem Grows.of_sameLogs {d d' : Dir} (h : SameLogs d d') (live : Option Partition) : Grows d d' live :=
  ⟨fun n hn => (h.mem n).mpr hn,fun n => ⟨[],by rw [List.append_nil,h.data]⟩,fun _ => h.data⟩

/-- The segment a call works on; what was found of it is all of it as long as nobody can append. -/
structure Works (d : Dir) (live : Option Partition) (a : ActiveSegment) : Prop extends Attached d a where
  exact_size : live=none → a.logSize=(d.logData a.info.name).length

theorem Works.grows {d d' : Dir} {live' : Option Partition} {a : ActiveSegment} (h : Works d live a)
    (hg : Grows d d' live) (hlive : live'=none → live=none) : Works d' live' a := by
  refine ⟨⟨h.opened,hg.mem _ h.present,h.named,h.sized.trans (hg.grown a.info.name).length_le⟩,?_⟩
  intro hn
  rw [hg.still (hlive hn)]
  exact h.exact_size (hlive hn)

def OpenerSound (d : Dir) (live : Option Partition) : OpenPhase → Prop
  | .listed _ segments => ∃last,segments.getLast?=some last ∧ last.name∈d.logs ∧
      ∃e,last.name.parse=some (last.baseOffset,e)
  | .opened _ _ a => Works d live a
  | .scanned _ _ a scan => Works d live a ∧ scan.stop=.eof
  | .repaired _ _ a _ => Works d live a
  | .ready p => Works d live p.active
  | _ => True

theorem OpenerSound.grows {d d' : Dir} {live' : Option Partition} (h : OpenerSound d live ph)
    (hg : Grows d d' live) (hlive : live'=none → live=none) : OpenerSound d' live' ph := by
  cases ph with
  | listed m segments =>
    obtain ⟨last,hlast,hn,hp⟩ := h
    exact ⟨last,hlast,hg.mem _ hn,hp⟩
  | opened m closed a => exact Works.grows h hg hlive
  | scanned m closed a scan => exact ⟨Works.grows h.1 hg hlive,h.2⟩
  | repaired m closed a hwm | ready p => exact Works.grows h hg hlive
  | _ => trivial

theorem listSegments_last {d : Dir} (h : Intact crc d) :
    ∃last,(listSegments d).getLast?=some last ∧ last.name∈d.logs ∧
      ∃e,last.name.parse=some (last.baseOffset,e) := by
  obtain ⟨n,hn,hp⟩ := h.rooted
  obtain ⟨⟨b,e⟩,hparse⟩ := Option.ne_none_iff_exists'.mp hp
  obtain ⟨c,hc,_⟩ := listSegments_covers hn hparse
  have hne : listSegments d≠[] := List.ne_nil_of_mem hc
  obtain ⟨⟨g,hg⟩,_⟩ := (mem_listSegments d _).mp (List.getLast_mem hne)
  obtain ⟨hk,hpar,_⟩ := present_parse hg
  exact ⟨_,List.getLast?_eq_some_getLast hne,hk,_,hpar⟩

theorem step_sameLogs {d : Dir} (hi : Intact crc d) (h : OpenerSound d live ph) (env : IoEnv) :
    SameLogs d (ph.step crc env d).1 ∧ OpenerSound (ph.step crc env d).1 live (ph.step crc env d).2 := by
  cases ph with
  | started =>
    simp only [OpenPhase.step]
    cases d.manifest.read with
    | error e | ok m => exact ⟨.refl d,trivial⟩
  | read m => exact ⟨.refl d,listSegments_last hi⟩
  | listed m segments =>
    obtain ⟨last,hlast,hn,hp⟩ := h
    simp only [OpenPhase.step,hlast]
    obtain ⟨hsame,hatt,hsize⟩ := openHandles_attached hn hp
    exact ⟨hsame,hatt,fun _ => hsize.trans (congrArg List.length (hsame.data _)).symm⟩
  | opened m closed a => exact ⟨.refl d,h,recoveryScan_eof hi h.toAttached⟩
  | scanned m closed a scan =>
    simp only [OpenPhase.step,if_pos h.2]
    exact ⟨.refl d,h.1⟩
  | repaired m closed a hwm =>
    simp only [OpenPhase.step]
    obtain ⟨hsame,hactive⟩ := restoreState_sameLogs d closed a hwm m.values.1 m.values.2.2
    rcases hr : restoreState d closed a hwm m.values.1 m.values.2.2 with ⟨d',e|g⟩
    · rw [hr] at hsame
      exact ⟨hsame,trivial⟩
    · rw [hr] at hsame hactive
      refine ⟨hsame,?_⟩
      change Works d' live g.active
      rw [hactive g rfl]
      exact Works.grows h (.of_sameLogs hsame live) id
  | ready p => exact ⟨.refl d,h⟩
  | inserted | dropped | failed e => exact ⟨.refl d,trivial⟩

theorem intact_rewritten {d d' : Dir} (hi : Intact crc d) (hmem : ∀n,n∈d'.logs ↔ n∈d.logs)
    (hclean : ∀n,tornTail crc (d'.logData n)=[])
    (hcheck : ∀cp,d'.checkpoint=.present cp → ∀n∈d.logs,∀e,n.parse=some (cp.segmentBase,e) → 0≤ cp.bytePos →
      cp.bytePos≤(d'.logData n).length ∧ tornTail crc ((d'.logData n).drop cp.bytePos.toNat)=[]) :
        Intact crc d' where
  rooted := by
    obtain ⟨n,hn,hp⟩ := hi.rooted
    exact ⟨n,(hmem n).mpr hn,hp⟩
  distinct := fun n hn n' hn' => hi.distinct n ((hmem n).mp hn) n' ((hmem n').mp hn')
  clean := hclean
  checkpoint := fun cp hc n hn => hcheck cp hc n ((hmem n).mp hn)

theorem rolled_logs {d : Dir} (hnew : segmentName p.highWater p.epoch∉d.logs) :
    (∀n,n∈(rolled ⟨p,d⟩).dir.logs ↔ n=segmentName p.highWater p.epoch ∨ n∈d.logs) ∧
    (∀n,(rolled ⟨p,d⟩).dir.logData n=d.logData n) ∧ (rolled ⟨p,d⟩).dir.checkpoint=d.checkpoint := by
  refine ⟨fun n => ?_,fun n => ?_,(p.active.syncedDir_segmentsOnly d).checkpoint⟩
  · refine (ActiveSegment.mem_created _ _ n).trans (or_congr_right ?_)
    change n∈(p.active.syncedDir d).logs ↔ _
    unfold ActiveSegment.syncedDir
    split_ifs
    · exact d.mem_onLog _ _ n
    · exact Iff.rfl
  · by_cases hn : n=segmentName p.highWater p.epoch
    · have hold : d.logData n=[] := by
        unfold Dir.logData
        rw [hn,AList.lookup_eq_none.mpr hnew]
      have hlook : (rolled ⟨p,d⟩).dir.logs.lookup n=some {} := by
        refine (ActiveSegment.created_lookup _ _ n).trans ?_
        rw [if_pos hn]
      rw [Dir.logData_of_lookup _ _ _ hlook,hold]
    · have hlook : (rolled ⟨p,d⟩).dir.logs.lookup n=(p.active.syncedDir d).logs.lookup n := by
        refine (ActiveSegment.created_lookup _ _ n).trans ?_
        rw [if_neg hn]
      rw [logData_congr hlook]
      exact syncedDir_logData p.active d n

theorem rolled_works {d : Dir} (hi : Intact crc d) (hu : d.Unused p.highWater) :
    Grows d (rolled ⟨p,d⟩).dir none ∧ Intact crc (rolled ⟨p,d⟩).dir ∧
      Works (rolled ⟨p,d⟩).dir none (rolled ⟨p,d⟩).active := by
  obtain ⟨hrange,hbases,hcheck⟩ := hu
  have hparse := segmentName_parse p.epoch hrange
  have hnew : segmentName p.highWater p.epoch∉d.logs := by
    intro hin
    exact hbases _ (AList.mem_keys.mp hin) _ hparse rfl
  obtain ⟨hmem,hdata,hcp⟩ := rolled_logs hnew
  refine ⟨⟨fun n hn => (hmem n).mpr (Or.inr hn),fun n => ⟨[],by rw [List.append_nil,hdata]⟩,fun _ => hdata⟩,
    ⟨?_,?_,?_,?_⟩,⟨⟨rfl,(hmem _).mpr (Or.inl rfl),⟨_,hparse⟩,Nat.zero_le _⟩,?_⟩⟩
  · obtain ⟨n,hn,hp⟩ := hi.rooted
    exact ⟨n,(hmem n).mpr (Or.inr hn),hp⟩
  · intro n hn n' hn' b e e' hp hp'
    have hother (k : SegmentName) (hk : k∈d.logs) (x : Int) (hx : k.parse=some (b,x)) : b≠p.highWater :=
      hbases k (AList.mem_keys.mp hk) _ hx
    have hbase (k : SegmentName) (hk : k=segmentName p.highWater p.epoch) (x : Int)
        (hx : k.parse=some (b,x)) : b=p.highWater := by
      rw [hk,hparse] at hx
      cases hx
      rfl
    rcases (hmem n).mp hn with h1|h1 <;> rcases (hmem n').mp hn' with h2|h2
    · exact h1.trans h2.symm
    · exact absurd (hbase n h1 e hp) (hother n' h2 e' hp')
    · exact absurd (hbase n' h2 e' hp') (hother n h1 e hp)
    · exact hi.distinct n h1 n' h2 b e e' hp hp'
  · intro n
    rw [hdata]
    exact hi.clean n
  · intro cp hc n hn e hp h0
    rw [hcp] at hc
    rw [hc] at hcheck
    rcases (hmem n).mp hn with h1|h1
    · rw [h1,hparse] at hp
      exact absurd (congrArg Prod.fst (Option.some.inj hp)).symm hcheck
    · rw [hdata]
      exact hi.checkpoint cp hc n h1 e hp h0
  · intro _
    rw [hdata]
    change 0=(d.logData (segmentName p.highWater p.epoch)).length
    unfold Dir.logData
    rw [AList.lookup_eq_none.mpr hnew]
    rfl

theorem rollIfDue_works {d : Dir} {cfg : PartitionConfig} {batch : Bytes}
    (hi : Intact crc d) (hw : Works d none p.active)
    (hroll : rollDue cfg env p.active batch=true → d.Unused p.highWater)
    (roll : rollIfDue cfg env batch ⟨p,d⟩=(s,.ok ())) :
    Grows d s.dir none ∧ Intact crc s.dir ∧ Works s.dir none s.active := by
  by_cases hdue : rollDue cfg env p.active batch=true
  · rcases rollIfDue_cases cfg env batch ⟨p,d⟩ with hr|⟨_,hr⟩|⟨_,d',e,hr,_⟩
    · rw [hr] at roll
      cases roll
      exact ⟨.of_sameLogs (.refl d) none,hi,hw⟩
    · rw [hr] at roll
      cases roll
      exact rolled_works hi (hroll hdue)
    · rw [hr] at roll
      cases roll
  · unfold rollIfDue at roll
    rw [if_neg hdue] at roll
    cases roll
    exact ⟨.of_sameLogs (.refl d) none,hi,hw⟩

theorem written_works {raw : Bytes} {interval : Nat} {d : Dir} {a : ActiveSegment}
    (hi : Intact crc s.dir) (hw : Works s.dir none s.active) (hraw : CompleteBatch crc raw)
    (write : s.active.appendBatch env s.dir raw interval=(d,.ok a)) :
    (∀n∈s.dir.logs,n∈d.logs) ∧ (∀n,s.dir.logData n<+:d.logData n) ∧ Intact crc d ∧ Works d none a ∧
      AckedBytes.InPlace ⟨a.info.name,a.logSize-raw.length,raw⟩ d := by
  obtain ⟨f,hf⟩ := Dir.lookup_of_mem hw.present
  have hlen : f.data.length=s.active.logSize := by
    rw [hw.exact_size rfl,Dir.logData_of_lookup _ _ f hf]
  have hfd : s.dir.logData s.active.info.name=f.data := Dir.logData_of_lookup _ _ f hf
  obtain ⟨hmem,hother,hactive⟩ := stored_logs hf hlen write
  have hwrote := ActiveSegment.appendBatch_wrote _ _ _ _ _ _ _ write
  have hclean := completeRun_append (hfd ▸ hi.clean s.active.info.name) hraw
  have hgrown (n : SegmentName) : s.dir.logData n<+:d.logData n := by
    by_cases hn : n=s.active.info.name
    · rw [hn,hactive,hfd]
      exact List.prefix_append _ _
    · exact ⟨[],by rw [List.append_nil,hother n hn]⟩
  refine ⟨fun n hn => (hmem n).mpr hn,hgrown,intact_rewritten hi hmem ?_ ?_,
    ⟨⟨hwrote.stays,?_,?_,?_⟩,fun _ => ?_⟩,?_⟩
  · intro n
    by_cases hn : n=s.active.info.name
    · rw [hn,hactive]
      exact hclean.2
    · rw [hother n hn]
      exact hi.clean n
  · intro cp hc n hn e hp h0
    rw [hwrote.rest.checkpoint] at hc
    obtain ⟨hle,htail⟩ := hi.checkpoint cp hc n hn e hp h0
    by_cases hn' : n=s.active.info.name
    · rw [hn',hfd] at hle htail
      rw [hn',hactive,List.drop_append_of_le_length (by omega)]
      refine ⟨?_,(completeRun_append htail hraw).2⟩
      rw [List.length_append]
      omega
    · rw [hother n hn']
      exact ⟨hle,htail⟩
  · rw [hwrote.named]
    exact (hmem _).mpr hw.present
  · rw [hwrote.named,hwrote.based]
    exact hw.named
  · rw [hwrote.named,hactive,hwrote.logSize,List.length_append]
    omega
  · rw [hwrote.named,hactive,hwrote.logSize,List.length_append]
    omega
  · unfold AckedBytes.InPlace
    dsimp only
    rw [hwrote.named,hactive,hwrote.logSize,Nat.add_sub_cancel,← hlen,List.drop_left,List.take_length]

theorem inPlace_grows {e : AckedBytes} {d d' : Dir} (h : e.InPlace d)
    (hg : d.logData e.name<+:d'.logData e.name) : e.InPlace d' := by
  unfold AckedBytes.InPlace at h ⊢
  obtain ⟨x,hx⟩ := hg
  rw [← hx,List.drop_append,List.take_append_of_le_length]
  · exact h
  · have := congrArg List.length h
    rw [List.length_take] at this
    omega

theorem committed_works {t : Store} {seq : Nat} {cp : Option RecoveryCheckpoint}
    (hi : Intact crc s.dir) (hw : Works s.dir none s.active) (call : commitLocked env s=(t,.ok (seq,cp))) :
    Grows s.dir (writeDue env t cp).dir none ∧ Intact crc (writeDue env t cp).dir ∧
      Works (writeDue env t cp).dir none (writeDue env t cp).active := by
  obtain ⟨hinner,hlogs,_,_⟩ := commit_ends call
  obtain ⟨_,_,ht,hcp⟩ := commitLocked_ok call
  have hactive : (writeDue env t cp).active=s.active := by
    have h := congrArg PartitionInner.active hinner
    exact h
  have hmem (n : SegmentName) : n∈(writeDue env t cp).dir.logs ↔ n∈s.dir.logs := by
    rw [hlogs]
    exact s.dir.mem_onLog _ _ n
  have hdata (n : SegmentName) : (writeDue env t cp).dir.logData n=s.dir.logData n := by
    have hlook : (writeDue env t cp).dir.logs.lookup n=
        (s.dir.onLog s.active.info.name LogFile.syncAll).logs.lookup n := by rw [hlogs]
    rw [logData_congr hlook]
    exact (Dir.SameData.sync s.dir s.active.info.name).logData n
  have hgrows : Grows s.dir (writeDue env t cp).dir none :=
    ⟨fun n hn => (hmem n).mpr hn,fun n => ⟨[],by rw [List.append_nil,hdata]⟩,fun _ => hdata⟩
  have hcheck : (writeDue env t cp).dir.checkpoint=s.dir.checkpoint ∨
      (writeDue env t cp).dir.checkpoint=.present
        ⟨s.active.info.baseOffset,(s.active.logSize : Int),s.highWater⟩ := by
    have hrest := s.dir.onLog_segmentsOnly s.active.info.name LogFile.syncAll
    rw [ht]
    rcases hcp with rfl|rfl
    · exact Or.inl hrest.checkpoint
    · unfold writeDue
      dsimp only
      split_ifs
      · exact Or.inr rfl
      · exact Or.inl hrest.checkpoint
  refine ⟨hgrows,intact_rewritten hi hmem ?_ ?_,hactive ▸ Works.grows hw hgrows id⟩
  · intro n
    rw [hdata]
    exact hi.clean n
  · intro c hc n hn e hp h0
    rw [hdata]
    rcases hcheck with hold|hnew
    · exact hi.checkpoint c (hold.symm.trans hc) n hn e hp h0
    · obtain rfl : c=⟨s.active.info.baseOffset,(s.active.logSize : Int),s.highWater⟩ :=
        JsonFile.present.inj (hc.symm.trans hnew)
      -- the base is the active segment's, so the log is the active one
      obtain ⟨e',he'⟩ := hw.named
      obtain rfl := hi.distinct n hn _ hw.present _ e e' hp he'
      have hsize := hw.exact_size rfl
      rw [Int.toNat_natCast,hsize,List.drop_length]
      exact ⟨le_refl _,rfl⟩

structure Sound (crc : Crc32c) (w : OpenRace) : Prop where
  intact : Intact crc w.dir
  openers : ∀ph∈w.openers,OpenerSound w.dir w.live ph
  live : ∀p∈w.live,Works w.dir none p.active
  acked : ∀e∈w.acked,e.InPlace w.dir
  inserted : w.openers.countP OpenPhase.isInserted=w.live.toList.length

theorem isInserted_step (crc : Crc32c) (env : IoEnv) (d : Dir) (ph : OpenPhase) :
    (ph.step crc env d).2.isInserted=ph.isInserted := by
  cases ph with
  | started =>
    simp only [OpenPhase.step]
    cases d.manifest.read <;> rfl
  | listed m segments =>
    simp only [OpenPhase.step]
    cases segments.getLast? with
    | some last => rfl
    | none => rcases ActiveSegment.create env d m.values.2.1 m.values.1 with ⟨d',e|a⟩ <;> rfl
  | scanned m closed a scan =>
    simp only [OpenPhase.step]
    split_ifs <;> rfl
  | repaired m closed a hwm =>
    simp only [OpenPhase.step]
    rcases restoreState d closed a hwm m.values.1 m.values.2.2 with ⟨d',e|g⟩ <;> rfl
  | _ => rfl

theorem countP_set_phase {openers : List OpenPhase} {i : Nat} (h : openers[i]?=some ph)
    (ph' : OpenPhase) : (openers.set i ph').countP OpenPhase.isInserted+ph.isInserted.toNat=
      openers.countP OpenPhase.isInserted+ph'.isInserted.toNat := by
  obtain ⟨hlt,hget⟩ := List.getElem?_eq_some_iff.mp h
  have hpos (hp : ph.isInserted=true) : 0<openers.countP OpenPhase.isInserted :=
    List.countP_pos_iff.mpr ⟨ph,List.mem_of_getElem? h,hp⟩
  have hbit (b : Bool) : (if b=true then 1 else 0)=b.toNat := by cases b <;> rfl
  rw [List.countP_set hlt,hget,hbit,hbit]
  cases hp : ph.isInserted with
  | true =>
    have := hpos hp
    simp only [Bool.toNat_true]
    omega
  | false => rfl

theorem Sound.call (h : Sound crc w) : Sound crc {w with openers := w.openers++[.started]} := by
  refine ⟨h.intact,?_,h.live,h.acked,?_⟩
  · intro ph hph
    rcases List.mem_append.mp hph with hold|hnew
    · exact h.openers ph hold
    · obtain rfl := List.mem_singleton.mp hnew
      trivial
  · rw [List.countP_append,h.inserted]
    rfl

theorem Sound.advance (h : Sound crc w) (i : Nat) (env : IoEnv) : Sound crc (w.advance crc i env) := by
  unfold OpenRace.advance
  cases hi : w.openers[i]? with
  | none => exact h
  | some ph =>
    obtain ⟨hsame,hnext⟩ := step_sameLogs h.intact (h.openers ph (List.mem_of_getElem? hi)) env
    refine ⟨hsame.intact h.intact,?_,?_,?_,?_⟩
    · intro q hq
      rcases List.mem_or_eq_of_mem_set hq with hold|rfl
      · exact (h.openers q hold).grows (.of_sameLogs hsame _) id
      · exact hnext
    · intro p hp
      exact (h.live p hp).grows (.of_sameLogs hsame none) id
    · intro e he
      exact inPlace_grows (h.acked e he) ((Grows.of_sameLogs hsame none).grown e.name)
    · have hcount := countP_set_phase hi (ph.step crc env w.dir).2
      rw [isInserted_step] at hcount
      exact (Nat.add_right_cancel hcount).trans h.inserted

theorem Sound.enter (h : Sound crc w) (i : Nat) : Sound crc (w.enter i) := by
  have stays (live : Option Partition) (ph : OpenPhase) (hlive : live=none → w.live=none)
      (hph : OpenerSound w.dir live ph) : ∀q∈w.openers.set i ph,OpenerSound w.dir live q := by
    intro q hq
    rcases List.mem_or_eq_of_mem_set hq with hold|rfl
    · exact (h.openers q hold).grows (.of_sameLogs (.refl w.dir) _) hlive
    · exact hph
  unfold OpenRace.enter
  split
  · rename_i p hi hl
    refine ⟨h.intact,stays _ _ (fun he => by cases he) trivial,?_,h.acked,?_⟩
    · intro q hq
      cases hq
      have hready := h.openers _ (List.mem_of_getElem? hi)
      rw [hl] at hready
      exact hready
    · have hcount := countP_set_phase hi .inserted
      have hnone := h.inserted
      rw [hl] at hnone
      rw [hnone] at hcount
      exact hcount
  · rename_i p q hi hl
    refine ⟨h.intact,stays _ _ id trivial,h.live,h.acked,?_⟩
    exact (countP_set_phase hi .dropped).trans h.inserted
  · exact h

theorem Sound.served {q : Partition} {d : Dir} {new : List AckedBytes} (h : Sound crc w) (hl : w.live=some p)
    (hmem : ∀n∈w.dir.logs,n∈d.logs) (hgrown : ∀n,w.dir.logData n<+:d.logData n) (hi : Intact crc d)
    (hw : Works d none q.active) (hnew : ∀e∈new,e.InPlace d) :
    Sound crc {w with dir := d,live := some q,acked := w.acked++new} := by
  refine ⟨hi,?_,?_,?_,?_⟩
  · intro ph hph
    have hg : Grows w.dir d w.live := ⟨hmem,hgrown,fun hn => by rw [hl] at hn; cases hn⟩
    exact (h.openers ph hph).grows hg (fun hn => by cases hn)
  · intro p' hp'
    cases hp'
    exact hw
  · intro e he
    rcases List.mem_append.mp he with hold|hn
    · exact inPlace_grows (h.acked e hold) (hgrown e.name)
    · exact hnew e hn
  · have := h.inserted
    rw [hl] at this
    exact this

theorem Sound.append (h : Sound crc w) {c : AppendCall} (hok : OpenRaceOk crc w (.append c)) :
    Sound crc (w.append c) := by
  unfold OpenRace.append
  cases hl : w.live with
  | none => exact h
  | some p =>
    have hw := h.live p hl
    have stays : Sound crc {w with dir := w.dir,live := some p,acked := w.acked++[]} :=
      h.served hl (fun _ hn => hn) (fun _ => List.prefix_refl _) h.intact hw (fun e he => by cases he)
    dsimp only
    cases ha : appendLocked c.cfg c.env c.epoch c.batch ⟨p,w.dir⟩ with
    | none => exact h
    | some q =>
      obtain ⟨s,r⟩ := q
      dsimp only
      have hok' := hok p hl
      rw [ha] at hok'
      cases appendLocked_step ha with
      | refused e _ => exact stays
      | known base _ => exact stays
      | rollFailed accepted _ e hadm _ | failed accepted s1 d e hadm _ _ _ => cases (hok' accepted hadm).2.2
      | stored accepted s1 d a hadm roll long write =>
        obtain ⟨hcomplete,hroll,_⟩ := hok' accepted hadm
        obtain ⟨hg,hi1,hw1⟩ := rollIfDue_works h.intact hw hroll roll
        obtain ⟨hmem,hgrown,hi2,hw2,hplace⟩ := written_works hi1 hw1 (rewriteBase_complete _ hcomplete) write
        refine h.served hl (fun n hn => hmem n (hg.mem n hn))
          (fun n => (hg.grown n).trans (hgrown n)) hi2 hw2 ?_
        intro e he
        obtain rfl := List.mem_singleton.mp he
        exact hplace

theorem Sound.commit (h : Sound crc w) (env : IoEnv) : Sound crc (w.commit env) := by
  unfold OpenRace.commit
  cases hl : w.live with
  | none => exact h
  | some p =>
    have hw := h.live p hl
    have served {q : Partition} {d : Dir} (hg : Grows w.dir d none) (hi : Intact crc d)
        (hq : Works d none q.active) : Sound crc {w with dir := d,live := some q} := by
      have hnone : ∀e∈([] : List AckedBytes),e.InPlace d := List.forall_mem_nil _
      have hserved := h.served hl hg.mem hg.grown hi hq hnone
      rw [List.append_nil] at hserved
      exact hserved
    dsimp only
    rcases hc : commitLocked env ⟨p,w.dir⟩ with ⟨s,e|⟨seq,cp⟩⟩
    · rw [commitLocked_error hc]
      exact served (.of_sameLogs (.refl w.dir) none) h.intact hw
    · obtain ⟨hg,hi,hw'⟩ := committed_works (s := ⟨p,w.dir⟩) h.intact hw hc
      exact served hg hi hw'

theorem Sound.step (h : Sound crc w) {op : OpenRaceOp} (hok : OpenRaceOk crc w op) :
    Sound crc (w.exec crc op) := by
  cases op with
  | call =>
    unfold exec
    dsimp only
    split_ifs
    · exact h
    · exact h.call
  | advance i env => exact h.advance i env
  | enter i => exact h.enter i
  | append c => exact h.append hok
  | commit env => exact h.commit env

end OpenRace

/-- Over a directory that needs no repair, in every interleaving of the calls' steps with the
appends and commits of the instance in the map: acknowledged bytes stay in place, and no call
replaces the instance. -/
theorem losers_harmless {crc : Crc32c} {d : Dir} {w : OpenRace} (h : Intact crc d)
    (hrun : Reaches (OpenRaceStep crc) (OpenRaceOk crc) {dir := d} w) :
    (∀e∈w.acked,e.InPlace w.dir) ∧ w.openers.countP OpenPhase.isInserted=w.live.toList.length ∧
      ∀p,w.live=some p → ∀i env,(w.advance crc i env).live=some p ∧ (w.enter i).live=some p := by
  have hs : OpenRace.Sound crc w := by
    refine hrun.invariant ⟨h,?_,?_,?_,rfl⟩ ?_
    · intro ph hph
      cases hph
    · intro p hp
      cases hp
    · intro e he
      cases he
    · intro u op u' hu hok hstep
      rw [← hstep]
      exact hu.step hok
  refine ⟨hs.acked,hs.inserted,fun p hp i env => ⟨?_,?_⟩⟩
  · unfold OpenRace.advance
    split
    · exact hp
    · exact hp
  · unfold OpenRace.enter
    split
    · rename_i hl
      rw [hp] at hl
      cases hl
    · exact hp
    · exact hp

instance (d : Dir) (base : Int) : Decidable (d.Unused base) :=
  have : Decidable (match d.checkpoint with
      | .present cp => cp.segmentBase≠base
      | _ => True) := match d.checkpoint with
    | .present cp => inferInstanceAs (Decidable (cp.segmentBase≠base))
    | .absent | .corrupt => .isTrue trivial
  inferInstanceAs (Decidable (_ ∧ _ ∧ _))

instance (crc : Crc32c) (w : OpenRace) : (op : OpenRaceOp) → Decidable (OpenRaceOk crc w op)
  | .append _ => inferInstanceAs (Decidable (∀p∈_,∀_,_ → _))
  | .call | .advance _ _ | .enter _ | .commit _ => .isTrue trivial

theorem firstStore_intact (crc : Crc32c) : Intact crc firstStore.dir := by
  have hone (n : SegmentName) (hn : n∈firstStore.dir.logs) : n=segmentName 0 0 := by
    rcases (ActiveSegment.mem_created {} _ n).mp hn with hn|hn
    · exact hn
    · exact absurd hn (AList.notMem_empty n)
  have hempty (n : SegmentName) : firstStore.dir.logData n=[] := by
    have hlook : firstStore.dir.logs.lookup n=if n=segmentName 0 0 then some {} else none :=
      ActiveSegment.created_lookup {} _ n
    unfold Dir.logData
    rw [hlook]
    split_ifs <;> rfl
  refine ⟨⟨segmentName 0 0,(ActiveSegment.mem_created {} _ _).mpr (Or.inl rfl),by decide⟩,?_,?_,?_⟩
  · intro n hn n' hn' b e e' _ _
    rw [hone n hn,hone n' hn']
  · intro n
    rw [hempty]
    rfl
  · intro cp hcp
    cases hcp

theorem loser_dropped :
    ∃w,Reaches (OpenRaceStep castagnoli) (OpenRaceOk castagnoli) {dir := firstStore.dir} w ∧ w.acked.length=2 ∧
      w.openers.length=2 ∧ (∀e∈w.acked,e.InPlace w.dir) ∧ w.openers.countP OpenPhase.isInserted=1 := by
  obtain ⟨w,hw,hacked,hopeners,hlive⟩ :
      ∃w∈runChecked (fun w op => some (OpenRace.exec castagnoli w op)) (OpenRaceOk castagnoli) [
      .call,.call,.advance 0 {},.advance 1 {},.advance 0 {},.advance 1 {},.advance 0 {},.advance 1 {},
      .advance 0 {},.advance 0 {},.advance 0 {},.enter 0,.append {batch := plainBatch},.advance 1 {},.commit {},
      .append {batch := plainBatch},.advance 1 {},.advance 1 {},.enter 1] {dir := firstStore.dir},
      w.acked.length=2 ∧ w.openers.length=2 ∧ w.live.toList.length=1 := by decide +kernel
  have hreach := runChecked_total (fun _ _ => rfl) hw
  obtain ⟨hplace,hone,_⟩ := losers_harmless (firstStore_intact castagnoli) hreach
  exact ⟨w,hreach,hacked,hopeners,hplace,hone.trans hlive⟩

def zeroTailDir : Dir :=
  {firstStore.dir with logs := firstStore.dir.logs.insert (segmentName 0 0) ⟨List.replicate 12 0,0⟩}

/-- A call that scanned before the winner's append truncates it away; and over an empty directory a
call that listed before the winner's create empties the winner's segment with its own. -/
theorem losers_destructive :
    (∃w,Reaches (OpenRaceStep castagnoli) (fun _ _ => True) {dir := zeroTailDir} w ∧
      ¬∀e∈w.acked,e.InPlace w.dir) ∧
    ∃w,Reaches (OpenRaceStep castagnoli) (fun _ _ => True) {} w ∧ ¬∀e∈w.acked,e.InPlace w.dir := by
  constructor
  · refine runChecked_finds (f := OpenRace.exec castagnoli) (fun _ _ => rfl) [
      .call,.call,.advance 0 {},.advance 1 {},.advance 0 {},.advance 1 {},.advance 0 {},.advance 1 {},
      .advance 0 {},.advance 1 {},.advance 0 {},.advance 0 {},.enter 0,.append {batch := plainBatch},.commit {},
      .advance 1 {}] ?_
    decide +kernel
  · refine runChecked_finds (f := OpenRace.exec castagnoli) (fun _ _ => rfl) [
      .call,.call,.advance 0 {},.advance 1 {},.advance 0 {},.advance 1 {},.advance 0 {},.advance 0 {},
      .advance 0 {},.advance 0 {},.enter 0,.append {batch := plainBatch},.commit {},.advance 1 {}] ?_
    decide +kernel

end Kaas
