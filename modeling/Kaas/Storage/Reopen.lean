import Kaas.Storage.Node
import Kaas.Storage.TxnFold

namespace Kaas

/-- A partition that was closed and opened again has the epoch, the log start and the windows it was
closed with. -/
structure WindowsRestored (s : Store) (p : Partition) : Prop where
  logStart : p.logStart=s.logStart
  epoch : p.epoch=s.epoch
  producers : ∀pid,p.producerStates.lookup pid=s.producerStates.lookup pid
  openTxns : ∀pid,p.openTxns.lookup pid=s.openTxns.lookup pid
  abortedTxns : p.abortedTxns=(AbortedTxnIndex.restore s.abortedTxns).evictBelow s.logStart

def Unfenced (s : Store) : Prop := ∃m,s.dir.manifest.manifestJson=.present m ∧ m.epoch≤ s.epoch

variable {s s' : Store} {env closing opening : IoEnv} {crc : Crc32c} {d : Dir} {p : Partition}

theorem Unfenced.congr (h : Unfenced s) (hm : s'.dir.manifest=s.dir.manifest)
    (he : s'.epoch=s.epoch) : Unfenced s' := by
  obtain ⟨m,hp,hle⟩ := h
  exact ⟨m,hm ▸ hp,he ▸ hle⟩

theorem Unfenced.not_superseded (h : Unfenced s) (epoch : Int) (hle : s.epoch≤epoch) :
    superseded s.dir epoch=false := by
  obtain ⟨m,hm,hme⟩ := h
  refine Bool.eq_false_iff.mpr (fun hs => ?_)
  obtain ⟨m',hm',hlt⟩ := (superseded_iff _ _).mp hs
  rw [hm] at hm'
  cases hm'
  omega

theorem Unfenced.superseded (h : Unfenced s) : superseded s.dir s.epoch=false :=
  h.not_superseded s.epoch (le_refl _)

theorem closed_manifest (hu : Unfenced s) (h : closePartition env s=(s',.ok ())) :
    s'.dir.manifest.manifestJson=.present ⟨s.epoch,s.highWater,s.logStart⟩ := by
  obtain ⟨_,_,hm⟩ := closePartition_persisted h hu.superseded
  rw [hm]
  rcases ManifestFiles.writeUnlessSuperseded_cases s.dir.manifest ⟨s.epoch,s.highWater,s.logStart⟩ with
    ⟨m,hp,hlt,_⟩|⟨hw,_,_⟩
  · obtain ⟨m',hp',hle⟩ := hu
    rw [hp] at hp'
    cases hp'
    change s.epoch< m.epoch at hlt
    omega
  · exact hw

theorem closed_logs (h : closePartition env s=(s',.ok ())) : s.dir.SameData s'.dir := by
  obtain ⟨d,hw,hd⟩ := closePartition_ok h
  have hsync : s.dir.SameData (d.onLog s.active.info.name LogFile.syncAll) :=
    (Dir.SameData.of_logs hw.logs).trans (.sync d _)
  rcases hd with hd|⟨_,hd|hd⟩
  · rw [hd]
    exact .of_logs hw.logs
  · rw [hd]
    exact hsync
  · rw [hd]
    exact hsync.trans (.of_logs rfl)

theorem openPartition_keepsEpoch {d' : Dir} {m : Manifest}
    (h : openPartition crc env d=(d',.ok p)) (hm : d.manifest.manifestJson=.present m) : p.epoch=m.epoch := by
  obtain ⟨r,d1,closed,a,ho⟩ := openPartition_ok h
  have hread := ho.read
  rw [(ManifestFiles.read_present _ _).mpr hm] at hread
  cases hread
  have hsame : (repairTail crc d1 a).1.manifest=d.manifest := by
    have hact := openActive_manifest env d m.highWatermark m.epoch
    have had := ho.adopted
    change openActive env d m.highWatermark m.epoch=_ at had
    rw [had] at hact
    rw [(repairTail_segmentsOnly crc d1 a).manifest]
    exact hact
  have hw := (Prod.mk.inj ho.manifest).2
  rw [hsame] at hw
  rcases ManifestFiles.writeUnlessSuperseded_cases d.manifest ⟨m.epoch,p.highWater,p.logStart⟩ with
    ⟨m',hp,hlt,_⟩|⟨_,he,_⟩
  · rw [hm] at hp
    cases hp
    exact absurd hlt (lt_irrefl _)
  · exact hw.trans he

theorem openPartition_unfenced {d' : Dir} (h : openPartition crc env d=(d',.ok p)) :
    ∃m,d'.manifest.manifestJson=.present m ∧ m.epoch=p.epoch := by
  have he := openPartition_epoch h
  unfold ManifestFiles.durableEpoch at he
  split at he
  · rename_i m hm
    exact ⟨m,hm,Option.some.inj he⟩
  · cases he

theorem reopen_windows (hu : Unfenced s) (hclose : closePartition closing s=(s',.ok ()))
    (hopen : openPartition crc opening s'.dir=(d,.ok p)) {n : SegmentName} {base : Int}
    (htop : s.dir.Top n base) : WindowsRestored s p ∧ Unfenced ⟨p,d⟩ := by
  obtain ⟨hproducers,htxns,_⟩ := closePartition_persisted hclose hu.superseded
  have hmanifest := closed_manifest hu hclose
  have htop' : s'.dir.Top n base := htop.congr (closed_logs hclose).mem
  have hread := (ManifestFiles.read_present _ _).mpr hmanifest
  have hstart : p.logStart=s.logStart := openPartition_logStart hopen hread
  obtain ⟨h1,h2,h3⟩ := openPartition_restores hopen htop' hproducers htxns
  have hepoch : p.epoch=s.epoch := openPartition_keepsEpoch hopen hmanifest
  refine ⟨⟨hstart,hepoch,fun pid => ?_,fun pid => ?_,by rw [h3,hstart]⟩,?_⟩
  · rw [h1]
    exact lookup_collected s.producerStates pid
  · rw [h2]
    exact lookup_collected s.openTxns pid
  · obtain ⟨m,hm,he⟩ := openPartition_unfenced hopen
    exact ⟨m,hm,le_of_eq he⟩

theorem reopen_adopts
    (hnode : NodeSound crc ⟨s.dir,some s.toPartition,[],[]⟩) {f : LogFile} {fs : List Bytes}
    (ht : Tracks crc s f fs) (hsize : f.data.length=s.active.logSize)
    (hclose : closePartition closing s=(s',.ok ()))
    (hopen : openPartition crc opening s'.dir=(d,.ok p)) :
    ∃g,s'.dir.logs.lookup s.active.info.name=some g ∧ g.data=f.data ∧ completeRun crc g.data=fs ∧
      tornTail crc g.data=[] ∧
      Adopted crc s'.dir d p s.active.info.name s.active.info.baseOffset g := by
  have hdown := (nodeSound_close hnode rfl hclose).1
  obtain ⟨hrun,htail⟩ := ht.run hsize
  have htop' : s'.dir.Top s.active.info.name s.active.info.baseOffset :=
    ht.top.congr (closed_logs hclose).mem
  obtain ⟨g,hg⟩ := Dir.lookup_of_mem htop'.1
  have hgdata : g.data=f.data := (closed_logs hclose).data_eq ht.file hg
  rw [← hgdata] at hrun htail
  exact ⟨g,hg,hgdata,hrun,htail,openPartition_adopts hopen htop' hg
    (fun cp hc => hdown.checkpoints cp (Or.inl hc))⟩

theorem reopen_log
    (hnode : NodeSound crc ⟨s.dir,some s.toPartition,[],[]⟩) (hlog : s.active.logOpen=true)
    (hsize : (s.dir.logData s.active.info.name).length=s.active.logSize)
    (hclose : closePartition closing s=(s',.ok ()))
    (hopen : openPartition crc opening s'.dir=(d,.ok p)) :
    p.highWater=s.highWater ∧ NodeSound crc ⟨d,some p,[],[]⟩ ∧ p.closed=(listSegments s'.dir).dropLast ∧
    ∃n base,s.dir.Top n base ∧ s'.dir.Top n base ∧ d.Top n base := by
  have hdown := (nodeSound_close hnode rfl hclose).1
  rcases (hnode.live _ rfl).active with ⟨hdead,_⟩|⟨f,fs,ht,_⟩
  · exact absurd hlog (by rw [hdead]; decide)
  · rw [Dir.logData_of_lookup _ _ f ht.file] at hsize
    obtain ⟨g,hg,_,hrun,htail,had⟩ :=
      reopen_adopts hnode ht hsize hclose hopen
    have htop' : s'.dir.Top s.active.info.name s.active.info.baseOffset :=
      ht.top.congr (closed_logs hclose).mem
    have hfind (n : SegmentName) (base : Int) (k : LogFile) (hn : s'.dir.Top n base)
        (hk : s'.dir.logs.lookup n=some k) :
        base=s.active.info.baseOffset ∧ completeRun crc k.data=fs ∧ tornTail crc k.data=[] := by
      obtain ⟨rfl,rfl⟩ := top_unique hn htop'
      rw [hg] at hk
      cases hk
      exact ⟨rfl,hrun,htail⟩
    have hno : NoFragment crc s'.dir := fun n base k hn hk => Or.inl (hfind n base k hn hk).2.2
    have habove : EndsAbove crc s'.dir := by
      intro n base k hn hk hne
      obtain ⟨rfl,hr,_⟩ := hfind n base k hn hk
      rw [hr] at hne ⊢
      rw [ht.ends]
      exact ht.above hne
    have hup := (nodeSound_start hdown hopen hno habove).1
    refine ⟨?_,hup,had.closed,_,_,ht.top,htop',htop'.congr (had.mem htop'.1)⟩
    rw [had.highWater,hrun,ht.ends]

end Kaas
