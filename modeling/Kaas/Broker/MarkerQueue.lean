import Kaas.Broker.ControlBatch
import Kaas.Framework.Run
import Kaas.Txn.State

namespace Kaas

structure MarkerEntry where
  transactionalId : String
  producerId : Int
  producerEpoch : Int
  commit : Bool
  coordinatorEpoch : Int
  partitions : List TxnTopic
  deriving DecidableEq, Repr

namespace MarkerEntry

def fileName (e : MarkerEntry) : String := toString e.producerId++"-"++toString e.producerEpoch++".json"

def pairs (e : MarkerEntry) : List (String × Int) :=
  e.partitions.flatMap (fun t => t.partitions.map (fun p => (t.topic,p)))

end MarkerEntry

/-- The map that `enqueue_cross_broker_markers` packs the partitions of one target into. -/
def byTopic (parts : List (String × Int)) (m : AList (fun _ : String => List Int))
    : AList (fun _ : String => List Int) :=
  parts.foldl (fun m x => m.insert x.1 ((m.lookup x.1).getD []++[x.2])) m

def crossBrokerEntry (txnId : String) (pid epoch : Int) (commit : Bool)
    (parts : List (String × Int)) : MarkerEntry where
  transactionalId := txnId
  producerId := pid
  producerEpoch := epoch
  commit := commit
  coordinatorEpoch := 0
  partitions := (byTopic parts ∅).entries.map (fun e => ⟨e.1,e.2⟩)

/-- A queue file. The number of the transaction is not in the file: it tells consecutive
transactions of a producer apart. -/
structure QueueFile where
  entry : MarkerEntry
  txn : Nat
  deriving DecidableEq, Repr

/-- Where a broker's `MarkerWatcher` stands: at the files it still has to visit, or at the
partitions still to come of a file it has read. -/
inductive WatcherPhase
  | idle
  | ticking (files : List String)
  | applying (file : String) (read : QueueFile) (rest : List (String × Int)) (files : List String)
  deriving DecidableEq, Repr

structure MarkerOwed where
  target : String
  file : String
  txn : Nat
  pid : Int
  partition : String × Int
  commit : Bool
  deriving DecidableEq, Repr

structure MarkerWorld where
  inboxes : String → AList (fun _ : String => QueueFile) := fun _ => ∅
  watchers : String → WatcherPhase := fun _ => .idle
  owns : String → String × Int → Bool := fun _ _ => true
  logs : String × Int → List (Nat × Bytes) := fun _ => []
  owed : List MarkerOwed := []

inductive MarkerOp
  | enqueue (written : Bool) (target : String) (txn : Nat) (txnId : String) (pid epoch : Int) (commit : Bool)
      (parts : List (String × Int))
  | scan (broker : String) (listed : Bool)
  | read (broker : String) (readable : Bool)
  | apply (broker : String) (appended : Bool)
  | delete (broker : String) (removed : Bool)
  | restart (broker : String)
  | assign (owns : String → String × Int → Bool)

namespace MarkerWorld

def watch (w : MarkerWorld) (broker : String) (p : WatcherPhase) : MarkerWorld :=
  {w with watchers := Function.update w.watchers broker p}

def enqueue (w : MarkerWorld) (target : String) (f : QueueFile) : MarkerWorld :=
  {w with inboxes := Function.update w.inboxes target ((w.inboxes target).insert f.entry.fileName f)}

def promise (w : MarkerWorld) (target : String) (f : QueueFile) (parts : List (String × Int)) : MarkerWorld :=
  {w with owed := w.owed++
    parts.map (fun x => ⟨target,f.entry.fileName,f.txn,f.entry.producerId,x,f.entry.commit⟩)}

/-- One partition of `MarkerApplier::apply`: passed over unless the broker leads it; a failed append
keeps the file for the next tick. -/
def applyOne (crc : Crc32c) (w : MarkerWorld) (broker file : String) (f : QueueFile) (x : String × Int)
    (rest : List (String × Int)) (files : List String) (appended : Bool) : MarkerWorld :=
  if w.owns broker x then
    if appended then
      let e := f.entry
      let batch := buildControlBatch crc e.producerId e.producerEpoch e.commit e.coordinatorEpoch
      {w with logs := Function.update w.logs x (w.logs x++[(f.txn,batch)])}.watch broker
        (.applying file f rest files)
    else w.watch broker (.ticking files)
  else w.watch broker (.applying file f rest files)

def exec (crc : Crc32c) (w : MarkerWorld) : MarkerOp → MarkerWorld
  | .enqueue written target txn txnId pid epoch commit parts =>
    let f : QueueFile := ⟨crossBrokerEntry txnId pid epoch commit parts,txn⟩
    if target="" ∨ written=false then w else (w.enqueue target f).promise target f parts
  | .scan broker listed =>
    match w.watchers broker with
    | .idle => if listed then w.watch broker (.ticking (w.inboxes broker).keys) else w
    | .ticking [] => w.watch broker .idle
    | _ => w
  | .read broker readable =>
    match w.watchers broker with
    | .ticking (file::files) =>
      match (w.inboxes broker).lookup file with
      | none => w.watch broker (.ticking files)
      | some f =>
        if readable then w.watch broker (.applying file f f.entry.pairs files)
        else w.watch broker (.ticking files)
    | _ => w
  | .apply broker appended =>
    match w.watchers broker with
    | .applying file f (x::rest) files => w.applyOne crc broker file f x rest files appended
    | _ => w
  | .delete broker removed =>
    match w.watchers broker with
    | .applying file _ [] files =>
      if removed then
        {w with inboxes := Function.update w.inboxes broker ((w.inboxes broker).erase file)}.watch
          broker (.ticking files)
      else w.watch broker (.ticking files)
    | _ => w
  | .restart broker => w.watch broker .idle
  | .assign owns => {w with owns := owns}

/-- The partition's log has a control batch of the producer with that outcome, appended for that
transaction. -/
def Landed (w : MarkerWorld) (txn : Nat) (pid : Int) (x : String × Int) (commit : Bool) : Prop :=
  ∃m∈w.logs x,m.1=txn ∧ parseBatchTxnInfo m.2=some ⟨true,true,wrapI64 pid,some commit⟩

instance (w : MarkerWorld) (txn : Nat) (pid : Int) (x : String × Int) (commit : Bool) :
    Decidable (w.Landed txn pid x commit) :=
  inferInstanceAs (Decidable (∃m∈w.logs x,m.1=txn ∧
    parseBatchTxnInfo m.2=some ⟨true,true,wrapI64 pid,some commit⟩))

end MarkerWorld

def MarkerStep (crc : Crc32c) (w : MarkerWorld) (op : MarkerOp) (w' : MarkerWorld) : Prop := w.exec crc op=w'

def QueueFile.SameTxn (f g : QueueFile) : Prop :=
  f.txn=g.txn ∧ f.entry.producerId=g.entry.producerId ∧ f.entry.commit=g.entry.commit

instance (f g : QueueFile) : Decidable (f.SameTxn g) := inferInstanceAs (Decidable (_ ∧ _ ∧ _))

def MarkerWorld.Covers (w : MarkerWorld) (f g : QueueFile) (kept : List (String × Int)) : Prop :=
  ∀x∈f.entry.pairs,w.Landed f.txn f.entry.producerId x f.entry.commit ∨ f.SameTxn g ∧ x∈kept

instance (w : MarkerWorld) (f g : QueueFile) (kept : List (String × Int)) : Decidable (w.Covers f g kept) :=
  inferInstanceAs (Decidable (∀x∈f.entry.pairs,_ ∨ _ ∧ _))

/-- A file of that name can be written: the watcher is not about to delete it unapplied. -/
def WatcherPhase.Spares (w : MarkerWorld) (f : QueueFile) : WatcherPhase → Prop
  | .applying file g rest _ => file=f.entry.fileName → w.Covers f g rest
  | _ => True

instance (w : MarkerWorld) (f : QueueFile) : (p : WatcherPhase) → Decidable (p.Spares w f)
  | .idle | .ticking _ => .isTrue trivial
  | .applying file g rest _ => inferInstanceAs (Decidable (file=f.entry.fileName → w.Covers f g rest))

def WatcherPhase.Leads (w : MarkerWorld) (broker : String) : WatcherPhase → Prop
  | .applying _ f (x::_) _ => w.owns broker x=true ∨ w.Landed f.txn f.entry.producerId x f.entry.commit
  | _ => True

instance (w : MarkerWorld) (broker : String) : (p : WatcherPhase) → Decidable (p.Leads w broker)
  | .idle | .ticking _ | .applying _ _ [] _ => .isTrue trivial
  | .applying _ f (x::_) _ =>
    inferInstanceAs (Decidable (w.owns broker x=true ∨ w.Landed f.txn f.entry.producerId x f.entry.commit))

/-- An enqueue replaces no marker that is still to be applied and that it does not carry itself, and
none of its own is deleted with a file read before; the watcher applies a file while its broker
leads the partitions. -/
def MarkerOk (w : MarkerWorld) : MarkerOp → Prop
  | .enqueue _ target txn txnId pid epoch commit parts =>
    let f : QueueFile := ⟨crossBrokerEntry txnId pid epoch commit parts,txn⟩
    (∀g∈(w.inboxes target).lookup f.entry.fileName,w.Covers g f parts) ∧ (w.watchers target).Spares w f
  | .apply broker _ => (w.watchers broker).Leads w broker
  | _ => True

instance (w : MarkerWorld) : (op : MarkerOp) → Decidable (MarkerOk w op)
  | .enqueue .. => inferInstanceAs (Decidable (_ ∧ _))
  | .apply .. => inferInstanceAs (Decidable (WatcherPhase.Leads ..))
  | .scan .. | .read .. | .delete .. | .restart .. | .assign .. => .isTrue trivial

/-- The watcher holds no file of that name. -/
def WatcherPhase.Clear (name : String) : WatcherPhase → Prop
  | .applying file _ _ _ => file≠name
  | _ => True

instance WatcherPhase.decidableClear (name : String) : (p : WatcherPhase) → Decidable (p.Clear name)
  | .idle | .ticking _ => .isTrue trivial
  | .applying file _ _ _ => inferInstanceAs (Decidable (file≠name))

def WatcherPhase.Owned (owns : String × Int → Bool) : WatcherPhase → Prop
  | .applying _ _ (x::_) _ => owns x=true
  | _ => True

instance WatcherPhase.decidableOwned (owns : String × Int → Bool) : (p : WatcherPhase) →
    Decidable (p.Owned owns)
  | .idle | .ticking _ | .applying _ _ [] _ => .isTrue trivial
  | .applying _ _ (x::_) _ => inferInstanceAs (Decidable (owns x=true))

/-- The condition by file names and transactions alone: a file of that name in the inbox is a retry
of the same transaction, the watcher holds none of that name, and it appends for partitions that its
broker leads. -/
def MarkerFree (w : MarkerWorld) : MarkerOp → Prop
  | .enqueue _ target txn txnId pid epoch commit parts =>
    let f : QueueFile := ⟨crossBrokerEntry txnId pid epoch commit parts,txn⟩
    (∀g∈(w.inboxes target).lookup f.entry.fileName,g.SameTxn f ∧ ∀x∈g.entry.pairs,x∈parts) ∧
      (w.watchers target).Clear f.entry.fileName
  | .apply broker _ => (w.watchers broker).Owned (w.owns broker)
  | _ => True

instance MarkerFree.decidable (w : MarkerWorld) : (op : MarkerOp) → Decidable (MarkerFree w op)
  | .enqueue .. => inferInstanceAs (Decidable (_ ∧ _))
  | .apply .. => inferInstanceAs (Decidable (WatcherPhase.Owned ..))
  | .scan .. | .read .. | .delete .. | .restart .. | .assign .. => .isTrue trivial

theorem WatcherPhase.Clear.spares {w : MarkerWorld} {f : QueueFile} {p : WatcherPhase}
    (h : p.Clear f.entry.fileName) : p.Spares w f := by
  cases p with
  | applying file g rest files =>
    intro heq
    exact absurd heq h
  | _ => trivial

theorem WatcherPhase.Owned.leads {w : MarkerWorld} {broker : String} {p : WatcherPhase}
    (h : p.Owned (w.owns broker)) : p.Leads w broker := by
  cases p with
  | applying file g rest files =>
    cases rest with
    | nil => trivial
    | cons x rest => exact Or.inl h
  | _ => trivial

theorem MarkerFree.markerOk {w : MarkerWorld} {op : MarkerOp} (h : MarkerFree w op) : MarkerOk w op := by
  cases op with
  | enqueue _ target txn txnId pid epoch commit parts =>
    obtain ⟨hfile,hclear⟩ := h
    refine ⟨?_,hclear.spares⟩
    intro g hg x hx
    obtain ⟨hsame,hsub⟩ := hfile g hg
    exact Or.inr ⟨hsame,hsub x hx⟩
  | apply broker _ => exact WatcherPhase.Owned.leads h
  | _ => trivial

theorem byTopic_mem (parts : List (String × Int)) (m : AList (fun _ : String => List Int))
    (t : String) (p : Int) :
    p∈((byTopic parts m).lookup t).getD [] ↔ p∈(m.lookup t).getD [] ∨ (t,p)∈parts := by
  induction parts generalizing m with
  | nil => simp [byTopic]
  | cons x parts ih =>
    have hcons : byTopic (x::parts) m=byTopic parts (m.insert x.1 ((m.lookup x.1).getD []++[x.2])) := rfl
    rw [hcons,ih,List.mem_cons]
    by_cases ht : t=x.1
    · rw [ht,AList.lookup_insert,Option.getD_some,List.mem_append,List.mem_singleton]
      constructor
      · intro h
        rcases h with (h|h)|h
        · exact Or.inl h
        · exact Or.inr (Or.inl (Prod.ext rfl h))
        · exact Or.inr (Or.inr h)
      · intro h
        rcases h with h|h|h
        · exact Or.inl (Or.inl h)
        · exact Or.inl (Or.inr (congrArg Prod.snd h))
        · exact Or.inr h
    · rw [AList.lookup_insert_ne ht]
      have hne : (t,p)≠x := fun h => ht (congrArg Prod.fst h)
      simp [hne]

theorem crossBrokerEntry_pairs (txnId : String) (pid epoch : Int) (commit : Bool) (parts : List (String × Int))
    (x : String × Int) : x∈(crossBrokerEntry txnId pid epoch commit parts).pairs ↔ x∈parts := by
  have hmem := byTopic_mem parts ∅ x.1 x.2
  rw [AList.lookup_empty] at hmem
  have hparts : x∈parts ↔ x.2∈((byTopic parts ∅).lookup x.1).getD [] := by
    rw [hmem]
    simp
  rw [hparts]
  simp only [crossBrokerEntry,MarkerEntry.pairs,List.mem_flatMap,List.mem_map]
  constructor
  · intro ⟨t,⟨e,he,ht⟩,p,hp,hx⟩
    rw [← ht] at hp hx
    rw [← hx,AList.mem_lookup_iff.mpr he]
    exact hp
  · intro h
    cases hl : (byTopic parts ∅).lookup x.1 with
    | none =>
      rw [hl] at h
      cases h
    | some l =>
      rw [hl] at h
      exact ⟨⟨x.1,l⟩,⟨⟨x.1,l⟩,AList.mem_lookup_iff.mp hl,rfl⟩,x.2,h,rfl⟩

def QueueFile.Carries (f : QueueFile) (o : MarkerOwed) : Prop :=
  f.txn=o.txn ∧ f.entry.producerId=o.pid ∧ f.entry.commit=o.commit ∧ o.partition∈f.entry.pairs

/-- Every promised marker has landed or is in its file, and a watcher at work on a file still has
before it what of the file has not landed. -/
structure MarkerSound (w : MarkerWorld) : Prop where
  kept : ∀o∈w.owed,w.Landed o.txn o.pid o.partition o.commit ∨
    ∃f,(w.inboxes o.target).lookup o.file=some f ∧ f.Carries o
  held : ∀b file g rest files,w.watchers b=.applying file g rest files →
    ∀f,(w.inboxes b).lookup file=some f → w.Covers f g rest

section Markers

variable {crc : Crc32c} {w w' : MarkerWorld} {f g : QueueFile} {rest : List (String × Int)}
    {txn : Nat} {pid : Int}
  {x : String × Int} {commit : Bool} {broker file target : String} {files : List String}

theorem MarkerWorld.Landed.mono (h : w.Landed txn pid x commit) (hlogs : ∀y,w.logs y⊆w'.logs y) :
    w'.Landed txn pid x commit := by
  obtain ⟨m,hm,h⟩ := h
  exact ⟨m,hlogs x hm,h⟩

theorem MarkerWorld.Covers.mono (h : w.Covers f g rest) (hlogs : ∀y,w.logs y⊆w'.logs y)
    : w'.Covers f g rest := by
  intro x hx
  rcases h x hx with hl|hr
  · exact Or.inl (hl.mono hlogs)
  · exact Or.inr hr

theorem watch_self (w : MarkerWorld) (broker : String) (p : WatcherPhase)
    : (w.watch broker p).watchers broker=p :=
  Function.update_self ..

theorem watch_other (w : MarkerWorld) (p : WatcherPhase) {b : String} (hb : b≠broker) :
    (w.watch broker p).watchers b=w.watchers b := Function.update_of_ne hb ..

theorem MarkerSound.turned (h : MarkerSound w) (broker : String) (hinbox : w'.inboxes=w.inboxes)
    (howed : w'.owed=w.owed)
    (hlogs : ∀y,w.logs y⊆w'.logs y) (hother : ∀b,b≠broker → w'.watchers b=w.watchers b)
    (hself : ∀file g rest files,w'.watchers broker=.applying file g rest files →
      ∀f,(w.inboxes broker).lookup file=some f → w'.Covers f g rest) : MarkerSound w' := by
  constructor
  · intro o ho
    rw [howed] at ho
    rw [hinbox]
    rcases h.kept o ho with hl|hf
    · exact Or.inl (hl.mono hlogs)
    · exact Or.inr hf
  · intro b file g rest files hw f hf
    rw [hinbox] at hf
    by_cases hb : b=broker
    · rw [hb] at hw hf
      exact hself file g rest files hw f hf
    · rw [hother b hb] at hw
      exact (h.held b file g rest files hw f hf).mono hlogs

theorem MarkerSound.watch (h : MarkerSound w) (p : WatcherPhase)
    (hself : ∀file g rest files,p=.applying file g rest files →
      ∀f,(w.inboxes broker).lookup file=some f → w.Covers f g rest) : MarkerSound (w.watch broker p) := by
  refine h.turned broker rfl rfl (fun _ => List.Subset.refl _) (fun b hb => watch_other w p hb) ?_
  intro file g rest files hw
  rw [watch_self] at hw
  exact hself file g rest files hw

theorem MarkerSound.ticking (h : MarkerSound w) (files : List String) :
    MarkerSound (w.watch broker (.ticking files)) := by
  apply h.watch
  intro file g rest files hp
  cases hp

theorem MarkerSound.enqueue (h : MarkerSound w) (hpairs : ∀x,x∈f.entry.pairs ↔ x∈rest)
    (hold : ∀g∈(w.inboxes target).lookup f.entry.fileName,w.Covers g f rest)
    (hspare : (w.watchers target).Spares w f) : MarkerSound ((w.enqueue target f).promise target f rest) := by
  have hlookup : ∀b file,(((w.enqueue target f).promise target f rest).inboxes b).lookup file=
      if b=target ∧ file=f.entry.fileName then some f else (w.inboxes b).lookup file := by
    intro b file
    by_cases hb : b=target
    · subst hb
      rw [MarkerWorld.promise,MarkerWorld.enqueue]
      dsimp only
      rw [Function.update_self]
      by_cases hfile : file=f.entry.fileName
      · rw [if_pos ⟨rfl,hfile⟩,hfile,AList.lookup_insert]
      · rw [if_neg (fun hc => hfile hc.2),AList.lookup_insert_ne hfile]
    · rw [if_neg (fun hc => hb hc.1)]
      simp only [MarkerWorld.promise,MarkerWorld.enqueue,Function.update_of_ne hb]
  constructor
  · intro o ho
    rw [hlookup]
    rcases List.mem_append.mp ho with ho|ho
    · rcases h.kept o ho with hl|⟨g,hg,hc⟩
      · exact Or.inl hl
      · split_ifs with hsame
        · rw [hsame.1,hsame.2] at hg
          rcases hold g hg o.partition hc.2.2.2 with hl|⟨⟨h1,h2,h3⟩,hx⟩
          · rw [hc.1,hc.2.1,hc.2.2.1] at hl
            exact Or.inl hl
          · exact Or.inr ⟨f,rfl,h1.symm.trans hc.1,h2.symm.trans hc.2.1,h3.symm.trans hc.2.2.1,
              (hpairs _).mpr hx⟩
        · exact Or.inr ⟨g,hg,hc⟩
    · obtain ⟨x,hx,rfl⟩ := List.mem_map.mp ho
      rw [if_pos ⟨rfl,rfl⟩]
      exact Or.inr ⟨f,rfl,rfl,rfl,rfl,(hpairs x).mpr hx⟩
  · intro b file g kept files hw y hy
    rw [hlookup] at hy
    have hw' : w.watchers b=.applying file g kept files := hw
    split_ifs at hy with hsame
    · cases hy
      rw [hsame.1] at hw'
      rw [hw'] at hspare
      exact hspare hsame.2
    · exact h.held b file g kept files hw' y hy

theorem MarkerSound.applyOne (h : MarkerSound w) (hw : w.watchers broker=.applying file f (x::rest) files)
    (hlead : (w.watchers broker).Leads w broker) (appended : Bool) :
    MarkerSound (w.applyOne crc broker file f x rest files appended) := by
  rw [hw] at hlead
  have hheld := h.held broker file f (x::rest) files hw
  unfold MarkerWorld.applyOne
  split_ifs with hown happ
  · -- appended: the marker is in the log from here on
    have hlogs : ∀y,w.logs y⊆Function.update w.logs x
      (w.logs x++[(f.txn,buildControlBatch crc f.entry.producerId
        f.entry.producerEpoch f.entry.commit f.entry.coordinatorEpoch)]) y := by
      intro y
      by_cases hy : y=x
      · rw [hy,Function.update_self]
        exact List.subset_append_left _ _
      · rw [Function.update_of_ne hy]
        exact List.Subset.refl _
    refine h.turned broker rfl rfl hlogs (fun b hb => watch_other _ _ hb) ?_
    intro file' g rest' files' hp y hy
    rw [watch_self] at hp
    cases hp
    intro z hz
    rcases hheld y hy z hz with hl|⟨hsame,hin⟩
    · exact Or.inl (hl.mono hlogs)
    · rcases List.mem_cons.mp hin with rfl|hin
      · apply Or.inl
        rw [hsame.1,hsame.2.1,hsame.2.2]
        refine ⟨(f.txn,buildControlBatch crc f.entry.producerId f.entry.producerEpoch f.entry.commit
          f.entry.coordinatorEpoch),?_,rfl,buildControlBatch_txn ..⟩
        simp [MarkerWorld.watch]
      · exact Or.inr ⟨hsame,hin⟩
  · exact h.ticking files
  · -- passed over: the marker had landed before
    have hl := hlead.resolve_left hown
    apply h.watch
    intro file' g rest' files' hp y hy
    cases hp
    intro z hz
    rcases hheld y hy z hz with hl'|⟨hsame,hin⟩
    · exact Or.inl hl'
    · rcases List.mem_cons.mp hin with rfl|hin
      · rw [hsame.1,hsame.2.1,hsame.2.2]
        exact Or.inl hl
      · exact Or.inr ⟨hsame,hin⟩

theorem MarkerSound.delete (h : MarkerSound w) (hw : w.watchers broker=.applying file f [] files) :
    MarkerSound ({w with inboxes := Function.update w.inboxes broker ((w.inboxes broker).erase file)}.watch broker
      (.ticking files)) := by
  have hlookup : ∀b name,(b=broker ∧ name=file) ∨
      (Function.update w.inboxes broker ((w.inboxes broker).erase file) b).lookup
        name=(w.inboxes b).lookup name := by
    intro b name
    by_cases hb : b=broker
    · rw [hb,Function.update_self]
      by_cases hname : name=file
      · exact Or.inl ⟨rfl,hname⟩
      · exact Or.inr (AList.lookup_erase_ne hname)
    · rw [Function.update_of_ne hb]
      exact Or.inr rfl
  constructor
  · intro o ho
    rcases h.kept o ho with hl|⟨g,hg,hc⟩
    · exact Or.inl hl
    · rcases hlookup o.target o.file with ⟨h1,h2⟩|hsame
      · rw [h1,h2] at hg
        rcases h.held broker file f [] files hw g hg o.partition hc.2.2.2 with hl|⟨_,hx⟩
        · rw [hc.1,hc.2.1,hc.2.2.1] at hl
          exact Or.inl hl
        · cases hx
      · exact Or.inr ⟨g,hsame.trans hg,hc⟩
  · intro b name g rest fs hp y hy
    by_cases hb : b=broker
    · rw [hb,watch_self] at hp
      cases hp
    · have hp' : w.watchers b=.applying name g rest fs := (watch_other _ _ hb).symm.trans hp
      rcases hlookup b name with ⟨hb',_⟩|hsame
      · exact absurd hb' hb
      · exact h.held b name g rest fs hp' y (hsame.symm.trans hy)

theorem markerSound_step (h : MarkerSound w) {op : MarkerOp} (hok : MarkerOk w op)
    : MarkerSound (w.exec crc op) := by
  cases op with
  | enqueue written target txn txnId pid epoch commit parts =>
    simp only [MarkerWorld.exec]
    split_ifs
    · exact h
    · exact h.enqueue (crossBrokerEntry_pairs txnId pid epoch commit parts) hok.1 hok.2
  | scan broker listed =>
    simp only [MarkerWorld.exec]
    split
    · split_ifs
      · exact h.ticking _
      · exact h
    · apply h.watch
      intro file g rest files hp
      cases hp
    · exact h
  | read broker readable =>
    simp only [MarkerWorld.exec]
    split
    · rename_i file files hw
      cases hf : (w.inboxes broker).lookup file with
      | none => exact h.ticking files
      | some f =>
        dsimp only
        split_ifs
        · apply h.watch
          intro file' g rest files' hp y hy
          cases hp
          rw [hf] at hy
          cases hy
          exact fun x hx => Or.inr ⟨⟨rfl,rfl,rfl⟩,hx⟩
        · exact h.ticking files
    · exact h
  | apply broker appended =>
    simp only [MarkerWorld.exec]
    split
    · rename_i file f x rest files hw
      exact h.applyOne hw hok appended
    · exact h
  | delete broker removed =>
    simp only [MarkerWorld.exec]
    split
    · rename_i file f files hw
      split_ifs
      · exact h.delete hw
      · exact h.ticking files
    · exact h
  | restart broker =>
    apply h.watch
    intro file g rest files hp
    cases hp
  | assign owns => exact ⟨h.kept,h.held⟩

end Markers

/-- Every marker that was enqueued has landed in its partition, or its file still has it, in every
run in which no enqueue replaces what is still to be applied and every file is applied while its
broker leads the partitions. -/
theorem markers_land_before_file_goes {crc : Crc32c} {w : MarkerWorld}
    (run : Reaches (MarkerStep crc) MarkerOk {} w) :
    ∀o∈w.owed,w.Landed o.txn o.pid o.partition o.commit ∨
      ∃f,(w.inboxes o.target).lookup o.file=some f ∧ f.Carries o := by
  have hstart : MarkerSound {} := by
    constructor
    · intro o ho
      cases ho
    · intro b file g rest files hw
      cases hw
  have h : MarkerSound w := by
    refine run.invariant hstart ?_
    intro v op v' hv hok hstep
    cases hstep
    exact markerSound_step hv hok
  exact h.kept

theorem markers_land_twice : ∃w,Reaches (MarkerStep castagnoli) MarkerFree {} w ∧
      w.owed=[⟨"kaas-1","7-0.json",1,7,("t",0),true⟩,⟨"kaas-1","7-0.json",1,7,("t",0),true⟩,
        ⟨"kaas-1","7-0.json",2,7,("t",1),false⟩] ∧
      ∀o∈w.owed,w.Landed o.txn o.pid o.partition o.commit ∨
        ∃f,(w.inboxes o.target).lookup o.file=some f ∧ f.Carries o := by
  refine runChecked_finds_and (f := MarkerWorld.exec castagnoli) (fun _ _ => rfl) [
    .enqueue true "kaas-1" 1 "tx" 7 0 true [("t",0)],.enqueue true "kaas-1" 1 "tx" 7 0 true [("t",0)],
    .scan "kaas-1" true,.read "kaas-1" true,.apply "kaas-1" true,.delete "kaas-1" true,
    .enqueue true "kaas-1" 2 "tx" 7 0 false [("t",1)]] (by decide +kernel) ?_
  intro w hreach _
  exact markers_land_before_file_goes (hreach.mono fun _ _ => MarkerFree.markerOk)

/-- The second transaction's file replaces the first one's before the watcher has come. -/
theorem replaced_marker_lost :
    ¬∀(w : MarkerWorld),Reaches (MarkerStep castagnoli) (fun _ _ => True) {} w →
      ∀o∈w.owed,w.Landed o.txn o.pid o.partition o.commit ∨
        ∃f,(w.inboxes o.target).lookup o.file=some f ∧ f.Carries o := by
  intro hall
  obtain ⟨w,hreach,howed,hlog,hfile⟩ : ∃w,Reaches (MarkerStep castagnoli) (fun _ _ => True) {} w ∧
      ⟨"kaas-1","7-0.json",1,7,("t",0),true⟩∈w.owed ∧ ¬w.Landed 1 7 ("t",0) true ∧
      ((w.inboxes "kaas-1").lookup "7-0.json").map (fun f => f.txn)=some 2 := by
    refine runChecked_finds (f := MarkerWorld.exec castagnoli) (fun _ _ => rfl) [
      .enqueue true "kaas-1" 1 "tx" 7 0 true [("t",0)],.enqueue true "kaas-1" 2 "tx" 7 0 false [("t",1)]] ?_
    decide +kernel
  rcases hall w hreach _ howed with hl|⟨f,hf,hcarries⟩
  · exact hlog hl
  · rw [hf] at hfile
    exact absurd (hcarries.1.symm.trans (Option.some.inj hfile)) (by decide)

end Kaas
