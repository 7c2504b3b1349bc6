import Kaas.Framework.Run
import Kaas.Storage.Lifecycle

namespace Kaas

/-- Where a broker stands with the partition. Between two phases other brokers may act; each phase
ends in one access to the manifest. -/
inductive Phase
  | down
  | opening (epoch hwm logStart : Int)
  | recovered (closed : List SegmentMeta) (active : ActiveSegment) (hwm epoch logStart : Int)
  | up (p : Partition)
  | persisting (p : Partition) (epoch : Int) (raising : Bool)
  | writing (p : Partition) (epoch : Int) (raising : Bool)

structure Cluster where
  dir : Dir
  phase : Nat → Phase

inductive ClusterCall
  | openRead
  | openScan (env : IoEnv)
  | openFinish
  | takeOver (env : IoEnv) (epoch : UInt32)
  | close
  | persistCheck (env : IoEnv)
  | persistWrite (env : IoEnv)

/-- What a broker's step leaves: the directory, its phase, and the epoch to which a `take_over`
that returned `Ok` raised it in this step. -/
structure Moved where
  dir : Dir
  phase : Phase
  raised : Option Int := none

def persistEnd (env : IoEnv) (s : Store) (epoch : Int) (raising persisted : Bool) : Moved :=
  if raising then ⟨s.dir,.up (takeOverFinish s epoch).toPartition,some epoch⟩
  else ⟨(closeFinish env s persisted).dir,.down,none⟩

def persistFailed (d : Dir) (p : Partition) : Moved := ⟨d,.up p,none⟩

def brokerStep (crc : Crc32c) (d : Dir) : Phase → ClusterCall → Option Moved
  | .down,.openRead => match d.manifest.read with
    | .error _ => some ⟨d,.down,none⟩
    | .ok m => some ⟨d,.opening m.values.1 m.values.2.1 m.values.2.2,none⟩
  | .opening epoch hwm logStart,.openScan env => match openActive env d hwm epoch with
    | (d,.error _) => some ⟨d,.down,none⟩
    | (d,.ok (closed,a)) => some ⟨(repairTail crc d a).1,
        .recovered closed (repairTail crc d a).2 (recoveryScan crc d a).highWatermark epoch logStart,none⟩
  | .recovered closed a hwm epoch logStart,.openFinish =>
    match restoreState d closed a hwm epoch logStart with
    | (d,.error _) => some ⟨d,.down,none⟩
    | (d,.ok g) => some ⟨d,.up ⟨g,snapshotOf g⟩,none⟩
  | .up p,.takeOver env epoch =>
    if (epoch.toNat : Int)≤p.epoch then some ⟨d,.up p,none⟩
    else match rollForEpochLocked env ⟨p,d⟩ epoch.toNat with
      | (s,.error _) => some ⟨s.dir,.up s.toPartition,none⟩
      | (s,.ok _) => some ⟨s.dir,.persisting s.toPartition epoch.toNat true,none⟩
  | .up p,.close => some ⟨d,.persisting p p.epoch false,none⟩
  | .persisting p epoch raising,.persistCheck env =>
    if superseded d epoch then some (persistEnd env ⟨p,d⟩ epoch raising false)
    else match persistWindows env p.toPartitionInner d with
      | (d,.error _) => some (persistFailed d p)
      | (d,.ok _) => some ⟨d,.writing p epoch raising,none⟩
  | .writing p epoch raising,.persistWrite env =>
    if env.persistManifest then
      some (persistEnd env ⟨p,(persistManifest p.toPartitionInner d epoch).1⟩ epoch raising
        (persistManifest p.toPartitionInner d epoch).2)
    else some (persistFailed d p)
  | _,_ => none

def Cluster.step (crc : Crc32c) (b : Nat) (call : ClusterCall) (c : Cluster) :
    Option (Cluster × Option Int) :=
  match brokerStep crc c.dir (c.phase b) call with
  | none => none
  | some m => some (⟨m.dir,Function.update c.phase b m.phase⟩,m.raised)

variable {crc : Crc32c} {e : Int}

theorem brokerStep_manifest {d : Dir} {ph : Phase} {call : ClusterCall} {m : Moved}
    (h : brokerStep crc d ph call=some m) :
    m.dir.manifest=d.manifest ∨ ∃x,m.dir.manifest=(d.manifest.writeUnlessSuperseded x).1 := by
  unfold brokerStep at h
  split at h
  · split at h <;> (cases h; exact Or.inl rfl)
  · rename_i epoch hwm logStart env
    have ho := openActive_manifest env d hwm epoch
    split at h
    · rename_i hd
      rw [hd] at ho
      cases h
      exact Or.inl ho
    · rename_i d' closed a hd
      rw [hd] at ho
      cases h
      exact Or.inl ((repairTail_manifest crc d' a).trans ho)
  · rename_i closed a hwm epoch logStart
    have hr := restoreState_manifest d closed a hwm epoch logStart
    split at h <;>
    · rename_i hd
      rw [hd] at hr
      cases h
      rcases hr with hr|hr
      · exact Or.inl hr
      · exact Or.inr ⟨_,hr⟩
  · rename_i p env epoch
    have hr := rollForEpochLocked_manifest env ⟨p,d⟩ epoch.toNat
    split_ifs at h
    · cases h
      exact Or.inl rfl
    · split at h <;>
      · rename_i hd
        rw [hd] at hr
        cases h
        exact Or.inl hr
  · cases h
    exact Or.inl rfl
  · rename_i p epoch raising env
    have hw := persistWindows_manifest env p.toPartitionInner d
    split_ifs at h
    · cases h
      left
      unfold persistEnd
      split_ifs
      · rfl
      · exact closeFinish_manifest env ⟨p,d⟩ false
    · split at h <;>
      · rename_i hd
        rw [hd] at hw
        cases h
        exact Or.inl hw
  · rename_i p epoch raising env
    split_ifs at h
    · cases h
      right
      refine ⟨⟨epoch,p.highWater,p.logStart⟩,?_⟩
      unfold persistEnd
      split_ifs
      · rfl
      · rw [closeFinish_manifest]; rfl
    · cases h
      exact Or.inl rfl
  · cases h

theorem persistEnd_raised {env : IoEnv} {s : Store} {epoch : Int} {raising persisted : Bool}
    (h : (persistEnd env s epoch raising persisted).raised=some e) :
    e=epoch ∧ (persistEnd env s epoch raising persisted).dir=s.dir ∧
    ∃p,(persistEnd env s epoch raising persisted).phase=.up p ∧ p.epoch=epoch := by
  cases raising with
  | true => exact ⟨(Option.some.inj h).symm,rfl,_,rfl,rfl⟩
  | false => cases h

theorem writeUnlessSuperseded_durable_iff (d : Dir) (x : Manifest) :
    (d.manifest.writeUnlessSuperseded x).1.durableEpoch=some x.epoch ↔ superseded d x.epoch=false := by
  rw [ManifestFiles.writeUnlessSuperseded_epoch]
  rcases ManifestFiles.writeUnlessSuperseded_cases d.manifest x with ⟨m,hm,hlt,he⟩|⟨_,he,hle⟩
  · have hs := (superseded_iff d x.epoch).mpr ⟨m,hm,hlt⟩
    rw [he,hs]
    simp only [Option.some.injEq,Bool.true_eq_false,iff_false]
    omega
  · have hs : superseded d x.epoch=false := by
      rw [← Bool.not_eq_true,superseded_iff]
      rintro ⟨m,hm,hlt⟩
      exact absurd (hle m hm) (not_le.mpr hlt)
    rw [he,hs]
    simp

theorem brokerStep_raised {d : Dir} {ph : Phase} {call : ClusterCall} {m : Moved}
    (h : brokerStep crc d ph call=some m) (hr : m.raised=some e) :
    (∃p,m.phase=.up p ∧ p.epoch=e) ∧
    (m.dir.manifest.durableEpoch=some e ↔ superseded d e=false) := by
  unfold brokerStep at h
  split at h
  · split at h <;> (cases h; cases hr)
  · split at h <;> (cases h; cases hr)
  · split at h <;> (cases h; cases hr)
  · split_ifs at h
    · cases h; cases hr
    · split at h <;> (cases h; cases hr)
  · cases h; cases hr
  · rename_i p epoch raising env
    by_cases hs : superseded d epoch=true
    · rw [if_pos hs] at h
      cases h
      obtain ⟨rfl,hd,hp⟩ := persistEnd_raised hr
      refine ⟨hp,?_⟩
      obtain ⟨e',he',hlt⟩ := superseded_durable hs
      rw [hd,he',hs]
      simp only [Option.some.injEq,Bool.true_eq_false,iff_false]
      omega
    · rw [if_neg hs] at h
      split at h <;> (cases h; cases hr)
  · rename_i p epoch raising env
    split_ifs at h
    · cases h
      obtain ⟨rfl,hd,hp⟩ := persistEnd_raised hr
      refine ⟨hp,?_⟩
      rw [hd]
      exact writeUnlessSuperseded_durable_iff d ⟨e,p.highWater,p.logStart⟩
    · cases h; cases hr
  · cases h

def Cluster.Steps (crc : Crc32c) (c : Cluster) (i : Nat × ClusterCall) (c' : Cluster) : Prop :=
  ∃r,c.step crc i.1 i.2=some (c',r)

theorem cluster_durable_le {c c' : Cluster} {i : Nat × ClusterCall} (h : c.Steps crc i c')
    (he : c.dir.manifest.durableEpoch=some e) :
    ∃e',c'.dir.manifest.durableEpoch=some e' ∧ e≤e' := by
  obtain ⟨r,hr⟩ := h
  unfold Cluster.step at hr
  split at hr
  · cases hr
  · rename_i m hm
    cases hr
    rcases brokerStep_manifest hm with hk|⟨x,hk⟩
    · exact ⟨e,by rw [hk]; exact he,le_refl e⟩
    · rw [hk]
      exact ManifestFiles.writeUnlessSuperseded_le _ x e he

/-- In every interleaving of opens, takeovers and closes by any number of brokers the manifest's
epoch never decreases, and a `take_over(e)` that returns `Ok` leaves `e` there exactly when no
higher epoch was there at that step. -/
theorem takeover_durable_iff (crc : Crc32c) (c0 c : Cluster)
    (run : Reaches (Cluster.Steps crc) (fun _ _ => True) c0 c) :
    (∀e,c0.dir.manifest.durableEpoch=some e → ∃e',c.dir.manifest.durableEpoch=some e' ∧ e≤e') ∧
    ∀b call c' e,c.step crc b call=some (c',some e) → (∃p,c'.phase b=.up p ∧ p.epoch=e) ∧
      (c'.dir.manifest.durableEpoch=some e ↔ superseded c.dir e=false) := by
  refine ⟨fun e he => ?_,fun b call c' e h => ?_⟩
  · let inv : Cluster → Prop := fun c => ∃e',c.dir.manifest.durableEpoch=some e' ∧ e≤e'
    have h0 : inv c0 := ⟨e,he,le_refl e⟩
    refine run.invariant h0 ?_
    rintro t i u ⟨e1,h1,hle⟩ _ hs
    obtain ⟨e2,h2,hle'⟩ := cluster_durable_le hs h1
    exact ⟨e2,h2,le_trans hle hle'⟩
  · unfold Cluster.step at h
    split at h
    · cases h
    · rename_i m hm
      obtain ⟨rfl,hr⟩ := Prod.mk.inj (Option.some.inj h)
      obtain ⟨⟨p,hp,he⟩,hd⟩ := brokerStep_raised hm hr
      exact ⟨⟨p,by simp [hp],he⟩,hd⟩

def Cluster.run (crc : Crc32c) (c : Cluster) (is : List (Nat × ClusterCall)) : Option Cluster :=
  runAll (fun c i => (c.step crc i.1 i.2).map Prod.fst) is c

theorem Cluster.run_reaches (crc : Crc32c) (is : List (Nat × ClusterCall)) (c c' : Cluster)
    (h : c.run crc is=some c') : Reaches (Cluster.Steps crc) (fun _ _ => True) c c' := by
  refine runAll_reaches (fun s i t ht => ?_) is (fun _ _ _ => trivial) c c c' .start h
  obtain ⟨⟨t',r⟩,hs,rfl⟩ := Option.map_eq_some_iff.mp ht
  exact ⟨r,hs⟩

def idleCluster : Cluster := ⟨{},fun _ => .down⟩

def openCalls (b : Nat) : List (Nat × ClusterCall) := [(b,.openRead),(b,.openScan {}),(b,.openFinish)]

theorem takeover_durable_alone : ∃c c',idleCluster.run castagnoli (openCalls 0++[(0,.takeOver {} 1),
      (0,.persistCheck {})])=some c ∧ c.step castagnoli 0 (.persistWrite {})=some (c',some 1) ∧
      superseded c.dir 1=false ∧ c'.dir.manifest.durableEpoch=some 1 := by
  have hrun : (idleCluster.run castagnoli
      (openCalls 0++[(0,.takeOver {} 1),(0,.persistCheck {})])).isSome=true := by decide +kernel
  obtain ⟨c,hc⟩ := Option.isSome_iff_exists.mp hrun
  have hstep : ((idleCluster.run castagnoli
      (openCalls 0++[(0,.takeOver {} 1),(0,.persistCheck {})])).bind (fun c =>
        (c.step castagnoli 0 (.persistWrite {})).map Prod.snd))=some (some 1) := by decide +kernel
  rw [hc,Option.bind_some] at hstep
  obtain ⟨⟨c',r⟩,hs,rfl⟩ := Option.map_eq_some_iff.mp hstep
  have hsup : (idleCluster.run castagnoli
      (openCalls 0++[(0,.takeOver {} 1),(0,.persistCheck {})])).map (fun c => superseded c.dir 1)=
        some false := by decide +kernel
  rw [hc] at hsup
  have hnone := Option.some.inj hsup
  have hiff := ((takeover_durable_iff castagnoli idleCluster c
    (Cluster.run_reaches castagnoli _ idleCluster c hc)).2 0 _ c' 1 hs).2
  exact ⟨c,c',hc,hs,hnone,hiff.mpr hnone⟩

/-- Broker 0 has taken over at epoch 5 when broker 1, still at 0, takes over at 4: the persist
step refuses, and the call raises broker 1 to 4 and returns `Ok` over a manifest at 5. -/
theorem superseded_takeover_returns_ok : ((idleCluster.run castagnoli (openCalls 0++openCalls 1++
      [(0,.takeOver {} 5),(0,.persistCheck {}),(0,.persistWrite {}),(1,.takeOver {} 4)])).bind
        (fun c => c.step castagnoli 1 (.persistCheck {}))).map
          (fun p => (p.2,p.1.dir.manifest.durableEpoch))=some (some 4,some 5) := by
  decide +kernel

/-! The phases of one broker in a row are the calls themselves. -/

def uninterrupted (crc : Crc32c) : List ClusterCall → Moved → Moved
  | [],m => m
  | call::calls,m => match brokerStep crc m.dir m.phase call with
    | none => m
    | some m' => uninterrupted crc calls m'

theorem uninterrupted_open (crc : Crc32c) (env : IoEnv) (d : Dir) :
    uninterrupted crc [.openRead,.openScan env,.openFinish] ⟨d,.down,none⟩=
      ⟨(openPartition crc env d).1,match (openPartition crc env d).2 with
        | .error _ => .down
        | .ok p => .up p,none⟩ := by
  unfold openPartition openBlocking
  cases hm : d.manifest.read with
  | error e => simp only [uninterrupted,brokerStep,hm]
  | ok m =>
    simp only [uninterrupted,brokerStep,hm]
    rcases ha : openActive env d m.values.2.1 m.values.1 with ⟨d1,e|⟨closed,a⟩⟩
    · simp only
    · simp only
      rcases hr : restoreState (repairTail crc d1 a).1 closed (repairTail crc d1 a).2
        (recoveryScan crc d1 a).highWatermark m.values.1 m.values.2.2 with ⟨d2,e|g⟩ <;> simp only

theorem uninterrupted_persist (crc : Crc32c) (env : IoEnv) (p : Partition) (d : Dir) (epoch : Int)
    (raising : Bool) :
    uninterrupted crc [.persistCheck env,.persistWrite env] ⟨d,.persisting p epoch raising,none⟩=
      match persistStateLocked env p.toPartitionInner d epoch with
      | (d,.error _) => persistFailed d p
      | (d,.ok persisted) => persistEnd env ⟨p,d⟩ epoch raising persisted := by
  have ended (env' : IoEnv) (s : Store) (persisted : Bool) :
      uninterrupted crc [.persistWrite env] (persistEnd env' s epoch raising persisted)=
        persistEnd env' s epoch raising persisted := by
    cases raising <;> rfl
  unfold persistStateLocked
  by_cases hs : superseded d epoch=true
  · rw [if_pos hs,uninterrupted]
    simp only [brokerStep,if_pos hs]
    exact ended env _ _
  · rw [if_neg hs,uninterrupted]
    simp only [brokerStep,if_neg hs]
    rcases hw : persistWindows env p.toPartitionInner d with ⟨d1,e|u⟩
    · rfl
    · simp only [uninterrupted,brokerStep]
      by_cases hm : env.persistManifest=true
      · simp only [if_pos hm]
      · simp only [if_neg hm]

theorem uninterrupted_takeOver (crc : Crc32c) (env : IoEnv) (p : Partition) (d : Dir) (epoch : UInt32) :
    (uninterrupted crc [.takeOver env epoch,.persistCheck env,.persistWrite env] ⟨d,.up p,
      none⟩).dir= (takeOver env epoch ⟨p,d⟩).1.dir ∧
    (uninterrupted crc [.takeOver env epoch,.persistCheck env,.persistWrite env] ⟨d,.up p,
      none⟩).phase= .up (takeOver env epoch ⟨p,d⟩).1.toPartition := by
  rw [uninterrupted]
  unfold takeOver
  by_cases he : (epoch.toNat : Int)≤p.epoch
  · simp only [brokerStep,if_pos he]
    exact ⟨rfl,rfl⟩
  · simp only [brokerStep,if_neg he]
    rcases hr : rollForEpochLocked env ⟨p,d⟩ epoch.toNat with ⟨s,e|u⟩
    · exact ⟨rfl,rfl⟩
    · simp only [uninterrupted_persist]
      rcases persistStateLocked env s.toPartitionInner s.dir epoch.toNat with ⟨d1,e|persisted⟩
      · exact ⟨rfl,rfl⟩
      · exact ⟨rfl,rfl⟩

theorem uninterrupted_close (crc : Crc32c) (env : IoEnv) (p : Partition) (d : Dir) :
    (uninterrupted crc [.close,.persistCheck env,.persistWrite env] ⟨d,.up p,none⟩).dir=
      (closePartition env ⟨p,d⟩).1.dir := by
  rw [uninterrupted]
  unfold closePartition
  simp only [brokerStep,uninterrupted_persist]
  rcases persistStateLocked env p.toPartitionInner d p.epoch with ⟨d1,e|persisted⟩
  · rfl
  · rfl

end Kaas
