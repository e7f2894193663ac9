import AffinityGraph.Actuator
import AffinityGraph.DomainSolver
import AffinityGraph.Graph
import AffinityGraph.Incremental
/-!
# Runtime — the supervisor's state and its lifecycle (`runtime.cpp`)

`Runtime` holds what the source's class holds, with the kernel its backend writes to beside it.  The functions here are
those that run when a thread starts, exits, declares an affinity or is sampled, and the way out: `pause` and
`trigger_fatal`.

`mutex_` is a flag.  A function that is never called by the holder is written as the section it runs under the lock; the
two that the holder does call, `pause` and `trigger_fatal`, try to take it, and a second acquisition never returns
(`Halt.blocked`).  The runtime has no thread profile, and what is only logged is left out.
-/
namespace AffinityGraph

inductive SolverKind where
  | incrementalHotspot
  | numaDomain
  deriving DecidableEq, Repr

structure Config where
  mode : Mode
  solver : SolverKind
  sampleIntervalSeconds : Nat := 1
  solveIntervalSeconds : Nat := 1
  hotspotEdgesPerThread : Nat := 4
  syncLogP95 : ℚ := 1
  shareLogP95 : ℚ := 1
  /-- the options `solve_numa_domains` fills from the configuration, window after window the same -/
  domainOptions : NumaDomainOptions := {}
  /-- those of the incremental branch, likewise -/
  incrementalOptions : IncrementalOptions := {}
  minimumConfidence : ℚ := 4 / 5
  activeDemandThreshold : ℚ := 1 / 20
  inactiveDemandThreshold : ℚ := 0
  dynamic : Bool := true
  staticQuiescenceSeconds : Nat := 30
  collectorFailureRestoreSeconds : Nat := 30

inductive EventKind where
  | taskFork
  | taskExit
  | futex
  | vfs
  | taskExec
  | taskRename
  | affinity
  deriving DecidableEq, Repr

/-- `affinitygraph_bpf_event`, its mask as the CPUs whose bits are set. -/
structure BpfEvent where
  kind : EventKind
  tgid : Int := 0
  tid : Tid := 0
  peerTid : Tid := 0
  parentTgid : Int := 0
  parentTid : Tid := 0
  timestampNs : Nat := 0
  startTimeNs : Nat := 0
  peerStartTimeNs : Nat := 0
  valueNs : Nat := 0
  resource : Nat := 0
  startRoutine : Nat := 0
  comm : String := ""
  maskCpus : Mask := []

structure PendingRelationKey where
  kind : EventKind
  tgid : Int
  tid : Tid
  peerTid : Tid
  startTimeNs : Nat
  peerStartTimeNs : Nat
  deriving DecidableEq

structure PendingRelationValue where
  timestampNs : Nat
  valueNs : Nat
  deriving DecidableEq

structure LifecycleRecord where
  tgid : Int := -1
  parentTgid : Int := -1
  parentTid : Tid := -1
  tid : Tid := -1
  startRoutine : Nat := 0
  bpfStartTimeNs : Nat := 0
  procStarttime : Nat := 0
  createdNs : Nat := 0
  startSymbol : String := ""
  name : String := ""
  inheritedMask : Mask := []

structure Runtime where
  config : Config
  hardware : HardwareGraph
  rootPid : Int
  kernel : Kernel
  graph : GraphWindow
  actuator : Actuator := {}
  solver : IncrementalSolver := {}
  domainSolver : NumaDomainSolver := {}
  mutexHeld : Bool := false
  bpfReader : Bool := true
  bpfHealthValid : Bool := true
  bpfWindowReady : Bool := true
  bpfWindowLossRatio : ℚ := 0
  pendingLifecycleEvents : List BpfEvent := []
  pendingRelations : List (PendingRelationKey × PendingRelationValue) := []
  pendingLifecycleOverflow : Nat := 0
  pendingRelationOverflow : Nat := 0
  pendingRelationStartedNs : Nat := 0
  lifecycle : OrdMap Tid LifecycleRecord := ∅
  pendingApplicationMasks : OrdMap Tid Mask := ∅
  targetTgids : OrdSet Int := ∅
  currentPlan : OrdMap Tid Int := ∅
  currentMasks : OrdMap Tid Mask := ∅
  activeCohort : OrdSet Tid := ∅
  selectorReady : Bool := false
  lastSolveNs : Nat := 0
  solveWindowSequence : Nat := 0
  fatalError : String := ""
  actionRequested : Nat := 0
  actionCommitted : Nat := 0
  actionVanished : Nat := 0
  actionRolledBack : Nat := 0
  actionFailures : Nat := 0
  lastRestore : RestoreResult := {}
  paused : Bool := false

namespace Runtime

/-! ## Lifecycle -/

def threadStarted (r : Runtime) (record : LifecycleRecord) : Runtime :=
  { r with
    lifecycle := r.lifecycle.insert record.tid record
    targetTgids := if 0 < record.tgid then r.targetTgids.add record.tgid else r.targetTgids }

def threadRenamed (r : Runtime) (tid : Tid) (name : String) : Runtime :=
  match r.lifecycle.find? tid with
  | some record => { r with lifecycle := r.lifecycle.insert tid { record with name := name } }
  | none => r

def threadExited (r : Runtime) (tid : Tid) : Runtime :=
  { r with
    lifecycle := r.lifecycle.erase tid
    pendingApplicationMasks := r.pendingApplicationMasks.erase tid
    currentPlan := r.currentPlan.erase tid
    currentMasks := r.currentMasks.erase tid
    activeCohort := r.activeCohort.erase tid
    solver := r.solver.removeThread tid
    domainSolver := r.domainSolver.removeThread tid }

def applicationAffinity (r : Runtime) (tid : Tid) (cpus : Mask) : Runtime :=
  if cpus = [] then r
  else if tid ∈ r.lifecycle then { r with actuator := r.actuator.noteApplicationMask tid cpus }
  else { r with pendingApplicationMasks := r.pendingApplicationMasks.insert tid cpus }

/-! ## Sampling -/

/-- A thread without a record, or with the record of another incarnation. -/
def isFresh (life : Option LifecycleRecord) (sample : ThreadSample) : Bool :=
  match life with
  | none => true
  | some record => decide (record.procStarttime ≠ 0 ∧ record.procStarttime ≠ sample.identity.starttime)

/-- The record of a thread first seen by a sample: its leader stands in for its parent. -/
def sampledRecord (sample : ThreadSample) : LifecycleRecord :=
  { tgid := sample.identity.tgid
    parentTgid := sample.identity.tgid
    parentTid := sample.identity.tgid
    tid := sample.identity.tid
    createdNs := sample.timestampNs
    procStarttime := sample.identity.starttime
    name := sample.comm }

/-- The record and the actuator after the first two branches of the loop body. -/
def noteSample (actuator : Actuator) (life : Option LifecycleRecord) (sample : ThreadSample) :
    LifecycleRecord × Actuator :=
  let tid := sample.identity.tid
  match life with
  | none => (sampledRecord sample, actuator.noteInheritedMask tid sample.identity.tgid sample.allowedCpus)
  | some record =>
    if isFresh life sample then
      (sampledRecord sample, actuator.noteInheritedMask tid sample.identity.tgid sample.allowedCpus)
    else if record.procStarttime = 0 then
      ({ record with procStarttime := sample.identity.starttime, inheritedMask := sample.allowedCpus },
        actuator.noteInheritedMask tid record.parentTid sample.allowedCpus)
    else (record, actuator)

/-- The body of the loop over the samples. -/
def sampleThread (r : Runtime) (sample : ThreadSample) : Runtime :=
  let tid := sample.identity.tid
  let (record, actuator) := noteSample r.actuator (r.lifecycle.find? tid) sample
  { r with
    lifecycle := r.lifecycle.insert tid { record with name := sample.comm }
    actuator := match r.pendingApplicationMasks.find? tid with
      | some mask => actuator.noteApplicationMask tid mask
      | none => actuator
    pendingApplicationMasks := r.pendingApplicationMasks.erase tid }

/-- What the record adds to a sample before the graph sees it. -/
def enrich (lifecycle : OrdMap Tid LifecycleRecord) (sample : ThreadSample) : ThreadSample :=
  match lifecycle.find? sample.identity.tid with
  | some record =>
    { sample with
      parentTid := record.parentTid
      startRoutine := record.startRoutine
      startSymbol := record.startSymbol }
  | none => sample

/-- Every record without a sample is dropped, and the thread with it. -/
def sweep (r : Runtime) (seen : List Tid) : Runtime :=
  let gone := r.lifecycle.keys.filter (fun t => !seen.contains t)
  { r with
    lifecycle := r.lifecycle.filter (fun t _ => seen.contains t)
    currentPlan := gone.foldl OrdMap.erase r.currentPlan
    currentMasks := gone.foldl OrdMap.erase r.currentMasks
    domainSolver := gone.foldl NumaDomainSolver.removeThread r.domainSolver }

/-- `reconcile_and_sample` on the samples the collector read; `existing` are the targets that still have tasks. -/
def reconcileAndSample (r : Runtime) (existing : OrdSet Int) (samples : List ThreadSample) : Outcome Runtime :=
  if samples.isEmpty then .error (.thrown "no target task samples") else
  let r₁ := samples.foldl sampleThread { r with targetTgids := existing }
  let r₂ := r₁.sweep (samples.map (·.identity.tid))
  .ok { r₂ with graph := r₂.graph.observeThreads (samples.map (enrich r₁.lifecycle)) }

/-! ## The way out -/

/-- What `pause` does under the lock. -/
def pauseSection (r : Runtime) : Runtime :=
  let restored := Actuator.restoreAll linux r.kernel r.actuator
  { r with
    kernel := restored.backend
    actuator := restored.actuator
    lastRestore := restored.result
    currentPlan := ∅
    currentMasks := ∅
    activeCohort := ∅
    selectorReady := false
    solver := r.solver.reset
    domainSolver := r.domainSolver.reset }

def pause (r : Runtime) : Outcome Runtime :=
  if r.mutexHeld then .error .blocked else .ok (pauseSection { r with paused := true })

def resume (r : Runtime) : Runtime := { r with paused := false }

def triggerFatal (r : Runtime) (message : String) : Outcome Runtime :=
  if r.mutexHeld then .error .blocked
  else if r.fatalError ≠ "" then .ok r
  else do
    let r₁ ← pause { r with fatalError := message }
    return { r₁ with kernel := r₁.kernel.killGroup r₁.rootPid }

/-! ## What they do and what they leave alone -/

section Frames

variable {r r' : Runtime}

/-- What the loop over the samples leaves alone. -/
structure SampleFrame (r r' : Runtime) : Prop where
  config : r'.config = r.config
  hardware : r'.hardware = r.hardware
  kernel : r'.kernel = r.kernel
  graph : r'.graph = r.graph
  solver : r'.solver = r.solver
  domainSolver : r'.domainSolver = r.domainSolver
  targetTgids : r'.targetTgids = r.targetTgids
  activeCohort : r'.activeCohort = r.activeCohort
  solveWindowSequence : r'.solveWindowSequence = r.solveWindowSequence
  paused : r'.paused = r.paused
  acted : r'.actuator.actedTids = r.actuator.actedTids

theorem actedTids_noteSample (a : Actuator) (life : Option LifecycleRecord) (x : ThreadSample) :
    (noteSample a life x).2.actedTids = a.actedTids := by
  unfold noteSample
  dsimp only
  split
  · simp
  · split
    · simp
    · split <;> simp

theorem foldl_sampleThread_frame (l : List ThreadSample) (r : Runtime) : SampleFrame r (l.foldl sampleThread r) := by
  refine Loop.foldl_keeps (fun r' : Runtime => SampleFrame r r') (fun r' x h => ?_) l
    ⟨rfl, rfl, rfl, rfl, rfl, rfl, rfl, rfl, rfl, rfl, rfl⟩
  refine ⟨h.config, h.hardware, h.kernel, h.graph, h.solver, h.domainSolver, h.targetTgids, h.activeCohort,
    h.solveWindowSequence, h.paused, ?_⟩
  have hnote := actedTids_noteSample r'.actuator (r'.lifecycle.find? x.identity.tid) x
  unfold sampleThread
  dsimp only
  split
  · exact hnote.trans h.acted
  · exact hnote.trans h.acted

/-- A `pause` that returns. -/
theorem pause_ok (h : r.pause = .ok r') : r.mutexHeld = false ∧ r' = pauseSection { r with paused := true } := by
  unfold pause at h
  split at h
  · cases h
  · rename_i hheld
    cases h
    exact ⟨by simpa using hheld, rfl⟩

/-- A `trigger_fatal` that returns: the first one pauses, and kills the process. -/
theorem triggerFatal_ok {message : String} (h : r.triggerFatal message = .ok r') :
    r.mutexHeld = false ∧ (r.fatalError ≠ "" ∧ r' = r ∨ r.fatalError = "" ∧
      ∃ r₁, pause { r with fatalError := message } = .ok r₁ ∧
        r' = { r₁ with kernel := r₁.kernel.killGroup r₁.rootPid }) := by
  unfold triggerFatal at h
  split at h
  · cases h
  · rename_i hheld
    refine ⟨by simpa using hheld, ?_⟩
    split at h
    · rename_i hfatal
      cases h
      exact Or.inl ⟨hfatal, rfl⟩
    · rename_i hfatal
      cases hp : pause { r with fatalError := message } with
      | error e =>
        rw [hp] at h
        cases h
      | ok r₁ =>
        rw [hp] at h
        cases h
        exact Or.inr ⟨not_not.1 hfatal, r₁, rfl, rfl⟩

end Frames

end Runtime
end AffinityGraph
