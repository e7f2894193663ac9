import AffinityGraph.Bpf
import AffinityGraph.Cohort
import AffinityGraph.Profile
/-!
# Supervisor — the whole of `Runtime`: thread profile, sampling, solve windows, control (`runtime.cpp`)

`Supervisor` is the runtime with its thread profile and the rest of what its worker thread keeps.  One `Input` is one
thing that happens to it: a BPF event is handled, the health of the collector is noted, a command arrives on the control
socket, the threads are sampled, a solve window is due, the process ends.  The worker is the only thread that touches the
actuator, so a run is a list of these in any order; between them the application and the kernel do as they like.

`writesOf` lists the `AffinityBackend::set` calls an input makes, in order, also where the call never returns.
-/
namespace AffinityGraph

structure Supervisor extends Runtime where
  threadProfile : Option ThreadProfile := none
  books : ProfileBooks := {}
  samplingStopped : Bool := false
  lastNewProfileMatchNs : Nat := 0
  collectorFailedSinceNs : Nat := 0
  /-- the destructor has run -/
  ended : Bool := false

/-- What the constructor is given, and what it finds: the hardware, the kernel's threads, the clock. -/
structure Launch where
  config : Config
  hardware : HardwareGraph
  rootPid : Int
  kernel : Kernel
  horizonSeconds : Nat
  calibration : Calibration := {}
  libm : Libm
  bpfReader : Bool := true
  collectorDegraded : Bool := false
  threadProfile : Option ThreadProfile := none
  nowNs : Nat := 0

/-- What the collector read: the targets that still exist and their tasks, each task once. -/
structure Collected where
  existing : OrdSet Int
  samples : List ThreadSample
  distinct : (samples.map (·.identity.tid)).Nodup := by decide

inductive Input where
  /-- the application and the kernel: the threads as they leave them -/
  | outside (kernel : Kernel)
  | bpf (event : BpfEvent) (startSymbol : String)
  | retain (relations : OrdSet EdgeKey)
  | health (valid windowReady : Bool) (lossRatio : ℚ)
  | fatal (message : String)
  | pause
  | resume
  /-- nothing is collected when the collector throws -/
  | reconcile (collected : Option Collected) (now : Nat)
  | solve (now : Nat) (dirtyTids : OrdSet Tid)
  | shutdown

namespace Supervisor

/-! ## The thread profile -/

def staticProfileEffective (s : Supervisor) : Bool :=
  s.threadProfile.any (fun p => !p.placements.isEmpty && (!s.config.dynamic || !p.dynamic.enabled))

/-- The constructor. -/
def create (l : Launch) : Outcome Supervisor :=
  let degraded := l.collectorDegraded || (decide (l.config.solver = .numaDomain) && !l.bpfReader)
  let s : Supervisor :=
    { config := if degraded then { l.config with mode := .observe } else l.config
      hardware := l.hardware
      rootPid := l.rootPid
      kernel := l.kernel
      graph := { horizonSeconds := l.horizonSeconds, calibration := l.calibration, libm := l.libm }
      -- the solver is built before the mode is lowered
      solver := { shadow := decide (l.config.mode = .plan) }
      bpfReader := l.bpfReader
      bpfHealthValid := false
      bpfWindowReady := false
      targetTgids := OrdSet.ofList [l.rootPid]
      threadProfile := l.threadProfile
      lastNewProfileMatchNs := l.nowNs }
  if s.config.sampleIntervalSeconds = 0 ∧ s.staticProfileEffective = false then
    .error (.thrown ("sample_interval_seconds=0 requires a static thread profile " ++
      "(runtime.dynamic=false or profile dynamic.enabled=false)"))
  else .ok s

/-- What the sampling loop gathers of the profile. -/
structure Matching where
  books : ProfileBooks
  /-- `profile_delta.tid_to_mask` -/
  masks : OrdMap Tid Mask := ∅
  live : OrdSet Tid := ∅
  newMatches : Nat := 0

/-- The profile's part of the loop body. -/
def matchSample (profile : ThreadProfile) (m : Matching) (sample : ThreadSample) : Matching :=
  let newlyMatched := decide (sample.identity ∉ m.books.assignments)
  let (assignment, books) := profileAssignment profile sample m.books
  match assignment with
  | some a =>
    let target := setIntersection a.targetCpus sample.allowedCpus
    if newlyMatched = true ∧ target ≠ [] then
      { books := books
        masks := m.masks.insert sample.identity.tid target
        live := m.live.add sample.identity.tid
        newMatches := m.newMatches + 1 }
    else { m with books := books }
  | none => { m with books := books }

def matchSamples (s : Supervisor) (samples : List ThreadSample) : Matching :=
  match s.threadProfile with
  | some profile => samples.foldl (matchSample profile) { books := s.books }
  | none => { books := s.books }

/-- The batch of the new matches; its result is only logged. -/
def bindProfile (s : Supervisor) (m : Matching) : Supervisor :=
  if m.masks.isEmpty = false ∧ s.config.mode = .active then
    let (kernel, actuator, _) := Actuator.apply linux s.kernel s.actuator { tidToMask := m.masks } m.live
    { s with kernel := kernel, actuator := actuator }
  else s

/-- With a sample interval of zero, sampling stops once nothing new has matched for long enough. -/
def noteQuiescence (s : Supervisor) (newMatches now : Nat) : Supervisor :=
  if s.config.sampleIntervalSeconds = 0 ∧ s.staticProfileEffective = true ∧ s.samplingStopped = false then
    if 0 < newMatches then { s with lastNewProfileMatchNs := now }
    else if s.config.staticQuiescenceSeconds * 10 ^ 9 ≤ subU64 now s.lastNewProfileMatchNs then
      { s with samplingStopped := true }
    else s
  else s

/-! ## Control -/

def pause (s : Supervisor) : Outcome Supervisor :=
  match s.toRuntime.pause with
  | .ok r => .ok { s with toRuntime := r }
  | .error e => .error e

def triggerFatal (s : Supervisor) (message : String) : Outcome Supervisor :=
  match s.toRuntime.triggerFatal message with
  | .ok r => .ok { s with toRuntime := r }
  | .error e => .error e

/-- The destructor's restore. -/
def shutdown (s : Supervisor) : Supervisor :=
  let restored := Actuator.restoreAll linux s.kernel s.actuator
  { s with kernel := restored.backend, actuator := restored.actuator, ended := true }

/-! ## Sampling -/

/-- The supervisor once the loop over the samples and the sweep are done.  A static profile leaves the plan, the domain
solver and the window alone. -/
def sampled (s : Supervisor) (c : Collected) : Supervisor :=
  let seen := c.samples.map (·.identity.tid)
  let r₁ := c.samples.foldl Runtime.sampleThread { s.toRuntime with targetTgids := c.existing }
  let r₂ := if s.staticProfileEffective then { r₁ with lifecycle := r₁.lifecycle.filter (fun t _ => seen.contains t) }
    else
      let r₃ := r₁.sweep seen
      { r₃ with graph := r₃.graph.observeThreads (c.samples.map (Runtime.enrich r₁.lifecycle)) }
  { s with toRuntime := r₂, books := (s.matchSamples c.samples).books }

/-- The `catch` clause. -/
def collectorFailure (s : Supervisor) (now : Nat) : Outcome Supervisor :=
  let since := if s.collectorFailedSinceNs = 0 then now else s.collectorFailedSinceNs
  let s₁ := { s with collectorFailedSinceNs := since }
  if s.config.collectorFailureRestoreSeconds * 10 ^ 9 ≤ subU64 now since ∧ s.paused = false then s₁.pause else .ok s₁

def reconcileAndSample (s : Supervisor) (collected : Option Collected) (now : Nat) : Outcome Supervisor :=
  match collected with
  | none => s.collectorFailure now
  | some c =>
    if c.samples.isEmpty then s.collectorFailure now else
    let m := s.matchSamples c.samples
    .ok { ((s.sampled c).bindProfile m).noteQuiescence m.newMatches now with collectorFailedSinceNs := 0 }

/-! ## Solving -/

/-- A static profile holds its masks: the window is computed and nothing is solved. -/
def hold (s : Supervisor) (now : Nat) : Outcome Supervisor :=
  if !s.toRuntime.due now then .ok s
  else if s.mutexHeld then .error .blocked
  else .ok { s with toRuntime := { s.toRuntime.openWindow now with mutexHeld := false } }

def maybeSolve (s : Supervisor) (now : Nat) (dirtyTids : OrdSet Tid) : Outcome Supervisor :=
  if s.staticProfileEffective then s.hold now else
  match s.toRuntime.maybeSolve (Runtime.solveIncremental dirtyTids) now with
  | .ok r => .ok { s with toRuntime := r }
  | .error e => .error e

/-! ## Steps -/

def handle (s : Supervisor) : Input → Outcome Supervisor
  | .outside kernel => .ok { s with kernel := kernel }
  | .bpf event startSymbol =>
    .ok { s with toRuntime := s.toRuntime.handleBpfEvent s.staticProfileEffective event startSymbol }
  | .retain relations => .ok { s with graph := s.graph.retainRelations relations }
  | .health valid windowReady lossRatio =>
    .ok { s with bpfHealthValid := valid, bpfWindowReady := windowReady, bpfWindowLossRatio := lossRatio }
  | .fatal message => s.triggerFatal message
  | .pause => s.pause
  | .resume => .ok { s with toRuntime := s.toRuntime.resume }
  | .reconcile collected now => s.reconcileAndSample collected now
  | .solve now dirtyTids => s.maybeSolve now dirtyTids
  | .shutdown => .ok s.shutdown

/-- **One input.**  A call that throws or never returns is the last one, and so is the destructor. -/
def step (s : Supervisor) (input : Input) : Option Supervisor :=
  if s.ended then none else (s.handle input).toOption

/-! ## A call that returns -/

section Returns

variable {s s' : Supervisor} {now : Nat}

theorem pause_ok (h : s.pause = .ok s') : ∃ r, s.toRuntime.pause = .ok r ∧ s' = { s with toRuntime := r } := by
  unfold pause at h
  split at h
  · rename_i r hr
    cases h
    exact ⟨r, hr, rfl⟩
  · cases h

theorem triggerFatal_ok {message : String} (h : s.triggerFatal message = .ok s') :
    ∃ r, s.toRuntime.triggerFatal message = .ok r ∧ s' = { s with toRuntime := r } := by
  unfold triggerFatal at h
  split at h
  · rename_i r hr
    cases h
    exact ⟨r, hr, rfl⟩
  · cases h

/-- A collector that has failed for long enough pauses the supervisor. -/
theorem collectorFailure_ok (h : s.collectorFailure now = .ok s') :
    ∃ since, since = (if s.collectorFailedSinceNs = 0 then now else s.collectorFailedSinceNs) ∧
      ((s.config.collectorFailureRestoreSeconds * 10 ^ 9 ≤ subU64 now since ∧ s.paused = false) ∧
        (∃ r, s.toRuntime.pause = .ok r ∧ s' = { s with toRuntime := r, collectorFailedSinceNs := since }) ∨
      ¬ (s.config.collectorFailureRestoreSeconds * 10 ^ 9 ≤ subU64 now since ∧ s.paused = false) ∧
        s' = { s with collectorFailedSinceNs := since }) := by
  unfold collectorFailure at h
  dsimp only at h
  refine ⟨_, rfl, ?_⟩
  generalize (if s.collectorFailedSinceNs = 0 then now else s.collectorFailedSinceNs) = since at h
  split at h
  · rename_i hlong
    obtain ⟨r, hr, rfl⟩ := pause_ok h
    exact Or.inl ⟨hlong, r, hr, rfl⟩
  · rename_i hlong
    cases h
    exact Or.inr ⟨hlong, rfl⟩

/-- What a sampling leaves alone, before its batch. -/
structure SampledFrame (s s' : Supervisor) : Prop where
  config : s'.config = s.config
  hardware : s'.hardware = s.hardware
  kernel : s'.kernel = s.kernel
  solver : s'.solver = s.solver
  activeCohort : s'.activeCohort = s.activeCohort
  solveWindowSequence : s'.solveWindowSequence = s.solveWindowSequence
  paused : s'.paused = s.paused
  acted : s'.actuator.actedTids = s.actuator.actedTids

theorem sampled_frame (s : Supervisor) (c : Collected) : s.SampledFrame (s.sampled c) := by
  have hloop := Runtime.foldl_sampleThread_frame c.samples { s.toRuntime with targetTgids := c.existing }
  unfold sampled
  dsimp only
  split
  · exact ⟨hloop.config, hloop.hardware, hloop.kernel, hloop.solver, hloop.activeCohort, hloop.solveWindowSequence,
      hloop.paused, hloop.acted⟩
  · exact ⟨hloop.config, hloop.hardware, hloop.kernel, hloop.solver, hloop.activeCohort, hloop.solveWindowSequence,
      hloop.paused, hloop.acted⟩

/-- The batch of a profile changes the kernel and the actuator. -/
theorem bindProfile_eq (s : Supervisor) (m : Matching) :
    ∃ kernel actuator, s.bindProfile m = { s with kernel := kernel, actuator := actuator } := by
  unfold bindProfile
  split
  · exact ⟨_, _, rfl⟩
  · exact ⟨s.kernel, s.actuator, rfl⟩

/-- The quiescence changes two fields of the supervisor's own. -/
theorem noteQuiescence_eq (s : Supervisor) (newMatches now : Nat) : ∃ stopped last,
    s.noteQuiescence newMatches now = { s with samplingStopped := stopped, lastNewProfileMatchNs := last } := by
  unfold noteQuiescence
  split
  · split
    · exact ⟨s.samplingStopped, now, rfl⟩
    · split
      · exact ⟨true, s.lastNewProfileMatchNs, rfl⟩
      · exact ⟨s.samplingStopped, s.lastNewProfileMatchNs, rfl⟩
  · exact ⟨s.samplingStopped, s.lastNewProfileMatchNs, rfl⟩

/-- A sampling: the collector has failed, or the samples are taken in and the new matches bound. -/
theorem reconcileAndSample_ok {collected : Option Collected} (h : s.reconcileAndSample collected now = .ok s') :
    collected.all (fun c => c.samples.isEmpty) = true ∧ s.collectorFailure now = .ok s' ∨
    ∃ c, collected = some c ∧ c.samples.isEmpty = false ∧ ∃ stopped last,
      s' = { (s.sampled c).bindProfile (s.matchSamples c.samples) with
        samplingStopped := stopped, lastNewProfileMatchNs := last, collectorFailedSinceNs := 0 } := by
  unfold reconcileAndSample at h
  cases collected with
  | none => exact Or.inl ⟨rfl, h⟩
  | some c =>
    dsimp only at h
    split at h
    · rename_i hempty
      exact Or.inl ⟨by simpa using hempty, h⟩
    · rename_i hsamples
      obtain ⟨stopped, last, hquiet⟩ := noteQuiescence_eq ((s.sampled c).bindProfile (s.matchSamples c.samples))
        (s.matchSamples c.samples).newMatches now
      rw [hquiet] at h
      cases h
      exact Or.inr ⟨c, rfl, by simpa using hsamples, stopped, last, rfl⟩

/-- A solve window: a static profile only computes it. -/
theorem maybeSolve_ok {dirtyTids : OrdSet Tid} (h : s.maybeSolve now dirtyTids = .ok s') :
    s.staticProfileEffective = true ∧ (s.due now = false ∧ s' = s ∨ s.due now = true ∧ s.mutexHeld = false ∧
      s' = { s with toRuntime := { s.toRuntime.openWindow now with mutexHeld := false } }) ∨
    s.staticProfileEffective = false ∧ ∃ r, s.toRuntime.maybeSolve (Runtime.solveIncremental dirtyTids) now = .ok r ∧
      s' = { s with toRuntime := r } := by
  unfold maybeSolve at h
  split at h
  · rename_i hstatic
    refine Or.inl ⟨hstatic, ?_⟩
    unfold hold at h
    split at h
    · rename_i hdue
      cases h
      exact Or.inl ⟨by simpa using hdue, rfl⟩
    · rename_i hdue
      split at h
      · cases h
      · rename_i hheld
        cases h
        exact Or.inr ⟨by simpa using hdue, by simpa using hheld, rfl⟩
  · rename_i hstatic
    refine Or.inr ⟨by simpa using hstatic, ?_⟩
    split at h
    · rename_i r hr
      cases h
      exact ⟨r, hr, rfl⟩
    · cases h

end Returns

end Supervisor

/-! ## The writes -/

inductive Purpose where
  | batch
  | restore
  deriving DecidableEq, Repr

/-- One `AffinityBackend::set`: why it is made, and whether the supervisor is paused at that moment. -/
structure Write where
  purpose : Purpose
  paused : Bool
  tid : Tid
  mask : Mask
  deriving DecidableEq

namespace Runtime

def writes (r : Runtime) (purpose : Purpose) (calls : List (Tid × Mask)) : List Write :=
  calls.map (fun c => ⟨purpose, r.paused, c.1, c.2⟩)

def restoreWrites (r : Runtime) (tids : OrdSet Tid) : List Write :=
  r.writes .restore (Actuator.restore (Actuator.logged linux) (r.kernel, []) r.actuator tids).backend.2

def restoreAllWrites (r : Runtime) : List Write :=
  r.writes .restore (Actuator.restoreAll (Actuator.logged linux) (r.kernel, []) r.actuator).backend.2

def batchWrites (r : Runtime) (delta : PlacementDelta) (live : OrdSet Tid) : List Write :=
  r.writes .batch (Actuator.apply (Actuator.logged linux) (r.kernel, []) r.actuator delta live).1.2

def pauseWrites (r : Runtime) : List Write :=
  if r.mutexHeld then [] else restoreAllWrites { r with paused := true }

def fatalWrites (r : Runtime) : List Write := if r.fatalError ≠ "" then [] else r.pauseWrites

/-- The writes of `solve_numa_domains`. -/
def domainWrites (r : Runtime) (input : ProposeInput) : List Write :=
  if !r.bpfGatePassed then [] else
  match r.domainSolver.propose input with
  | .error _ => []
  | .ok (proposal, s) =>
    if !proposal.valid then if r.config.mode = .active then r.restoreWrites proposal.releasedTids else []
    else if !proposal.ready || (proposal.actions.isEmpty && proposal.releasedTids.isEmpty &&
        decide (proposal.plannedMasks = s.placement)) || decide (r.config.mode = .plan) then []
    else
      let r₁ := r.restoreTids proposal.releasedTids
      r.restoreWrites proposal.releasedTids ++ if r₁.lastRestore.success
        then r₁.batchWrites proposal.delta (OrdSet.ofList (input.threads.map (·.identity.tid))) else []

/-- The writes of the incremental branch. -/
def cohortWrites (dirtyTids : OrdSet Tid) (r : Runtime) (input : ProposeInput) : List Write :=
  let demands := r.activeDemands input.threads input.edges
  let next := cohortOf demands
  let cooling := r.coolingThreads next
  let (r₁, restored) := r.restoreCooling cooling
  (if r.config.mode = .active then r.restoreWrites cooling else []) ++
  if !restored.success then [] else
  let r₂ := { r₁.coolDown next cooling with selectorReady := true }
  if !r₂.bpfHealthy || demands.isEmpty then [] else
  match r₂.solver.propose (r₂.incrementalInput input dirtyTids demands) with
  | .error _ => []
  | .ok (proposal, _) =>
    if !proposal.ready || decide (r.config.mode = .plan) then [] else r₂.batchWrites proposal.delta next

def solveWrites (r : Runtime) (now : Nat) (dirtyTids : OrdSet Tid) : List Write :=
  if !r.due now || r.mutexHeld || decide (r.config.mode = .observe) then []
  else match r.config.solver with
    | .numaDomain => (r.openWindow now).domainWrites (r.windowInput now).1
    | .incrementalHotspot => (r.openWindow now).cohortWrites dirtyTids (r.windowInput now).1

end Runtime

namespace Supervisor

def failureWrites (s : Supervisor) (now : Nat) : List Write :=
  let since := if s.collectorFailedSinceNs = 0 then now else s.collectorFailedSinceNs
  if s.config.collectorFailureRestoreSeconds * 10 ^ 9 ≤ subU64 now since ∧ s.paused = false then s.pauseWrites else []

def bindWrites (s : Supervisor) (m : Matching) : List Write :=
  if m.masks.isEmpty = false ∧ s.config.mode = .active then s.batchWrites { tidToMask := m.masks } m.live else []

/-- **Every `set` call one input makes**, in order. -/
def writesOf (s : Supervisor) : Input → List Write
  | .fatal _ => if s.mutexHeld then [] else s.fatalWrites
  | .pause => s.pauseWrites
  | .reconcile collected now =>
    match collected with
    | none => s.failureWrites now
    | some c => if c.samples.isEmpty then s.failureWrites now else (s.sampled c).bindWrites (s.matchSamples c.samples)
  | .solve now dirtyTids => if s.staticProfileEffective then [] else s.solveWrites now dirtyTids
  | .shutdown => s.restoreAllWrites
  | _ => []

/-- The `set` calls of a whole run, those of a last call that never returns among them. -/
def trace : Supervisor → List Input → List Write
  | _, [] => []
  | s, e :: es =>
    if s.ended then [] else
    s.writesOf e ++ match s.step e with
      | some s' => trace s' es
      | none => []

end Supervisor
end AffinityGraph
