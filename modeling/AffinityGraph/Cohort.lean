import AffinityGraph.IncrementalRuns
import AffinityGraph.Solve
/-!
# Cohort — the managed threads and the incremental branch of `maybe_solve` (`solver.cpp`, `runtime.cpp`)

The incremental solver is given a bounded cohort: the confident threads whose demand is high enough to enter or to stay,
cut down by `select_managed_threads` to those that share the most hotspot weight.  A thread that leaves the cohort is
restored and removed from the solver before the window goes on.

`dirtyTids` is what `take_delta` found changed; the source's counters that are only logged are left out.  Its `-1` for
"no TID yet", which no thread has, is `none`.
-/
namespace AffinityGraph

/-! ## select_managed_threads -/

/-- The hotspot graph over the candidate threads. -/
structure HotspotGraph where
  byTid : OrdMap Tid ThreadDemand
  hotspots : List RelationEdge

namespace HotspotGraph

variable (g : HotspotGraph)

def degree (tid : Tid) : ℚ :=
  ((g.hotspots.filter (fun e => decide (e.fromTid = tid))).map (·.score)).sum +
    ((g.hotspots.filter (fun e => decide (e.toTid = tid))).map (·.score)).sum

/-- The neighbours of a thread with the weight of the edge, in the order of the edges. -/
def adjacency (tid : Tid) : List (Tid × ℚ) :=
  g.hotspots.flatMap (fun e =>
    (if e.fromTid = tid then [(e.toTid, e.score)] else []) ++ (if e.toTid = tid then [(e.fromTid, e.score)] else []))

def demand (tid : Tid) : ℚ := (g.byTid.find? tid).elim 0 (·.demand)

def identity (tid : Tid) : ThreadIdentity := (g.byTid.find? tid).elim ⟨-1, -1, 0⟩ (·.identity)

/-- Larger degree first, then larger demand, then the smaller identity. -/
def rankedBefore (a b : Tid) : Bool :=
  if g.degree a ≠ g.degree b then decide (g.degree b < g.degree a)
  else if g.demand a ≠ g.demand b then decide (g.demand b < g.demand a)
  else decide (g.identity a ≤ g.identity b)

def ranked : List Tid := g.byTid.keys.insertionSort (fun a b => g.rankedBefore a b = true)

/-- The previous cohort, as far as its threads are still within the rank band. -/
def retained (previous : OrdSet Tid) (limit retentionLimit : Nat) : OrdSet Tid :=
  (g.ranked.take retentionLimit).foldl (fun (selected : OrdSet Tid) tid =>
    if selected.size < limit ∧ tid ∈ previous then selected.add tid else selected) ∅

def seedKey (e : RelationEdge) : ℚ ×ₗ Int ×ₗ Int :=
  toLex (e.score, toLex (-min e.fromTid e.toTid, -max e.fromTid e.toTid))

/-- The strongest hotspot edge seeds an empty cohort. -/
def seeded (selected : OrdSet Tid) (limit : Nat) : OrdSet Tid :=
  match g.hotspots with
  | [] => selected
  | front :: _ =>
    if selected.isEmpty ∧ 2 ≤ limit then
      let seed := g.hotspots.foldl (fun seed e => if seedKey seed < seedKey e then e else seed) front
      (selected.add seed.fromTid).add seed.toTid
    else selected

abbrev GrowthKey := ℚ ×ₗ Nat ×ₗ ℚ ×ₗ ℚ ×ₗ ThreadIdentity

def growthKey (selected : OrdSet Tid) (tid : Tid) : GrowthKey :=
  let internal := (g.adjacency tid).filter (fun n => decide (n.1 ∈ selected))
  toLex ((internal.map Prod.snd).sum, toLex (internal.length, toLex (g.degree tid, toLex (g.demand tid, g.identity tid))))

/-- The excluded thread with the most hotspot weight into the cohort. -/
def bestGrowth (selected : OrdSet Tid) : Option Tid :=
  (g.ranked.filter (fun tid => decide (tid ∉ selected))).foldl (fun best tid =>
    match best with
    | none => some tid
    | some b => if g.growthKey selected b < g.growthKey selected tid then some tid else some b) none

/-- `while (selected.size() < limit)`; a turn adds a thread, so `limit` turns are enough. -/
def grow (limit : Nat) : Nat → OrdSet Tid → OrdSet Tid
  | 0, selected => selected
  | turns + 1, selected =>
    if selected.size < limit then
      match g.bestGrowth selected with
      | some tid => grow limit turns (selected.add tid)
      | none => selected
    else selected

/-- What a one-for-one exchange adds to the weight inside the cohort. -/
def improvement (selected : OrdSet Tid) (out inn : Tid) : ℚ :=
  (((g.adjacency inn).filter (fun n => decide (n.1 ≠ out ∧ n.1 ∈ selected))).map Prod.snd).sum -
    (((g.adjacency out).filter (fun n => decide (n.1 ∈ selected))).map Prod.snd).sum

abbrev ExchangeKey := ℚ ×ₗ ℚ ×ₗ ℚ ×ₗ ThreadIdentity ×ₗ ThreadIdentity

def exchangeKey (selected : OrdSet Tid) (x : Tid × Tid) : ExchangeKey :=
  toLex (g.improvement selected x.1 x.2, toLex (g.degree x.2, toLex (g.demand x.2, toLex (g.identity x.2, g.identity x.1))))

def bestExchange (previous selected : OrdSet Tid) : Option (Tid × Tid) :=
  let pairs := (selected.toList.filter (fun out => decide (out ∉ previous))).flatMap (fun out =>
    (g.ranked.filter (fun inn => decide (inn ∉ selected))).map (fun inn => (out, inn)))
  (pairs.filter (fun x => decide (1 / 10 ^ 12 < g.improvement selected x.1 x.2))).foldl (fun best x =>
    match best with
    | none => some x
    | some b => if g.exchangeKey selected b < g.exchangeKey selected x then some x else some b) none

/-- The bounded exchange of weak boundary threads. -/
def refine (previous : OrdSet Tid) : Nat → OrdSet Tid → OrdSet Tid
  | 0, selected => selected
  | passes + 1, selected =>
    match g.bestExchange previous selected with
    | some (out, inn) => refine previous passes (OrdSet.add (selected.erase out) inn)
    | none => selected

end HotspotGraph

def selectManagedThreads (threads : List ThreadDemand) (edges : List RelationEdge) (previousManaged : OrdSet Tid)
    (options : IncrementalOptions) : List ThreadDemand :=
  if options.maximumManagedThreads ≤ 0 ∨ (threads.length : Int) ≤ options.maximumManagedThreads then threads else
  let byTid := threads.foldl (fun (m : OrdMap Tid ThreadDemand) t => m.insert t.identity.tid t) ∅
  let g : HotspotGraph := ⟨byTid, selectHotspotEdges edges byTid options⟩
  let limit := min g.ranked.length options.maximumManagedThreads.toNat
  let retentionLimit := min g.ranked.length ⌈(limit : ℚ) * (1 + options.managedThreadHysteresisRatio)⌉.toNat
  let selected := g.refine previousManaged limit
    (g.grow limit limit (g.seeded (g.retained previousManaged limit retentionLimit) limit))
  threads.filter (fun t => decide (t.identity.tid ∈ selected))

/-- The cohort is some of the candidates. -/
theorem selectManagedThreads_sublist (threads : List ThreadDemand) (edges : List RelationEdge) (previous : OrdSet Tid)
    (options : IncrementalOptions) : (selectManagedThreads threads edges previous options).Sublist threads := by
  unfold selectManagedThreads
  split
  · exact List.Sublist.refl _
  · exact List.filter_sublist

namespace Runtime

/-! ## The cohort of a window -/

/-- The options both the selector and the solver are given. -/
def incrementalOptions (r : Runtime) : IncrementalOptions :=
  { r.config.incrementalOptions with hotspotEdgesPerThread := r.config.hotspotEdgesPerThread }

def activeCandidates (r : Runtime) (demands : List ThreadDemand) : List ThreadDemand :=
  (demands.filter (fun d => !decide (d.confidence < r.config.minimumConfidence))).filter (fun d =>
    decide (r.config.activeDemandThreshold ≤ d.demand) ||
      (decide (d.identity.tid ∈ r.activeCohort) && decide (r.config.inactiveDemandThreshold ≤ d.demand)))

def activeDemands (r : Runtime) (demands : List ThreadDemand) (edges : List RelationEdge) : List ThreadDemand :=
  selectManagedThreads (r.activeCandidates demands) edges r.activeCohort r.incrementalOptions

def cohortOf (demands : List ThreadDemand) : OrdSet Tid := OrdSet.ofList (demands.map (·.identity.tid))

/-- The threads that leave the cohort. -/
def coolingThreads (r : Runtime) (next : OrdSet Tid) : OrdSet Tid :=
  r.activeCohort.filter (fun tid _ => decide (tid ∉ next))

/-- `actuator_.restore(cooling_threads)`; `last_restore_` is not touched here. -/
def restoreCooling (r : Runtime) (cooling : OrdSet Tid) : Runtime × RestoreResult :=
  if cooling.isEmpty = false ∧ r.config.mode = .active then
    let restored := Actuator.restore linux r.kernel r.actuator cooling
    ({ r with kernel := restored.backend, actuator := restored.actuator }, restored.result)
  else (r, {})

def coolDown (r : Runtime) (next cooling : OrdSet Tid) : Runtime :=
  let solver := cooling.toList.foldl IncrementalSolver.removeThread r.solver
  { r with
    solver := if next.isEmpty && !cooling.isEmpty then solver.reset else solver
    currentPlan := cooling.toList.foldl OrdMap.erase r.currentPlan
    activeCohort := next }

/-! ## The branch -/

/-- The batch of an incremental proposal, and what follows from its result. -/
def applyPlacement (r : Runtime) (proposal : SolverProposal) (live : OrdSet Tid) (now : Nat) : Runtime :=
  let (kernel, actuator, result) := Actuator.apply linux r.kernel r.actuator proposal.delta live
  let r₁ := { r with
    kernel := kernel
    actuator := actuator
    actionRequested := r.actionRequested + result.requested
    actionCommitted := r.actionCommitted + result.committed
    actionVanished := r.actionVanished + result.vanished
    actionRolledBack := r.actionRolledBack + result.rolledBack
    actionFailures := if result.success then r.actionFailures else r.actionFailures + 1 }
  if !result.success then { r₁ with solver := r₁.solver.discard proposal } else
  let removed := result.vanishedTids.toList.foldl IncrementalSolver.removeThread r₁.solver
  let settled := if result.committedTids.isEmpty then removed.discard proposal
    else removed.commit proposal now result.committedTids
  { r₁ with solver := settled, currentPlan := settled.placement }

def incrementalInput (r : Runtime) (input : ProposeInput) (dirtyTids : OrdSet Tid) (demands : List ThreadDemand) :
    IncrementalInput :=
  { hardware := r.hardware
    threads := demands
    edges := input.edges
    options := r.incrementalOptions
    nowNs := input.nowNs
    dirtyTids := some dirtyTids }

/-- A missing reader lets the window pass; an unhealthy one does not. -/
def bpfHealthy (r : Runtime) : Bool :=
  !r.bpfReader || (r.bpfHealthValid && r.bpfWindowReady && decide (r.bpfWindowLossRatio < 1 / 100))

/-- From the proposal on. -/
def proposePlacement (r : Runtime) (input : IncrementalInput) : Outcome Runtime :=
  match r.solver.propose input with
  | .error e => .error e
  | .ok (proposal, s) =>
    let r₁ := { r with solver := s }
    if !proposal.ready then .ok r₁
    else if r.config.mode = .plan then
      let committed := s.commit proposal input.nowNs
      .ok { r₁ with solver := committed, currentPlan := committed.placement }
    else .ok (r₁.applyPlacement proposal (cohortOf input.threads) input.nowNs)

/-- The branch of `maybe_solve` for the incremental solver. -/
def solveIncremental (dirtyTids : OrdSet Tid) (r : Runtime) (input : ProposeInput) : Outcome Runtime :=
  let demands := r.activeDemands input.threads input.edges
  let next := cohortOf demands
  let cooling := r.coolingThreads next
  let (r₁, restored) := r.restoreCooling cooling
  if !restored.success then
    .ok { r₁ with fatalError := "active cohort affinity restore failed", kernel := r₁.kernel.killGroup r₁.rootPid }
  else
    let r₂ := r₁.coolDown next cooling
    if !r₂.bpfHealthy then .ok r₂ else
    let r₃ := { r₂ with selectorReady := true }
    if demands.isEmpty then .ok r₃ else r₃.proposePlacement (r₃.incrementalInput input dirtyTids demands)

end Runtime
end AffinityGraph
