import AffinityGraph.Core
import Mathlib.Data.Rat.Floor
/-!
# Incremental — the incremental solver's state and its intake (`solver.cpp`)

Everything `IncrementalSolver::propose` does before it looks at its phase: the demand prediction, the departures and
arrivals, the phase changes they trigger, the selection of hotspot edges and the replan on a stable hotspot set.

The source's `-1` for "no TID" and "no CPU", which is neither, is `none` here; its `infinity` for "nothing compared
yet" likewise.
-/
namespace AffinityGraph

inductive IncrementalPhase where
  | uninitialized
  | nodePlanning
  | initialPinning
  | optimizing
  deriving DecidableEq, Repr

structure IncrementalOptions where
  maximumMigratedThreadsRatio : ℚ := 1 / 4
  initialMigratedThreadsRatio : ℚ := 1
  proposalConfirmations : Int := 3
  initialProposalConfirmations : Int := 1
  minimumDwellNs : Nat := 60000000000
  initialNodePasses : Nat := 2
  initialNodeThreadSlackRatio : ℚ := 1 / 2
  candidateMultiplier : Nat := 4
  candidateHardLimit : Nat := 64
  rotatingScanSize : Nat := 32
  demandDirtyThreshold : ℚ := 1 / 20
  edgeDirtyAbsoluteThreshold : ℚ := 1
  edgeDirtyRelativeThreshold : ℚ := 1 / 10
  minimumRelativeGain : ℚ := 1 / 20
  maximumThreadsPerCpu : Int := 0
  threadSlotSlack : Int := 0
  futureDemandFloor : ℚ := 1 / 50
  groupPeakDemandRatio : ℚ := 1 / 4
  groupPeakDemandCap : ℚ := 1 / 20
  groupPeakDecay : ℚ := 19 / 20
  nodeBalanceThreshold : ℚ := 1 / 20
  hotspotEdgesPerThread : Nat := 4
  hotspotEdgeQuantile : ℚ := 19 / 20
  hotspotComponentBoost : ℚ := 4
  maximumManagedThreads : Int := 32
  managedThreadHysteresisRatio : ℚ := 1
  hotspotReplanGrowthRatio : ℚ := 1 / 4
  hotspotReplanMinThreads : Nat := 8
  hotspotStabilityThreshold : ℚ := 13 / 20
  hotspotStabilityConfirmations : Int := 3

structure PlacementAction where
  identity : ThreadIdentity
  fromCpu : Int := -1
  targetCpu : Int := -1
  initialPin : Bool := false
  emergency : Bool := false
  capacityRegret : ℚ := 0
  relationRegret : ℚ := 0
  loadRegret : ℚ := 0

structure SolverProposal where
  id : Nat := 0
  phase : IncrementalPhase := .uninitialized
  delta : PlacementDelta := {}
  actions : List PlacementAction := []
  eligibleThreads : Nat := 0
  pinnedThreads : Nat := 0
  dirtyThreads : Nat := 0
  candidateThreads : Nat := 0
  cooldownSkippedThreads : Nat := 0
  migrationBudget : Nat := 0
  confirmation : Int := 0
  initialPlanConfirmed : Bool := false
  ready : Bool := false
  shadow : Bool := false
  nodeOverload : ℚ := 0
  relationCost : ℚ := 0
  cpuSlotCap : Int := 0
  maximumCpuThreads : Int := 0
  predictedDemandThreads : Nat := 0
  relationEdgesInput : Nat := 0
  hotspotEdges : Nat := 0
  hotspotSimilarity : ℚ := 0
  hotspotStabilityConfirmation : Int := 0
  hotspotReplanTriggered : Bool := false
  globalReplanActive : Bool := false

structure IncrementalSolver where
  shadow : Bool := false
  phase : IncrementalPhase := .uninitialized
  generation : Nat := 0
  nextProposalId : Nat := 1
  scanCursor : Nat := 0
  lastNodePlanPopulation : Nat := 0
  replanExistingThreads : Bool := false
  stableHotspotReplanPending : Bool := false
  hotspotStabilityConfirmation : Int := 0
  previousHotspotKeys : OrdSet EdgeKey := ∅
  initialConfirmation : Int := 0
  identities : OrdMap Tid ThreadIdentity := ∅
  threads : OrdMap Tid ThreadDemand := ∅
  edges : OrdMap EdgeKey RelationEdge := ∅
  previousDemand : OrdMap Tid ℚ := ∅
  groupPeakDemand : OrdMap String ℚ := ∅
  previousEdgeScore : OrdMap EdgeKey ℚ := ∅
  baselineCpu : OrdMap Tid Int := ∅
  initialTargetNode : OrdMap Tid Int := ∅
  initialTargetCpu : OrdMap Tid Int := ∅
  previousInitialTargetNode : OrdMap Tid Int := ∅
  initialCandidateIdentities : OrdMap Tid ThreadIdentity := ∅
  placement : OrdMap Tid Int := ∅
  pinned : OrdSet Tid := ∅
  lastMovedNs : OrdMap Tid Nat := ∅
  actionConfirmations : OrdMap String Int := ∅
  outstanding : Option SolverProposal := none

/-- What one `propose` is called with. -/
structure IncrementalInput where
  hardware : HardwareGraph
  threads : List ThreadDemand
  edges : List RelationEdge := []
  options : IncrementalOptions := {}
  nowNs : Nat := 0
  /-- the `dirty_tids()` of the graph's delta, when the caller passes one -/
  dirtyTids : Option (OrdSet Tid) := none

/-! ## Helpers -/

/-- `std::min_element`: the first element no other is less than. -/
def minElement {α : Type} (lt : α → α → Bool) : List α → Option α
  | [] => none
  | x :: xs => some (xs.foldl (fun best y => if lt y best then y else best) x)

def cpuNode (hardware : HardwareGraph) (cpu : Int) : Int :=
  match hardware.cpus.find? (fun c => decide (c.id = cpu) && c.online) with
  | some c => c.node
  | none => -1

def nodeLatency (hardware : HardwareGraph) (fromNode toNode : Int) : ℚ :=
  match hardware.nodeDistance.find? (toLex (fromNode, toNode)) with
  | some d => d
  | none =>
    let all := (hardware.cpusInNode fromNode).flatMap (fun a =>
      (hardware.cpusInNode toNode).map (fun b => hardware.latency a b))
    match all with
    | [] => 10 ^ 12
    | l :: ls => ls.foldl min l

/-- The other end of an edge. -/
def otherEnd (edge : RelationEdge) (tid : Tid) : Tid := if edge.fromTid = tid then edge.toTid else edge.fromTid

/-- The edges of each thread, in the order given. -/
def adjacencyOf (edges : List RelationEdge) : OrdMap Tid (List RelationEdge) :=
  edges.foldl (fun m e => (m.update e.fromTid [] (· ++ [e])).update e.toTid [] (· ++ [e])) ∅

/-! ## Hotspot edges -/

def hotspotCandidates (edges : List RelationEdge) (threads : OrdMap Tid ThreadDemand) (options : IncrementalOptions) :
    List (RelationEdge × ℚ) :=
  (edges.filter (fun e => decide (e.fromTid ≠ e.toTid ∧ 0 < e.score ∧ e.fromTid ∈ threads ∧ e.toTid ∈ threads))).map
    (fun e => (e, e.score * (1 + options.hotspotComponentBoost * max e.sync e.share)))

/-- Heavier first, then by key. -/
def hotspotBefore (a b : RelationEdge × ℚ) : Bool :=
  if a.2 ≠ b.2 then decide (b.2 < a.2)
  else decide (edgeKey a.1.fromTid a.1.toTid ≤ edgeKey b.1.fromTid b.1.toTid)

def incidentHotspots (candidates : List (RelationEdge × ℚ)) : OrdMap Tid (List (RelationEdge × ℚ)) :=
  candidates.foldl (fun m c => (m.update c.1.fromTid [] (· ++ [c])).update c.1.toTid [] (· ++ [c])) ∅

def selectHotspotEdges (edges : List RelationEdge) (threads : OrdMap Tid ThreadDemand) (options : IncrementalOptions) :
    List RelationEdge :=
  let candidates := hotspotCandidates edges threads options
  let weights := (candidates.map Prod.snd).insertionSort (· ≤ ·)
  let threshold := weights.getD (⌊options.hotspotEdgeQuantile * ((weights.length - 1 : Nat) : ℚ)⌋.toNat) 0
  let selected : OrdSet EdgeKey := (incidentHotspots candidates).entries.foldl (fun s e =>
    ((e.2.insertionSort (fun a b => hotspotBefore a b = true)).take options.hotspotEdgesPerThread).foldl
      (fun s c => OrdSet.add s (edgeKey c.1.fromTid c.1.toTid)) s) ∅
  let kept := candidates.filter (fun c =>
    !(decide (c.2 + 1 / 10 ^ 12 < threshold) && decide (edgeKey c.1.fromTid c.1.toTid ∉ selected)))
  (kept.map (fun c => { c.1 with score := c.2 })).insertionSort
    (fun a b => edgeKey a.fromTid a.toTid ≤ edgeKey b.fromTid b.toTid)

namespace IncrementalSolver

def removeThread (s : IncrementalSolver) (tid : Tid) : IncrementalSolver :=
  { s with
    identities := s.identities.erase tid
    threads := s.threads.erase tid
    previousDemand := s.previousDemand.erase tid
    baselineCpu := s.baselineCpu.erase tid
    initialTargetNode := s.initialTargetNode.erase tid
    initialTargetCpu := s.initialTargetCpu.erase tid
    previousInitialTargetNode := s.previousInitialTargetNode.erase tid
    initialCandidateIdentities := s.initialCandidateIdentities.erase tid
    placement := s.placement.erase tid
    pinned := s.pinned.erase tid
    lastMovedNs := s.lastMovedNs.erase tid
    edges := s.edges.filter (fun k _ => decide ((ofLex k).1 ≠ tid ∧ (ofLex k).2 ≠ tid)) }

/-- Everything back to its initial value; `shadow_` is kept. -/
def reset (s : IncrementalSolver) : IncrementalSolver := { shadow := s.shadow }

def effective (s : IncrementalSolver) : Bool :=
  decide (s.phase = .optimizing) && !s.threads.isEmpty && decide (s.pinned.size = s.threads.size)

/-! ## Capacity and demand -/

def onlineCpus (hardware : HardwareGraph) : Nat := (hardware.cpus.filter (·.online)).length

def cpuSlotCap (input : IncrementalInput) : Int :=
  let dynamic := ⌈(input.threads.length : ℚ) / onlineCpus input.hardware⌉ + input.options.threadSlotSlack
  if 0 < input.options.maximumThreadsPerCpu then input.options.maximumThreadsPerCpu else max 1 dynamic

/-- The peak of each live group: this window's, or the decayed earlier one. -/
def groupPeaks (s : IncrementalSolver) (input : IncrementalInput) : OrdMap String ℚ :=
  let current := input.threads.foldl (fun (m : OrdMap String ℚ) t => m.update t.group 0 (max · t.demand)) ∅
  current.mapVal (fun g peak => max peak (s.groupPeakDemand.getD g 0 * input.options.groupPeakDecay))

def effectiveDemand (options : IncrementalOptions) (peaks : OrdMap String ℚ) (t : ThreadDemand) : ℚ :=
  let reserve := min options.groupPeakDemandCap (peaks.getD t.group 0 * options.groupPeakDemandRatio)
  min 1 (max (max t.demand options.futureDemandFloor) reserve)

/-- The threads with the demand the solver plans for. -/
def incomingThreads (s : IncrementalSolver) (input : IncrementalInput) : List ThreadDemand :=
  input.threads.map (fun t => { t with demand := effectiveDemand input.options (groupPeaks s input) t })

/-! ## Arrivals -/

/-- The CPU a thread has or is meant to have. -/
def knownCpu (s : IncrementalSolver) (tid : Tid) : Option Int :=
  match s.placement.find? tid with
  | some cpu => some cpu
  | none => s.initialTargetCpu.find? tid

/-- The threads of the solver with a known CPU. -/
def seated (s : IncrementalSolver) : List (Tid × ThreadDemand × Int) :=
  s.threads.entries.filterMap (fun e => (knownCpu s e.1).bind (fun cpu =>
    if 0 ≤ cpu then some (e.1, e.2, cpu) else none))

abbrev NodeScore := Int ×ₗ ℚ ×ₗ ℚ ×ₗ ℚ ×ₗ Int ×ₗ Bool ×ₗ Int

def arrivalNodeScore (s : IncrementalSolver) (input : IncrementalInput) (adjacency : OrdMap Tid (List RelationEdge))
    (thread : ThreadDemand) (node : Int) : NodeScore :=
  let hardware := input.hardware
  let cpus : ℚ := (hardware.cpusInNode node).length
  let countCap := ⌈(input.threads.length : ℚ) * cpus / onlineCpus hardware *
    (1 + input.options.initialNodeThreadSlackRatio)⌉
  let onNode := (seated s).filter (fun x => decide (cpuNode hardware x.2.2 = node))
  let load := (onNode.map (fun x => x.2.1.demand)).sum
  let relation := ((adjacency.getD thread.identity.tid []).map (fun e =>
    match (knownCpu s (otherEnd e thread.identity.tid)).filter (fun cpu => decide (0 ≤ cpu)) with
    | some cpu => e.score * nodeLatency hardware node (cpuNode hardware cpu)
    | none => 0)).sum
  let kin : Int := (onNode.filter (fun x => decide (x.2.1.group = thread.group))).length
  toLex (max 0 ((onNode.length : Int) + 1 - countCap), toLex (max 0 (load + thread.demand - cpus),
    toLex (relation, toLex ((load + thread.demand) / cpus, toLex (-kin,
      toLex (decide (node ≠ cpuNode hardware thread.currentCpu), node))))))

abbrev CpuScore := Bool ×ₗ ℚ ×ₗ ℚ ×ₗ Int ×ₗ Int

def arrivalCpuScore (s : IncrementalSolver) (input : IncrementalInput) (thread : ThreadDemand) (cpu : Int) : CpuScore :=
  let onCpu := (seated s).filter (fun x => decide (x.2.2 = cpu))
  let load := (onCpu.map (fun x => x.2.1.demand)).sum
  let count : Int := onCpu.length
  toLex (decide (cpuSlotCap input ≤ count), toLex (max 0 (load + thread.demand - 1), toLex (load + thread.demand,
    toLex (count, cpu))))

/-- The target of a thread that arrives after the node plan. -/
def arrivalTarget (s : IncrementalSolver) (input : IncrementalInput) (adjacency : OrdMap Tid (List RelationEdge))
    (thread : ThreadDemand) : Option Int :=
  let nodes := input.hardware.nodes
  let score := arrivalNodeScore s input adjacency thread
  let front := nodes.headD (-1)
  let node := nodes.foldl (fun best n => if score n < score best then n else best) front
  let inNode := input.hardware.cpusInNode node
  let candidates := if inNode.isEmpty then input.hardware.cpusInNode front else inNode
  minElement (fun a b => decide (arrivalCpuScore s input thread a < arrivalCpuScore s input thread b)) candidates

structure Intake where
  solver : IncrementalSolver
  addedThreads : Nat := 0
  addedAfterInitial : Bool := false

/-- A TID known under another identity is removed first. -/
def forgetReused (s : IncrementalSolver) (identity : ThreadIdentity) : IncrementalSolver :=
  match s.identities.find? identity.tid with
  | some old => if old = identity then s else removeThread s identity.tid
  | none => s

/-- One thread of the window; `thread` carries the demand it is planned with. -/
def takeIn (input : IncrementalInput) (adjacency : OrdMap Tid (List RelationEdge)) (st : Intake) (thread : ThreadDemand) :
    Intake :=
  let tid := thread.identity.tid
  let s := forgetReused st.solver thread.identity
  let st' : Intake :=
    if tid ∈ s.identities then { st with solver := s } else
    let s₁ := { s with
      identities := s.identities.insert tid thread.identity
      baselineCpu := s.baselineCpu.insert tid thread.currentCpu }
    if s.phase = .initialPinning ∨ s.phase = .optimizing then
      let cpu := (arrivalTarget s₁ input adjacency thread).getD (-1)
      { solver := { s₁ with
          initialTargetNode := s₁.initialTargetNode.insert tid (cpuNode input.hardware cpu)
          initialTargetCpu := s₁.initialTargetCpu.insert tid cpu }
        addedThreads := st.addedThreads + 1
        addedAfterInitial := true }
    else { st with solver := s₁, addedThreads := st.addedThreads + 1 }
  { st' with solver := { st'.solver with threads := st'.solver.threads.insert tid thread } }

/-! ## Phase changes -/

/-- A global node replan begins. -/
def startReplan (s : IncrementalSolver) : IncrementalSolver :=
  { s with
    phase := .nodePlanning
    replanExistingThreads := true
    stableHotspotReplanPending := false
    initialConfirmation := 0
    previousInitialTargetNode := ∅
    initialCandidateIdentities := ∅ }

def initialTargetsEffective (s : IncrementalSolver) : Bool :=
  decide (s.pinned.size = s.threads.size) &&
  (!s.replanExistingThreads || s.threads.keys.all (fun tid =>
    match s.initialTargetCpu.find? tid, s.placement.find? tid with
    | some target, some cpu => decide (cpu = target)
    | _, _ => false))

def settlePhase (input : IncrementalInput) (st : Intake) : IncrementalSolver :=
  let s := st.solver
  let substantial := decide (0 < s.lastNodePlanPopulation) &&
    decide (input.options.hotspotReplanMinThreads ≤ st.addedThreads) &&
    decide (⌈(s.lastNodePlanPopulation : ℚ) * (1 + input.options.hotspotReplanGrowthRatio)⌉ ≤ (s.threads.size : Int))
  let s₁ := if st.addedAfterInitial && substantial then { startReplan s with hotspotStabilityConfirmation := 0 }
    else if st.addedAfterInitial then { s with phase := .initialPinning } else s
  if s₁.phase = .initialPinning ∧ initialTargetsEffective s₁ = true then { s₁ with phase := .optimizing } else s₁

/-- Jaccard similarity of the hotspot keys with the previous window's. -/
def hotspotSimilarity (keys previous : OrdSet EdgeKey) : ℚ :=
  if keys.isEmpty || previous.isEmpty then 0 else
  let shared := (keys.toList.filter (fun k => decide (k ∈ previous))).length
  let union := keys.size + previous.size - shared
  if union = 0 then 0 else (shared : ℚ) / union

/-- The hotspot edges of the window, and the replan a stable set of them triggers. -/
def settleHotspots (input : IncrementalInput) (s : IncrementalSolver) : IncrementalSolver × ℚ × Bool :=
  let selected := selectHotspotEdges input.edges s.threads input.options
  let edges := selected.foldl (fun (m : OrdMap EdgeKey RelationEdge) e => m.insert (edgeKey e.fromTid e.toTid) e) ∅
  let keys : OrdSet EdgeKey := edges.mapVal (fun _ _ => ())
  let similarity := hotspotSimilarity keys s.previousHotspotKeys
  let s₁ := { s with edges := edges, previousHotspotKeys := keys }
  if s.stableHotspotReplanPending then
    let confirmation := if input.options.hotspotStabilityThreshold ≤ similarity then s.hotspotStabilityConfirmation + 1
      else 0
    let s₂ := { s₁ with hotspotStabilityConfirmation := confirmation }
    if input.options.hotspotStabilityConfirmations ≤ confirmation then (startReplan s₂, similarity, true)
    else (s₂, similarity, false)
  else (s₁, similarity, false)

/-! ## The intake as a whole -/

/-- The departures: every thread the window no longer has. -/
def dropStale (s : IncrementalSolver) (threads : List ThreadDemand) : IncrementalSolver :=
  (s.threads.keys.filter (fun tid => !(threads.any (fun t => decide (t.identity.tid = tid))))).foldl removeThread s

/-- The hotspot edges of each thread of the window. -/
def incomingAdjacency (s : IncrementalSolver) (input : IncrementalInput) : OrdMap Tid (List RelationEdge) :=
  let incoming := (incomingThreads s input).foldl (fun (m : OrdMap Tid ThreadDemand) t => m.insert t.identity.tid t) ∅
  adjacencyOf (selectHotspotEdges input.edges incoming input.options)

/-- The departures, then the threads of the window in their order. -/
def takenIn (s : IncrementalSolver) (input : IncrementalInput) : Intake :=
  (incomingThreads s input).foldl (takeIn input (incomingAdjacency s input))
    { solver := dropStale { s with groupPeakDemand := groupPeaks s input } input.threads }

/-- The solver and the proposal as the phases find them. -/
def intake (s : IncrementalSolver) (input : IncrementalInput) : IncrementalSolver × SolverProposal :=
  let incoming := incomingThreads s input
  let s₂ := settlePhase input (takenIn s input)
  let (s₃, similarity, triggered) := settleHotspots input s₂
  let ratio := if s₃.phase = .initialPinning then input.options.initialMigratedThreadsRatio
    else input.options.maximumMigratedThreadsRatio
  let proposal : SolverProposal :=
    { id := s₃.nextProposalId
      shadow := s₃.shadow
      eligibleThreads := s₃.threads.size
      pinnedThreads := s₃.pinned.size
      migrationBudget := ⌊(s₃.threads.size : ℚ) * ratio⌋.toNat
      cpuSlotCap := cpuSlotCap input
      predictedDemandThreads := ((input.threads.zip incoming).filter (fun p =>
        decide (p.1.demand + 1 / 10 ^ 12 < p.2.demand))).length
      relationEdgesInput := input.edges.length
      hotspotEdges := s₃.edges.size
      hotspotSimilarity := similarity
      hotspotStabilityConfirmation := s₃.hotspotStabilityConfirmation
      hotspotReplanTriggered := triggered
      globalReplanActive := s₃.replanExistingThreads }
  let s₄ := { s₃ with nextProposalId := s₃.nextProposalId + 1 }
  let s₅ := if s₄.threads.isEmpty then { s₄ with phase := .uninitialized }
    else if s₄.phase = .uninitialized then { s₄ with phase := .nodePlanning } else s₄
  (s₅, proposal)

end IncrementalSolver

end AffinityGraph
