import AffinityGraph.InitialPinning
/-!
# Optimizing — the migrations of the incremental solver (`solver.cpp`, the last branch)

The branch collects the dirty threads, ranks them by what they suffer where they are, evaluates for each the best single
move and for each pair a swap, and selects a batch under the migration budget.  Loads are tracked through the batch; the
relation gains are those against the placement before it.

The source's `infinity` in the first comparison of a minimum is the first element here.
-/
namespace AffinityGraph
namespace IncrementalSolver

/-! ## Loads -/

structure Loads where
  cpuLoad : OrdMap Int ℚ := ∅
  cpuCount : OrdMap Int Int := ∅
  nodeLoad : OrdMap Int ℚ := ∅

namespace Loads

def onCpu (l : Loads) (cpu : Int) : ℚ := l.cpuLoad.getD cpu 0
def threadsOn (l : Loads) (cpu : Int) : Int := l.cpuCount.getD cpu 0
def onNode (l : Loads) (node : Int) : ℚ := l.nodeLoad.getD node 0

def add (l : Loads) (hardware : HardwareGraph) (cpu : Int) (demand : ℚ) : Loads where
  cpuLoad := l.cpuLoad.update cpu 0 (· + demand)
  cpuCount := l.cpuCount.update cpu 0 (· + 1)
  nodeLoad := l.nodeLoad.update (cpuNode hardware cpu) 0 (· + demand)

/-- One action of a batch. -/
def move (l : Loads) (hardware : HardwareGraph) (demand : ℚ) (source target : Int) : Loads where
  cpuLoad := (l.cpuLoad.update source 0 (· - demand)).update target 0 (· + demand)
  cpuCount := (l.cpuCount.update source 0 (· - 1)).update target 0 (· + 1)
  nodeLoad :=
    if cpuNode hardware source = cpuNode hardware target then l.nodeLoad
    else (l.nodeLoad.update (cpuNode hardware source) 0 (· - demand)).update (cpuNode hardware target) 0 (· + demand)

def slotViolation (l : Loads) (input : IncrementalInput) : Int :=
  (input.hardware.cpus.map (fun c => max 0 (l.threadsOn c.id - cpuSlotCap input))).sum

def overload (l : Loads) (hardware : HardwareGraph) : ℚ :=
  (hardware.cpus.map (fun c => max 0 (l.onCpu c.id - 1))).sum +
    (hardware.nodes.map (fun n => max 0 (l.onNode n - nodeCpuCount hardware n))).sum

end Loads

/-- `node_balance_cost`. -/
def nodeBalanceCost (hardware : HardwareGraph) (nodeLoad : OrdMap Int ℚ) : ℚ :=
  (hardware.nodes.map (fun n => nodeLoad.getD n 0 * nodeLoad.getD n 0 / max (nodeCpuCount hardware n) 1)).sum

def leastOf : List ℚ → ℚ
  | [] => 0
  | x :: xs => xs.foldl min x

def utilization (hardware : HardwareGraph) (nodeLoad : OrdMap Int ℚ) (node : Int) : ℚ :=
  nodeLoad.getD node 0 / max (nodeCpuCount hardware node) 1

/-- `utilization_span`. -/
def utilizationSpan (hardware : HardwareGraph) (nodeLoad : OrdMap Int ℚ) : ℚ :=
  let all := hardware.nodes.map (fun n => nodeLoad.getD n 0 / nodeCpuCount hardware n)
  all.foldl max 0 - leastOf all

/-- Where a thread is, or was first sampled. -/
def homeCpu (s : IncrementalSolver) (tid : Tid) : Int := (s.placement.find? tid).getD (s.baselineCpu.getD tid 0)

def currentLoads (s : IncrementalSolver) (hardware : HardwareGraph) : Loads :=
  s.threads.entries.foldl (fun l e => l.add hardware (homeCpu s e.1) e.2.demand) {}

def minimumUtilization (hardware : HardwareGraph) (loads : Loads) : ℚ :=
  leastOf (hardware.nodes.map (utilization hardware loads.nodeLoad))

/-! ## The dirty threads -/

/-- A thread that sits where it should not. -/
def suffers (s : IncrementalSolver) (input : IncrementalInput) (loads : Loads) (tid : Tid) : Bool :=
  let cpu := homeCpu s tid
  let node := cpuNode input.hardware cpu
  decide (node < 0) || decide (1 < loads.onCpu cpu) || decide (cpuSlotCap input < loads.threadsOn cpu) ||
    (decide (0 ≤ node) && (decide ((nodeCpuCount input.hardware node : ℚ) < loads.onNode node) ||
      decide (minimumUtilization input.hardware loads + input.options.nodeBalanceThreshold <
        utilization input.hardware loads.nodeLoad node)))

def demandChanged (s : IncrementalSolver) (options : IncrementalOptions) (tid : Tid) (demand : ℚ) : Bool :=
  match s.previousDemand.find? tid with
  | none => true
  | some old => decide (options.demandDirtyThreshold ≤ |old - demand|)

def edgeChanged (s : IncrementalSolver) (options : IncrementalOptions) (key : EdgeKey) (score : ℚ) : Bool :=
  match s.previousEdgeScore.find? key with
  | none => true
  | some old =>
    decide (options.edgeDirtyAbsoluteThreshold ≤ |score - old|) ||
      decide (options.edgeDirtyRelativeThreshold ≤ |score - old| / max |old| (1 / 10 ^ 9))

/-- The threads the rotating scan takes in. -/
def scanned (s : IncrementalSolver) (options : IncrementalOptions) : List Tid :=
  let all := s.threads.keys
  if all.isEmpty then [] else
  (List.range options.rotatingScanSize).map (fun i => all.getD ((s.scanCursor + i) % all.length) 0)

def dirtyTids (s : IncrementalSolver) (input : IncrementalInput) (loads : Loads) : OrdSet Tid :=
  let ends (key : EdgeKey) := [(ofLex key).1, (ofLex key).2]
  let own := (s.threads.entries.filter (fun e =>
    (input.dirtyTids.isNone && demandChanged s input.options e.1 e.2.demand) || suffers s input loads e.1)).map Prod.fst
  let related := if input.dirtyTids.isSome then [] else
    (s.edges.entries.filter (fun e => edgeChanged s input.options e.1 e.2.score)).flatMap (fun e => ends e.1) ++
    (s.previousEdgeScore.keys.filter (fun k => decide (k ∉ s.edges))).flatMap ends
  (own ++ related ++ scanned s input.options).foldl OrdSet.add (input.dirtyTids.getD ∅)

/-! ## The ranking -/

structure Dissatisfaction where
  tid : Tid
  invalid : Bool
  slots : Int
  capacity : ℚ
  nodeBalance : ℚ
  relation : ℚ
  load : ℚ

/-- The latency of a thread's edges if it sat on a node. -/
def nodeRelation (s : IncrementalSolver) (hardware : HardwareGraph) (adjacency : OrdMap Tid (List RelationEdge))
    (tid : Tid) (node : Int) : ℚ :=
  ((adjacency.getD tid []).map (fun e =>
    match s.placement.find? (otherEnd e tid) with
    | some cpu => e.score * nodeLatency hardware node (cpuNode hardware cpu)
    | none => 0)).sum

def dissatisfaction (s : IncrementalSolver) (input : IncrementalInput) (adjacency : OrdMap Tid (List RelationEdge))
    (loads : Loads) (tid : Tid) (cpu : Int) : Dissatisfaction :=
  let hardware := input.hardware
  let node := cpuNode hardware cpu
  let demand := demandOf s tid
  let relation := nodeRelation s hardware adjacency tid
  let current := if node ∈ hardware.nodes then relation node else 0
  { tid := tid
    invalid := decide (node < 0)
    slots := max 0 (loads.threadsOn cpu - cpuSlotCap input)
    capacity := demand * max 0 (loads.onCpu cpu - 1) +
      (if 0 ≤ node then demand * max 0 (loads.onNode node - nodeCpuCount hardware node) else 0)
    nodeBalance := if 0 ≤ node then
      demand * max 0 (utilization hardware loads.nodeLoad node - minimumUtilization hardware loads) else 0
    relation := max 0 (current - leastOf (hardware.nodes.map relation))
    -- with no CPU of the node to compare with, the source's minimum is infinite and the difference negative
    load := match (if 0 ≤ node then hardware.cpusInNode node else []) with
      | [] => 0
      | cpus => demand * max 0 (loads.onCpu cpu - leastOf (cpus.map loads.onCpu)) }

abbrev RankKey := Bool ×ₗ Int ×ₗ ℚ ×ₗ ℚ ×ₗ ℚ ×ₗ ℚ ×ₗ ℚ

def rankKey (s : IncrementalSolver) (d : Dissatisfaction) : RankKey :=
  toLex (d.invalid, toLex (d.slots, toLex (d.capacity, toLex (d.relation, toLex (d.nodeBalance, toLex (d.load,
    demandOf s d.tid))))))

/-- Worse off first, then the smaller identity. -/
def rankBefore (s : IncrementalSolver) (a b : Dissatisfaction) : Bool :=
  if rankKey s a ≠ rankKey s b then decide (rankKey s b < rankKey s a)
  else decide (identityOf s a.tid ≤ identityOf s b.tid)

def ranked (s : IncrementalSolver) (input : IncrementalInput) (adjacency : OrdMap Tid (List RelationEdge))
    (loads : Loads) (budget : Nat) : List Dissatisfaction :=
  let all := (dirtyTids s input loads).toList.filterMap (fun tid =>
    if tid ∈ s.threads then (s.placement.find? tid).map (dissatisfaction s input adjacency loads tid) else none)
  (all.insertionSort (fun a b => rankBefore s a b = true)).take
    (min input.options.candidateHardLimit (input.options.candidateMultiplier * budget))

/-! ## Single moves -/

/-- `incident_cost`: the latency of a thread's edges if it sat on a CPU; `overrides` go before the placement. -/
def incidentCost (s : IncrementalSolver) (hardware : HardwareGraph) (adjacency : OrdMap Tid (List RelationEdge))
    (overrides : OrdMap Tid Int) (tid : Tid) (cpu : Int) : ℚ :=
  ((adjacency.getD tid []).map (fun e =>
    match s.placement.find? (otherEnd e tid) with
    | some placed => e.score * hardware.latency cpu ((overrides.find? (otherEnd e tid)).getD placed)
    | none => 0)).sum

def cooling (s : IncrementalSolver) (input : IncrementalInput) (tid : Tid) : Bool :=
  match s.lastMovedNs.find? tid with
  | some moved => decide (subU64 input.nowNs moved < input.options.minimumDwellNs)
  | none => false

abbrev MoveObjective := Bool ×ₗ Int ×ₗ ℚ ×ₗ ℚ ×ₗ ℚ ×ₗ ℚ ×ₗ Int

/-- What moving a thread to a CPU would do. -/
structure MoveEffect where
  cpu : Int
  emergency : Bool
  gain : ℚ
  worseSlots : Bool
  worseOverload : Bool
  objective : MoveObjective

def moveEffect (s : IncrementalSolver) (input : IncrementalInput) (adjacency : OrdMap Tid (List RelationEdge))
    (loads : Loads) (tid : Tid) (source : Int) (target : Cpu) : MoveEffect :=
  let hardware := input.hardware
  let cap := cpuSlotCap input
  let cpu := target.id
  let demand := demandOf s tid
  let sourceNode := cpuNode hardware source
  let targetNode := target.node
  let room (load : ℚ) (node : Int) : ℚ := max 0 (load - nodeCpuCount hardware node)
  let slotsBefore := max 0 (loads.threadsOn source - cap) + max 0 (loads.threadsOn cpu - cap)
  let slotsAfter := max 0 (loads.threadsOn source - 1 - cap) + max 0 (loads.threadsOn cpu + 1 - cap)
  let overloadBefore := max 0 (loads.onCpu source - 1) + max 0 (loads.onCpu cpu - 1) +
    (if 0 ≤ sourceNode then room (loads.onNode sourceNode) sourceNode else 0) +
    (if targetNode ≠ sourceNode then room (loads.onNode targetNode) targetNode else 0)
  let crosses := decide (0 ≤ sourceNode) && decide (sourceNode ≠ targetNode)
  let overloadAfter := max 0 (loads.onCpu source - demand - 1) + max 0 (loads.onCpu cpu + demand - 1) +
    (if crosses then room (loads.onNode sourceNode - demand) sourceNode + room (loads.onNode targetNode + demand) targetNode
     else 0)
  let balanced := if crosses then
    (loads.nodeLoad.update sourceNode 0 (· - demand)).update targetNode 0 (· + demand) else loads.nodeLoad
  let balanceBefore := nodeBalanceCost hardware loads.nodeLoad
  let balanceAfter := nodeBalanceCost hardware balanced
  let current := incidentCost s hardware adjacency ∅ tid source
  let relation := incidentCost s hardware adjacency ∅ tid cpu
  let balanceEmergency := crosses &&
    decide (utilization hardware loads.nodeLoad targetNode + input.options.nodeBalanceThreshold <
      utilization hardware loads.nodeLoad sourceNode) &&
    decide (balanceAfter + 1 / 10 ^ 12 < balanceBefore) && decide (relation ≤ current + 1 / 10 ^ 12)
  let emergency := decide (sourceNode < 0) || decide (slotsAfter < slotsBefore) ||
    decide (overloadAfter + 1 / 10 ^ 12 < overloadBefore) || balanceEmergency
  { cpu := cpu
    emergency := emergency
    gain := current - relation
    worseSlots := decide (slotsBefore < slotsAfter)
    worseOverload := decide (overloadBefore + 1 / 10 ^ 12 < overloadAfter)
    objective := toLex (!emergency, toLex (slotsAfter, toLex (overloadAfter, toLex (relation, toLex (balanceAfter,
      toLex (hardware.latency source cpu, cpu)))))) }

/-- The moves of a thread that pass every test of the loop. -/
def admissibleMoves (s : IncrementalSolver) (input : IncrementalInput) (adjacency : OrdMap Tid (List RelationEdge))
    (loads : Loads) (tid : Tid) (source : Int) : List MoveEffect :=
  let current := incidentCost s input.hardware adjacency ∅ tid source
  ((input.hardware.cpus.filter (fun c => c.online && decide (c.id ≠ source))).map
    (moveEffect s input adjacency loads tid source)).filter (fun m =>
      !(cooling s input tid && !m.emergency) && !(m.worseSlots || (!m.emergency && m.worseOverload)) &&
      !(!m.emergency && decide (m.gain + 1 / 10 ^ 12 < input.options.minimumRelativeGain * max current (1 / 10 ^ 9))))

def bestAdmissible (s : IncrementalSolver) (input : IncrementalInput) (adjacency : OrdMap Tid (List RelationEdge))
    (loads : Loads) (tid : Tid) (source : Int) : Option MoveEffect :=
  minElement (fun a b => decide (a.objective < b.objective)) (admissibleMoves s input adjacency loads tid source)

structure Potential where
  actions : List PlacementAction
  emergency : Bool := false
  gain : ℚ := 0

/-- `action_key`. -/
def Potential.key (p : Potential) : String :=
  String.join (p.actions.map (fun a => toString a.identity.tgid ++ ":" ++ toString a.identity.tid ++ ":" ++
    toString a.identity.starttime ++ ":" ++ toString a.fromCpu ++ ">" ++ toString a.targetCpu ++ ";"))

def moveAction (s : IncrementalSolver) (d : Dissatisfaction) (source target : Int) (emergency : Bool) : PlacementAction :=
  { identity := identityOf s d.tid
    fromCpu := source
    targetCpu := target
    emergency := emergency
    capacityRegret := d.capacity
    relationRegret := d.relation
    loadRegret := d.load }

def singleMove (s : IncrementalSolver) (input : IncrementalInput) (adjacency : OrdMap Tid (List RelationEdge))
    (loads : Loads) (d : Dissatisfaction) : Option Potential :=
  let source := s.placement.getD d.tid 0
  (bestAdmissible s input adjacency loads d.tid source).map (fun m =>
    { actions := [moveAction s d source m.cpu m.emergency], emergency := m.emergency, gain := m.gain })

/-! ## Pair swaps -/

/-- Whether the loads after a swap are no worse. -/
def swapFits (s : IncrementalSolver) (hardware : HardwareGraph) (loads : Loads) (first second : Tid)
    (firstCpu secondCpu : Int) : Bool :=
  let shift := demandOf s second - demandOf s first
  let excess (load : ℚ) : ℚ := max 0 (load - 1)
  let room (load : ℚ) (node : Int) : ℚ := max 0 (load - nodeCpuCount hardware node)
  let n₁ := cpuNode hardware firstCpu
  let n₂ := cpuNode hardware secondCpu
  decide (excess (loads.onCpu firstCpu + shift) + excess (loads.onCpu secondCpu - shift) ≤
    excess (loads.onCpu firstCpu) + excess (loads.onCpu secondCpu) + 1 / 10 ^ 12) &&
  (decide (n₁ = n₂) ||
    decide (room (loads.onNode n₁ + shift) n₁ + room (loads.onNode n₂ - shift) n₂ ≤
      room (loads.onNode n₁) n₁ + room (loads.onNode n₂) n₂ + 1 / 10 ^ 12))

def pairSwap (s : IncrementalSolver) (input : IncrementalInput) (adjacency : OrdMap Tid (List RelationEdge))
    (loads : Loads) (a b : Dissatisfaction) : Option Potential :=
  let firstCpu := s.placement.getD a.tid 0
  let secondCpu := s.placement.getD b.tid 0
  if firstCpu = secondCpu ∨ cooling s input a.tid = true ∨ cooling s input b.tid = true then none else
  let cost := incidentCost s input.hardware adjacency
  let before := cost ∅ a.tid firstCpu + cost ∅ b.tid secondCpu
  let overrides := ((∅ : OrdMap Tid Int).insert a.tid secondCpu).insert b.tid firstCpu
  let after := cost overrides a.tid secondCpu + cost overrides b.tid firstCpu
  if before - after + 1 / 10 ^ 12 < input.options.minimumRelativeGain * max before (1 / 10 ^ 9) then none else
  if swapFits s input.hardware loads a.tid b.tid firstCpu secondCpu then
    some { actions := [moveAction s a firstCpu secondCpu false, moveAction s b secondCpu firstCpu false]
           gain := before - after }
  else none

/-- The pairs of a list, each element with every later one. -/
def rankedPairs : List Dissatisfaction → List (Dissatisfaction × Dissatisfaction)
  | [] => []
  | d :: ds => ds.map (fun e => (d, e)) ++ rankedPairs ds

/-! ## The batch -/

/-- Emergencies first, then the larger gain, then the key. -/
def potentialBefore (a b : Potential) : Bool :=
  if a.emergency ≠ b.emergency then a.emergency
  else if a.gain ≠ b.gain then decide (b.gain < a.gain) else decide (a.key ≤ b.key)

def potentials (s : IncrementalSolver) (input : IncrementalInput) (adjacency : OrdMap Tid (List RelationEdge))
    (loads : Loads) (candidates : List Dissatisfaction) : List Potential :=
  (candidates.filterMap (singleMove s input adjacency loads) ++
    (rankedPairs candidates).filterMap (fun p => pairSwap s input adjacency loads p.1 p.2)).insertionSort
      (fun a b => potentialBefore a b = true)

/-- The threads some move or swap was refused for because they moved too recently. -/
def cooldownSkipped (s : IncrementalSolver) (input : IncrementalInput) (adjacency : OrdMap Tid (List RelationEdge))
    (loads : Loads) (candidates : List Dissatisfaction) : OrdSet Tid :=
  let single := (candidates.filter (fun d => cooling s input d.tid &&
    (input.hardware.cpus.filter (fun c => c.online && decide (c.id ≠ s.placement.getD d.tid 0))).any (fun c =>
      !(moveEffect s input adjacency loads d.tid (s.placement.getD d.tid 0) c).emergency))).map (·.tid)
  let paired := (rankedPairs candidates).flatMap (fun p =>
    if s.placement.getD p.1.tid 0 = s.placement.getD p.2.tid 0 then [] else
    ([p.1, p.2].filter (fun d => cooling s input d.tid)).map (·.tid))
  OrdSet.ofList (single ++ paired)

structure Batch where
  actions : List PlacementAction := []
  loads : Loads

/-- One turn of the selection. -/
def selectPotential (s : IncrementalSolver) (input : IncrementalInput) (confirmations : OrdMap String Int) (budget : Nat)
    (st : Batch) (p : Potential) : Batch :=
  let hardware := input.hardware
  if p.emergency = false ∧ confirmations.getD p.key 0 < input.options.proposalConfirmations then st else
  if budget < st.actions.length + p.actions.length then st else
  if p.actions.any (fun a => st.actions.any (fun b => decide (b.identity.tid = a.identity.tid))) then st else
  let next := p.actions.foldl (fun (l : Loads) a =>
    l.move hardware (demandOf s a.identity.tid) a.fromCpu a.targetCpu) st.loads
  let slotsBefore := st.loads.slotViolation input
  let slotsAfter := next.slotViolation input
  let before := st.loads.overload hardware
  let after := next.overload hardware
  let balanceBefore := nodeBalanceCost hardware st.loads.nodeLoad
  let balanceAfter := nodeBalanceCost hardware next.nodeLoad
  let capacityImproved := decide (slotsAfter < slotsBefore) || decide (after + 1 / 10 ^ 12 < before)
  let balanceImproved := decide (balanceAfter + 1 / 10 ^ 12 < balanceBefore)
  if slotsBefore < slotsAfter ∨ before + 1 / 10 ^ 12 < after ∨
      (p.emergency = true ∧ capacityImproved = false ∧ balanceImproved = false) ∨
      (p.emergency = false ∧ balanceBefore + 1 / 10 ^ 12 < balanceAfter ∧
        input.options.nodeBalanceThreshold < utilizationSpan hardware next.nodeLoad) then st
  else { actions := st.actions ++ p.actions, loads := next }

/-- The branch, on the state the intake left. -/
def optimize (s : IncrementalSolver) (input : IncrementalInput) (proposal : SolverProposal) :
    SolverProposal × IncrementalSolver :=
  let p := { proposal with phase := .optimizing, initialPlanConfirmed := true }
  if p.migrationBudget = 0 then (p, s) else
  let adjacency := adjacencyOf (s.edges.entries.map Prod.snd)
  let loads := currentLoads s input.hardware
  let candidates := ranked s input adjacency loads p.migrationBudget
  let all := potentials s input adjacency loads candidates
  let confirmations := all.foldl (fun (m : OrdMap String Int) x =>
    m.insert x.key (s.actionConfirmations.getD x.key 0 + 1)) ∅
  let batch := all.foldl (selectPotential s input confirmations p.migrationBudget) { loads := loads }
  offer
    { s with
      scanCursor := if s.threads.isEmpty then s.scanCursor
        else (s.scanCursor + input.options.rotatingScanSize) % s.threads.size
      previousDemand := s.threads.mapVal (fun _ t => t.demand)
      previousEdgeScore := s.edges.mapVal (fun _ e => e.score)
      actionConfirmations := confirmations }
    { p with
      actions := batch.actions
      delta := { tidToCpu :=
        batch.actions.foldl (fun (m : OrdMap Tid Int) a => m.insert a.identity.tid a.targetCpu) ∅ }
      maximumCpuThreads := loads.cpuCount.entries.foldl (fun m e => max m e.2) 0
      dirtyThreads := (dirtyTids s input loads).size
      candidateThreads := candidates.length
      cooldownSkippedThreads := (cooldownSkipped s input adjacency loads candidates).size }

end IncrementalSolver
end AffinityGraph
