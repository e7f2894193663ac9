import AffinityGraph.Incremental
/-!
# NodePlanning — the node plan of the incremental solver (`solver.cpp`, the `NodePlanning` branch)

The branch bounds the threads of each node from both sides, orders the threads by hotspot communities, assigns them
greedily, repairs the nodes left below their floor and refines by swaps.  The repair is the one place that can throw.
-/
namespace AffinityGraph
namespace IncrementalSolver

/-! ## Bounds -/

def nodeCpuCount (hardware : HardwareGraph) (node : Int) : Nat := (hardware.cpusInNode node).length

/-- The threads a node would have in proportion to its CPUs. -/
def nodeShare (s : IncrementalSolver) (hardware : HardwareGraph) (node : Int) : ℚ :=
  (s.threads.size : ℚ) * nodeCpuCount hardware node / hardware.cpus.length

def threadCap (s : IncrementalSolver) (input : IncrementalInput) (node : Int) : Int :=
  min ⌈nodeShare s input.hardware node * (1 + input.options.initialNodeThreadSlackRatio)⌉
    (cpuSlotCap input * nodeCpuCount input.hardware node)

def threadFloor (s : IncrementalSolver) (input : IncrementalInput) (node : Int) : Int :=
  ⌊nodeShare s input.hardware node * (1 - input.options.initialNodeThreadSlackRatio)⌋

def demandOf (s : IncrementalSolver) (tid : Tid) : ℚ := (s.threads.find? tid).elim 0 (·.demand)

/-- The identity a comparison reads; a missing one is the source's default. -/
def identityOf (s : IncrementalSolver) (tid : Tid) : ThreadIdentity := s.identities.getD tid ⟨-1, -1, 0⟩

/-! ## The community order -/

structure Community where
  ordered : List Tid := []
  remaining : OrdSet Tid
  seeds : OrdSet Tid := ∅

namespace Community

def append (c : Community) (tid : Tid) : Community :=
  { c with ordered := c.ordered ++ [tid], remaining := c.remaining.erase tid }

def pairRank (e : RelationEdge) : ℚ ×ₗ Int ×ₗ Int := toLex (e.score, toLex (-e.fromTid, -e.toTid))

/-- The heaviest edge with both ends remaining. -/
def bestPair (c : Community) (edges : List RelationEdge) : Option RelationEdge :=
  (edges.filter (fun e => decide (e.fromTid ∈ c.remaining ∧ e.toTid ∈ c.remaining))).foldl (fun best e =>
    match best with
    | none => some e
    | some b => if pairRank b < pairRank e then some e else some b) none

/-- The remaining end of an edge with exactly one. -/
def frontierEnd (c : Community) (e : RelationEdge) : Option Tid :=
  if e.fromTid ∈ c.remaining ∧ e.toTid ∉ c.remaining then some e.fromTid
  else if e.fromTid ∉ c.remaining ∧ e.toTid ∈ c.remaining then some e.toTid else none

/-- The heaviest frontier edge's score and remaining end. -/
def bestFrontier (c : Community) (edges : List RelationEdge) : Option (ℚ × Tid) :=
  (edges.filterMap (fun e => (frontierEnd c e).map (fun t => (e.score, t)))).foldl (fun best f =>
    match best with
    | none => some f
    | some b => if toLex (b.1, -b.2) < toLex (f.1, -f.2) then some f else some b) none

/-- Larger demand first, then the smaller identity. -/
def seedBefore (s : IncrementalSolver) (a b : Tid) : Bool :=
  if demandOf s a ≠ demandOf s b then decide (demandOf s b < demandOf s a) else decide (identityOf s a < identityOf s b)

/-- The pair in the order it is appended in. -/
def orient (s : IncrementalSolver) (e : RelationEdge) : Tid × Tid :=
  if seedBefore s e.toTid e.fromTid then (e.toTid, e.fromTid) else (e.fromTid, e.toTid)

/-- One turn of the ordering loop. -/
def step (s : IncrementalSolver) (c : Community) : Community :=
  let edges := s.edges.entries.map Prod.snd
  let bySeed : Community := match minElement (seedBefore s) c.remaining.toList with
    | some seed => { c.append seed with seeds := OrdSet.add c.seeds seed }
    | none => c
  let byPair (e : RelationEdge) : Community :=
    let (first, second) := orient s e
    { (c.append first).append second with seeds := OrdSet.add c.seeds first }
  match c.bestPair edges, c.bestFrontier edges with
  | some pair, none => byPair pair
  | some pair, some f => if f.1 < pair.score then byPair pair else c.append f.2
  | none, some f => c.append f.2
  | none, none => bySeed

/-- Each turn takes a remaining thread, so as many turns as threads are enough. -/
def run (s : IncrementalSolver) : Nat → Community → Community
  | 0, c => c
  | fuel + 1, c => if c.remaining.isEmpty then c else run s fuel (step s c)

end Community

def communityOrder (s : IncrementalSolver) : Community :=
  Community.run s s.threads.size { remaining := s.threads.mapVal (fun _ _ => ()) }

/-! ## The greedy assignment -/

structure NodePlan where
  assigned : OrdMap Tid Int := ∅
  nodeLoad : OrdMap Int ℚ := ∅
  nodeThreads : OrdMap Int Int := ∅

def NodePlan.load (p : NodePlan) (node : Int) : ℚ := p.nodeLoad.getD node 0
def NodePlan.count (p : NodePlan) (node : Int) : Int := p.nodeThreads.getD node 0

/-- Put a new thread on a node. -/
def NodePlan.place (p : NodePlan) (tid : Tid) (demand : ℚ) (node : Int) : NodePlan where
  assigned := p.assigned.insert tid node
  nodeLoad := p.nodeLoad.insert node (p.load node + demand)
  nodeThreads := p.nodeThreads.insert node (p.count node + 1)

/-- Move a thread between two nodes. -/
def NodePlan.move (p : NodePlan) (tid : Tid) (demand : ℚ) (source target : Int) : NodePlan where
  assigned := p.assigned.insert tid target
  nodeLoad := (p.nodeLoad.insert source (p.load source - demand)).update target 0 (· + demand)
  nodeThreads := (p.nodeThreads.insert source (p.count source - 1)).update target 0 (· + 1)

abbrev PlanScore := Int ×ₗ ℚ ×ₗ ℚ ×ₗ Bool ×ₗ ℚ ×ₗ Int

def planScore (s : IncrementalSolver) (input : IncrementalInput) (adjacency : OrdMap Tid (List RelationEdge))
    (seeds : OrdSet Tid) (p : NodePlan) (tid : Tid) (node : Int) : PlanScore :=
  let cpus := nodeCpuCount input.hardware node
  let relation := if tid ∈ seeds then 0 else ((adjacency.getD tid []).map (fun e =>
    match p.assigned.find? (otherEnd e tid) with
    | some placed => e.score * nodeLatency input.hardware node placed
    | none => 0)).sum
  toLex (max 0 (p.count node + 1 - threadCap s input node), toLex (max 0 (p.load node + demandOf s tid - cpus),
    toLex (relation, toLex (decide (node ≠ cpuNode input.hardware (s.baselineCpu.getD tid 0)),
      toLex ((p.load node + demandOf s tid) / max cpus 1, node)))))

/-- The best node, the first one where nothing is better. -/
def bestNode (s : IncrementalSolver) (input : IncrementalInput) (adjacency : OrdMap Tid (List RelationEdge))
    (seeds : OrdSet Tid) (p : NodePlan) (tid : Tid) : Int :=
  let score := planScore s input adjacency seeds p tid
  input.hardware.nodes.foldl (fun best n => if score n < score best then n else best) (input.hardware.nodes.headD 0)

def assignThread (s : IncrementalSolver) (input : IncrementalInput) (adjacency : OrdMap Tid (List RelationEdge))
    (seeds : OrdSet Tid) (p : NodePlan) (tid : Tid) : NodePlan :=
  p.place tid (demandOf s tid) (bestNode s input adjacency seeds p tid)

/-! ## The floor repair -/

/-- What moving a thread changes in the latency of its edges. -/
def moveDelta (input : IncrementalInput) (adjacency : OrdMap Tid (List RelationEdge)) (p : NodePlan) (tid : Tid)
    (source target : Int) : ℚ :=
  ((adjacency.getD tid []).map (fun e =>
    match p.assigned.find? (otherEnd e tid) with
    | some other => e.score * nodeLatency input.hardware target other - e.score * nodeLatency input.hardware source other
    | none => 0)).sum

/-- A thread the repair of `target` may take. -/
def Movable (s : IncrementalSolver) (input : IncrementalInput) (p : NodePlan) (target : Int) (e : Tid × Int) : Prop :=
  ¬ (e.2 = target ∨ p.count e.2 ≤ threadFloor s input e.2 ∨ threadCap s input target < p.count target + 1 ∨
    nodeCpuCount input.hardware target + 1 / 10 ^ 12 < p.load target + demandOf s e.1)

instance (s : IncrementalSolver) (input : IncrementalInput) (p : NodePlan) (target : Int) (e : Tid × Int) :
    Decidable (Movable s input p target e) := by unfold Movable; infer_instance

structure Move where
  tid : Tid
  source : Int
  delta : ℚ

/-- The cheapest move so far against one more thread. -/
def considerMove (s : IncrementalSolver) (input : IncrementalInput) (adjacency : OrdMap Tid (List RelationEdge))
    (p : NodePlan) (target : Int) (best : Option Move) (e : Tid × Int) : Option Move :=
  if Movable s input p target e then
    let delta := moveDelta input adjacency p e.1 e.2 target
    match best with
    | none => some ⟨e.1, e.2, delta⟩
    | some b =>
      if delta < b.delta - 1 / 10 ^ 12 ∨ (|delta - b.delta| ≤ 1 / 10 ^ 12 ∧ identityOf s e.1 < identityOf s b.tid) then
        some ⟨e.1, e.2, delta⟩
      else some b
  else best

def bestMove (s : IncrementalSolver) (input : IncrementalInput) (adjacency : OrdMap Tid (List RelationEdge))
    (p : NodePlan) (target : Int) : Option Move :=
  p.assigned.entries.foldl (considerMove s input adjacency p target) none

/-- The `while` of one node; every turn adds a thread to it, so as many turns as its floor are enough. -/
def repairNode (s : IncrementalSolver) (input : IncrementalInput) (adjacency : OrdMap Tid (List RelationEdge))
    (target : Int) : Nat → NodePlan → Outcome NodePlan
  | 0, p => .ok p
  | fuel + 1, p =>
    if p.count target < threadFloor s input target then
      match bestMove s input adjacency p target with
      | none => .error (.thrown "node thread floor is infeasible")
      | some m => repairNode s input adjacency target fuel (p.move m.tid (demandOf s m.tid) m.source target)
    else .ok p

def repairFloors (s : IncrementalSolver) (input : IncrementalInput) (adjacency : OrdMap Tid (List RelationEdge)) :
    List Int → NodePlan → Outcome NodePlan
  | [], p => .ok p
  | n :: ns, p => do repairFloors s input adjacency ns (← repairNode s input adjacency n (threadFloor s input n).toNat p)

/-! ## The swaps -/

/-- The edges' latency when `first` and `second` sit where `at` says. -/
def edgeCost (hardware : HardwareGraph) (edges : List RelationEdge) (seat : Tid → Int) : ℚ :=
  (edges.map (fun e => e.score * nodeLatency hardware (seat e.fromTid) (seat e.toTid))).sum

def trySwap (s : IncrementalSolver) (input : IncrementalInput) (st : NodePlan × Bool) (pair : Tid × Tid) :
    NodePlan × Bool :=
  let (p, _) := st
  let (first, second) := pair
  let n₁ := p.assigned.getD first 0
  let n₂ := p.assigned.getD second 0
  if n₁ = n₂ then st else
  let touched := (s.edges.entries.map Prod.snd).filter (fun e =>
    decide (e.fromTid = first ∨ e.toTid = first ∨ e.fromTid = second ∨ e.toTid = second))
  let seat := fun t => p.assigned.getD t 0
  let swapped := fun t => if t = first then n₂ else if t = second then n₁ else seat t
  let before := edgeCost input.hardware touched seat
  let after := edgeCost input.hardware touched swapped
  let load₁ := p.load n₁ - demandOf s first + demandOf s second
  let load₂ := p.load n₂ - demandOf s second + demandOf s first
  if before ≤ after + 1 / 10 ^ 12 ∨ nodeCpuCount input.hardware n₁ + 1 / 10 ^ 12 < load₁ ∨
      nodeCpuCount input.hardware n₂ + 1 / 10 ^ 12 < load₂ then st
  else ({ p with
    assigned := (p.assigned.insert first n₂).insert second n₁
    nodeLoad := (p.nodeLoad.insert n₁ load₁).insert n₂ load₂ }, true)

/-- The pairs of a list, each element with every later one. -/
def laterPairs : List Tid → List (Tid × Tid)
  | [] => []
  | t :: ts => ts.map (fun u => (t, u)) ++ laterPairs ts

def swapPasses (s : IncrementalSolver) (input : IncrementalInput) (ordered : List Tid) : Nat → NodePlan → NodePlan
  | 0, p => p
  | n + 1, p =>
    let (p', changed) := (laterPairs ordered).foldl (trySwap s input) (p, false)
    if changed then swapPasses s input ordered n p' else p'

/-! ## The plan and its confirmation -/

/-- The greedy assignment and the repair, up to the throw. -/
def planNodes (s : IncrementalSolver) (input : IncrementalInput) : Outcome NodePlan :=
  let adjacency := adjacencyOf (s.edges.entries.map Prod.snd)
  let order := communityOrder s
  let greedy := order.ordered.foldl (assignThread s input adjacency order.seeds) {}
  repairFloors s input adjacency input.hardware.nodes greedy

abbrev TargetScore := Bool ×ₗ ℚ ×ₗ ℚ ×ₗ ℚ ×ₗ Int ×ₗ Bool ×ₗ Int

structure CpuTargets where
  targets : OrdMap Tid Int := ∅
  cpuLoad : OrdMap Int ℚ := ∅
  cpuCount : OrdMap Int Int := ∅

def targetScore (s : IncrementalSolver) (input : IncrementalInput) (adjacency : OrdMap Tid (List RelationEdge))
    (c : CpuTargets) (tid : Tid) (cpu : Int) : TargetScore :=
  let relation := ((adjacency.getD tid []).map (fun e =>
    match c.targets.find? (otherEnd e tid) with
    | some placed => e.score * input.hardware.latency cpu placed
    | none => 0)).sum
  let load := c.cpuLoad.getD cpu 0 + demandOf s tid
  let count := c.cpuCount.getD cpu 0
  toLex (decide (cpuSlotCap input ≤ count), toLex (max 0 (load - 1), toLex (relation, toLex (load, toLex (count,
    toLex (decide (cpu ≠ s.baselineCpu.getD tid 0), cpu))))))

def targetCpu (s : IncrementalSolver) (input : IncrementalInput) (adjacency : OrdMap Tid (List RelationEdge))
    (nodes : OrdMap Tid Int) (c : CpuTargets) (tid : Tid) : CpuTargets :=
  let score := targetScore s input adjacency c tid
  match minElement (fun a b => decide (score a < score b)) (input.hardware.cpusInNode (nodes.getD tid 0)) with
  | none => c
  | some cpu =>
    { targets := c.targets.insert tid cpu
      cpuLoad := c.cpuLoad.update cpu 0 (· + demandOf s tid)
      cpuCount := c.cpuCount.update cpu 0 (· + 1) }

/-- The rest of the branch: an unchanged cohort keeps the plan it has, and a confirmed plan gets its CPUs. -/
def confirmNodes (s : IncrementalSolver) (input : IncrementalInput) (proposal : SolverProposal) (plan : NodePlan) :
    SolverProposal × IncrementalSolver :=
  let keeps := !s.previousInitialTargetNode.isEmpty && decide (s.initialCandidateIdentities.entries = s.identities.entries)
  let s₁ := if keeps then { s with initialConfirmation := s.initialConfirmation + 1 }
    else { s with
      initialConfirmation := 1
      previousInitialTargetNode := plan.assigned
      initialCandidateIdentities := s.identities }
  let nodes := if keeps then s.previousInitialTargetNode else plan.assigned
  let edges := s.edges.entries.map Prod.snd
  let load := fun n => ((nodes.entries.filter (fun e => decide (e.2 = n))).map (fun e => demandOf s e.1)).sum
  let count := fun n => ((nodes.entries.filter (fun e => decide (e.2 = n))).length : Int)
  let confirmed := decide (input.options.initialProposalConfirmations ≤ s₁.initialConfirmation)
  let p₁ := { proposal with
    confirmation := s₁.initialConfirmation
    phase := .nodePlanning
    initialPlanConfirmed := confirmed
    nodeOverload := (input.hardware.nodes.map (fun n =>
      max 0 (load n - nodeCpuCount input.hardware n) + max 0 (((count n - threadCap s input n : Int)) : ℚ))).sum
    relationCost := edgeCost input.hardware edges (fun t => nodes.getD t 0) }
  if confirmed then
    let order := s.threads.keys.insertionSort (fun a b => !(Community.seedBefore s b a) = true)
    let c := order.foldl (targetCpu s input (adjacencyOf edges) nodes) {}
    ({ p₁ with
        maximumCpuThreads := c.cpuCount.entries.foldl (fun m e => max m e.2) 0
        phase := .initialPinning },
      { s₁ with
        initialTargetNode := nodes
        lastNodePlanPopulation := s.threads.size
        initialTargetCpu := c.targets
        phase := .initialPinning })
  else (p₁, s₁)

/-- The branch, on the state the intake left. -/
def nodePlanning (s : IncrementalSolver) (input : IncrementalInput) (proposal : SolverProposal) :
    Outcome (SolverProposal × IncrementalSolver) := do
  let plan ← planNodes s input
  let refined := swapPasses s input (communityOrder s).ordered input.options.initialNodePasses plan
  return confirmNodes s input proposal refined

end IncrementalSolver
end AffinityGraph
