import AffinityGraph.Core
import AffinityGraph.Greedy
/-!
# ReplaySolver — `Solver::solve`, stage by stage

Every stage goes over the threads in one order, the largest demand first: each is given a node, the nodes are refined, each
is given a CPU of its node, the CPUs are refined, and what moves too many active threads is moved back.  A choice is the
place with the least objective, compared component by component; a place that has its share of threads costs a penalty, which
the stages add to different components.
-/
namespace AffinityGraph

/-- `SolveOptions`, as far as `Solver::solve` reads them. -/
structure SolveOptions where
  maximumMigratedActiveThreadsRatio : ℚ := 1 / 4
  activeThreshold : ℚ := 1 / 20
  strategyId : String := "legacy-v1"
  demandFloor : ℚ := 0
  maxThreadsPerCpu : Int := -1
  slotSlack : Int := 2
  countPenalty : ℚ := 0
  lowDemandSpread : ℚ := 0
  sameCpuContentionPenalty : ℚ := 0
  groupSpreadPenalty : ℚ := 0
  threadCountTieBreak : Bool := false
  fmPasses : Int := 4
  lptRefinementPasses : Int := 0

structure Placement where
  tidToCpu : OrdMap Tid Int := ∅
  overload : ℚ := 0
  relationCost : ℚ := 0
  migrationCost : ℚ := 0
  sameCpuEdgeWeight : ℚ := 0

/-- The arguments of `Solver::solve`. -/
structure SolveInput where
  hardware : HardwareGraph
  threads : List ThreadDemand
  edges : List RelationEdge
  options : SolveOptions

namespace SolveInput

def legacy (i : SolveInput) : Bool := decide (i.options.strategyId = "legacy-v1")

def slotConstraints (i : SolveInput) : Bool := !i.legacy && decide (0 ≤ i.options.maxThreadsPerCpu)

def cpuCap (i : SolveInput) : Int :=
  if 0 < i.options.maxThreadsPerCpu then i.options.maxThreadsPerCpu
  else ⌈(i.threads.length : ℚ) / i.hardware.cpus.length⌉ + i.options.slotSlack

/-- What a full place costs. -/
def slotPenalty : ℚ := 10 ^ 12

def capacity (i : SolveInput) (node : Int) : Int := (i.hardware.cpusInNode node).length

/-- The threads a node has slots for. -/
def nodeSlots (i : SolveInput) (node : Int) : Int := i.cpuCap * i.capacity node

/-- `adjacency[tid]`; an edge of a thread with itself is there twice. -/
def adjacency (i : SolveInput) (tid : Tid) : List RelationEdge :=
  i.edges.flatMap (fun e => (if e.fromTid = tid then [e] else []) ++ (if e.toTid = tid then [e] else []))

def relationTotal (i : SolveInput) (tid : Tid) : ℚ := ((i.adjacency tid).map (·.score)).sum

/-- The other end of an edge. -/
def other (tid : Tid) (e : RelationEdge) : Tid := if e.fromTid = tid then e.toTid else e.fromTid

/-- A thread with the demand the stages reckon with. -/
def effective (i : SolveInput) (t : ThreadDemand) : ThreadDemand :=
  if i.legacy = false ∧ 0 < i.options.demandFloor then { t with demand := max t.demand i.options.demandFloor } else t

/-- What the threads are ordered by: demand, then relation, the larger first, then TID. -/
def rank (i : SolveInput) (t : ThreadDemand) : ℚ ×ₗ ℚ ×ₗ Int :=
  toLex (-t.demand, toLex (-i.relationTotal t.identity.tid, t.identity.tid))

def ordered (i : SolveInput) : List ThreadDemand :=
  (i.threads.map i.effective).insertionSort (fun a b => i.rank a ≤ i.rank b)

/-- The least latency between a CPU of one node and one of the other.  For a node without an online CPU the source has
infinity and this zero; what is proved about latencies asks for online CPUs (`Solver.Plain`). -/
def nodeLatency (i : SolveInput) (source target : Int) : ℚ :=
  (((i.hardware.cpusInNode source).flatMap (fun a => (i.hardware.cpusInNode target).map (i.hardware.latency a))).min?).getD 0

end SolveInput

abbrev Objective := ℚ ×ₗ ℚ ×ₗ ℚ ×ₗ Int

def objective (a b c : ℚ) (place : Int) : Objective := toLex (a, toLex (b, toLex (c, place)))

namespace Solver

open SolveInput (other slotPenalty)
open Greedy (least refine)

/-! ## Nodes -/

structure NodeState where
  load : OrdMap Int ℚ := ∅
  count : OrdMap Int Int := ∅
  tidNode : OrdMap Tid Int := ∅

variable (i : SolveInput)

def nodeRelation (tidNode : OrdMap Tid Int) (tid : Tid) (node : Int) : ℚ :=
  ((i.adjacency tid).map (fun e => (tidNode.find? (other tid e)).elim 0 (fun n => e.score * i.nodeLatency node n))).sum

def nodeObjective (st : NodeState) (t : ThreadDemand) (node : Int) : Objective :=
  let overload := max 0 (st.load.getD node 0 + t.demand - i.capacity node)
  let penalty := if i.slotConstraints = true ∧ i.nodeSlots node ≤ st.count.getD node 0 then slotPenalty else 0
  let migration := if i.hardware.cpus.any (fun c => decide (c.id = t.currentCpu) && decide (c.node ≠ node)) then t.demand else 0
  objective (overload + penalty) (nodeRelation i st.tidNode t.identity.tid node) migration node

def assignNode (st : NodeState) (t : ThreadDemand) : NodeState :=
  let node := least (nodeObjective i st t) (i.hardware.nodes.headD 0) i.hardware.nodes
  { load := st.load.update node 0 (· + t.demand)
    count := st.count.update node 0 (· + 1)
    tidNode := st.tidNode.insert t.identity.tid node }

/-- The objective of a pass over the nodes, for a thread on `original`. -/
def fmObjective (st : NodeState) (t : ThreadDemand) (original candidate : Int) : Objective :=
  let overload := (i.hardware.nodes.map (fun node =>
    max 0 (st.load.getD node 0 - (if node = original then t.demand else 0) + (if node = candidate then t.demand else 0) -
      i.capacity node))).sum
  let count := st.count.getD candidate 0 - (if candidate = original then 1 else 0) + 1
  let slotViolation := if i.slotConstraints = true ∧ i.nodeSlots candidate < count then slotPenalty else 0
  let migration := (i.hardware.cpus.filter (fun c => decide (c.id = t.currentCpu))).getLast?.elim 0
    (fun c => t.demand * i.nodeLatency c.node candidate)
  objective (overload + slotViolation) (nodeRelation i st.tidNode t.identity.tid candidate) migration candidate

def fmStep (s : NodeState × Bool) (t : ThreadDemand) : NodeState × Bool :=
  let st := s.1
  let original := st.tidNode.getD t.identity.tid 0
  let best := least (fmObjective i st t original) original i.hardware.nodes
  if best ≠ original then
    ({ load := (st.load.update original 0 (· - t.demand)).update best 0 (· + t.demand)
       count := (st.count.update original 0 (· - 1)).update best 0 (· + 1)
       tidNode := st.tidNode.insert t.identity.tid best }, true)
  else s

def fmPass (st : NodeState) : NodeState × Bool := i.ordered.foldl (fmStep i) (st, false)

/-! ## CPUs -/

structure CpuState where
  load : OrdMap Int ℚ := ∅
  count : OrdMap Int Int := ∅
  groupCount : OrdMap (Int ×ₗ String) Int := ∅
  tidToCpu : OrdMap Tid Int := ∅

def cpuRelation (tidToCpu : OrdMap Tid Int) (tid : Tid) (cpu : Int) : ℚ :=
  ((i.adjacency tid).map (fun e => (tidToCpu.find? (other tid e)).elim 0 (fun c =>
    e.score * i.hardware.latency cpu c +
      if i.legacy = false ∧ cpu = c then e.score * i.options.sameCpuContentionPenalty else 0))).sum

def cpuObjective (st : CpuState) (t : ThreadDemand) (cpu : Int) : Objective :=
  let count := st.count.getD cpu 0
  let countCost :=
    if i.legacy then 0
    else
      (if i.slotConstraints = true ∧ i.cpuCap ≤ count then slotPenalty else 0) +
        i.options.countPenalty * ((count : ℚ) + 1) ^ 2 +
        (if t.demand < i.options.activeThreshold then i.options.lowDemandSpread * count else 0) +
        i.options.groupSpreadPenalty * st.groupCount.getD (toLex (cpu, t.group)) 0
  let primary := st.load.getD cpu 0 + t.demand +
    if i.legacy = false ∧ i.options.threadCountTieBreak = true then (count : ℚ) / 10 ^ 9 else 0
  objective primary (cpuRelation i st.tidToCpu t.identity.tid cpu) countCost cpu

/-- The CPUs a thread can be put on. -/
def candidates (tidNode : OrdMap Tid Int) (t : ThreadDemand) : List Int :=
  i.hardware.cpusInNode (tidNode.getD t.identity.tid 0)

def seatCpu (tidNode : OrdMap Tid Int) (st : CpuState) (t : ThreadDemand) : CpuState :=
  let cpu := least (cpuObjective i st t) ((candidates i tidNode t).headD 0) (candidates i tidNode t)
  { load := st.load.update cpu 0 (· + t.demand)
    count := st.count.update cpu 0 (· + 1)
    groupCount := st.groupCount.update (toLex (cpu, t.group)) 0 (· + 1)
    tidToCpu := st.tidToCpu.insert t.identity.tid cpu }

def assignCpu (tidNode : OrdMap Tid Int) (st : CpuState) (t : ThreadDemand) : Except String CpuState :=
  if (candidates i tidNode t).isEmpty then .error "node has no CPU in envelope" else .ok (seatCpu i tidNode st t)

/-- The objective of a pass over the CPUs, for a thread on `original`. -/
def lptObjective (st : CpuState) (t : ThreadDemand) (original cpu : Int) : Objective :=
  let load := st.load.getD cpu 0 + if cpu = original then 0 else t.demand
  let count := st.count.getD cpu 0 + if cpu = original then 0 else 1
  let sameGroup := st.groupCount.getD (toLex (cpu, t.group)) 0 - if cpu = original then 1 else 0
  let penalties := (if i.slotConstraints = true ∧ i.cpuCap < count then slotPenalty else 0) +
    i.options.countPenalty * (count : ℚ) ^ 2 +
    (if t.demand < i.options.activeThreshold then i.options.lowDemandSpread * count else 0) +
    i.options.groupSpreadPenalty * sameGroup
  objective load (cpuRelation i st.tidToCpu t.identity.tid cpu) penalties cpu

def lptStep (tidNode : OrdMap Tid Int) (s : CpuState × Bool) (t : ThreadDemand) : CpuState × Bool :=
  let st := s.1
  let original := st.tidToCpu.getD t.identity.tid 0
  let best := least (lptObjective i st t original) original (candidates i tidNode t)
  if best ≠ original then
    ({ load := (st.load.update original 0 (· - t.demand)).update best 0 (· + t.demand)
       count := (st.count.update original 0 (· - 1)).update best 0 (· + 1)
       groupCount := (st.groupCount.update (toLex (original, t.group)) 0 (· - 1)).update (toLex (best, t.group)) 0 (· + 1)
       tidToCpu := st.tidToCpu.insert t.identity.tid best }, true)
  else s

def lptPass (tidNode : OrdMap Tid Int) (st : CpuState) : CpuState × Bool := i.ordered.foldl (lptStep i tidNode) (st, false)

/-! ## The migration budget -/

/-- The active threads a placement moves, the smallest demand first.  (The source's sort leaves equal demands in any order.) -/
def migrations (tidToCpu : OrdMap Tid Int) : List ThreadDemand :=
  (i.threads.filter (fun t => decide (i.options.activeThreshold ≤ t.demand) &&
    decide (tidToCpu.getD t.identity.tid 0 ≠ t.currentCpu))).insertionSort (fun a b => a.demand ≤ b.demand)

def budget : Nat :=
  (⌊((i.threads.filter (fun t => decide (i.options.activeThreshold ≤ t.demand))).length : ℚ) *
    i.options.maximumMigratedActiveThreadsRatio⌋).toNat

/-- A thread over the budget goes back to the CPU it was sampled on, if that one takes it. -/
def moveBack (st : CpuState) (t : ThreadDemand) : CpuState :=
  let assigned := st.tidToCpu.getD t.identity.tid 0
  let eligible := i.hardware.cpus.any (fun c => decide (c.id = t.currentCpu))
  let slotAvailable := !i.slotConstraints || decide (st.count.getD t.currentCpu 0 < i.cpuCap) || decide (assigned = t.currentCpu)
  if eligible = true ∧ slotAvailable = true then
    { st with
      count := if i.legacy = false ∧ assigned ≠ t.currentCpu then
          (st.count.update assigned 0 (· - 1)).update t.currentCpu 0 (· + 1)
        else st.count
      tidToCpu := st.tidToCpu.insert t.identity.tid t.currentCpu }
  else st

/-! ## The placement -/

/-- The placement with its measures. -/
def measured (tidToCpu : OrdMap Tid Int) : Placement :=
  let cpuLoad := i.threads.foldl (fun (m : OrdMap Int ℚ) t => m.update (tidToCpu.getD t.identity.tid 0) 0 (· + t.demand)) ∅
  let joined := i.edges.filterMap (fun e =>
    (tidToCpu.find? e.fromTid).bind (fun a => (tidToCpu.find? e.toTid).map (fun b => (e.score, a, b))))
  { tidToCpu := tidToCpu
    overload := (cpuLoad.entries.map (fun e => max 0 (e.2 - 1))).sum
    relationCost := (joined.map (fun x => x.1 * i.hardware.latency x.2.1 x.2.2)).sum
    sameCpuEdgeWeight := (joined.map (fun x => if x.2.1 = x.2.2 then x.1 else 0)).sum
    migrationCost := (i.threads.map (fun t =>
      if tidToCpu.getD t.identity.tid 0 ≠ t.currentCpu then
        t.demand * i.hardware.latency t.currentCpu (tidToCpu.getD t.identity.tid 0)
      else 0)).sum }

/-- The nodes of the threads, seeded and refined. -/
def nodesOf : NodeState := refine (fmPass i) i.options.fmPasses.toNat (i.ordered.foldl (assignNode i) {})

/-- The CPUs of the threads, before any is moved back. -/
def cpusOf (tidNode : OrdMap Tid Int) : Except String CpuState := do
  let st ← i.ordered.foldlM (assignCpu i tidNode) {}
  .ok (if i.legacy then st else refine (lptPass i tidNode) i.options.lptRefinementPasses.toNat st)

def withinBudget (st : CpuState) : CpuState :=
  let moved := migrations i st.tidToCpu
  (moved.take (moved.length - budget i)).foldl (moveBack i) st

/-- `Solver::solve`. -/
def solve : Except String Placement :=
  if i.threads.isEmpty then .ok {}
  else if i.hardware.nodes.isEmpty then .error "empty hardware graph"
  else do
    let st ← cpusOf i (nodesOf i).tidNode
    .ok (measured i (withinBudget i st).tidToCpu)

end Solver
end AffinityGraph
