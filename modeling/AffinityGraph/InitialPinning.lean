import AffinityGraph.NodePlanning
/-!
# InitialPinning — the pinning batches of the incremental solver (`solver.cpp`, the `InitialPinning` branch)

A batch takes the threads that are not pinned yet, and during a global replan those not on their target, up to the
migration budget.  It counts what will be on each CPU once the batch has left its sources, and gives a thread another
CPU where its target is full: the one place that can throw.

`initial_target_cpu_` and `initial_target_node_` are read with `operator[]`, which puts a zero under a missing key; later
code can tell, so these reads are `OrdMap.touch`.
-/
namespace AffinityGraph

namespace IncrementalSolver

/-! ## The batch -/

/-- The part of the test for a pinned thread that reads its target. -/
def strayed (s : IncrementalSolver) (tid : Tid) : Bool :=
  match s.placement.find? tid with
  | none => true
  | some cpu => decide (cpu ≠ s.initialTargetCpu.getD tid 0)

def isPending (s : IncrementalSolver) (tid : Tid) : Bool :=
  decide (tid ∉ s.pinned) || (s.replanExistingThreads && strayed s tid)

abbrev PendingKey := Bool ×ₗ Bool ×ₗ ℚ ×ₗ ThreadIdentity

def pendingKey (s : IncrementalSolver) (hardware : HardwareGraph) (tid : Tid) : PendingKey :=
  let node := cpuNode hardware (s.baselineCpu.getD tid 0)
  toLex (decide (0 ≤ node), toLex (decide (node = s.initialTargetNode.getD tid 0),
    toLex (-demandOf s tid, identityOf s tid)))

/-- Every pending thread, in the order the batches take them. -/
def allPending (s : IncrementalSolver) (hardware : HardwareGraph) : List Tid :=
  (s.threads.keys.filter (isPending s)).insertionSort (fun a b => pendingKey s hardware a ≤ pendingKey s hardware b)

def pendingBatch (s : IncrementalSolver) (hardware : HardwareGraph) (budget : Nat) : List Tid :=
  (allPending s hardware).take budget

/-- The targets the tests and the sort have read. -/
def readTargets (s : IncrementalSolver) : IncrementalSolver :=
  let pending := s.threads.keys.filter (isPending s)
  let read := s.threads.keys.filter (fun tid =>
    decide (tid ∈ s.pinned) && s.replanExistingThreads && decide (tid ∈ s.placement))
  { s with
    initialTargetCpu := read.foldl (fun m tid => m.touch tid 0) s.initialTargetCpu
    initialTargetNode :=
      if 2 ≤ pending.length then pending.foldl (fun m tid => m.touch tid 0) s.initialTargetNode
      else s.initialTargetNode }

/-! ## The projection -/

structure Projected where
  count : OrdMap Int Int := ∅
  load : OrdMap Int ℚ := ∅

namespace Projected

def threadsOn (p : Projected) (cpu : Int) : Int := p.count.getD cpu 0
def loadOn (p : Projected) (cpu : Int) : ℚ := p.load.getD cpu 0

def add (p : Projected) (cpu : Int) (demand : ℚ) : Projected :=
  { count := p.count.update cpu 0 (· + 1), load := p.load.update cpu 0 (· + demand) }

def remove (p : Projected) (cpu : Int) (demand : ℚ) : Projected :=
  { count := p.count.update cpu 0 (· - 1), load := p.load.update cpu 0 (· - demand) }

end Projected

/-- What is placed now. -/
def placedNow (s : IncrementalSolver) : Projected :=
  (s.placement.entries.filter (fun e => decide (e.1 ∈ s.threads))).foldl
    (fun p e => p.add e.2 (demandOf s e.1)) {}

/-- What stays once the batch has left its sources. -/
def vacated (s : IncrementalSolver) (batch : List Tid) : Projected :=
  batch.foldl (fun p tid =>
    match s.placement.find? tid with
    | some source => p.remove source (demandOf s tid)
    | none => p) (placedNow s)

abbrev RepairScore := Bool ×ₗ ℚ ×ₗ ℚ ×ₗ Int ×ₗ Int

def repairScore (input : IncrementalInput) (p : Projected) (demand : ℚ) (cpu : Int) : RepairScore :=
  toLex (decide (cpuSlotCap input ≤ p.threadsOn cpu), toLex (max 0 (p.loadOn cpu + demand - 1),
    toLex (p.loadOn cpu, toLex (p.threadsOn cpu, cpu))))

def slotFree (input : IncrementalInput) (p : Projected) (cpu : Int) : Bool :=
  decide (p.threadsOn cpu < cpuSlotCap input)

/-- The CPUs a thread with a full target is tried on. -/
def repairCandidates (input : IncrementalInput) (p : Projected) (node : Int) : List Int :=
  let inNode := input.hardware.cpusInNode node
  if inNode.any (slotFree input p) then inNode
  else (input.hardware.cpus.filter (fun c => c.online && slotFree input p c.id)).map (·.id)

structure Seats where
  solver : IncrementalSolver
  projected : Projected

/-- One thread of the batch. -/
def seatPending (input : IncrementalInput) (st : Seats) (tid : Tid) : Outcome Seats :=
  let s := st.solver
  let demand := demandOf s tid
  let target := s.initialTargetCpu.getD tid 0
  if slotFree input st.projected target then
    .ok { solver := { s with initialTargetCpu := s.initialTargetCpu.touch tid 0 }
          projected := st.projected.add target demand }
  else
    let candidates := repairCandidates input st.projected (s.initialTargetNode.getD tid 0)
    let score := repairScore input st.projected demand
    match minElement (fun a b => decide (score a < score b)) candidates with
    | none => .error (.thrown "initial pinning has no slot-cap-feasible CPU")
    | some cpu =>
      .ok { solver := { s with
              initialTargetCpu := s.initialTargetCpu.insert tid cpu
              initialTargetNode := s.initialTargetNode.insert tid (cpuNode input.hardware cpu) }
            projected := st.projected.add cpu demand }

def seatBatch (input : IncrementalInput) : List Tid → Seats → Outcome Seats
  | [], st => .ok st
  | tid :: batch, st => do seatBatch input batch (← seatPending input st tid)

/-! ## The branch -/

def pinAction (s : IncrementalSolver) (hardware : HardwareGraph) (tid : Tid) : PlacementAction :=
  let source := (s.placement.find? tid).getD (s.baselineCpu.getD tid 0)
  { identity := identityOf s tid
    fromCpu := source
    targetCpu := s.initialTargetCpu.getD tid 0
    initialPin := true
    emergency := decide (cpuNode hardware source < 0) }

/-- A proposal with actions is outstanding until it is committed or discarded. -/
def offer (s : IncrementalSolver) (proposal : SolverProposal) : SolverProposal × IncrementalSolver :=
  let p := { proposal with ready := !proposal.actions.isEmpty }
  (p, if p.ready then { s with outstanding := some p } else s)

/-- The branch, on the state the intake left. -/
def initialPinning (s : IncrementalSolver) (input : IncrementalInput) (proposal : SolverProposal) :
    Outcome (SolverProposal × IncrementalSolver) :=
  let p := { proposal with phase := .initialPinning, initialPlanConfirmed := true }
  if p.migrationBudget = 0 then .ok (p, s) else do
  let batch := pendingBatch s input.hardware p.migrationBudget
  let seats ← seatBatch input batch { solver := readTargets s, projected := vacated s batch }
  let actions := batch.map (pinAction seats.solver input.hardware)
  return offer seats.solver { p with
    actions := actions
    delta := { tidToCpu :=
      batch.foldl (fun (m : OrdMap Tid Int) tid => m.insert tid (seats.solver.initialTargetCpu.getD tid 0)) ∅ }
    confirmation := seats.solver.initialConfirmation }

end IncrementalSolver
end AffinityGraph
