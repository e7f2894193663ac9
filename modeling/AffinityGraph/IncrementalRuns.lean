import AffinityGraph.Optimizing
import AffinityGraph.Run
/-!
# IncrementalRuns — `IncrementalSolver::propose`, `commit`, `discard`, and the runs of them

A proposal with actions stays outstanding until it is committed or discarded.  `Runtime` removes the TIDs that vanished
while the batch was applied and commits the others, which is what `Protocol` asks of a commit.

An exception leaves the source's solver half updated, and ends the thread that called it: here a call that throws has no
state after it.
-/
namespace AffinityGraph
namespace IncrementalSolver

def propose (s : IncrementalSolver) (input : IncrementalInput) : Outcome (SolverProposal × IncrementalSolver) :=
  match s.outstanding with
  | some p => .ok (p, s)
  | none =>
    if onlineCpus input.hardware = 0 then .error (.thrown "empty CPU envelope") else
    let (s₁, p) := intake s input
    match s₁.phase with
    | .uninitialized => .ok (p, s₁)
    | .nodePlanning => nodePlanning s₁ input p
    | .initialPinning => initialPinning s₁ input p
    | .optimizing => .ok (optimize s₁ input p)

/-- An empty set stands for every action. -/
def commits (committedTids : OrdSet Tid) (tid : Tid) : Bool := committedTids.isEmpty || decide (tid ∈ committedTids)

def commitAction (nowNs : Nat) (committedTids : OrdSet Tid) (s : IncrementalSolver) (a : PlacementAction) :
    IncrementalSolver :=
  let tid := a.identity.tid
  if commits committedTids tid then
    { s with
      placement := s.placement.insert tid a.targetCpu
      pinned := OrdSet.add s.pinned tid
      lastMovedNs := if a.fromCpu ≠ a.targetCpu then s.lastMovedNs.insert tid nowNs else s.lastMovedNs }
  else s

/-- A pinning whose targets are all reached ends, and the global replan with it. -/
def settlePinning (s : IncrementalSolver) : IncrementalSolver :=
  if s.phase = .initialPinning ∧ initialTargetsEffective s = true then
    { s with phase := .optimizing, replanExistingThreads := false }
  else s

def commit (s : IncrementalSolver) (proposal : SolverProposal) (nowNs : Nat) (committedTids : OrdSet Tid := ∅) :
    IncrementalSolver :=
  if s.outstanding.map (·.id) = some proposal.id then
    let s₁ := settlePinning (proposal.actions.foldl (commitAction nowNs committedTids) s)
    { s₁ with generation := s₁.generation + 1, outstanding := none }
  else s

def discard (s : IncrementalSolver) (proposal : SolverProposal) : IncrementalSolver :=
  if s.outstanding.map (·.id) = some proposal.id then { s with outstanding := none } else s

/-! ## Runs -/

inductive Call where
  | propose (input : IncrementalInput)
  | commit (nowNs : Nat) (committedTids : OrdSet Tid)
  | discard
  | removeThread (tid : Tid)
  | reset

/-- One call.  Only the outstanding proposal is ever committed or discarded. -/
def step (s : IncrementalSolver) : Call → Option IncrementalSolver
  | .propose input => (s.propose input).toOption.map Prod.snd
  | .commit nowNs tids => s.outstanding.map (fun p => s.commit p nowNs tids)
  | .discard => s.outstanding.map s.discard
  | .removeThread tid => some (s.removeThread tid)
  | .reset => some s.reset

/-- How `Runtime` calls the solver: always with the one hardware graph and distinct TIDs, and it commits exactly those
actions whose thread it has not removed since. -/
def Protocol (hardware : HardwareGraph) (s : IncrementalSolver) : Call → Prop
  | .propose input => input.hardware = hardware ∧ (input.threads.map (·.identity.tid)).Nodup
  | .commit _ tids => ∀ p, s.outstanding = some p →
      ∀ a ∈ p.actions, commits tids a.identity.tid = true ↔ a.identity.tid ∈ s.threads
  | _ => True

instance Protocol.decidable (hardware : HardwareGraph) (s : IncrementalSolver) : ∀ call, Decidable (Protocol hardware s call)
  | .propose input => inferInstanceAs (Decidable (input.hardware = hardware ∧ (input.threads.map (·.identity.tid)).Nodup))
  | .commit _ tids => decidable_of_iff (∀ p ∈ s.outstanding, ∀ a ∈ p.actions,
      commits tids a.identity.tid = true ↔ a.identity.tid ∈ s.threads) Iff.rfl
  | .discard => isTrue trivial
  | .removeThread _ => isTrue trivial
  | .reset => isTrue trivial

/-- The states a run under the protocol leads to. -/
def Reachable (hardware : HardwareGraph) (s : IncrementalSolver) : Prop :=
  ∃ shadow calls, Run.Obeys step (Protocol hardware) { shadow := shadow } calls ∧
    Run.exec step { shadow := shadow } calls = some s

end IncrementalSolver
end AffinityGraph
