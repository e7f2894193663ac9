import AffinityGraph.Departed
import Mathlib.Data.List.Destutter
/-!
# RuntimeLog — the log of a run, and the domain replay of it (`runtime.cpp`, `affinity_domain_replay.cpp`)

A record is a line of the runtime's JSONL log that `read_runtime_log` reads, with the values a reader finds on it: a
number is printed to six decimals, a text loses its control characters.  `Recorder` is the supervisor writing its log;
beside the log it keeps what the solver proposed in each planned window, which is what a replay is to find again.
-/
namespace AffinityGraph

/-! ## What a line keeps of a value -/

/-- A number in millionths, a tie to the even digit. -/
def millionths (q : ℚ) : Int :=
  let scaled := q * 10 ^ 6
  let below : Int := ⌊scaled⌋
  let rest := Int.fract scaled
  if rest < 1 / 2 then below else if 1 / 2 < rest then below + 1
  else if below % 2 = 0 then below else below + 1

/-- A number that `std::to_string` printed: six decimals. -/
def sixDecimals (q : ℚ) : ℚ := millionths q / 10 ^ 6

/-- A text that `json_escape` wrote: of the control characters only the newline is left. -/
def escapedText (s : String) : String := String.ofList (s.toList.filter (fun c => decide (c = '\n') || decide (0x20 ≤ c.toNat)))

/-- `<root_pid>-<runtime_instance_id>-<sequence>`. -/
structure WindowId where
  rootPid : Int
  instanceId : Nat
  sequence : Nat
  deriving DecidableEq

def WindowId.text (w : WindowId) : String := toString w.rootPid ++ "-" ++ toString w.instanceId ++ "-" ++ toString w.sequence

inductive LogRecord where
  | topologyCpu (cpu : Cpu) (inEnvelope : Bool)
  | topologyEdge (fromNode toNode : Int) (numaDistance : ℚ)
  | solveWindowBegin (window : WindowId) (timestampNs : Nat)
  | threadWindow (window : WindowId) (thread : ThreadDemand) (allowedCpus : Mask)
  | relationEdgeSummary (window : WindowId) (truncated : Bool)
  | relationEdge (window : WindowId) (edge : RelationEdge)
  | plan (window : WindowId)

/-! ## Writing -/

def topologyRecords (hardware : HardwareGraph) : List LogRecord :=
  hardware.cpus.map (fun cpu => .topologyCpu cpu true) ++ hardware.nodeDistance.entries.map (fun e =>
    .topologyEdge (ofLex e.1).1 (ofLex e.1).2 (sixDecimals e.2))

/-- The thread as its line shows it. -/
def printedThread (record : ThreadWindowRecord) : ThreadDemand where
  identity := record.identity
  group := escapedText record.group
  demand := sixDecimals record.demand
  confidence := sixDecimals record.confidence
  currentCpu := record.currentCpu

def printedEdge (edge : RelationEdge) : RelationEdge where
  fromTid := edge.fromTid
  toTid := edge.toTid
  activity := sixDecimals edge.activity
  sync := sixDecimals edge.sync
  share := sixDecimals edge.share
  stability := sixDecimals edge.stability
  score := sixDecimals edge.score

def relationLogLimit : Nat := 4096

/-- The order of the logged edges: heavier first, then by the ends. -/
def loggedBefore (l r : RelationEdge) : Bool :=
  if l.score ≠ r.score then decide (r.score < l.score)
  else if l.fromTid ≠ r.fromTid then decide (l.fromTid < r.fromTid) else decide (l.toTid ≤ r.toTid)

def loggedEdges (edges : List RelationEdge) : List RelationEdge :=
  (edges.insertionSort (fun l r => loggedBefore l r = true)).take (min relationLogLimit edges.length)

/-- The lines of a window before anything is solved. -/
def windowRecords (window : WindowId) (timestampNs : Nat) (records : List ThreadWindowRecord) (edges : List RelationEdge) :
    List LogRecord :=
  .solveWindowBegin window timestampNs :: (records.map (fun r => .threadWindow window (printedThread r) r.allowedCpus) ++
    .relationEdgeSummary window (decide (min relationLogLimit edges.length < edges.length)) ::
      (loggedEdges edges).map (fun e => .relationEdge window (printedEdge e)))

/-- What one planned window shows, online or in a replay; the solve time is left out. -/
structure FrameResult where
  windowId : WindowId
  ready : Bool
  valid : Bool
  families : List FamilyMetric
  familyPairs : List FamilyPairMetric
  domains : List NumaDomain
  deriving DecidableEq

def FrameResult.ofProposal (window : WindowId) (proposal : NumaDomainProposal) : FrameResult where
  windowId := window
  ready := proposal.ready
  valid := proposal.valid
  families := proposal.families
  familyPairs := proposal.familyPairs
  domains := proposal.domains

/-- The supervisor and its log.  `times` are the windows it planned: when each was opened, and what its first line says. -/
structure Recorder where
  supervisor : Supervisor
  instanceId : Nat
  log : List LogRecord
  planned : List FrameResult := []
  times : List (Nat × Nat) := []

/-- One input, and what `monotonic_ns` reads when a first line is written for it. -/
structure Tick where
  input : Input
  clockNs : Nat := 0

namespace Recorder

def start (s : Supervisor) (instanceId : Nat) : Recorder where
  supervisor := s
  instanceId := instanceId
  log := topologyRecords s.hardware

def nextWindow (r : Recorder) : WindowId where
  rootPid := r.supervisor.rootPid
  instanceId := r.instanceId
  sequence := r.supervisor.solveWindowSequence + 1

/-- The proposal of the NUMA domain solver in this window, when it makes one. -/
def planOf (r : Recorder) (now : Nat) : Option NumaDomainProposal :=
  match r.supervisor.proposes now ∅ with
  | some (.domains _ proposal) => some proposal
  | _ => none

/-- The lines of a window; a window that is not due has none. -/
def linesOf (r : Recorder) (now clockNs : Nat) : List LogRecord :=
  if !r.supervisor.due now || r.supervisor.mutexHeld then [] else
  windowRecords r.nextWindow clockNs r.supervisor.graph.demands.2.threadRecords.1
      (r.supervisor.toRuntime.windowInput now).1.edges ++
    if (r.planOf now).isSome then [.plan r.nextWindow] else []

/-- What the recorder has written and seen once the input is handled. -/
def record (r : Recorder) (t : Tick) (s : Supervisor) : Recorder :=
  match t.input with
  | .solve now _ =>
    { r with
      supervisor := s
      log := r.log ++ r.linesOf now t.clockNs
      planned := r.planned ++ ((r.planOf now).map (FrameResult.ofProposal r.nextWindow)).toList
      times := if (r.planOf now).isSome then (now, t.clockNs) :: r.times else r.times }
  | _ => { r with supervisor := s }

def step (r : Recorder) (t : Tick) : Option Recorder := (r.supervisor.step t.input).map (r.record t)

end Recorder

/-! ## Reading -/

structure ReplayFrame where
  windowId : WindowId
  timestampNs : Nat := 0
  planned : Bool := false
  relationInputComplete : Bool := true
  threads : List ThreadDemand := []
  edges : List RelationEdge := []
  allowedMasks : OrdMap Tid Mask := ∅

/-- What `read_runtime_log` has gathered. -/
structure Reading where
  cpus : List Cpu := []
  nodeDistance : OrdMap (Int ×ₗ Int) ℚ := ∅
  frames : List ReplayFrame := []

/-- `frame_for(window_id)`, and what is done to the frame. -/
def Reading.atFrame (r : Reading) (window : WindowId) (change : ReplayFrame → ReplayFrame) : Reading :=
  if r.frames.any (fun f => decide (f.windowId = window)) then
    { r with frames := r.frames.map (fun f => if f.windowId = window then change f else f) }
  else { r with frames := r.frames ++ [change { windowId := window }] }

/-- The body of the loop over the lines. -/
def readRecord (r : Reading) : LogRecord → Reading
  | .topologyCpu cpu inEnvelope => if inEnvelope then { r with cpus := r.cpus ++ [cpu] } else r
  | .topologyEdge fromNode toNode distance =>
    { r with nodeDistance := r.nodeDistance.insert (toLex (fromNode, toNode)) distance }
  | .solveWindowBegin window timestampNs => r.atFrame window (fun f => { f with timestampNs := timestampNs })
  | .threadWindow window thread allowedCpus => r.atFrame window (fun f =>
      { f with
        threads := f.threads ++ [thread]
        allowedMasks := f.allowedMasks.insert thread.identity.tid allowedCpus })
  | .relationEdgeSummary window truncated => r.atFrame window (fun f => { f with relationInputComplete := !truncated })
  | .relationEdge window edge => r.atFrame window (fun f => { f with edges := f.edges ++ [edge] })
  | .plan window => r.atFrame window (fun f => { f with planned := true })

/-- `read_runtime_log`. -/
def readRuntimeLog (log : List LogRecord) : Outcome (HardwareGraph × List ReplayFrame) :=
  let r := log.foldl readRecord {}
  let cpus := (r.cpus.insertionSort (fun a b => a.id ≤ b.id)).destutter (fun a b => a.id ≠ b.id)
  let frames := r.frames.filter (·.planned)
  if cpus.isEmpty then .error (.thrown "runtime log has no topology")
  else if frames.isEmpty then .error (.thrown "runtime log has no NUMA domain plans")
  else match frames.find? (fun f => !f.relationInputComplete) with
    | some incomplete => .error (.thrown ("runtime log truncates relation edges for window " ++ incomplete.windowId.text ++
        "; exact selector replay is invalid"))
    | none => .ok ({ cpus := cpus, nodeDistance := r.nodeDistance }, frames)

/-! ## Replaying -/

def frameInput (hardware : HardwareGraph) (options : NumaDomainOptions) (frame : ReplayFrame) : ProposeInput where
  hardware := hardware
  threads := frame.threads
  edges := frame.edges
  allowedMasks := frame.allowedMasks
  options := options
  nowNs := frame.timestampNs

/-- The body of the loop of `replay`. -/
def replayFrame (hardware : HardwareGraph) (options : NumaDomainOptions) (solver : NumaDomainSolver) (frame : ReplayFrame) :
    Outcome (FrameResult × NumaDomainSolver) :=
  match solver.propose (frameInput hardware options frame) with
  | .error e => .error e
  | .ok (proposal, s) =>
    let settled := if !proposal.valid || (proposal.ready && (!proposal.actions.isEmpty ||
          !proposal.releasedTids.isEmpty || decide (proposal.plannedMasks ≠ s.placement)))
      then s.commit proposal frame.timestampNs else .ok (s.discard proposal)
    settled.map (fun s' => (FrameResult.ofProposal frame.windowId proposal, s'))

/-- The loop, from a solver on. -/
def replayFrom (hardware : HardwareGraph) (options : NumaDomainOptions) :
    NumaDomainSolver → List ReplayFrame → Outcome (List FrameResult × NumaDomainSolver)
  | solver, [] => .ok ([], solver)
  | solver, frame :: frames =>
    match replayFrame hardware options solver frame with
    | .error e => .error e
    | .ok (result, s) =>
      match replayFrom hardware options s frames with
      | .error e => .error e
      | .ok (results, s') => .ok (result :: results, s')

def replay (hardware : HardwareGraph) (frames : List ReplayFrame) (options : NumaDomainOptions) : Outcome (List FrameResult) :=
  (replayFrom hardware options {} frames).map Prod.fst

/-- The whole tool on one log: read, then replay. -/
def domainReplay (log : List LogRecord) (options : NumaDomainOptions) : Outcome (List FrameResult) :=
  match readRuntimeLog log with
  | .error e => .error e
  | .ok (hardware, frames) => replay hardware frames options

end AffinityGraph
