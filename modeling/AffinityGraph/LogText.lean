import AffinityGraph.CalibrationFile
import AffinityGraph.Json
import AffinityGraph.RuntimeLog
import Mathlib.Tactic.Ring
/-!
# LogText — the bytes of the log, and what the domain replay reads in them (`runtime.cpp`, `affinity_domain_replay.cpp`)

A `LogLine` is what the runtime has in hand when it writes a line: `LogEntry.text` is the line it writes, with all its
fields, and `LogEntry.record` what a reader is to find on it.  `readRuntimeLogText` is the reader of the file itself; the
library that it reads a line with is a parameter (`PropertyTree`), and `PropertyTree.Reads` what is documented of it.
-/
namespace AffinityGraph

open CppText (Double Text shown lines ended)
open Json (Value Member Number Plain)

/-! ## Writing -/

/-- The body of the loop of `json_escape`. -/
def escapeChar (c : Char) : Text :=
  if c = '"' ∨ c = '\\' then ['\\', c] else if c = '\n' then ['\\', 'n'] else if 0x20 ≤ c.toNat then [c] else []

def jsonEscape (t : Text) : Text := t.flatMap escapeChar

def cpuArrayJson (cpus : List Int) : Text := '[' :: ([','].intercalate (cpus.map shown) ++ [']'])

/-- Six digits for a number below a million. -/
def sixDigits (n : Nat) : Text := List.replicate (6 - (Nat.toDigits 10 n).length) '0' ++ Nat.toDigits 10 n

/-- `std::to_string` of a double that is finite. -/
def toStringFinite (q : ℚ) : Text :=
  (if q < 0 then ['-'] else []) ++ (Nat.toDigits 10 ((millionths q).natAbs / 10 ^ 6) ++
    '.' :: sixDigits ((millionths q).natAbs % 10 ^ 6))

def toStringDouble : Double → Text
  | .finite q => toStringFinite q
  | .posInf => "inf".toList
  | .negInf => "-inf".toList
  | .nan => "nan".toList

/-- The value of a field, by how it is written. -/
inductive Cell where
  /-- `std::to_string` of an integer -/
  | integer (n : Int)
  /-- `std::to_string` of a double -/
  | double (d : Double)
  | flag (b : Bool)
  /-- between quotes, through `json_escape` -/
  | escaped (t : Text)
  /-- between quotes, as it is -/
  | plain (t : Text)
  | cpus (l : List Int)
  /-- what another writer of the runtime makes -/
  | document (v : Value)

def Cell.number (q : ℚ) : Cell := .double (.finite q)

def Cell.json : Cell → Text
  | integer n => shown n
  | double d => toStringDouble d
  | flag b => if b = true then "true".toList else "false".toList
  | escaped t => '"' :: (jsonEscape t ++ ['"'])
  | plain t => '"' :: (t ++ ['"'])
  | cpus l => cpuArrayJson l
  | document v => v.print

abbrev Field := String × Cell

def Field.json (f : Field) : Text := '"' :: (f.1.toList ++ '"' :: ':' :: f.2.json)

def fieldsJson (fields : List Field) : Text := [','].intercalate (fields.map Field.json)

/-- What `log` writes, less the newline. -/
def logLine (timestampNs : Nat) (type : String) (fields : Text) : Text :=
  '\x7b' :: ("\"timestamp_ns\":".toList ++ (shown timestampNs ++ (",\"type\":\"".toList ++ (type.toList ++
    '"' :: ((if fields = [] then [] else ',' :: fields) ++ ['\x7d'])))))

inductive LogLine where
  | topologyCpu (cpu : Cpu)
  | topologyEdge (fromNode toNode : Int) (distance : ℚ) (calibration : Option NodeCalibration)
  | solveWindowBegin (window : WindowId) (mode : Mode)
  | threadWindow (window : WindowId) (record : ThreadWindowRecord)
  | relationEdgeSummary (window : WindowId) (total logged : Nat)
  | relationEdge (window : WindowId) (edge : RelationEdge)
  | plan (window : WindowId) (strategyId : String) (details : List Field)
  | other (type : String) (fields : List Field)

def NodeCalibration.fields (c : NodeCalibration) : List Field :=
  [("handoff_mean_ns", .double c.handoffMeanNs), ("handoff_p95_ns", .double c.handoffP95Ns),
    ("memory_load_mean_ns", .double c.memoryLoadMeanNs), ("memory_load_cv", .double c.memoryLoadCv),
    ("stream_2t_triad_mbps", .double c.stream2tTriadMbps), ("stream_32t_triad_mbps", .double c.stream32tTriadMbps)]

def Mode.text : Mode → String
  | active => "active"
  | plan => "plan"
  | observe => "observe"

namespace LogLine

def type : LogLine → String
  | topologyCpu _ => "topology_cpu"
  | topologyEdge .. => "topology_edge"
  | solveWindowBegin .. => "solve_window_begin"
  | threadWindow .. => "thread_window"
  | relationEdgeSummary .. => "relation_edge_summary"
  | relationEdge .. => "relation_edge"
  | plan .. => "plan"
  | other type _ => type

def fields : LogLine → List Field
  | topologyCpu cpu =>
    [("cpu", .integer cpu.id), ("node", .integer cpu.node), ("online", .flag cpu.online), ("in_envelope", .flag true)]
  | topologyEdge fromNode toNode distance calibration =>
    [("from_node", .integer fromNode), ("to_node", .integer toNode), ("numa_distance", .number distance)] ++
      (calibration.map NodeCalibration.fields).getD []
  | solveWindowBegin window mode =>
    [("window_id", .plain window.text.toList), ("sequence", .integer window.sequence), ("mode", .plain mode.text.toList)]
  | threadWindow window record =>
    [("window_id", .plain window.text.toList), ("tgid", .integer record.identity.tgid),
      ("tid", .integer record.identity.tid), ("starttime", .integer record.identity.starttime),
      ("comm", .escaped record.comm.toList), ("parent_tid", .integer record.parentTid),
      ("start_routine", .integer record.startRoutine), ("start_symbol", .escaped record.startSymbol.toList),
      ("group", .escaped record.group.toList), ("demand", .number record.demand),
      ("confidence", .number record.confidence), ("current_cpu", .integer record.currentCpu),
      ("allowed_cpus", .cpus record.allowedCpus), ("state", .plain [record.state]),
      ("sample_count", .integer record.sampleCount), ("runtime_delta_ns", .integer record.runtimeDeltaNs),
      ("runqueue_delta_ns", .integer record.runqueueDeltaNs),
      ("voluntary_switches_delta", .integer record.voluntarySwitchesDelta),
      ("involuntary_switches_delta", .integer record.involuntarySwitchesDelta)]
  | relationEdgeSummary window total logged =>
    [("window_id", .plain window.text.toList), ("total", .integer total), ("logged", .integer logged),
      ("truncated", .flag (decide (logged < total)))]
  | relationEdge window edge =>
    [("window_id", .plain window.text.toList), ("from_tid", .integer edge.fromTid), ("to_tid", .integer edge.toTid),
      ("activity", .number edge.activity), ("sync", .number edge.sync), ("share", .number edge.share),
      ("stability", .number edge.stability), ("score", .number edge.score), ("handoff_rate", .number edge.handoffRate),
      ("shared_vfs_seconds", .number edge.sharedVfsSeconds), ("active_overlap", .number edge.activeOverlap),
      ("observation_count", .integer edge.observationCount), ("coverage", .number edge.coverage),
      ("cv", .number edge.coefficientOfVariation)]
  | plan window strategyId details =>
    [("window_id", .plain window.text.toList), ("strategy_id", .plain strategyId.toList)] ++ details
  | other _ fields => fields

end LogLine

structure LogEntry where
  timestampNs : Nat
  line : LogLine

namespace LogEntry

def text (e : LogEntry) : Text := logLine e.timestampNs e.line.type (fieldsJson e.line.fields)

/-- What a reader is to find on the line. -/
def record (e : LogEntry) : Option LogRecord :=
  match e.line with
  | .topologyCpu cpu => some (.topologyCpu cpu true)
  | .topologyEdge fromNode toNode distance _ => some (.topologyEdge fromNode toNode (sixDecimals distance))
  | .solveWindowBegin window _ => some (.solveWindowBegin window e.timestampNs)
  | .threadWindow window record => some (.threadWindow window (printedThread record) record.allowedCpus)
  | .relationEdgeSummary window total logged => some (.relationEdgeSummary window (decide (logged < total)))
  | .relationEdge window edge => some (.relationEdge window (printedEdge edge))
  | .plan window strategyId _ => if strategyId = "numa-domain-v1" then some (.plan window) else none
  | .other _ _ => none

end LogEntry

/-- The file after these lines. -/
def logText (entries : List LogEntry) : Text := ended '\n' (entries.map LogEntry.text)

/-- The lines of `maybe_solve` for the threads. -/
def threadLines (window : WindowId) (records : List ThreadWindowRecord) : List LogLine := records.map (.threadWindow window)

/-- The lines of `maybe_solve` for the edges: how many there are, and the heaviest. -/
def edgeLines (window : WindowId) (edges : List RelationEdge) : List LogLine :=
  .relationEdgeSummary window edges.length (min relationLogLimit edges.length) ::
    (loggedEdges edges).map (.relationEdge window)

/-- The lines of the constructor. -/
def topologyLines (hardware : HardwareGraph) (calibration : Int → Int → Option NodeCalibration) : List LogLine :=
  hardware.cpus.map .topologyCpu ++ hardware.nodeDistance.entries.map (fun e =>
    .topologyEdge (ofLex e.1).1 (ofLex e.1).2 e.2 (calibration (ofLex e.1).1 (ofLex e.1).2))

/-! ## The library -/

/-- The calls that the reader makes on `boost::property_tree`; a double is the number that its text says. -/
structure PropertyTree where
  Tree : Type
  /-- `read_json`, and what it throws -/
  readJson : Text → Except String Tree
  getInt : Tree → String → Except String Int
  getUInt64 : Tree → String → Except String Nat
  getDouble : Tree → String → Except String ℚ
  getString : Tree → String → Except String String
  getBoolOr : Tree → String → Bool → Bool
  getDoubleOr : Tree → String → ℚ → ℚ
  getStringOr : Tree → String → String → String
  /-- `get_child_optional`, as the children of what it finds -/
  children : Tree → String → Option (List Tree)
  /-- `get_value<int>` -/
  valueInt : Tree → Except String Int

/-- An `int`. -/
def IsInt (z : Int) : Prop := -2 ^ 31 ≤ z ∧ z < 2 ^ 31

namespace PropertyTree

/-- The one member with a name, which is no path of several. -/
def Only (members : List Member) (key : String) (v : Value) : Prop := '.' ∉ key.toList ∧ Json.named members key = [v]

/-- What is documented of the tree of an object: a member is found by its name, when it is the only one and its value has the
type that is asked for. -/
structure Holds (T : PropertyTree) (tree : T.Tree) (members : List Member) : Prop where
  getInt : ∀ {key : String} {z : Int}, Only members key (.number (.ofInt z)) → IsInt z → T.getInt tree key = .ok z
  getUInt64 : ∀ {key : String} {n : Nat}, Only members key (.number (.ofInt n)) → n < 2 ^ 64 →
    T.getUInt64 tree key = .ok n
  getDouble : ∀ {key : String} {n : Number}, Only members key (.number n) → T.getDouble tree key = .ok n.val
  getString : ∀ {key : String} {s : Json.Str}, Only members key (.string s) →
    T.getString tree key = .ok (String.ofList s.meaning)
  getBoolOr : ∀ {key : String} {b fallback : Bool}, Only members key (.bool b) → T.getBoolOr tree key fallback = b
  getDoubleOr : ∀ {key : String} {n : Number} {fallback : ℚ}, Only members key (.number n) →
    T.getDoubleOr tree key fallback = n.val
  getStringOr : ∀ {key : String} {s : Json.Str} {fallback : String}, Only members key (.string s) →
    T.getStringOr tree key fallback = String.ofList s.meaning
  children : ∀ {key : String} {l : List Int}, Only members key (.array (l.map (fun z => .number (.ofInt z)))) →
    (∀ z ∈ l, IsInt z) → ∃ items, T.children tree key = some items ∧ items.map T.valueInt = l.map .ok

/-- `read_json` turns the text of an object into its tree. -/
def Reads (T : PropertyTree) (members : List Member) : Prop :=
  ∃ tree, T.readJson (Value.object members).print = .ok tree ∧ T.Holds tree members

end PropertyTree

/-! ## Reading -/

/-- `ReplayFrame`, under the text of its window. -/
structure TextFrame where
  windowId : String
  timestampNs : Nat := 0
  planned : Bool := false
  relationInputComplete : Bool := true
  threads : List ThreadDemand := []
  edges : List RelationEdge := []
  allowedMasks : OrdMap Tid Mask := ∅

structure TextReading where
  cpus : List Cpu := []
  nodeDistance : OrdMap (Int ×ₗ Int) ℚ := ∅
  frames : List TextFrame := []

/-- `frame_for(window_id)`, and what is done to the frame. -/
def TextReading.atFrame (r : TextReading) (window : String) (change : TextFrame → TextFrame) : TextReading :=
  if r.frames.any (fun f => decide (f.windowId = window)) then
    { r with frames := r.frames.map (fun f => if f.windowId = window then change f else f) }
  else { r with frames := r.frames ++ [change { windowId := window }] }

def readIntArray (T : PropertyTree) (tree : T.Tree) (path : String) : Except String (List Int) :=
  match T.children tree path with
  | none => .ok []
  | some values => values.mapM T.valueInt

/-- The body of the loop over the lines, once the line is a tree. -/
def readItem (T : PropertyTree) (r : TextReading) (item : T.Tree) : Except String TextReading :=
  let type := T.getStringOr item "type" ""
  if type = "topology_cpu" ∧ T.getBoolOr item "in_envelope" true = true then do
    let id ← T.getInt item "cpu"
    let node ← T.getInt item "node"
    return { r with cpus := r.cpus ++ [{ id := id, node := node, online := T.getBoolOr item "online" true }] }
  else if type = "topology_edge" then do
    let fromNode ← T.getInt item "from_node"
    let toNode ← T.getInt item "to_node"
    let distance := T.getDoubleOr item "numa_distance" 0
    return { r with nodeDistance := r.nodeDistance.insert (toLex (fromNode, toNode)) distance }
  else if type = "solve_window_begin" then do
    let window ← T.getString item "window_id"
    let timestampNs ← T.getUInt64 item "timestamp_ns"
    return r.atFrame window (fun f => { f with timestampNs := timestampNs })
  else if type = "thread_window" then do
    let window ← T.getString item "window_id"
    let tgid ← T.getInt item "tgid"
    let tid ← T.getInt item "tid"
    let starttime ← T.getUInt64 item "starttime"
    let group ← T.getString item "group"
    let demand ← T.getDouble item "demand"
    let confidence ← T.getDouble item "confidence"
    let currentCpu ← T.getInt item "current_cpu"
    let allowed ← readIntArray T item "allowed_cpus"
    let thread : ThreadDemand := {
      identity := { tgid := tgid, tid := tid, starttime := starttime }
      group := group
      demand := demand
      confidence := confidence
      currentCpu := currentCpu }
    return r.atFrame window (fun f =>
      { f with threads := f.threads ++ [thread], allowedMasks := f.allowedMasks.insert tid allowed })
  else if type = "relation_edge_summary" then do
    let window ← T.getString item "window_id"
    return r.atFrame window (fun f => { f with relationInputComplete := !T.getBoolOr item "truncated" false })
  else if type = "relation_edge" then do
    let window ← T.getString item "window_id"
    let fromTid ← T.getInt item "from_tid"
    let toTid ← T.getInt item "to_tid"
    let score ← T.getDouble item "score"
    let edge : RelationEdge := {
      fromTid := fromTid
      toTid := toTid
      activity := T.getDoubleOr item "activity" 0
      sync := T.getDoubleOr item "sync" 0
      share := T.getDoubleOr item "share" 0
      stability := T.getDoubleOr item "stability" 0
      score := score }
    return r.atFrame window (fun f => { f with edges := f.edges ++ [edge] })
  else if type = "plan" ∧ T.getStringOr item "strategy_id" "" = "numa-domain-v1" then do
    let window ← T.getString item "window_id"
    return r.atFrame window (fun f => { f with planned := true })
  else return r

/-- The body of the loop. -/
def readLine (T : PropertyTree) (r : TextReading) (line : Text × Nat) : Except String TextReading :=
  if line.1 = [] then .ok r
  else match T.readJson line.1 with
    | .error what => .error ("invalid runtime JSON at line " ++ toString line.2 ++ ": " ++ what)
    | .ok item => readItem T r item

def TextReading.finish (r : TextReading) : Except String (HardwareGraph × List TextFrame) :=
  let cpus := (r.cpus.insertionSort (fun a b => a.id ≤ b.id)).destutter (fun a b => a.id ≠ b.id)
  let frames := r.frames.filter (·.planned)
  if cpus.isEmpty then .error "runtime log has no topology"
  else if frames.isEmpty then .error "runtime log has no NUMA domain plans"
  else match frames.find? (fun f => !f.relationInputComplete) with
    | some incomplete => .error ("runtime log truncates relation edges for window " ++ incomplete.windowId ++
        "; exact selector replay is invalid")
    | none => .ok ({ cpus := cpus, nodeDistance := r.nodeDistance }, frames)

/-- How `json_escape` writes a character, as the parts of a string. -/
def escapedPieces (c : Char) : Json.Str :=
  if c = '"' then [.quote] else if c = '\\' then [.backslash] else if c = '\n' then [.newline]
  else if h : Plain c then [.plain c h] else []

section Texts

variable {q : ℚ} {n : Nat}

theorem digits_sixDigits (n : Nat) : CppText.Digits (sixDigits n) := by
  refine ⟨List.append_ne_nil_of_right_ne_nil _ Nat.toDigits_ne_nil, fun c hc => ?_⟩
  rcases List.mem_append.1 hc with hc | hc
  · rw [(List.mem_replicate.1 hc).2]
    rfl
  · exact (Json.digits_toDigits n).2 c hc

end Texts

/-- The number that is printed for a double. -/
def toStringNumber (q : ℚ) : Number where
  negative := decide (q < 0)
  whole := (millionths q).natAbs / 10 ^ 6
  fraction := sixDigits ((millionths q).natAbs % 10 ^ 6)
  digits := (digits_sixDigits _).2

/-- The document that a cell is written as; a double that is not finite is written as none. -/
def Cell.value : Cell → Value
  | integer n => .number (.ofInt n)
  | double (.finite q) => .number (toStringNumber q)
  | double _ => .null
  | flag b => .bool b
  | escaped t => .string (t.flatMap escapedPieces)
  | plain t => .string (Json.Str.ofText t)
  | cpus l => .array (l.map (fun z => .number (.ofInt z)))
  | document v => v

/-- A cell that is written as a document. -/
def Cell.Readable : Cell → Prop
  | double d => ∃ q, d = .finite q
  | plain t => ∀ c ∈ t, Plain c
  | _ => True

def Field.Readable (f : Field) : Prop := (∀ c ∈ f.1.toList, Plain c) ∧ f.2.Readable

def Field.member (f : Field) : Member := (Json.Str.ofText f.1.toList, f.2.value)

namespace LogEntry

/-- The fields of a line, with the two that `log` puts in front. -/
def allFields (e : LogEntry) : List Field :=
  ("timestamp_ns", .integer e.timestampNs) :: ("type", .plain e.line.type.toList) :: e.line.fields

/-- The members of the object that the line is. -/
def members (e : LogEntry) : List Member := e.allFields.map Field.member

end LogEntry

section Lines

end Lines

end AffinityGraph
