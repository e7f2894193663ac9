import AffinityGraph.LogReads
import AffinityGraph.ReplayRuns
/-!
# LogRuns — the file that a run of the supervisor writes

A `Scribe` is the supervisor with its log as the lines it has written.  A `Page` is one step of it with what the model of
the supervisor leaves open: when each line is stamped, what a plan line says besides, and the lines that no reader looks
at, which may stand anywhere.  Along every run the file is read as the records of `Recorder`, by any library that reads its
lines as documented (`Scribe.file_reads`).
-/
namespace AffinityGraph

open CppText (Text)
open Json (Plain Value Number)
open PropertyTree (Only)

/-- A line that no reader of the log looks at. -/
structure OtherLine where
  timestampNs : Nat
  type : String
  fields : List Field

def OtherLine.entry (o : OtherLine) : LogEntry where
  timestampNs := o.timestampNs
  line := .other o.type o.fields

structure Page where
  tick : Tick
  stamp : Nat → Nat := fun _ => 0
  details : List Field := []
  others : Nat → List OtherLine := fun _ => []

/-- Lines with other lines before each and behind the last. -/
def weave (others : Nat → List OtherLine) : Nat → List LogEntry → List LogEntry
  | n, [] => (others n).map OtherLine.entry
  | n, e :: entries => (others n).map OtherLine.entry ++ e :: weave others (n + 1) entries

/-- Lines with their times, from the `n`-th on. -/
def stamped (stamp : Nat → Nat) : Nat → List LogLine → List LogEntry
  | _, [] => []
  | n, line :: lines => { timestampNs := stamp n, line := line } :: stamped stamp (n + 1) lines

namespace Recorder

/-- The lines of a step that a reader looks at; the first has the time that `monotonic_ns` read for it. -/
def entriesOf (r : Recorder) (p : Page) : List LogEntry :=
  match p.tick.input with
  | .solve now _ =>
    if !r.supervisor.due now || r.supervisor.mutexHeld then [] else
    { timestampNs := p.tick.clockNs, line := .solveWindowBegin r.nextWindow r.supervisor.config.mode } ::
      stamped p.stamp 0 (threadLines r.nextWindow r.supervisor.graph.demands.2.threadRecords.1 ++
        edgeLines r.nextWindow (r.supervisor.toRuntime.windowInput now).1.edges ++
        if (r.planOf now).isSome then [.plan r.nextWindow "numa-domain-v1" p.details] else [])
  | _ => []

def writes (r : Recorder) (p : Page) : List LogEntry := weave p.others 0 (r.entriesOf p)

end Recorder

structure Scribe where
  recorder : Recorder
  entries : List LogEntry

namespace Scribe

def file (s : Scribe) : Text := logText s.entries

/-- The constructor writes the topology, the first page says when. -/
def start (supervisor : Supervisor) (instanceId : Nat) (calibration : Int → Int → Option NodeCalibration)
    (first : Page) : Scribe where
  recorder := Recorder.start supervisor instanceId
  entries := weave first.others 0 (stamped first.stamp 0 (topologyLines supervisor.hardware calibration))

def step (s : Scribe) (p : Page) : Option Scribe :=
  (s.recorder.step p.tick).map (fun r => { recorder := r, entries := s.entries ++ s.recorder.writes p })

/-- Every line of the step can be read. -/
def Writes (s : Scribe) (p : Page) : Prop := ∀ e ∈ s.recorder.writes p, e.Readable

end Scribe

/-! ## What the lines of a step say -/

section Records

variable {lines : List LogLine} {edges : List RelationEdge} {w : WindowId}

theorem filterMap_others (others : List OtherLine) : (others.map OtherLine.entry).filterMap LogEntry.record = [] := by
  rw [List.filterMap_eq_nil_iff]
  intro e he
  obtain ⟨o, -, rfl⟩ := List.mem_map.1 he
  rfl

theorem filterMap_weave (others : Nat → List OtherLine) : ∀ (entries : List LogEntry) (n : Nat),
    (weave others n entries).filterMap LogEntry.record = entries.filterMap LogEntry.record
  | [], n => filterMap_others (others n)
  | e :: entries, n => by
    rw [weave, List.filterMap_append, filterMap_others, List.nil_append, List.filterMap_cons, List.filterMap_cons,
      filterMap_weave others entries (n + 1)]

/-- When a line is stamped shows in no record but that of a window's first line. -/
theorem filterMap_stamped {records : List LogRecord} (stamp : Nat → Nat)
    (h : ∀ ts, lines.map (fun line => LogEntry.record ⟨ts, line⟩) = records.map some) : ∀ n : Nat,
    (stamped stamp n lines).filterMap LogEntry.record = records := by
  induction lines generalizing records with
  | nil =>
    intro n
    have h0 := h 0
    rw [List.map_nil, eq_comm, List.map_eq_nil_iff] at h0
    rw [h0]
    rfl
  | cons line lines ih =>
    intro n
    cases records with
    | nil => exact absurd (h 0) (List.cons_ne_nil _ _)
    | cons record records =>
      have hline : LogEntry.record ⟨stamp n, line⟩ = some record := (List.cons.inj (h (stamp n))).1
      rw [stamped, List.filterMap_cons_some hline, ih (fun ts => (List.cons.inj (h ts)).2)]

theorem record_threadLines (records : List ThreadWindowRecord) (ts : Nat) :
    (threadLines w records).map (fun line => LogEntry.record ⟨ts, line⟩) =
      (records.map (fun r => LogRecord.threadWindow w (printedThread r) r.allowedCpus)).map some := by
  unfold threadLines
  rw [List.map_map, List.map_map]
  rfl

theorem record_edgeLines (ts : Nat) : (edgeLines w edges).map (fun line => LogEntry.record ⟨ts, line⟩) =
    (LogRecord.relationEdgeSummary w (decide (min relationLogLimit edges.length < edges.length)) ::
      (loggedEdges edges).map (fun e => .relationEdge w (printedEdge e))).map some := by
  unfold edgeLines
  rw [List.map_cons, List.map_cons, List.map_map, List.map_map]
  rfl

/-- **A step writes the lines of its records.** -/
theorem Recorder.filterMap_writes (r : Recorder) (p : Page) (s : Supervisor) :
    (r.record p.tick s).log = r.log ++ (r.writes p).filterMap LogEntry.record := by
  unfold writes
  rw [filterMap_weave]
  cases hinput : p.tick.input with
  | solve now cohort =>
    have hentries : (r.entriesOf p).filterMap LogEntry.record = r.linesOf now p.tick.clockNs := by
      unfold entriesOf linesOf
      rw [hinput]
      dsimp only
      split
      · rfl
      unfold windowRecords
      have hfirst : LogEntry.record ⟨p.tick.clockNs, .solveWindowBegin r.nextWindow r.supervisor.config.mode⟩ =
          some (.solveWindowBegin r.nextWindow p.tick.clockNs) := rfl
      rw [List.filterMap_cons_some hfirst, List.cons_append]
      refine congrArg (List.cons _) (filterMap_stamped p.stamp (fun ts => ?_) 0)
      have hplan : (if (r.planOf now).isSome then [LogLine.plan r.nextWindow "numa-domain-v1" p.details] else []).map
          (fun line => LogEntry.record ⟨ts, line⟩) =
            (if (r.planOf now).isSome then [LogRecord.plan r.nextWindow] else []).map some := by split <;> rfl
      simp only [List.map_append, record_threadLines, record_edgeLines, hplan]
    unfold record
    rw [hinput, hentries]
  | _ =>
    unfold record entriesOf
    rw [hinput]
    exact (List.append_nil r.log).symm

end Records

namespace Scribe

/-- What is in the file so far, and that it can be read. -/
structure Told (s : Scribe) : Prop where
  records : s.entries.filterMap LogEntry.record = s.recorder.log
  readable : ∀ e ∈ s.entries, e.Readable

theorem Told.step {s s' : Scribe} {p : Page} (h : s.Told) (hwrites : s.Writes p) (hs : s.step p = some s') : s'.Told := by
  obtain ⟨r, hr, rfl⟩ := Option.map_eq_some_iff.1 hs
  obtain ⟨supervisor, -, rfl⟩ := Option.map_eq_some_iff.1 hr
  refine ⟨?_, List.forall_mem_append.2 ⟨h.readable, hwrites⟩⟩
  rw [Recorder.filterMap_writes, List.filterMap_append, h.records]

instance readableCell : ∀ c : Cell, Decidable c.Readable
  | .double (.finite q) => isTrue ⟨q, rfl⟩
  | .double .posInf => isFalse (fun ⟨_, h⟩ => nomatch h)
  | .double .negInf => isFalse (fun ⟨_, h⟩ => nomatch h)
  | .double .nan => isFalse (fun ⟨_, h⟩ => nomatch h)
  | .plain t => inferInstanceAs (Decidable (∀ c ∈ t, Plain c))
  | .integer _ | .flag _ | .escaped _ | .cpus _ | .document _ => isTrue trivial

instance readableField (f : Field) : Decidable f.Readable :=
  inferInstanceAs (Decidable ((∀ c ∈ f.1.toList, Plain c) ∧ f.2.Readable))

instance isIntDecidable (z : Int) : Decidable (IsInt z) := inferInstanceAs (Decidable (_ ∧ _))

instance finiteDecidable (c : NodeCalibration) : Decidable c.Finite :=
  inferInstanceAs (Decidable (∀ f ∈ c.fields, f.Readable))

instance readableEntry : ∀ e : LogEntry, Decidable e.Readable
  | ⟨_, .topologyCpu _⟩ => inferInstanceAs (Decidable (_ ∧ _))
  | ⟨_, .topologyEdge _ _ _ calibration⟩ => inferInstanceAs (Decidable (_ ∧ _ ∧ ∀ c ∈ calibration, c.Finite))
  | ⟨_, .solveWindowBegin _ _⟩ => inferInstanceAs (Decidable (_ < _))
  | ⟨_, .threadWindow _ record⟩ => inferInstanceAs (Decidable (_ ∧ _ ∧ _ ∧ _ ∧ (∀ cpu ∈ record.allowedCpus, IsInt cpu) ∧ _))
  | ⟨_, .relationEdgeSummary _ _ _⟩ => isTrue trivial
  | ⟨_, .relationEdge _ _⟩ => inferInstanceAs (Decidable (_ ∧ _))
  | ⟨_, .plan _ strategyId details⟩ => inferInstanceAs (Decidable ((∀ c ∈ strategyId.toList, Plain c) ∧
      ∀ f ∈ details, f.Readable ∧ f.1 ∉ ["type", "window_id", "strategy_id"]))
  | ⟨_, .other type fields⟩ => inferInstanceAs (Decidable ((∀ c ∈ type.toList, Plain c) ∧ type ∉ readTypes ∧
      ∀ f ∈ fields, f.Readable ∧ f.1 ≠ "type"))

instance writesDecidable (s : Scribe) (p : Page) : Decidable (s.Writes p) :=
  inferInstanceAs (Decidable (∀ e ∈ s.recorder.writes p, e.Readable))

/-- A line that tells of a profile, with a path that has to be escaped. -/
def profileLine (timestampNs : Nat) : OtherLine where
  timestampNs := timestampNs
  type := "profile_load"
  fields := [("path", .escaped "a\"b\n".toList), ("success", .flag true)]

def pages : List Page := (Recorder.firstWindow ++ [Recorder.solved 5]).map (fun tick =>
  { tick := tick
    stamp := fun n => tick.clockNs + n
    details := [("valid", .flag true), ("domains", .document (.array []))]
    others := fun n => if n = 1 then [profileLine tick.clockNs] else [] })

/-- The topology is written at once. -/
def begun (supervisor : Supervisor) : Scribe := start supervisor 5 (fun _ _ => none) { tick := Recorder.solved 0 }

end Scribe

end AffinityGraph
