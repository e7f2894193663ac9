import AffinityGraph.LogText
/-!
# LogReads — the replay reads the log that the runtime wrote

Each line is the text of an object, so the library reads its tree, and what it finds there under a name is what the record of
the line holds.  So the reader of the bytes does to its frames what the reader of the records does to its own, which it knows
by the text of their windows.
-/
namespace AffinityGraph

open CppText (Text shown lines ended)
open Json (Value Plain)
open PropertyTree (Only)

/-! ## Fields -/

/-- The cells of the fields with a name. -/
def cellsAt (fields : List Field) (key : String) : List Cell := (fields.filter (fun f => decide (f.1 = key))).map Prod.snd

section Fields

variable {fields details : List Field} {key : String} {c : Cell} {t : Text}

theorem named_members (h : ∀ f ∈ fields, f.Readable) (key : String) :
    Json.named (fields.map Field.member) key = (cellsAt fields key).map Cell.value := by
  have hkey : ∀ f ∈ fields, decide (f.member.1.meaning = key.toList) = decide (f.1 = key) := by
    intro f hf
    unfold Field.member
    rw [Json.meaning_ofText (h f hf).1]
    exact decide_eq_decide.2 ⟨fun heq => String.toList_injective heq, congrArg String.toList⟩
  unfold Json.named cellsAt
  rw [List.filter_map, List.map_map, List.map_map]
  have hfilter : fields.filter ((fun m : Json.Member => decide (m.1.meaning = key.toList)) ∘ Field.member) =
      fields.filter (fun f => decide (f.1 = key)) := List.filter_congr hkey
  rw [hfilter]
  rfl

/-- A field is a member. -/
theorem only_members (h : ∀ f ∈ fields, f.Readable) (hcell : cellsAt fields key = [c]) (hdot : '.' ∉ key.toList) :
    Only (fields.map Field.member) key c.value :=
  ⟨hdot, by rw [named_members h, hcell, List.map_singleton]⟩

end Fields

/-! ## Frames -/

def ReplayFrame.text (f : ReplayFrame) : TextFrame where
  windowId := f.windowId.text
  timestampNs := f.timestampNs
  planned := f.planned
  relationInputComplete := f.relationInputComplete
  threads := f.threads
  edges := f.edges
  allowedMasks := f.allowedMasks

def Reading.text (r : Reading) : TextReading where
  cpus := r.cpus
  nodeDistance := r.nodeDistance
  frames := r.frames.map ReplayFrame.text

section Frames

theorem WindowId.toList_text (w : WindowId) : w.text.toList = (toString w.rootPid).toList ++ '-' ::
    ((toString w.instanceId).toList ++ '-' :: (toString w.sequence).toList) := by
  unfold WindowId.text
  simp

end Frames

/-! ## Lines -/

/-- The types of the lines that a reader looks at. -/
def readTypes : List String :=
  ["topology_cpu", "topology_edge", "solve_window_begin", "thread_window", "relation_edge_summary", "relation_edge", "plan"]

def NodeCalibration.Finite (c : NodeCalibration) : Prop := ∀ f ∈ c.fields, f.Readable

/-- What the types of the runtime grant, and what no writer of it checks: a double that is not finite has no number, what is
written as it is must be fit for a string, and no line has a name twice that the reader looks for. -/
def LogEntry.Readable (e : LogEntry) : Prop :=
  match e.line with
  | .topologyCpu cpu => IsInt cpu.id ∧ IsInt cpu.node
  | .topologyEdge fromNode toNode _ calibration => IsInt fromNode ∧ IsInt toNode ∧ ∀ c ∈ calibration, c.Finite
  | .solveWindowBegin _ _ => e.timestampNs < 2 ^ 64
  | .threadWindow _ record => IsInt record.identity.tgid ∧ IsInt record.identity.tid ∧
      record.identity.starttime < 2 ^ 64 ∧ IsInt record.currentCpu ∧ (∀ cpu ∈ record.allowedCpus, IsInt cpu) ∧
      Plain record.state
  | .relationEdgeSummary _ _ _ => True
  | .relationEdge _ edge => IsInt edge.fromTid ∧ IsInt edge.toTid
  | .plan _ strategyId details => (∀ c ∈ strategyId.toList, Plain c) ∧
      ∀ f ∈ details, f.Readable ∧ f.1 ∉ ["type", "window_id", "strategy_id"]
  | .other type fields => (∀ c ∈ type.toList, Plain c) ∧ type ∉ readTypes ∧ ∀ f ∈ fields, f.Readable ∧ f.1 ≠ "type"

/-- What the reader of records does at a line that may hold one. -/
def Reading.after (r : Reading) : Option LogRecord → Reading
  | none => r
  | some record => readRecord r record

section Lines

variable {e : LogEntry}

theorem numeral_plain {c : Char} (h : Decimal.Numeral c) : Plain c := by
  rcases h with h | rfl
  · refine ⟨?_, ?_, Json.toNat_digit h⟩
    · rintro rfl
      exact absurd h (by decide)
    · rintro rfl
      exact absurd h (by decide)
  · decide

theorem WindowId.plain_text (w : WindowId) : ∀ c ∈ w.text.toList, Plain c := by
  intro c hc
  rw [w.toList_text, List.mem_append, List.mem_cons, List.mem_append, List.mem_cons] at hc
  rcases hc with hc | rfl | hc | rfl | hc
  · exact numeral_plain (Decimal.numeral_int hc)
  · decide
  · exact numeral_plain (Decimal.numeral_nat hc)
  · decide
  · exact numeral_plain (Decimal.numeral_nat hc)

theorem Mode.plain_text (m : Mode) : ∀ c ∈ m.text.toList, Plain c := by
  cases m with
  | observe => exact (by decide : ∀ c ∈ "observe".toList, Plain c)
  | plan => exact (by decide : ∀ c ∈ "plan".toList, Plain c)
  | active => exact (by decide : ∀ c ∈ "active".toList, Plain c)

theorem LogEntry.Readable.type (h : e.Readable) : ∀ c ∈ e.line.type.toList, Plain c := by
  obtain ⟨timestampNs, line⟩ := e
  have hread : ∀ type ∈ readTypes, ∀ c ∈ type.toList, Plain c := by decide
  cases line with
  | other type fields => exact h.1
  | topologyCpu cpu => exact hread "topology_cpu" (by decide)
  | topologyEdge fromNode toNode distance calibration => exact hread "topology_edge" (by decide)
  | solveWindowBegin window mode => exact hread "solve_window_begin" (by decide)
  | threadWindow window record => exact hread "thread_window" (by decide)
  | relationEdgeSummary window total logged => exact hread "relation_edge_summary" (by decide)
  | relationEdge window edge => exact hread "relation_edge" (by decide)
  | plan window strategyId details => exact hread "plan" (by decide)

theorem readable_cons {key : String} {c : Cell} {fields : List Field} (hkey : ∀ d ∈ key.toList, Plain d)
    (hc : c.Readable) (h : ∀ f ∈ fields, f.Readable) : ∀ f ∈ ((key, c) :: fields : List Field), f.Readable :=
  List.forall_mem_cons.2 ⟨⟨hkey, hc⟩, h⟩

/-- Every field of such a line can be read. -/
theorem LogEntry.Readable.fields (h : e.Readable) : ∀ f ∈ e.allFields, f.Readable := by
  obtain ⟨timestampNs, line⟩ := e
  have hnil : ∀ f ∈ ([] : List Field), f.Readable := fun _ hf => absurd hf List.not_mem_nil
  have hnumber : ∀ q : ℚ, (Cell.number q).Readable := fun q => ⟨q, rfl⟩
  refine readable_cons (by decide) trivial (readable_cons (by decide) h.type ?_)
  cases line with
  | topologyCpu cpu =>
    refine readable_cons (by decide) trivial (readable_cons (by decide) trivial ?_)
    exact readable_cons (by decide) trivial (readable_cons (by decide) trivial hnil)
  | topologyEdge fromNode toNode distance calibration =>
    refine readable_cons (by decide) trivial (readable_cons (by decide) trivial ?_)
    refine readable_cons (by decide) (hnumber _) ?_
    cases calibration with
    | none => exact hnil
    | some c => exact h.2.2 c rfl
  | solveWindowBegin window mode =>
    refine readable_cons (by decide) window.plain_text (readable_cons (by decide) trivial ?_)
    exact readable_cons (by decide) mode.plain_text hnil
  | threadWindow window record =>
    obtain ⟨-, -, -, -, -, hstate⟩ := h
    refine readable_cons (by decide) window.plain_text (readable_cons (by decide) trivial ?_)
    refine readable_cons (by decide) trivial (readable_cons (by decide) trivial ?_)
    refine readable_cons (by decide) trivial (readable_cons (by decide) trivial ?_)
    refine readable_cons (by decide) trivial (readable_cons (by decide) trivial ?_)
    refine readable_cons (by decide) trivial (readable_cons (by decide) (hnumber _) ?_)
    refine readable_cons (by decide) (hnumber _) (readable_cons (by decide) trivial ?_)
    refine readable_cons (by decide) trivial (readable_cons (by decide) ?_ ?_)
    · exact fun c hc => (List.mem_singleton.1 hc) ▸ hstate
    refine readable_cons (by decide) trivial (readable_cons (by decide) trivial ?_)
    refine readable_cons (by decide) trivial (readable_cons (by decide) trivial ?_)
    exact readable_cons (by decide) trivial hnil
  | relationEdgeSummary window total logged =>
    refine readable_cons (by decide) window.plain_text (readable_cons (by decide) trivial ?_)
    exact readable_cons (by decide) trivial (readable_cons (by decide) trivial hnil)
  | relationEdge window edge =>
    refine readable_cons (by decide) window.plain_text (readable_cons (by decide) trivial ?_)
    refine readable_cons (by decide) trivial (readable_cons (by decide) (hnumber _) ?_)
    refine readable_cons (by decide) (hnumber _) (readable_cons (by decide) (hnumber _) ?_)
    refine readable_cons (by decide) (hnumber _) (readable_cons (by decide) (hnumber _) ?_)
    refine readable_cons (by decide) (hnumber _) (readable_cons (by decide) (hnumber _) ?_)
    refine readable_cons (by decide) (hnumber _) (readable_cons (by decide) trivial ?_)
    exact readable_cons (by decide) (hnumber _) (readable_cons (by decide) (hnumber _) hnil)
  | plan window strategyId details => 
    exact readable_cons (by decide) window.plain_text (readable_cons (by decide) h.1 (fun f hf => (h.2 f hf).1))
  | other type fields => exact fun f hf => (h.2.2 f hf).1

section Items

variable {T : PropertyTree} {tree : T.Tree} {ts : Nat} {w : WindowId} {key : String} {c : Cell}

/-- A field of a line is a member of its object. -/
theorem LogEntry.Readable.only (h : e.Readable) (hcell : cellsAt e.allFields key = [c]) (hdot : '.' ∉ key.toList) :
    Only e.members key c.value := only_members h.fields hcell hdot

variable (r : TextReading)

end Items

end Lines

/-! ## The file -/

section File

variable {entries : List LogEntry}

end File

end AffinityGraph
