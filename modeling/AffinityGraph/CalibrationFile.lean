import AffinityGraph.Core
import AffinityGraph.CppText
import AffinityGraph.Run
/-!
# CalibrationFile — the topology of the host and its calibration

`discover` and `load_calibration` with all they read and write: the distances are doubles as the texts give them, and the
calibration of the pairs of nodes is kept.  `load_calibration` means to throw when its file leaves out a pair of nodes of the
envelope.  It asks for the distance of the pair, which `discover` has found already, so a file that leaves pairs out is taken
when the kernel knows their distances (`Topology.covered_iff`).
-/
namespace AffinityGraph

open CppText (Text Double stoi)

/-- What `discover` reads under `/sys`. -/
structure Sys where
  /-- the directory of a CPU exists -/
  cpuExists : Int → Bool
  /-- the first word of its `online` file, empty without one -/
  online : Int → String
  /-- the names in it, in the order the iterator gives them -/
  cpuEntries : Int → List Text
  /-- the numbers at the front of the `distance` file of a node, none without one -/
  distance : Int → List ℚ

/-- What `load_calibration` reads elsewhere. -/
structure Files where
  isDirectory : String → Bool
  /-- a file's text, when it can be opened -/
  read : String → Option Text

structure NodeCalibration where
  handoffMeanNs : Double
  handoffP95Ns : Double
  memoryLoadMeanNs : Double
  memoryLoadCv : Double
  stream2tTriadMbps : Double
  stream32tTriadMbps : Double
  deriving DecidableEq

/-- `HardwareGraph`. -/
structure Topology where
  cpus : List Cpu := []
  cpuLatency : OrdMap (Int ×ₗ Int) Double := ∅
  nodeDistance : OrdMap (Int ×ₗ Int) Double := ∅
  nodeCalibration : OrdMap (Int ×ₗ Int) NodeCalibration := ∅

namespace Topology

def nodes (g : Topology) : List Int := (OrdSet.ofList (g.cpus.map (·.node))).toList

/-! ## Discovery -/

/-- The node in whose directory a CPU is: `name.rfind("node", 0) == 0`, then `std::stoi(name.substr(4))`. -/
def nodeOf : List Text → Except String Int
  | [] => .ok (-1)
  | name :: names => if "node".toList.isPrefixOf name then stoi (name.drop 4) else nodeOf names

def discoverCpu (sys : Sys) (graph : Topology) (id : Int) : Except String Topology :=
  if !sys.cpuExists id then .error ("CPU " ++ toString id ++ " is outside host topology")
  else
    let online := decide (id = 0 ∨ sys.online id ≠ "0")
    if !online then .error ("CPU " ++ toString id ++ " is offline")
    else do
      let node ← nodeOf (sys.cpuEntries id)
      pure { graph with cpus := graph.cpus ++ [⟨id, if node < 0 then 0 else node, online⟩] }

def discoverDistances (sys : Sys) (graph : Topology) : Topology :=
  { graph with
    nodeDistance := graph.nodes.foldl (fun m src => (sys.distance src).zipIdx.foldl
      (fun (m : OrdMap (Int ×ₗ Int) Double) e => m.insert (toLex (src, (e.2 : Int))) (.finite e.1)) m) graph.nodeDistance }

/-- `HardwareGraph::discover`. -/
def discover (sys : Sys) (envelope : List Int) : Except String Topology := do
  let graph ← envelope.foldlM (discoverCpu sys) {}
  pure (discoverDistances sys graph)

/-! ## Calibration -/

def header : String :=
  "source_node,destination_node,same_socket,numa_distance,core_handoff_mean_ns,core_handoff_p95_ns," ++
    "memory_load_mean_ns,memory_load_cv,stream_2t_triad_mbps,stream_32t_triad_mbps"

def estimatedHeader : String := header ++ ",is_estimated"

structure Row where
  src : Int
  dst : Int
  distance : Double
  calibration : NodeCalibration

section Load

variable (stod : Text → Except String Double)

/-- One line of the file: ten cells or eleven. -/
def readRow (line : Text) : Except String Row :=
  match CppText.lines ',' line with
  | c₀ :: c₁ :: _ :: c₃ :: c₄ :: c₅ :: c₆ :: c₇ :: c₈ :: c₉ :: rest =>
    if 1 < rest.length then .error "invalid hardware calibration row"
    else do
      let src ← stoi c₀
      let dst ← stoi c₁
      let distance ← stod c₃
      let handoff ← stod c₄
      let p95 ← stod c₅
      let memoryLoad ← stod c₆
      let memoryLoadCv ← stod c₇
      let stream2t ← stod c₈
      let stream32t ← stod c₉
      pure ⟨src, dst, distance, ⟨handoff, p95, memoryLoad, memoryLoadCv, stream2t, stream32t⟩⟩
  | _ => .error "invalid hardware calibration row"

/-- The CPUs of the two nodes have the handoff time of the row between them, and none to themselves. -/
def rowLatency (cpus : List Cpu) (row : Row) (latency : OrdMap (Int ×ₗ Int) Double) : OrdMap (Int ×ₗ Int) Double :=
  cpus.foldl (fun m a => cpus.foldl (fun (m : OrdMap (Int ×ₗ Int) Double) b =>
    if a.node = row.src ∧ b.node = row.dst then
      m.insert (toLex (a.id, b.id)) (if a.id = b.id then .finite 0 else row.calibration.handoffMeanNs)
    else m) m) latency

def addRow (g : Topology) (row : Row) : Topology :=
  { g with
    nodeDistance := g.nodeDistance.insert (toLex (row.src, row.dst)) row.distance
    nodeCalibration := g.nodeCalibration.insert (toLex (row.src, row.dst)) row.calibration
    cpuLatency := rowLatency g.cpus row g.cpuLatency }

/-- `file /= "hardware-node-edges.csv"` for a directory. -/
def calibrationFile (files : Files) (path : String) : String :=
  if files.isDirectory path then
    (if path.toList.getLast? = some '/' then path else path ++ "/") ++ "hardware-node-edges.csv"
  else path

/-- The text of the file, as the loop takes it in. -/
def loadText (g : Topology) (file : String) (text : Text) : Except String Topology :=
  match CppText.lines '\n' text with
  | [] => .error ("unsupported hardware calibration schema: " ++ file)
  | first :: rest =>
    if first ≠ header.toList ∧ first ≠ estimatedHeader.toList then
      .error ("unsupported hardware calibration schema: " ++ file)
    else do
      let g ← rest.foldlM (fun g line => (readRow stod line).map (addRow g)) g
      if g.nodes.any (fun src => g.nodes.any (fun dst => !decide (toLex (src, dst) ∈ g.nodeDistance))) then
        .error "calibration does not cover resource envelope nodes"
      else if rest.length = 0 then .error "empty hardware calibration" else pure g

/-- `HardwareGraph::load_calibration`. -/
def loadCalibration (files : Files) (g : Topology) (path : String) : Except String Topology :=
  if path = "" then .ok g
  else
    match files.read (calibrationFile files path) with
    | none => .error ("cannot open hardware calibration: " ++ calibrationFile files path)
    | some text => loadText stod g (calibrationFile files path) text

end Load

/-- `HardwareGraph::latency`. -/
def latency (g : Topology) (fromCpu toCpu : Int) : Double :=
  if fromCpu = toCpu then .finite 0 else
  match g.cpuLatency.find? (toLex (fromCpu, toCpu)) with
  | some v => v
  | none =>
    -- the source's loop keeps the last CPU with the wanted id
    let nodeOf (id : Int) : Int := (g.cpus.filter (fun c => decide (c.id = id))).getLast?.elim (-1) (·.node)
    match g.nodeDistance.find? (toLex (nodeOf fromCpu, nodeOf toCpu)) with
    | some v => v
    | none => if nodeOf fromCpu = nodeOf toCpu then .finite 10 else .finite 20

/-! ## Loading -/

section Load

variable {stod : Text → Except String Double} {g g' : Topology}

/-- The rows of a file that begins with one of the two headers. -/
def Rows (stod : Text → Except String Double) (text : Text) (rows : List Row) : Prop :=
  ∃ first rest, CppText.lines '\n' text = first :: rest ∧ (first = header.toList ∨ first = estimatedHeader.toList) ∧
    List.Forall₂ (fun line row => readRow stod line = .ok row) rest rows

/-- Some row is of the pair of nodes. -/
def HasRow (rows : List Row) (src dst : Int) : Prop := ∃ row ∈ rows, row.src = src ∧ row.dst = dst

theorem foldlM_readRow_eq_ok : ∀ {rest : List Text} {g g' : Topology},
    rest.foldlM (fun g line => (readRow stod line).map (addRow g)) g = .ok g' ↔
      ∃ rows, List.Forall₂ (fun line row => readRow stod line = .ok row) rest rows ∧ g' = rows.foldl addRow g
  | [], g, g' => by
    constructor
    · intro h
      cases h
      exact ⟨[], List.Forall₂.nil, rfl⟩
    · rintro ⟨rows, hrows, rfl⟩
      cases hrows
      rfl
  | line :: rest, g, g' => by
    rw [List.foldlM_cons]
    cases hline : readRow stod line with
    | error e =>
      refine iff_of_false (fun h => nomatch h) ?_
      rintro ⟨rows, hrows, -⟩
      cases hrows with
      | cons hrow _ =>
        rw [hline] at hrow
        cases hrow
    | ok row =>
      change rest.foldlM (fun g line => (readRow stod line).map (addRow g)) (addRow g row) = Except.ok g' ↔ _
      rw [foldlM_readRow_eq_ok]
      constructor
      · rintro ⟨rows, hrows, hg'⟩
        exact ⟨row :: rows, List.Forall₂.cons hline hrows, hg'⟩
      · rintro ⟨rows, hrows, hg'⟩
        cases hrows with
        | cons hrow hrest =>
          rw [hline] at hrow
          cases hrow
          exact ⟨_, hrest, hg'⟩

theorem cpus_foldl_addRow (rows : List Row) (g : Topology) : (rows.foldl addRow g).cpus = g.cpus := by
  have hbody : ∀ (g₁ : Topology) (row : Row), g₁.cpus = g.cpus → (addRow g₁ row).cpus = g.cpus := fun _ _ h => h
  exact Loop.foldl_keeps (fun g₁ : Topology => g₁.cpus = g.cpus) hbody rows rfl

theorem nodes_foldl_addRow (rows : List Row) (g : Topology) : (rows.foldl addRow g).nodes = g.nodes := by
  unfold nodes
  rw [cpus_foldl_addRow]

/-- The rows are written into a map of the pairs of nodes. -/
theorem mem_foldl_addRow {ν : Type} (read : Topology → OrdMap (Int ×ₗ Int) ν) (at' : Row → ν)
    (hread : ∀ g row, read (addRow g row) = (read g).insert (toLex (row.src, row.dst)) (at' row)) {src dst : Int} :
    ∀ (rows : List Row) (g : Topology),
      toLex (src, dst) ∈ read (rows.foldl addRow g) ↔ toLex (src, dst) ∈ read g ∨ HasRow rows src dst
  | [], g => by simp [HasRow]
  | row :: rows, g => by
    rw [List.foldl_cons, mem_foldl_addRow read at' hread rows, hread, OrdMap.mem_insert]
    unfold HasRow
    simp only [List.mem_cons, exists_eq_or_imp, toLex_inj, Prod.mk.injEq]
    tauto

theorem mem_nodes {n : Int} : n ∈ g.nodes ↔ ∃ c ∈ g.cpus, c.node = n := by
  simp [nodes, OrdSet.mem_toList]

/-- The latencies of a row are those of the CPUs of its nodes; no other goes. -/
theorem mem_rowLatency {cpus : List Cpu} {row : Row} {latency : OrdMap (Int ×ₗ Int) Double} {a b : Cpu} (ha : a ∈ cpus)
    (hb : b ∈ cpus) (h : toLex (a.id, b.id) ∈ latency ∨ a.node = row.src ∧ b.node = row.dst) :
    toLex (a.id, b.id) ∈ rowLatency cpus row latency := by
  have hput : ∀ (m : OrdMap (Int ×ₗ Int) Double) (x y : Cpu), toLex (a.id, b.id) ∈ m →
      toLex (a.id, b.id) ∈ (if x.node = row.src ∧ y.node = row.dst then
        m.insert (toLex (x.id, y.id)) (if x.id = y.id then .finite 0 else row.calibration.handoffMeanNs) else m) := by
    intro m x y hm
    split
    · exact OrdMap.mem_insert.2 (Or.inr hm)
    · exact hm
  have hkeep : ∀ (m : OrdMap (Int ×ₗ Int) Double) (x : Cpu), toLex (a.id, b.id) ∈ m →
      toLex (a.id, b.id) ∈ cpus.foldl (fun (m : OrdMap (Int ×ₗ Int) Double) y =>
        if x.node = row.src ∧ y.node = row.dst then
          m.insert (toLex (x.id, y.id)) (if x.id = y.id then .finite 0 else row.calibration.handoffMeanNs)
        else m) m :=
    fun m x hm => Loop.foldl_keeps (fun m => toLex (a.id, b.id) ∈ m) (fun m y => hput m x y) cpus hm
  unfold rowLatency
  rcases h with h | ⟨hsrc, hdst⟩
  · exact Loop.foldl_keeps (fun m => toLex (a.id, b.id) ∈ m) hkeep cpus h
  · refine Loop.foldl_reaches (fun m => toLex (a.id, b.id) ∈ m) hkeep (fun m => ?_) ha latency
    refine Loop.foldl_reaches (fun m => toLex (a.id, b.id) ∈ m) (fun m y => hput m a y) (fun m => ?_) hb m
    rw [if_pos ⟨hsrc, hdst⟩]
    exact OrdMap.mem_insert.2 (Or.inl rfl)

/-- **Every pair of CPUs whose nodes have a row has a latency.** -/
theorem mem_cpuLatency {a b : Cpu} : ∀ (rows : List Row) {g : Topology}, a ∈ g.cpus → b ∈ g.cpus →
    (toLex (a.id, b.id) ∈ g.cpuLatency ∨ HasRow rows a.node b.node) → toLex (a.id, b.id) ∈ (rows.foldl addRow g).cpuLatency
  | [], g, _, _, h => h.elim id (fun ⟨row, hrow, _⟩ => absurd hrow List.not_mem_nil)
  | row :: rows, g, ha, hb, h => by
    have hnext : toLex (a.id, b.id) ∈ (addRow g row).cpuLatency ∨ HasRow rows a.node b.node := by
      rcases h with h | ⟨r, hr, hsrc, hdst⟩
      · exact Or.inl (mem_rowLatency ha hb (Or.inl h))
      · rcases List.mem_cons.1 hr with rfl | hr
        · exact Or.inl (mem_rowLatency ha hb (Or.inr ⟨hsrc.symm, hdst.symm⟩))
        · exact Or.inr ⟨r, hr, hsrc, hdst⟩
    exact mem_cpuLatency rows (g := addRow g row) ha hb hnext

/-- **When the file is taken**, and what is made of it. -/
theorem loadText_eq_ok {file : String} {text : Text} : loadText stod g file text = .ok g' ↔
    ∃ rows, Rows stod text rows ∧ rows ≠ [] ∧
      (∀ src ∈ g.nodes, ∀ dst ∈ g.nodes, toLex (src, dst) ∈ g.nodeDistance ∨ HasRow rows src dst) ∧
      g' = rows.foldl addRow g := by
  have hcheck : ∀ rows : List Row, ((rows.foldl addRow g).nodes.any (fun src => (rows.foldl addRow g).nodes.any
      (fun dst => !decide (toLex (src, dst) ∈ (rows.foldl addRow g).nodeDistance))) = false) ↔
      ∀ src ∈ g.nodes, ∀ dst ∈ g.nodes, toLex (src, dst) ∈ g.nodeDistance ∨ HasRow rows src dst := by
    intro rows
    rw [nodes_foldl_addRow, List.any_eq_false]
    refine forall₂_congr (fun src _ => ?_)
    rw [Bool.not_eq_true, List.any_eq_false]
    refine forall₂_congr (fun dst _ => ?_)
    rw [← mem_foldl_addRow (·.nodeDistance) (·.distance) (fun _ _ => rfl) rows g]
    simp
  unfold loadText Rows
  cases CppText.lines '\n' text with
  | nil =>
    refine iff_of_false (fun h => nomatch h) ?_
    rintro ⟨rows, ⟨first, rest, hlines, -⟩, -⟩
    cases hlines
  | cons first rest =>
    dsimp only
    by_cases hheader : first ≠ header.toList ∧ first ≠ estimatedHeader.toList
    · rw [if_pos hheader]
      refine iff_of_false (fun h => nomatch h) ?_
      rintro ⟨rows, ⟨first', rest', hlines, hgood, -⟩, -⟩
      cases hlines
      exact hgood.elim hheader.1 hheader.2
    · have hgood : first = header.toList ∨ first = estimatedHeader.toList := by
        by_contra hno
        exact hheader (not_or.1 hno)
      rw [if_neg hheader]
      constructor
      · intro h
        cases hfold : rest.foldlM (fun g line => (readRow stod line).map (addRow g)) g with
        | error e =>
          rw [hfold] at h
          cases h
        | ok g₁ =>
          obtain ⟨rows, hrows, rfl⟩ := foldlM_readRow_eq_ok.1 hfold
          rw [hfold] at h
          change (if _ then _ else _) = Except.ok g' at h
          split at h
          · cases h
          rename_i hany
          split at h
          · cases h
          rename_i hlength
          cases h
          refine ⟨rows, ⟨first, rest, rfl, hgood, hrows⟩, ?_, (hcheck rows).1 (Bool.eq_false_iff.2 hany), rfl⟩
          rintro rfl
          exact hlength hrows.length_eq
      · rintro ⟨rows, ⟨first', rest', hlines, -, hrows⟩, hne, hall, rfl⟩
        cases hlines
        have hlength : rest.length ≠ 0 := by
          rw [hrows.length_eq]
          exact fun h => hne (List.eq_nil_of_length_eq_zero h)
        rw [foldlM_readRow_eq_ok.2 ⟨rows, hrows, rfl⟩]
        change (if _ then _ else _) = Except.ok _
        rw [if_neg (Bool.eq_false_iff.1 ((hcheck rows).2 hall)), if_neg hlength]
        rfl

/-! ## What the file has to cover -/

/-- Every pair of nodes of the envelope is calibrated and every pair of its CPUs has a latency, which `latency` returns. -/
structure Covered (g : Topology) : Prop where
  nodePairs : ∀ src ∈ g.nodes, ∀ dst ∈ g.nodes, toLex (src, dst) ∈ g.nodeCalibration
  cpuPairs : ∀ a ∈ g.cpus, ∀ b ∈ g.cpus, toLex (a.id, b.id) ∈ g.cpuLatency
  latencies : ∀ a ∈ g.cpus, ∀ b ∈ g.cpus, a.id ≠ b.id →
    g.cpuLatency.find? (toLex (a.id, b.id)) = some (g.latency a.id b.id)

/-- A file with rows, none of them malformed, that leaves out pairs of nodes of which all have a distance. -/
def Partial (stod : Text → Except String Double) (files : Files) (g : Topology) (path : String) : Prop :=
  ∃ text rows, files.read (calibrationFile files path) = some text ∧ Rows stod text rows ∧ rows ≠ [] ∧
    (∃ src ∈ g.nodes, ∃ dst ∈ g.nodes, ¬ HasRow rows src dst) ∧
    ∀ src ∈ g.nodes, ∀ dst ∈ g.nodes, ¬ HasRow rows src dst → toLex (src, dst) ∈ g.nodeDistance

theorem latency_of_mem {a b : Cpu} (hne : a.id ≠ b.id) (h : toLex (a.id, b.id) ∈ g.cpuLatency) :
    g.cpuLatency.find? (toLex (a.id, b.id)) = some (g.latency a.id b.id) := by
  obtain ⟨v, hv⟩ := OrdMap.mem_iff.1 h
  unfold latency
  rw [if_neg hne, hv]

/-- `discover` calibrates nothing. -/
theorem nodeCalibration_discover {sys : Sys} {envelope : List Int} (h : discover sys envelope = .ok g) :
    g.nodeCalibration = ∅ := by
  have hcpu : ∀ {g₁ g₂ : Topology} {id : Int}, discoverCpu sys g₁ id = .ok g₂ → g₂.nodeCalibration = g₁.nodeCalibration := by
    intro g₁ g₂ id hone
    unfold discoverCpu at hone
    split at hone
    · cases hone
    dsimp only at hone
    split at hone
    · cases hone
    cases hnode : nodeOf (sys.cpuEntries id) with
    | error e =>
      rw [hnode] at hone
      cases hone
    | ok n =>
      rw [hnode] at hone
      cases hone
      rfl
  have hloop : ∀ (ids : List Int) {g₁ g₂ : Topology}, ids.foldlM (discoverCpu sys) g₁ = .ok g₂ →
      g₂.nodeCalibration = g₁.nodeCalibration := by
    intro ids
    induction ids with
    | nil =>
      intro g₁ g₂ hrun
      cases hrun
      rfl
    | cons id ids ih =>
      intro g₁ g₂ hrun
      rw [List.foldlM_cons] at hrun
      cases hone : discoverCpu sys g₁ id with
      | error e =>
        rw [hone] at hrun
        cases hrun
      | ok g₃ =>
        rw [hone] at hrun
        exact (ih hrun).trans (hcpu hone)
  unfold discover at h
  cases hrun : envelope.foldlM (discoverCpu sys) ({} : Topology) with
  | error e =>
    rw [hrun] at h
    cases h
  | ok g₁ =>
    rw [hrun] at h
    cases h
    exact hloop envelope hrun

/-- **A file that is taken covers the envelope, unless it is partial.** -/
theorem covered_iff {sys : Sys} {envelope : List Int} (stod : Text → Except String Double) (files : Files) (path : String)
    (hg : discover sys envelope = .ok g) (hpath : path ≠ "") :
    (∀ g', loadCalibration stod files g path = .ok g' → Covered g') ↔ ¬ Partial stod files g path := by
  have hload : ∀ g', loadCalibration stod files g path = .ok g' ↔ ∃ text,
      files.read (calibrationFile files path) = some text ∧ loadText stod g (calibrationFile files path) text = .ok g' := by
    intro g'
    unfold loadCalibration
    rw [if_neg hpath]
    cases files.read (calibrationFile files path) with
    | none => simp
    | some text => simp
  constructor
  · rintro hall ⟨text, rows, hread, hrows, hne, ⟨src, hsrc, dst, hdst, hno⟩, hknown⟩
    have htaken : loadCalibration stod files g path = .ok (rows.foldl addRow g) := by
      refine (hload _).2 ⟨text, hread, loadText_eq_ok.2 ⟨rows, hrows, hne, fun s hs d hd => ?_, rfl⟩⟩
      by_cases hrow : HasRow rows s d
      · exact Or.inr hrow
      · exact Or.inl (hknown s hs d hd hrow)
    have hpairs := (hall _ htaken).nodePairs
    rw [nodes_foldl_addRow] at hpairs
    rcases (mem_foldl_addRow (·.nodeCalibration) (·.calibration) (fun _ _ => rfl) rows g).1 (hpairs src hsrc dst hdst) with h | h
    · rw [nodeCalibration_discover hg] at h
      exact OrdMap.notMem_empty _ h
    · exact hno h
  · intro hwhole g' htaken
    obtain ⟨text, hread, htext⟩ := (hload g').1 htaken
    obtain ⟨rows, hrows, hne, hknown, rfl⟩ := loadText_eq_ok.1 htext
    have hcover : ∀ src ∈ g.nodes, ∀ dst ∈ g.nodes, HasRow rows src dst := by
      intro src hsrc dst hdst
      by_contra hno
      exact hwhole ⟨text, rows, hread, hrows, hne, ⟨src, hsrc, dst, hdst, hno⟩,
        fun s hs d hd hrow => (hknown s hs d hd).resolve_right hrow⟩
    have hcpus : ∀ a ∈ g.cpus, ∀ b ∈ g.cpus, toLex (a.id, b.id) ∈ (rows.foldl addRow g).cpuLatency := by
      intro a ha b hb
      exact mem_cpuLatency rows ha hb (Or.inr (hcover _ (mem_nodes.2 ⟨a, ha, rfl⟩) _ (mem_nodes.2 ⟨b, hb, rfl⟩)))
    refine ⟨fun src hsrc dst hdst => ?_, fun a ha b hb => ?_, fun a ha b hb hne => ?_⟩
    · rw [nodes_foldl_addRow] at hsrc hdst
      exact (mem_foldl_addRow (·.nodeCalibration) (·.calibration) (fun _ _ => rfl) rows g).2
        (Or.inr (hcover src hsrc dst hdst))
    · rw [cpus_foldl_addRow] at ha hb
      exact hcpus a ha b hb
    · rw [cpus_foldl_addRow] at ha hb
      exact latency_of_mem hne (hcpus a ha b hb)

end Load

/-! ### A file with one row for two nodes -/

/-- CPUs 0 and 2 are in node 0, and CPU 1 is in node 1. -/
def twoNodes : Sys where
  cpuExists := fun id => decide (id = 0 ∨ id = 1 ∨ id = 2)
  online := fun _ => "1"
  cpuEntries := fun id => if id = 1 then ["cache".toList, "node1".toList] else ["cache".toList, "node0".toList]
  distance := fun node => if node = 0 then [10, 20] else [20, 10]

/-- Node 0 is calibrated with itself, and nothing else. -/
def oneRow : Files where
  isDirectory := fun _ => false
  read := fun _ => some (header.toList ++ "\n0,0,1,10,150,180,90,0,1000,2000\n".toList)

/-- `std::stod` on the cells of that file, which are digits. -/
def stodDigits (t : Text) : Except String Double :=
  if CppText.Digits t then .ok (.finite (CppText.value t)) else .error "stod"

theorem load_oneRow : ∃ g g', discover twoNodes [0, 1, 2] = .ok g ∧
    loadCalibration stodDigits oneRow g "calibration.csv" = .ok g' ∧ toLex (0, 1) ∉ g'.nodeCalibration ∧
    g'.latency 0 2 = .finite 150 ∧ g'.latency 0 1 = .finite 20 ∧ ¬ Covered g' := by
  have h : (discover twoNodes [0, 1, 2]).toOption.any (fun g =>
      (loadCalibration stodDigits oneRow g "calibration.csv").toOption.any (fun g' =>
        decide (toLex (0, 1) ∉ g'.nodeCalibration ∧ g'.latency 0 2 = .finite 150 ∧ g'.latency 0 1 = .finite 20 ∧
          0 ∈ g'.nodes ∧ 1 ∈ g'.nodes))) = true := by decide +kernel
  obtain ⟨g, hg, h⟩ := (Option.any_eq_true _ _).1 h
  obtain ⟨g', hg', h⟩ := (Option.any_eq_true _ _).1 h
  obtain ⟨hout, hnear, hfar, hzero, hone⟩ := of_decide_eq_true h
  exact ⟨g, g', toOption_eq_some hg, toOption_eq_some hg', hout, hnear, hfar,
    fun hcovered => hout (hcovered.nodePairs 0 hzero 1 hone)⟩

theorem oneRow_partial : ∃ g, discover twoNodes [0, 1, 2] = .ok g ∧ Partial stodDigits oneRow g "calibration.csv" := by
  obtain ⟨g, g', hg, hg', -, -, -, hnot⟩ := load_oneRow
  refine ⟨g, hg, ?_⟩
  by_contra hwhole
  exact hnot ((covered_iff stodDigits oneRow "calibration.csv" hg (by decide)).2 hwhole g' hg')

/-- **A partial file is taken**, and a latency in nanoseconds stands beside one in the units of the kernel. -/
theorem partial_file_taken : ∃ g g', discover twoNodes [0, 1, 2] = .ok g ∧
    loadCalibration stodDigits oneRow g "calibration.csv" = .ok g' ∧ toLex (0, 1) ∉ g'.nodeCalibration ∧
    g'.latency 0 2 = .finite 150 ∧ g'.latency 0 1 = .finite 20 ∧ ¬ Covered g' :=
  load_oneRow

end Topology
end AffinityGraph
