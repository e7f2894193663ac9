import AffinityGraph.Core
import AffinityGraph.CpuList
import AffinityGraph.Run
/-!
# LoadConfig — the configuration file and its gate

`load_config` takes a file when no comparison of its last check rejects it.  A NaN meets no comparison, and an infinity meets
none where there is no upper bound, so the gate keeps a real-valued field in its interval exactly when what the file assigns to
it last reads as neither (`LoadConfig.gate_iff`).  The fields of one type are one table, with the names of the source.
-/
namespace AffinityGraph
namespace LoadConfig

open CppText (Text Double stoi)

/-! ## The fields -/

inductive RealField where
  | minimumConfidence | maximumMigratedThreadsRatio | initialMigratedThreadsRatio | familyMinimumDemand
  | familyMinimumInternalRelation | familyMinimumSelfContainment | familyMinimumRelativeInternal | domainMergeRatio
  | domainCapacityRatio | domainExpandRatio | domainShrinkRatio | initialNodeThreadSlackRatio | demandDirtyThreshold
  | edgeDirtyAbsoluteThreshold | edgeDirtyRelativeThreshold | minimumRelativeGain | futureDemandFloor
  | groupPeakDemandRatio | groupPeakDemandCap | groupPeakDecay | nodeBalanceThreshold | hotspotEdgeQuantile
  | hotspotComponentBoost | managedThreadHysteresisRatio | hotspotReplanGrowthRatio | hotspotStabilityThreshold
  | activeDemandThreshold | inactiveDemandThreshold | activityLogP95 | syncLogP95 | shareLogP95
  deriving DecidableEq

def realKeys : List (String × RealField) :=
  [("runtime.minimum_confidence", .minimumConfidence),
    ("runtime.maximum_migrated_threads_ratio", .maximumMigratedThreadsRatio),
    ("runtime.maximum_migrated_active_threads_ratio", .maximumMigratedThreadsRatio),
    ("runtime.initial_migrated_threads_ratio", .initialMigratedThreadsRatio),
    ("runtime.family_minimum_demand", .familyMinimumDemand),
    ("runtime.family_minimum_internal_relation", .familyMinimumInternalRelation),
    ("runtime.family_minimum_self_containment", .familyMinimumSelfContainment),
    ("runtime.family_minimum_relative_internal", .familyMinimumRelativeInternal),
    ("runtime.domain_merge_ratio", .domainMergeRatio),
    ("runtime.domain_capacity_ratio", .domainCapacityRatio),
    ("runtime.domain_expand_ratio", .domainExpandRatio),
    ("runtime.domain_shrink_ratio", .domainShrinkRatio),
    ("runtime.initial_node_thread_slack_ratio", .initialNodeThreadSlackRatio),
    ("runtime.demand_dirty_threshold", .demandDirtyThreshold),
    ("runtime.edge_dirty_absolute_threshold", .edgeDirtyAbsoluteThreshold),
    ("runtime.edge_dirty_relative_threshold", .edgeDirtyRelativeThreshold),
    ("runtime.minimum_relative_gain", .minimumRelativeGain),
    ("runtime.future_demand_floor", .futureDemandFloor),
    ("runtime.group_peak_demand_ratio", .groupPeakDemandRatio),
    ("runtime.group_peak_demand_cap", .groupPeakDemandCap),
    ("runtime.group_peak_decay", .groupPeakDecay),
    ("runtime.node_balance_threshold", .nodeBalanceThreshold),
    ("runtime.hotspot_edge_quantile", .hotspotEdgeQuantile),
    ("runtime.hotspot_component_boost", .hotspotComponentBoost),
    ("runtime.managed_thread_hysteresis_ratio", .managedThreadHysteresisRatio),
    ("runtime.hotspot_replan_growth_ratio", .hotspotReplanGrowthRatio),
    ("runtime.hotspot_stability_threshold", .hotspotStabilityThreshold),
    ("runtime.active_demand_threshold", .activeDemandThreshold),
    ("runtime.inactive_demand_threshold", .inactiveDemandThreshold),
    ("calibration.activity_log_p95", .activityLogP95),
    ("calibration.sync_log_p95", .syncLogP95),
    ("calibration.share_log_p95", .shareLogP95)]

/-- The value in `Config`'s declaration. -/
def RealField.initial : RealField → ℚ
  | minimumConfidence => 4 / 5
  | maximumMigratedThreadsRatio => 1 / 4
  | initialMigratedThreadsRatio => 1
  | familyMinimumDemand => 1
  | familyMinimumInternalRelation => 1
  | familyMinimumSelfContainment => 1 / 5
  | familyMinimumRelativeInternal => 1 / 10
  | domainMergeRatio => 1 / 4
  | domainCapacityRatio => 4 / 5
  | domainExpandRatio => 9 / 10
  | domainShrinkRatio => 11 / 20
  | initialNodeThreadSlackRatio => 1 / 2
  | demandDirtyThreshold => 1 / 20
  | edgeDirtyAbsoluteThreshold => 1
  | edgeDirtyRelativeThreshold => 1 / 10
  | minimumRelativeGain => 1 / 20
  | futureDemandFloor => 1 / 50
  | groupPeakDemandRatio => 1 / 4
  | groupPeakDemandCap => 1 / 20
  | groupPeakDecay => 19 / 20
  | nodeBalanceThreshold => 1 / 20
  | hotspotEdgeQuantile => 19 / 20
  | hotspotComponentBoost => 4
  | managedThreadHysteresisRatio => 1
  | hotspotReplanGrowthRatio => 1 / 4
  | hotspotStabilityThreshold => 13 / 20
  | activeDemandThreshold => 1 / 20
  | inactiveDemandThreshold => 0
  | activityLogP95 => 24138804290562152 / 10 ^ 16
  | syncLogP95 => 25591179487485345 / 10 ^ 16
  | shareLogP95 => 894730347830295 / 10 ^ 17

/-- What is rejected at the lower end: `x < 0` or `x <= 0`. -/
inductive Lower where
  | zero
  | aboveZero

/-- What is rejected at the upper end: nothing, `x > 1`, or `x >= c.y`. -/
inductive Upper where
  | none
  | one
  | below (f : RealField)
  deriving DecidableEq

def RealField.lower : RealField → Lower
  | initialMigratedThreadsRatio | domainCapacityRatio | domainExpandRatio | activeDemandThreshold | activityLogP95
  | syncLogP95 | shareLogP95 => .aboveZero
  | _ => .zero

def RealField.upper : RealField → Upper
  | familyMinimumDemand | familyMinimumInternalRelation | domainMergeRatio | demandDirtyThreshold
  | edgeDirtyAbsoluteThreshold | edgeDirtyRelativeThreshold | hotspotComponentBoost | managedThreadHysteresisRatio
  | activityLogP95 | syncLogP95 | shareLogP95 => .none
  | domainShrinkRatio => .below domainExpandRatio
  | inactiveDemandThreshold => .below activeDemandThreshold
  | _ => .one

inductive IntField where
  | staticQuiescenceSeconds | staticScanSeconds | sampleIntervalSeconds | graphHorizonSeconds | solveIntervalSeconds
  | proposalConfirmations | initialProposalConfirmations | minimumDwellSeconds | collectorFailureRestoreSeconds
  | familyEdgesPerFamily | familyStabilityConfirmations | domainStabilityConfirmations | domainPlanConfirmations
  | maximumThreadsPerDomain | domainExpandConfirmations | domainShrinkConfirmations | domainMinimumDwellSeconds
  | initialNodePasses | candidateMultiplier | candidateHardLimit | rotatingScanSize | maximumThreadsPerCpu
  | threadSlotSlack | hotspotEdgesPerThread | maximumManagedThreads | hotspotReplanMinThreads
  | hotspotStabilityConfirmations
  deriving DecidableEq

def intKeys : List (String × IntField) :=
  [("runtime.static_quiescence_seconds", .staticQuiescenceSeconds),
    -- deprecated alias
    ("runtime.static_quiescent_windows", .staticQuiescenceSeconds),
    ("runtime.static_scan_seconds", .staticScanSeconds),
    ("runtime.sample_interval_seconds", .sampleIntervalSeconds),
    ("runtime.graph_horizon_seconds", .graphHorizonSeconds),
    ("runtime.solve_interval_seconds", .solveIntervalSeconds),
    ("runtime.proposal_confirmations", .proposalConfirmations),
    ("runtime.initial_proposal_confirmations", .initialProposalConfirmations),
    ("runtime.minimum_dwell_seconds", .minimumDwellSeconds),
    ("runtime.collector_failure_restore_seconds", .collectorFailureRestoreSeconds),
    ("runtime.family_edges_per_family", .familyEdgesPerFamily),
    ("runtime.family_stability_confirmations", .familyStabilityConfirmations),
    ("runtime.domain_stability_confirmations", .domainStabilityConfirmations),
    ("runtime.domain_plan_confirmations", .domainPlanConfirmations),
    ("runtime.maximum_threads_per_domain", .maximumThreadsPerDomain),
    ("runtime.domain_expand_confirmations", .domainExpandConfirmations),
    ("runtime.domain_shrink_confirmations", .domainShrinkConfirmations),
    ("runtime.domain_minimum_dwell_seconds", .domainMinimumDwellSeconds),
    ("runtime.initial_node_passes", .initialNodePasses),
    ("runtime.candidate_multiplier", .candidateMultiplier),
    ("runtime.candidate_hard_limit", .candidateHardLimit),
    ("runtime.rotating_scan_size", .rotatingScanSize),
    ("runtime.maximum_threads_per_cpu", .maximumThreadsPerCpu),
    ("runtime.thread_slot_slack", .threadSlotSlack),
    ("runtime.hotspot_edges_per_thread", .hotspotEdgesPerThread),
    ("runtime.maximum_managed_threads", .maximumManagedThreads),
    ("runtime.hotspot_replan_min_threads", .hotspotReplanMinThreads),
    ("runtime.hotspot_stability_confirmations", .hotspotStabilityConfirmations)]

def IntField.initial : IntField → Int
  | staticQuiescenceSeconds => 30
  | staticScanSeconds => 30
  | sampleIntervalSeconds => 1
  | graphHorizonSeconds => 60
  | solveIntervalSeconds => 10
  | proposalConfirmations => 3
  | initialProposalConfirmations => 1
  | minimumDwellSeconds => 60
  | collectorFailureRestoreSeconds => 30
  | familyEdgesPerFamily => 4
  | familyStabilityConfirmations => 3
  | domainStabilityConfirmations => 3
  | domainPlanConfirmations => 3
  | maximumThreadsPerDomain => 1024
  | domainExpandConfirmations => 3
  | domainShrinkConfirmations => 6
  | domainMinimumDwellSeconds => 300
  | initialNodePasses => 2
  | candidateMultiplier => 4
  | candidateHardLimit => 64
  | rotatingScanSize => 32
  | maximumThreadsPerCpu => 0
  | threadSlotSlack => 0
  | hotspotEdgesPerThread => 4
  | maximumManagedThreads => 32
  | hotspotReplanMinThreads => 8
  | hotspotStabilityConfirmations => 3

inductive TextField where
  | calibrationPath | logDirectory | socketPath | threadProfilePath | profileOutputPath | experimentId | testId | solver
  | affinityGranularity | relationshipCalibrationId
  deriving DecidableEq

def textKeys : List (String × TextField) :=
  [("resources.calibration_path", .calibrationPath), ("runtime.log_directory", .logDirectory),
    ("runtime.socket_path", .socketPath), ("runtime.thread_profile", .threadProfilePath),
    ("runtime.profile_output", .profileOutputPath), ("runtime.experiment_id", .experimentId),
    ("runtime.test_id", .testId), ("runtime.solver", .solver),
    ("runtime.affinity_granularity", .affinityGranularity), ("calibration.id", .relationshipCalibrationId)]

def TextField.initial : TextField → String
  | logDirectory => "/tmp/affinitygraph"
  | socketPath => "/tmp/affinitygraph.sock"
  | solver => "incremental-hotspot-v1"
  | affinityGranularity => "singleton_cpu"
  | relationshipCalibrationId => "clickhouse-gate2-fixed-v2"
  | _ => ""

inductive FlagField where
  | dynamic | bpfRequired | pthreadUprobe
  deriving DecidableEq

def flagKeys : List (String × FlagField) :=
  [("runtime.dynamic", .dynamic), ("collector.required", .bpfRequired), ("collector.pthread_uprobe", .pthreadUprobe)]

def FlagField.initial : FlagField → Bool
  | dynamic => true
  | bpfRequired => false
  | pthreadUprobe => true

/-- `Config`. -/
structure Config where
  mode : Mode := .observe
  cpus : List Int := []
  real : RealField → Double := fun f => .finite f.initial
  int : IntField → Int := IntField.initial
  text : TextField → String := TextField.initial
  flag : FlagField → Bool := FlagField.initial

/-! ## One line -/

def unquote (value : Text) : Except String String :=
  if 2 ≤ value.length ∧ value.head? = some '"' ∧ value.getLast? = some '"' then
    .ok (String.ofList (value.drop 1).dropLast)
  else .error ("expected quoted TOML string: " ++ String.ofList value)

def boolean (value : Text) : Except String Bool :=
  if value = "true".toList then .ok true
  else if value = "false".toList then .ok false
  else .error ("expected TOML boolean: " ++ String.ofList value)

/-- What a line of the file is. -/
inductive Line where
  | blank
  | header (name : Text)
  | assignment (key value : Text)
  | broken

/-- The comment is cut off, then the white space at the ends. -/
def lineOf (line : Text) : Line :=
  let line := CpuList.trim (line.takeWhile (fun c => decide (c ≠ '#')))
  if line = [] then .blank
  else if line.head? = some '[' ∧ line.getLast? = some ']' then .header (line.drop 1).dropLast
  else
    match line.dropWhile (fun c => decide (c ≠ '=')) with
    | [] => .broken
    | _ :: value => .assignment (CpuList.trim (line.takeWhile (fun c => decide (c ≠ '=')))) (CpuList.trim value)

/-- `section + '.' + key`. -/
def qualified (sect key : Text) : String := String.ofList (sect ++ '.' :: key)

def Config.setReal (c : Config) (f : RealField) (x : Double) : Config :=
  { c with real := fun g => if g = f then x else c.real g }

def Config.setInt (c : Config) (f : IntField) (n : Int) : Config :=
  { c with int := fun g => if g = f then n else c.int g }

def Config.setText (c : Config) (f : TextField) (s : String) : Config :=
  { c with text := fun g => if g = f then s else c.text g }

def Config.setFlag (c : Config) (f : FlagField) (b : Bool) : Config :=
  { c with flag := fun g => if g = f then b else c.flag g }

/-- What the loop over the lines carries. -/
structure State where
  config : Config := {}
  cpusFromToml : Bool := false
  sect : Text := []
  lineNumber : Nat := 0

section Read

variable (stod : Text → Except String Double)

/-- The chain over the keys. -/
def assign (c : Config) (lineNumber : Nat) (key : String) (value : Text) : Except String Config :=
  if key = "runtime.mode" then do
    let mode ← unquote value
    if mode = "observe" then pure { c with mode := .observe }
    else if mode = "plan" then pure { c with mode := .plan }
    else if mode = "active" then pure { c with mode := .active }
    else .error "mode must be observe, plan, or active"
  else if key = "resources.cpus" then do
    let cpus ← unquote value
    let cpus ← CpuList.parseCpuList cpus.toList
    pure { c with cpus := cpus }
  else
    match realKeys.lookup key, intKeys.lookup key, textKeys.lookup key, flagKeys.lookup key with
    | some f, _, _, _ => (stod value).map (c.setReal f)
    | none, some f, _, _ => (stoi value).map (c.setInt f)
    | none, none, some f, _ => (unquote value).map (c.setText f)
    | none, none, none, some f => (boolean value).map (c.setFlag f)
    | none, none, none, none => .error ("unknown TOML key '" ++ key ++ "' at line " ++ toString lineNumber)

def sections : List Text := ["runtime".toList, "resources".toList, "collector".toList, "calibration".toList]

def readLine (s : State) (line : Text) : Except String State :=
  let n := s.lineNumber + 1
  match lineOf line with
  | .blank => .ok { s with lineNumber := n }
  | .header name =>
    if name ∈ sections then .ok { s with sect := name, lineNumber := n }
    else .error ("unknown TOML section at line " ++ toString n)
  | .broken => .error ("invalid TOML assignment at line " ++ toString n)
  | .assignment key value =>
    (assign stod s.config n (qualified s.sect key) value).map (fun c =>
      { s with
        config := c
        cpusFromToml := s.cpusFromToml || decide (qualified s.sect key = "resources.cpus")
        lineNumber := n })

end Read

/-! ## The check -/

def Lower.rejects : Lower → Double → Bool
  | zero, x => x.lt (.finite 0)
  | aboveZero, x => x.le (.finite 0)

def Upper.rejects (c : Config) : Upper → Double → Bool
  | none, _ => false
  | one, x => Double.lt (.finite 1) x
  | below f, x => Double.le (c.real f) x

def rejectsReal (c : Config) (f : RealField) : Bool := f.lower.rejects (c.real f) || f.upper.rejects c (c.real f)

def IntField.rejects (c : Config) : IntField → Bool
  | graphHorizonSeconds => decide (c.int graphHorizonSeconds < c.int sampleIntervalSeconds)
  | solveIntervalSeconds => decide (c.int solveIntervalSeconds < c.int sampleIntervalSeconds)
  | initialNodePasses => decide (c.int initialNodePasses < 1) || decide (c.int initialNodePasses > 8)
  | sampleIntervalSeconds => decide (c.int sampleIntervalSeconds < 0)
  | staticScanSeconds => decide (c.int staticScanSeconds < 0)
  | minimumDwellSeconds => decide (c.int minimumDwellSeconds < 0)
  | domainMinimumDwellSeconds => decide (c.int domainMinimumDwellSeconds < 0)
  | maximumThreadsPerCpu => decide (c.int maximumThreadsPerCpu < 0)
  | threadSlotSlack => decide (c.int threadSlotSlack < 0)
  | maximumManagedThreads => decide (c.int maximumManagedThreads < 0)
  | f => decide (c.int f < 1)

def rejectsText (c : Config) : Bool :=
  (decide (c.text .solver ≠ "incremental-hotspot-v1") && decide (c.text .solver ≠ "numa-domain-v1")) ||
  (decide (c.text .affinityGranularity ≠ "singleton_cpu") && decide (c.text .affinityGranularity ≠ "numa_node_mask")) ||
  (decide (c.text .solver = "numa-domain-v1") && decide (c.text .affinityGranularity ≠ "numa_node_mask")) ||
  decide (c.text .relationshipCalibrationId = "")

/-- The disjunction of the last check. -/
def outsideRange (c : Config) : Bool :=
  realKeys.any (fun e => rejectsReal c e.2) || intKeys.any (fun e => e.2.rejects c) || rejectsText c

/-- What `load_config` gets from the system. -/
structure Host where
  /-- a file's text, when it can be opened -/
  read : String → Option Text
  /-- a variable of the environment -/
  env : String → Option String
  /-- `detect_allowed_cpus` -/
  allowedCpus : Except String (List Int)

section Load

variable (stod : Text → Except String Double)

/-- The envelope: the command line wins over the environment, it over the file, and that over the kernel. -/
def envelope (host : Host) (cpuOverride : String) (s : State) : Except String (List Int) :=
  if cpuOverride ≠ "" then CpuList.parseCpuList cpuOverride.toList
  else
    match (host.env "AFFINITY_CPUS").filter (fun v => decide (v ≠ "")) with
    | some v => CpuList.parseCpuList v.toList
    | none => if s.cpusFromToml then .ok s.config.cpus else host.allowedCpus

/-- The path of the thread profile: the environment wins over the file. -/
def withProfile (host : Host) (c : Config) : Config :=
  match (host.env "AFFINITY_THREAD_PROFILE").filter (fun v => decide (v ≠ "")) with
  | some v => c.setText .threadProfilePath v
  | none => c

/-- `load_config`. -/
def loadConfig (host : Host) (path cpuOverride : String) : Except String Config :=
  match host.read path with
  | none => .error ("cannot open config: " ++ path)
  | some text => do
    let s ← (CppText.lines '\n' text).foldlM (readLine stod) {}
    let cpus ← envelope host cpuOverride s
    let c : Config := withProfile host { s.config with cpus := cpus }
    if c.cpus = [] then .error "CPU envelope is empty"
    else if outsideRange c then .error "configuration value outside supported range"
    else .ok c

end Load

/-! ## The gate -/

/-- The lower check, as it is meant. -/
def Lower.Holds : Lower → ℚ → Prop
  | zero, q => 0 ≤ q
  | aboveZero, q => 0 < q

/-- The upper check, as it is meant. -/
def Upper.Holds (c : Config) : Upper → ℚ → Prop
  | none, _ => True
  | one, q => q ≤ 1
  | below f, q => ∃ r, c.real f = .finite r ∧ q < r

/-- A field is an ordinary number in its interval. -/
def InInterval (c : Config) (f : RealField) : Prop :=
  ∃ q, c.real f = .finite q ∧ f.lower.Holds q ∧ f.upper.Holds c q

/-- A value that no check of the field rejects though it is in no interval. -/
def Slips (f : RealField) (x : Double) : Prop := x = .nan ∨ f.upper = .none ∧ x = .posInf

/-- The text that the lines of a file, begun in a section, assign to a field last. -/
def lastText (f : RealField) : Text → List Text → Option Text
  | _, [] => none
  | sect, line :: lines =>
    match lineOf line with
    | .header name => lastText f name lines
    | .assignment key value =>
      (lastText f sect lines).or (if realKeys.lookup (qualified sect key) = some f then some value else none)
    | _ => lastText f sect lines

theorem mem_realKeys (f : RealField) : ∃ e ∈ realKeys, e.2 = f := by
  cases f <;> decide

/-- The field another is held below has an upper bound of its own. -/
theorem upper_of_below {f g : RealField} (h : f.upper = .below g) : g.upper = .one := by
  cases f <;> cases h <;> rfl

/-- **Every default is in its interval.** -/
theorem inInterval_default (f : RealField) : InInterval {} f := by
  refine ⟨f.initial, rfl, ?_, ?_⟩
  · cases f <;> norm_num [RealField.lower, Lower.Holds, RealField.initial]
  · cases f <;> first
      | exact trivial
      | exact ⟨_, rfl, by norm_num [RealField.initial]⟩
      | norm_num [RealField.upper, Upper.Holds, RealField.initial]

theorem Lower.holds_of_not_rejects {l : Lower} {x : Double} (h : l.rejects x = false) (hx : x ≠ .nan) :
    x = .posInf ∨ ∃ q, x = .finite q ∧ l.Holds q := by
  cases x with
  | nan => exact absurd rfl hx
  | posInf => exact Or.inl rfl
  | negInf => cases l <;> cases h
  | finite q =>
    refine Or.inr ⟨q, rfl, ?_⟩
    cases l with
    | zero => exact not_lt.1 (of_decide_eq_false h)
    | aboveZero => exact not_le.1 (of_decide_eq_false h)

variable {c : Config}

/-- A field that does not slip, and that no check rejects, is in its interval, when the field it is held below is. -/
theorem inInterval_of_not_slips {f : RealField} (hc : rejectsReal c f = false) (hf : ¬ Slips f (c.real f))
    (hbelow : ∀ g, f.upper = .below g → ∃ r, c.real g = .finite r) : InInterval c f := by
  obtain ⟨hlow, hhigh⟩ := Bool.or_eq_false_iff.1 hc
  rcases Lower.holds_of_not_rejects hlow (fun h => hf (Or.inl h)) with hinf | ⟨q, hq, hholds⟩
  · exfalso
    rw [hinf] at hhigh
    cases hupper : f.upper with
    | none => exact hf (Or.inr ⟨hupper, hinf⟩)
    | one =>
      rw [hupper] at hhigh
      cases hhigh
    | below g =>
      obtain ⟨r, hr⟩ := hbelow g hupper
      rw [hupper, Upper.rejects, hr] at hhigh
      cases hhigh
  · refine ⟨q, hq, hholds, ?_⟩
    rw [hq] at hhigh
    cases hupper : f.upper with
    | none => exact trivial
    | one =>
      rw [hupper] at hhigh
      exact not_lt.1 (of_decide_eq_false hhigh)
    | below g =>
      obtain ⟨r, hr⟩ := hbelow g hupper
      rw [hupper, Upper.rejects, hr] at hhigh
      exact ⟨r, hr, not_le.1 (of_decide_eq_false hhigh)⟩

/-- **What the check lets through is in its interval, field by field, but for what slips.** -/
theorem inInterval_iff (hc : ∀ f, rejectsReal c f = false) : (∀ f, InInterval c f) ↔ ∀ f, ¬ Slips f (c.real f) := by
  constructor
  · intro hall f hslip
    obtain ⟨q, hq, -⟩ := hall f
    rw [hq] at hslip
    rcases hslip with h | ⟨-, h⟩ <;> cases h
  · intro hall f
    refine inInterval_of_not_slips (hc f) (hall f) (fun g hg => ?_)
    have hone := upper_of_below hg
    obtain ⟨r, hr, -⟩ := inInterval_of_not_slips (hc g) (hall g) (fun g' hg' => by rw [hone] at hg'; cases hg')
    exact ⟨r, hr⟩

/-! ## What the file assigns -/

section Run

variable {stod : Text → Except String Double}

/-- A field after an assignment: what the text of one of its keys reads as, or what it was. -/
def Assigned (stod : Text → Except String Double) (text : Option Text) (before after : Double) : Prop :=
  match text with
  | some t => stod t = .ok after
  | none => after = before

theorem map_eq_ok {α β : Type} {x : Except String α} {f : α → β} {b : β} (h : x.map f = .ok b) : ∃ a, x = .ok a ∧ f a = b := by
  cases x with
  | error e => cases h
  | ok a => exact ⟨a, rfl, Except.ok.inj h⟩

theorem assign_real {c' : Config} {n : Nat} {key : String} {value : Text} (h : assign stod c n key value = .ok c')
    (f : RealField) :
    Assigned stod (if realKeys.lookup key = some f then some value else none) (c.real f) (c'.real f) := by
  have hother : realKeys.lookup key ≠ some f → c'.real f = c.real f →
      Assigned stod (if realKeys.lookup key = some f then some value else none) (c.real f) (c'.real f) := by
    intro hne hsame
    rw [if_neg hne]
    exact hsame
  unfold assign at h
  split at h
  · rename_i hkey
    refine hother (by rw [hkey]; exact fun h => nomatch h) ?_
    cases hmode : unquote value with
    | error e =>
      rw [hmode] at h
      cases h
    | ok mode =>
      rw [hmode] at h
      change (if _ then _ else _) = _ at h
      split at h
      · cases h
        rfl
      split at h
      · cases h
        rfl
      split at h
      · cases h
        rfl
      · cases h
  split at h
  · rename_i hkey
    refine hother (by rw [hkey]; exact fun h => nomatch h) ?_
    cases hcpus : unquote value with
    | error e =>
      rw [hcpus] at h
      cases h
    | ok cpus =>
      rw [hcpus] at h
      change (CpuList.parseCpuList cpus.toList >>= _) = _ at h
      cases hparse : CpuList.parseCpuList cpus.toList with
      | error e =>
        rw [hparse] at h
        cases h
      | ok v =>
        rw [hparse] at h
        cases h
        rfl
  cases hreal : realKeys.lookup key with
  | some g =>
    rw [hreal] at h
    obtain ⟨x, hx, rfl⟩ := map_eq_ok h
    show Assigned stod _ (c.real f) (if f = g then x else c.real f)
    by_cases hf : g = f
    · rw [if_pos (congrArg some hf), if_pos hf.symm]
      exact hx
    · rw [if_neg (fun he => hf (Option.some.inj he)), if_neg (fun he => hf he.symm)]
      rfl
  | none =>
    rw [hreal] at h
    rw [if_neg (fun he => nomatch he)]
    split at h
    · rename_i heq
      cases heq
    · obtain ⟨n, -, rfl⟩ := map_eq_ok h
      rfl
    · obtain ⟨s, -, rfl⟩ := map_eq_ok h
      rfl
    · obtain ⟨b, -, rfl⟩ := map_eq_ok h
      rfl
    · cases h

/-- **After the lines of a file** a field is what its last text reads as. -/
theorem real_of_lines (f : RealField) : ∀ {lines : List Text} {s s' : State}, lines.foldlM (readLine stod) s = .ok s' →
    Assigned stod (lastText f s.sect lines) (s.config.real f) (s'.config.real f)
  | [], s, s', h => by
    cases h
    rfl
  | line :: lines, s, s', h => by
    rw [List.foldlM_cons] at h
    cases hline : readLine stod s line with
    | error e =>
      rw [hline] at h
      cases h
    | ok s₁ =>
      rw [hline] at h
      have hrest := real_of_lines f h
      unfold readLine at hline
      dsimp only at hline
      unfold lastText
      cases hof : lineOf line with
      | blank =>
        rw [hof] at hline
        cases hline
        exact hrest
      | header name =>
        rw [hof] at hline
        dsimp only at hline
        split at hline
        · cases hline
          exact hrest
        · cases hline
      | broken =>
        rw [hof] at hline
        cases hline
      | assignment key value =>
        rw [hof] at hline
        obtain ⟨c, hc, rfl⟩ := map_eq_ok hline
        have hone := assign_real hc f
        dsimp only at hrest ⊢
        cases hlast : lastText f s.sect lines with
        | some t =>
          rw [hlast] at hrest
          exact hrest
        | none =>
          rw [hlast] at hrest
          rw [Option.none_or]
          have hsame : s'.config.real f = c.real f := hrest
          rw [hsame]
          exact hone

/-- What an accepted file has gone through. -/
theorem of_loadConfig {host : Host} {path cpuOverride : String} (h : loadConfig stod host path cpuOverride = .ok c) :
    ∃ text s, host.read path = some text ∧ (CppText.lines '\n' text).foldlM (readLine stod) {} = .ok s ∧
      c.real = s.config.real ∧ outsideRange c = false := by
  unfold loadConfig at h
  cases hread : host.read path with
  | none =>
    rw [hread] at h
    cases h
  | some text =>
    rw [hread] at h
    dsimp only at h
    cases hlines : (CppText.lines '\n' text).foldlM (readLine stod) ({} : State) with
    | error e =>
      rw [hlines] at h
      cases h
    | ok s =>
      rw [hlines] at h
      change (envelope host cpuOverride s >>= _) = _ at h
      cases hcpus : envelope host cpuOverride s with
      | error e =>
        rw [hcpus] at h
        cases h
      | ok cpus =>
        rw [hcpus] at h
        change (if _ then _ else if _ then _ else _) = _ at h
        split at h
        · cases h
        split at h
        · cases h
        rename_i hrange
        cases h
        refine ⟨text, s, rfl, hlines, ?_, Bool.eq_false_iff.2 hrange⟩
        unfold withProfile
        split <;> rfl

/-- The text a file assigns to a field last. -/
def assignedText (host : Host) (path : String) (f : RealField) : Option Text :=
  (host.read path).bind (fun text => lastText f [] (CppText.lines '\n' text))

/-- **The gate.**  In what `load_config` accepts every real-valued field is an ordinary number in its interval, exactly when no
field was last assigned a text that reads as a NaN, or as an infinity where the field has no upper bound. -/
theorem gate_iff {host : Host} {path cpuOverride : String} (h : loadConfig stod host path cpuOverride = .ok c) :
    (∀ f, InInterval c f) ↔ ∀ f t x, assignedText host path f = some t → stod t = .ok x → ¬ Slips f x := by
  obtain ⟨text, s, hread, hlines, hreal, hrange⟩ := of_loadConfig h
  have hchecked : ∀ f, rejectsReal c f = false := by
    intro f
    obtain ⟨e, he, rfl⟩ := mem_realKeys f
    unfold outsideRange at hrange
    rw [Bool.or_eq_false_iff, Bool.or_eq_false_iff, List.any_eq_false] at hrange
    exact Bool.eq_false_iff.2 (hrange.1.1 e he)
  have hvalue : ∀ f, Assigned stod (assignedText host path f) (.finite f.initial) (c.real f) := by
    intro f
    have hrun := real_of_lines f hlines
    unfold assignedText
    rw [hread, hreal]
    exact hrun
  rw [inInterval_iff hchecked]
  refine forall_congr' (fun f => ?_)
  have hf := hvalue f
  cases htext : assignedText host path f with
  | none =>
    rw [htext] at hf
    have hdefault : c.real f = .finite f.initial := hf
    refine iff_of_true ?_ (fun t x ht => nomatch ht)
    rw [hdefault]
    rintro (hnan | ⟨-, hinf⟩)
    · cases hnan
    · cases hinf
  | some t =>
    rw [htext] at hf
    have hread : stod t = .ok (c.real f) := hf
    constructor
    · rintro hno t' x ht' hx
      cases ht'
      rw [hread] at hx
      cases hx
      exact hno
    · exact fun hno => hno t (c.real f) rfl hread

end Run

/-! ### A file with a NaN -/

/-- A host with one CPU and one configuration file. -/
def hostOf (file : String) : Host where
  read := fun _ => some file.toList
  env := fun _ => none
  allowedCpus := .ok [0]

/-- `std::stod` on `nan` and `inf`, and on digits. -/
def stodSpecial (t : Text) : Except String Double :=
  if t = "nan".toList then .ok .nan
  else if t = "inf".toList then .ok .posInf
  else if CppText.Digits t then .ok (.finite (CppText.value t))
  else .error "stod"

def nanFile : String := "[runtime]\nhotspot_edge_quantile = nan\ndomain_merge_ratio = inf # no bound\n"

theorem load_nanFile : ∃ c, loadConfig stodSpecial (hostOf nanFile) "affinitygraph.toml" "" = .ok c ∧
    c.real .hotspotEdgeQuantile = .nan ∧ c.real .domainMergeRatio = .posInf := by
  have h : (loadConfig stodSpecial (hostOf nanFile) "affinitygraph.toml" "").toOption.any (fun c =>
      decide (c.real .hotspotEdgeQuantile = .nan ∧ c.real .domainMergeRatio = .posInf)) = true := by decide +kernel
  obtain ⟨c, hc, h⟩ := (Option.any_eq_true _ _).1 h
  exact ⟨c, toOption_eq_some hc, of_decide_eq_true h⟩

theorem nanFile_slips : ∃ f t x, assignedText (hostOf nanFile) "affinitygraph.toml" f = some t ∧
    stodSpecial t = .ok x ∧ Slips f x := by
  obtain ⟨c, hc, hnan, -⟩ := load_nanFile
  by_contra hno
  have hall := (gate_iff hc).2 (fun f t x ht hx hslips => hno ⟨f, t, x, ht, hx, hslips⟩)
  obtain ⟨q, hq, -⟩ := hall .hotspotEdgeQuantile
  rw [hnan] at hq
  cases hq

/-- **A NaN passes the gate**, and an infinity where there is no upper bound. -/
theorem nan_passes : ∃ c, loadConfig stodSpecial (hostOf nanFile) "affinitygraph.toml" "" = .ok c ∧
    c.real .hotspotEdgeQuantile = .nan ∧ c.real .domainMergeRatio = .posInf ∧ ¬ ∀ f, InInterval c f := by
  obtain ⟨c, hc, hnan, hinf⟩ := load_nanFile
  refine ⟨c, hc, hnan, hinf, fun hall => ?_⟩
  obtain ⟨q, hq, -⟩ := hall .hotspotEdgeQuantile
  rw [hnan] at hq
  cases hq

end LoadConfig
end AffinityGraph
