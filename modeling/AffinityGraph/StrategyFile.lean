import AffinityGraph.CpuList
import AffinityGraph.ReplaySequence
import AffinityGraph.Streams
/-!
# StrategyFile — the strategy that a replay is given (`affinity_replay.cpp`)

`read_strategy` takes a file of assignments, each key at most once, and checks the values at the end.  An assignment is read
the same wherever it stands, so the lines of a file may be written in any order (`readStrategy_perm`).  Two keys that set one
field are the exception: the later of the two wins.
-/
namespace AffinityGraph
namespace StrategyFile

open CppText (Text Double lines stoi stoull)
open CpuList (trim)

/-! ## The fields -/

inductive RealField where
  | maximumMigratedActiveThreadsRatio | activeThreshold | inactiveThreshold | minimumConfidence | demandFloor
  | countPenalty | lowDemandSpread | sameCpuContentionPenalty | groupSpreadPenalty | initialNodeThreadSlackRatio
  | hotspotEdgeQuantile | hotspotComponentBoost | managedThreadHysteresisRatio | hotspotReplanGrowthRatio
  | hotspotStabilityThreshold
  deriving DecidableEq

def RealField.initial : RealField → ℚ
  | maximumMigratedActiveThreadsRatio => 1 / 4
  | activeThreshold => 1 / 20
  | inactiveThreshold => 0
  | minimumConfidence => 4 / 5
  | demandFloor => 0
  | countPenalty => 0
  | lowDemandSpread => 0
  | sameCpuContentionPenalty => 0
  | groupSpreadPenalty => 0
  | initialNodeThreadSlackRatio => 1 / 2
  | hotspotEdgeQuantile => 19 / 20
  | hotspotComponentBoost => 4
  | managedThreadHysteresisRatio => 1
  | hotspotReplanGrowthRatio => 1 / 4
  | hotspotStabilityThreshold => 13 / 20

inductive IntField where
  | maxThreadsPerCpu | slotSlack | fmPasses | lptRefinementPasses | hotspotEdgesPerThread | maximumManagedThreads
  | hotspotReplanMinThreads | hotspotStabilityConfirmations
  deriving DecidableEq

def IntField.initial : IntField → Int
  | maxThreadsPerCpu => -1
  | slotSlack => 2
  | fmPasses => 4
  | lptRefinementPasses => 0
  | hotspotEdgesPerThread => 4
  | maximumManagedThreads => 32
  | hotspotReplanMinThreads => 8
  | hotspotStabilityConfirmations => 3

/-- What a key sets. -/
inductive Slot where
  | schema
  | id
  | tieBreakPolicy
  | seed
  | real (f : RealField)
  | int (f : IntField)
  deriving DecidableEq

def keys : List (String × Slot) :=
  [("schema", .schema), ("id", .id), ("demand_floor", .real .demandFloor), ("max_threads_per_cpu", .int .maxThreadsPerCpu),
    ("slot_slack", .int .slotSlack), ("count_penalty", .real .countPenalty), ("low_demand_spread", .real .lowDemandSpread),
    ("same_cpu_contention_penalty", .real .sameCpuContentionPenalty),
    ("group_spread_penalty", .real .groupSpreadPenalty), ("tie_break_policy", .tieBreakPolicy),
    ("fm_passes", .int .fmPasses), ("initial_node_thread_slack_ratio", .real .initialNodeThreadSlackRatio),
    ("lpt_refinement_passes", .int .lptRefinementPasses), ("hotspot_edges_per_thread", .int .hotspotEdgesPerThread),
    ("hotspot_edge_quantile", .real .hotspotEdgeQuantile), ("hotspot_component_boost", .real .hotspotComponentBoost),
    ("maximum_managed_threads", .int .maximumManagedThreads),
    ("managed_thread_hysteresis_ratio", .real .managedThreadHysteresisRatio),
    ("hotspot_replan_growth_ratio", .real .hotspotReplanGrowthRatio),
    ("hotspot_replan_min_threads", .int .hotspotReplanMinThreads),
    ("hotspot_stability_threshold", .real .hotspotStabilityThreshold),
    ("hotspot_stability_confirmations", .int .hotspotStabilityConfirmations), ("seed", .seed),
    ("maximum_migrated_active_threads_ratio", .real .maximumMigratedActiveThreadsRatio),
    ("maximum_migrated_threads_ratio", .real .maximumMigratedActiveThreadsRatio),
    ("active_threshold", .real .activeThreshold), ("inactive_threshold", .real .inactiveThreshold),
    ("minimum_confidence", .real .minimumConfidence)]

/-- `SolveOptions`. -/
structure Options where
  strategyId : String := "legacy-v1"
  threadCountTieBreak : Bool := false
  seed : Nat := 0
  real : RealField → Double := fun f => .finite f.initial
  int : IntField → Int := IntField.initial

/-- A value as its key reads it. -/
inductive Update where
  | schema
  | id (s : String)
  | tieBreakPolicy (threadCount : Bool)
  | seed (n : Nat)
  | real (f : RealField) (x : Double)
  | int (f : IntField) (n : Int)

def Update.slot : Update → Slot
  | schema => .schema
  | id _ => .id
  | tieBreakPolicy _ => .tieBreakPolicy
  | seed _ => .seed
  | real f _ => .real f
  | int f _ => .int f

def Update.apply (o : Options) : Update → Options
  | schema => o
  | id s => { o with strategyId := s }
  | tieBreakPolicy b => { o with threadCountTieBreak := b }
  | seed n => { o with seed := n }
  | real f x => { o with real := Function.update o.real f x }
  | int f n => { o with int := Function.update o.int f n }

/-! ## Reading -/

/-- The quotes go when there are two. -/
def unquote (value : Text) : Text :=
  let value := trim value
  if 2 ≤ value.length ∧ value.head? = some '"' ∧ value.getLast? = some '"' then (value.drop 1).dropLast else value

/-- The key and the value of a line, when it has some. -/
def assignment (line : Text) : Except String (Option (String × Text)) :=
  let line := trim (line.takeWhile (fun c => decide (c ≠ '#')))
  if line = [] ∨ line.head? = some '[' then .ok none
  else
    match line.dropWhile (fun c => decide (c ≠ '=')) with
    | [] => .error ("invalid strategy line: " ++ String.ofList line)
    | _ :: value => .ok (some (String.ofList (trim (line.takeWhile (fun c => decide (c ≠ '=')))), trim value))

structure State where
  options : Options := {}
  seen : OrdSet String := ∅

section Read

variable (stod : Text → Except String Double)

def convert (slot : Slot) (value : Text) : Except String Update :=
  match slot with
  | .schema =>
    if unquote value = "affinitygraph.strategy.v1".toList then .ok .schema else .error "unsupported strategy schema"
  | .id => .ok (.id (String.ofList (unquote value)))
  | .tieBreakPolicy => .ok (.tieBreakPolicy (decide (unquote value = "thread_count".toList)))
  | .seed => (stoull value).map .seed
  | .real f => (stod value).map (.real f)
  | .int f => (stoi value).map (.int f)

/-- The body of the loop over the lines. -/
def readLine (s : State) (line : Text) : Except String State :=
  match assignment line with
  | .error e => .error e
  | .ok none => .ok s
  | .ok (some (key, value)) =>
    if key ∈ s.seen then .error ("duplicate strategy key: " ++ key)
    else match keys.lookup key with
      | none => .error ("unapproved strategy key: " ++ key)
      | some slot =>
        (convert stod slot value).map (fun u => { options := u.apply s.options, seen := s.seen.add key })

end Read

/-- The disjunction of the last check. -/
def outsideRange (o : Options) : Bool :=
  (o.real .demandFloor).lt (.finite 0) || Double.lt (.finite 1) (o.real .demandFloor) ||
  decide (o.int .maxThreadsPerCpu < -1) || decide (o.int .slotSlack < 0) ||
  (o.real .maximumMigratedActiveThreadsRatio).lt (.finite 0) ||
  Double.lt (.finite 1) (o.real .maximumMigratedActiveThreadsRatio) || decide (o.int .fmPasses < 0) ||
  (o.real .minimumConfidence).lt (.finite 0) || Double.lt (.finite 1) (o.real .minimumConfidence) ||
  (o.real .inactiveThreshold).lt (.finite 0) || (o.real .activeThreshold).lt (o.real .inactiveThreshold) ||
  (o.real .initialNodeThreadSlackRatio).lt (.finite 0) || Double.lt (.finite 1) (o.real .initialNodeThreadSlackRatio) ||
  decide (o.int .hotspotEdgesPerThread < 1) || (o.real .hotspotEdgeQuantile).lt (.finite 0) ||
  Double.lt (.finite 1) (o.real .hotspotEdgeQuantile) || (o.real .hotspotComponentBoost).lt (.finite 0) ||
  decide (o.int .maximumManagedThreads < 0) || (o.real .managedThreadHysteresisRatio).lt (.finite 0) ||
  (o.real .hotspotReplanGrowthRatio).lt (.finite 0) || Double.lt (.finite 1) (o.real .hotspotReplanGrowthRatio) ||
  decide (o.int .hotspotReplanMinThreads < 1) || (o.real .hotspotStabilityThreshold).lt (.finite 0) ||
  Double.lt (.finite 1) (o.real .hotspotStabilityThreshold) || decide (o.int .hotspotStabilityConfirmations < 1)

def finish (s : State) : Except String Options :=
  if s.options.strategyId = "" then .error "strategy id is required"
  else if outsideRange s.options then .error "strategy value outside approved range"
  else .ok s.options

/-- `read_strategy` on what the file holds. -/
def readStrategy (stod : Text → Except String Double) (file : Text) : Except String Options :=
  ((lines '\n' file).foldlM (readLine stod) {}).bind finish

/-! ## Lines in any order -/

section Order

variable {stod : Text → Except String Double} {k l : String} {a b x y : Text} {u v : Update} {s : State}

theorem Update.apply_comm (h : u.slot ≠ v.slot) (o : Options) : v.apply (u.apply o) = u.apply (v.apply o) := by
  cases u with
  | schema => rfl
  | id t =>
    cases v with
    | id t' => exact absurd rfl h
    | _ => rfl
  | tieBreakPolicy t =>
    cases v with
    | tieBreakPolicy t' => exact absurd rfl h
    | _ => rfl
  | seed n =>
    cases v with
    | seed n' => exact absurd rfl h
    | _ => rfl
  | real f r =>
    cases v with
    | real g r' =>
      have hne : f ≠ g := fun heq => h (congrArg Slot.real heq)
      exact congrArg (fun real => { o with real := real }) (Function.update_comm hne r r' o.real)
    | _ => rfl
  | int f n =>
    cases v with
    | int g n' =>
      have hne : f ≠ g := fun heq => h (congrArg Slot.int heq)
      exact congrArg (fun int => { o with int := int }) (Function.update_comm hne n n' o.int)
    | _ => rfl

theorem exists_of_map {α : Type} {read : Except String α} {f : α → Update} (h : (read.map f).toOption = some u) :
    ∃ n, u = f n := by
  cases read with
  | error e => cases h
  | ok n => exact ⟨n, (Option.some.inj h).symm⟩

theorem slot_of_convert {slot : Slot} (h : (convert stod slot x).toOption = some u) : u.slot = slot := by
  cases slot with
  | schema =>
    unfold convert at h
    dsimp only at h
    split at h
    · cases h
      rfl
    · cases h
  | id =>
    cases h
    rfl
  | tieBreakPolicy =>
    cases h
    rfl
  | seed =>
    obtain ⟨n, rfl⟩ := exists_of_map h
    rfl
  | real f =>
    obtain ⟨r, rfl⟩ := exists_of_map h
    rfl
  | int f =>
    obtain ⟨n, rfl⟩ := exists_of_map h
    rfl

/-- The keys of the migration ratio. -/
def ratioKeys : List String := ["maximum_migrated_active_threads_ratio", "maximum_migrated_threads_ratio"]

theorem mem_of_lookup {p : Slot} : ∀ {table : List (String × Slot)}, table.lookup k = some p → (k, p) ∈ table
  | (key, q) :: table, h => by
    rw [List.lookup_cons] at h
    split at h
    · rename_i heq
      cases h
      rw [eq_of_beq heq]
      exact List.mem_cons_self
    · exact List.mem_cons_of_mem _ (mem_of_lookup h)

/-- Two keys set two fields, but for those of the migration ratio. -/
theorem slots_ne {p q : Slot} (hk : keys.lookup k = some p) (hl : keys.lookup l = some q) (hne : k ≠ l)
    (halias : ¬ (k ∈ ratioKeys ∧ l ∈ ratioKeys)) : p ≠ q := by
  have htable : ∀ e ∈ keys, ∀ f ∈ keys, e.1 ≠ f.1 → ¬ (e.1 ∈ ratioKeys ∧ f.1 ∈ ratioKeys) → e.2 ≠ f.2 := by
    decide +kernel
  exact htable _ (mem_of_lookup hk) _ (mem_of_lookup hl) hne halias

/-- What a key makes of a value. -/
def updateOf (stod : Text → Except String Double) (key : String) (value : Text) : Option Update :=
  (keys.lookup key).bind (fun slot => (convert stod slot value).toOption)

def State.taken (s : State) (key : String) (u : Update) : State where
  options := u.apply s.options
  seen := s.seen.add key

/-- What an assignment does, when it is taken. -/
def assigned (stod : Text → Except String Double) (s : State) (key : String) (value : Text) : Option State :=
  if key ∈ s.seen then none else (updateOf stod key value).map (s.taken key)

/-- A line that assigns a value to a key. -/
def Assigns (line : Text) (key : String) (value : Text) : Prop := assignment line = .ok (some (key, value))

theorem readLine_assigns (h : Assigns a k x) : (readLine stod s a).toOption = assigned stod s k x := by
  unfold readLine assigned updateOf
  rw [h]
  dsimp only
  split
  · rfl
  · cases keys.lookup k with
    | none => rfl
    | some slot =>
      dsimp only
      rw [Option.bind_some]
      cases convert stod slot x <;> rfl

theorem add_comm (seen : OrdSet String) (k l : String) : (seen.add k).add l = (seen.add l).add k :=
  OrdSet.ext_mem (fun j => by simp only [OrdSet.mem_add]; tauto)

theorem slot_of_updateOf (h : updateOf stod k x = some u) : keys.lookup k = some u.slot := by
  obtain ⟨slot, hslot, hconvert⟩ := Option.bind_eq_some_iff.1 h
  rw [hslot, slot_of_convert hconvert]

theorem taken_comm (h : u.slot ≠ v.slot) (s : State) : (s.taken k u).taken l v = (s.taken l v).taken k u := by
  unfold State.taken
  rw [Update.apply_comm h, add_comm]

theorem assigned_comm (halias : k ≠ l → ¬ (k ∈ ratioKeys ∧ l ∈ ratioKeys)) (s : State) :
    (assigned stod s k x).bind (fun s => assigned stod s l y) =
      (assigned stod s l y).bind (fun s => assigned stod s k x) := by
  unfold assigned
  cases hu : updateOf stod k x with
  | none => simp
  | some u =>
    cases hv : updateOf stod l y with
    | none => simp
    | some v =>
      have hseen : ∀ {j j' : String} {w : Update}, j' ∈ (s.taken j w).seen ↔ j = j' ∨ j' ∈ s.seen := OrdSet.mem_add
      by_cases hkl : k = l
      · -- The second of two equal keys is refused.
        subst hkl
        by_cases hk : k ∈ s.seen
        · simp [hk]
        · simp [hk, hseen]
      have hslots := slots_ne (slot_of_updateOf hu) (slot_of_updateOf hv) hkl (halias hkl)
      by_cases hk : k ∈ s.seen
      · by_cases hl : l ∈ s.seen
        · simp [hk, hl]
        · simp [hk, hl, hseen]
      · by_cases hl : l ∈ s.seen
        · simp [hk, hl, hseen]
        · simp [hk, hl, hseen, hkl, Ne.symm hkl, taken_comm hslots]

theorem readLine_comm (h : ∀ k x l y, Assigns a k x → Assigns b l y → k ≠ l → ¬ (k ∈ ratioKeys ∧ l ∈ ratioKeys))
    (s : State) :
    (readLine stod s a).toOption.bind (fun s => (readLine stod s b).toOption) =
      (readLine stod s b).toOption.bind (fun s => (readLine stod s a).toOption) := by
  have herror : ∀ {line : Text} {e : String}, assignment line = .error e → ∀ s, (readLine stod s line).toOption = none :=
    fun he s => by
      unfold readLine
      rw [he]
      rfl
  have hblank : ∀ {line : Text}, assignment line = .ok none → ∀ s, (readLine stod s line).toOption = some s :=
    fun hnone s => by
      unfold readLine
      rw [hnone]
      rfl
  cases ha : assignment a with
  | error e => simp [herror ha]
  | ok first =>
    cases hb : assignment b with
    | error e => simp [herror hb]
    | ok second =>
      cases first with
      | none => simp [hblank ha]
      | some first =>
        cases second with
        | none => simp [hblank hb]
        | some second =>
          have hfirst : ∀ s, (readLine stod s a).toOption = assigned stod s first.1 first.2 :=
            fun _ => readLine_assigns ha
          have hsecond : ∀ s, (readLine stod s b).toOption = assigned stod s second.1 second.2 :=
            fun _ => readLine_assigns hb
          simp only [hfirst, hsecond]
          exact assigned_comm (h _ _ _ _ ha hb) s

/-- The loop, with what it refuses left out. -/
theorem toOption_foldlM (l : List Text) (s : Option State) :
    s.bind (fun s => (l.foldlM (readLine stod) s).toOption) =
      l.foldl (fun s line => s.bind (fun s => (readLine stod s line).toOption)) s := by
  induction l generalizing s with
  | nil => cases s <;> rfl
  | cons line l ih =>
    rw [List.foldl_cons, ← ih]
    cases s with
    | none => rfl
    | some s =>
      rw [Option.bind_some, Option.bind_some, List.foldlM_cons]
      cases readLine stod s line <;> rfl

/-- The key that a line assigns to. -/
def keyOf (line : Text) : Option String := (assignment line).toOption.join.map Prod.fst

def HasKey (file : Text) (key : String) : Prop := ∃ line ∈ lines '\n' file, keyOf line = some key

instance (file : Text) (key : String) : Decidable (HasKey file key) := List.decidableBEx _ _

theorem Assigns.keyOf (h : Assigns a k x) : keyOf a = some k := by
  unfold StrategyFile.keyOf
  rw [h]
  rfl

/-- **The lines of a strategy may stand in any order**, unless both keys of the migration ratio are assigned to. -/
theorem readStrategy_perm {file file' : Text} (hperm : (lines '\n' file).Perm (lines '\n' file'))
    (hratio : ¬ (HasKey file "maximum_migrated_active_threads_ratio" ∧ HasKey file "maximum_migrated_threads_ratio")) :
    (readStrategy stod file).toOption = (readStrategy stod file').toOption := by
  have hfinish : ∀ file : Text, (readStrategy stod file).toOption =
      ((some ({} : State)).bind (fun s => ((lines '\n' file).foldlM (readLine stod) s).toOption)).bind
        (fun s => (finish s).toOption) := by
    intro file
    unfold readStrategy
    rw [Option.bind_some]
    cases (lines '\n' file).foldlM (readLine stod) {} <;> rfl
  have hkeys : ∀ a ∈ lines '\n' file, ∀ b ∈ lines '\n' file, ∀ k x l y, Assigns a k x → Assigns b l y → k ≠ l →
      ¬ (k ∈ ratioKeys ∧ l ∈ ratioKeys) := by
    rintro a ha b hb k x l y hak hbl hne ⟨hk, hl⟩
    simp only [ratioKeys, List.mem_cons, List.not_mem_nil, or_false] at hk hl
    rcases hk with rfl | rfl <;> rcases hl with rfl | rfl
    · exact hne rfl
    · exact hratio ⟨⟨a, ha, hak.keyOf⟩, b, hb, hbl.keyOf⟩
    · exact hratio ⟨⟨b, hb, hbl.keyOf⟩, a, ha, hak.keyOf⟩
    · exact hne rfl
  rw [hfinish, hfinish, toOption_foldlM, toOption_foldlM, hperm.foldl_eq' (fun a ha b hb s => ?_)]
  cases s with
  | none => rfl
  | some s => exact readLine_comm (hkeys a ha b hb) s

end Order

/-! ## Two files -/

/-- The two numbers that the files have. -/
def stodRatios (t : Text) : Except String Double :=
  if t = "0.5".toList then .ok (.finite (1 / 2)) else if t = "0.25".toList then .ok (.finite (1 / 4)) else .error "stod"

def strategyFile (parts : List String) : Text := CppText.ended '\n' (parts.map String.toList)

def tried : Text := strategyFile ["[strategy]", "id = \"a\" # tried", "fm_passes = 8", "demand_floor = 0.5"]

def triedAgain : Text := strategyFile ["demand_floor = 0.5", "fm_passes = 8", "[strategy]", "id = \"a\" # tried"]

/-- Two orders of one strategy. -/
theorem readStrategy_perm_tried :
    (readStrategy stodRatios tried).toOption = (readStrategy stodRatios triedAgain).toOption ∧
      (readStrategy stodRatios tried).toOption.any (fun o =>
        decide (o.real .demandFloor = .finite (1 / 2)) && decide (o.int .fmPasses = 8)) = true :=
  ⟨readStrategy_perm (by decide +kernel) (by decide +kernel), by decide +kernel⟩

/-- The later of the two keys of the ratio wins. -/
example : ((readStrategy stodRatios (strategyFile ["maximum_migrated_threads_ratio = 0.5",
      "maximum_migrated_active_threads_ratio = 0.25"])).toOption.map (·.real .maximumMigratedActiveThreadsRatio)) =
        some (.finite (1 / 4)) ∧
    ((readStrategy stodRatios (strategyFile ["maximum_migrated_active_threads_ratio = 0.25",
      "maximum_migrated_threads_ratio = 0.5"])).toOption.map (·.real .maximumMigratedActiveThreadsRatio)) =
        some (.finite (1 / 2)) := by decide +kernel

/-! ## The strategy of a sequence -/

/-- The options as a sequence has them, when these are its numbers. -/
def Options.strategy (o : Options) (x : RealField → ℚ) : ReplaySequence.Strategy where
  maximumMigratedActiveThreadsRatio := x .maximumMigratedActiveThreadsRatio
  activeThreshold := x .activeThreshold
  strategyId := o.strategyId
  demandFloor := x .demandFloor
  maxThreadsPerCpu := o.int .maxThreadsPerCpu
  slotSlack := o.int .slotSlack
  countPenalty := x .countPenalty
  lowDemandSpread := x .lowDemandSpread
  sameCpuContentionPenalty := x .sameCpuContentionPenalty
  groupSpreadPenalty := x .groupSpreadPenalty
  threadCountTieBreak := o.threadCountTieBreak
  fmPasses := o.int .fmPasses
  lptRefinementPasses := o.int .lptRefinementPasses
  inactiveThreshold := x .inactiveThreshold
  minimumConfidence := x .minimumConfidence
  initialNodeThreadSlackRatio := x .initialNodeThreadSlackRatio
  hotspotEdgesPerThread := (o.int .hotspotEdgesPerThread).toNat
  hotspotEdgeQuantile := x .hotspotEdgeQuantile
  hotspotComponentBoost := x .hotspotComponentBoost
  maximumManagedThreads := o.int .maximumManagedThreads
  managedThreadHysteresisRatio := x .managedThreadHysteresisRatio
  hotspotReplanGrowthRatio := x .hotspotReplanGrowthRatio
  hotspotReplanMinThreads := (o.int .hotspotReplanMinThreads).toNat
  hotspotStabilityThreshold := x .hotspotStabilityThreshold
  hotspotStabilityConfirmations := o.int .hotspotStabilityConfirmations

/-- **A strategy that is taken has its thresholds in order**, as a sequence needs them, when they are numbers. -/
theorem inactive_le_active {stod : Text → Except String Double} {file : Text} {o : Options} {x : RealField → ℚ}
    (h : readStrategy stod file = .ok o) (hx : ∀ f, o.real f = .finite (x f)) :
    (o.strategy x).inactiveThreshold ≤ (o.strategy x).activeThreshold := by
  obtain ⟨s, -, hfinish⟩ := CppText.bind_eq_ok.1 h
  unfold finish at hfinish
  split at hfinish
  · cases hfinish
  split at hfinish
  · cases hfinish
  rename_i hinside
  cases hfinish
  rw [Bool.not_eq_true] at hinside
  have hthresholds : (s.options.real .activeThreshold).lt (s.options.real .inactiveThreshold) = false := by
    unfold outsideRange at hinside
    simp only [Bool.or_eq_false_iff] at hinside
    tauto
  rw [hx, hx] at hthresholds
  exact not_lt.1 (of_decide_eq_false hthresholds)

end StrategyFile
end AffinityGraph
