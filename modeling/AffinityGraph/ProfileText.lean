import AffinityGraph.CpuList
import AffinityGraph.Profile
/-!
# ProfileText — the text of a thread profile, as `load_thread_profile` reads it

The reader is a scanner.  A field is the first place of a text that has its quoted key, a colon and a value of the right
form; a container is what stands between the first bracket after the first quoted key and the bracket that closes it.  What
has been read of a rule is a `RuleNode`; a `ThreadProfileRule` is what the check lets through (`checkRule_ok`).
-/
namespace AffinityGraph
namespace ProfileText

open CppText (Text isSpace)

/-! ## Fields -/

/-- `std::regex_search`: the first place where an expression matches. -/
def search {α : Type} (m : Text → Option α) : Text → Option α
  | [] => m []
  | c :: t => (m (c :: t)).or (search m t)

def quoted (key : String) : Text := '"' :: key.toList ++ ['"']

/-- `"key"\s*:\s*`: what follows it. -/
def afterKey (key : String) (t : Text) : Option Text :=
  ((quoted key).isPrefixOf? t).bind (fun r =>
    match r.dropWhile isSpace with
    | ':' :: v => some (v.dropWhile isSpace)
    | _ => none)

def field {α : Type} (key : String) (value : Text → Option α) (text : Text) : Option α :=
  search (fun t => (afterKey key t).bind value) text

/-- `null|"([^"]*)"`. -/
def stringValue (t : Text) : Option (Option Text) :=
  if "null".toList.isPrefixOf t then some none
  else
    match t with
    | '"' :: s => if '"' ∈ s then some (some (s.takeWhile (fun c => decide (c ≠ '"')))) else none
    | _ => none

/-- `string_field`: a `null` is as good as no field. -/
def stringField (text : Text) (key : String) : Option Text := (field key stringValue text).join

/-- `string_field(..).value_or("")`. -/
def stringOr (text : Text) (key : String) : Text := (stringField text key).getD []

/-- `[0-9]+`. -/
def digitsValue (t : Text) : Option Text :=
  if t.takeWhile Char.isDigit = [] then none else some (t.takeWhile Char.isDigit)

/-- `(?:\.[0-9]+)?`. -/
def fraction : Text → Text
  | '.' :: t => if t.takeWhile Char.isDigit = [] then [] else '.' :: t.takeWhile Char.isDigit
  | _ => []

/-- `[-+]?[0-9]+(?:\.[0-9]+)?`. -/
def numberValue (t : Text) : Option Text :=
  let (sign, rest) : Text × Text := match t with
    | '-' :: r => (['-'], r)
    | '+' :: r => (['+'], r)
    | _ => ([], t)
  (digitsValue rest).map (fun digits => sign ++ digits ++ fraction (rest.dropWhile Char.isDigit))

def boolValue (t : Text) : Option Bool :=
  if "true".toList.isPrefixOf t then some true
  else if "false".toList.isPrefixOf t then some false
  else none

def required {α : Type} (key : String) : Option α → Except String α
  | some a => .ok a
  | none => .error ("profile field missing: " ++ key)

def stoll (t : Text) : Except String Int :=
  match CppText.number t with
  | none => .error "stoll"
  | some n => if -2 ^ 63 ≤ n ∧ n < 2 ^ 63 then .ok n else .error "stoll"

/-- `number_field<int>`; the cast keeps the low 32 bits. -/
def intField (text : Text) (key : String) : Except String Int := do
  let number ← required key (field key numberValue text)
  let n ← stoll number
  .ok (n.bmod (2 ^ 32))

/-- `number_field<double>`; `stod` is what the library makes of a decimal number. -/
def doubleField (stod : Text → Except String ℚ) (text : Text) (key : String) : Except String ℚ := do
  let number ← required key (field key numberValue text)
  stod number

def boolField (text : Text) (key : String) : Except String Bool := required key (field key boolValue text)

/-! ## Containers -/

/-- A quote with a backslash before it does not count. -/
def toggles (prev : Option Char) (c : Char) : Bool := decide (c = '"') && decide (prev ≠ some '\\')

/-- The text up to the bracket that closes the first one, `depth` being open. -/
def untilClosed (opening closing : Char) (prev : Option Char) (inQuotes : Bool) (depth : Int) : Text → Option Text
  | [] => none
  | c :: t =>
    if (inQuotes ^^ toggles prev c) = true then
      (untilClosed opening closing (some c) true depth t).map (c :: ·)
    else
      let depth' := if c = opening then depth + 1 else depth
      if c = closing then
        if depth' - 1 = 0 then some []
        else (untilClosed opening closing (some c) false (depth' - 1) t).map (c :: ·)
      else (untilClosed opening closing (some c) false depth' t).map (c :: ·)

/-- `object_after`. -/
def objectAfter (text : Text) (key : String) (opening closing : Char) : Except String Text :=
  match search (fun t => if (quoted key).isPrefixOf t then some t else none) text with
  | none => .error ("profile field missing: " ++ key)
  | some marker =>
    match marker.dropWhile (fun c => decide (c ≠ opening)) with
    | [] => .error ("profile container invalid: " ++ key)
    | start =>
      match untilClosed opening closing (marker.takeWhile (fun c => decide (c ≠ opening))).getLast? false 0 start with
      | some body => .ok body.tail
      | none => .error ("profile container unterminated: " ++ key)

/-- The loop of `objects`, with what has been read since the last brace that opened at depth 0. -/
def objectsFrom (prev : Option Char) (inQuotes : Bool) (depth : Int) (node : Text) : Text → List Text
  | [] => []
  | c :: t =>
    if (inQuotes ^^ toggles prev c) = true then objectsFrom (some c) true depth (node ++ [c]) t
    else if c = '{' then
      objectsFrom (some c) false (depth + 1) (if depth = 0 then [c] else node ++ [c]) t
    else if c = '}' then
      if depth - 1 = 0 then (node ++ [c]) :: objectsFrom (some c) false (depth - 1) (node ++ [c]) t
      else objectsFrom (some c) false (depth - 1) (node ++ [c]) t
    else objectsFrom (some c) false depth (node ++ [c]) t

def objects (text : Text) : List Text := objectsFrom none false 0 [] text

/-! ## Rules -/

/-- What has been read of a rule, before `validate_rule`. -/
structure RuleNode where
  id : String
  criteria : ThreadProfileMatch
  allowedCpus : List Int
  affinities : List (List Int)
  dynamic : Bool

/-- One element of `placements`. -/
def readRule (node : Text) : Except String RuleNode := do
  let criteria ← objectAfter node "match" '{' '}'
  let tid ← match field "tid" digitsValue criteria with
    | some digits => (CppText.stoi digits).map some
    | none => .ok none
  let allowedCpus ← CpuList.parseCpuList (stringOr node "allowed_cpus")
  let dynamic ← boolField node "dynamic"
  let affinities ← objectAfter node "affinities" '[' ']'
  let masks ← (objects affinities).mapM (fun a => CpuList.parseCpuList (stringOr a "cpus"))
  .ok
    { id := String.ofList (stringOr node "id")
      criteria :=
        { comm := (stringField criteria "comm").map String.ofList
          commPrefix := (stringField criteria "comm_prefix").map String.ofList
          cgroup := (stringField criteria "cgroup").map String.ofList
          cgroupPrefix := (stringField criteria "cgroup_prefix").map String.ofList
          tid := tid }
      allowedCpus := allowedCpus
      affinities := masks
      dynamic := dynamic }

/-- `std::lower_bound` on the `count` elements from `first` on. -/
def lowerBound (l : List Int) (x : Int) : Nat → Nat → Nat → Nat
  | 0, first, _ => first
  | fuel + 1, first, count =>
    if count = 0 then first
    else if l.getD (first + count / 2) 0 < x then lowerBound l x fuel (first + count / 2 + 1) (count - (count / 2 + 1))
    else lowerBound l x fuel first (count / 2)

/-- `std::binary_search`. -/
def binarySearch (l : List Int) (x : Int) : Bool := (l[lowerBound l x l.length 0 l.length]?).any (fun y => !decide (x < y))

/-- `subset`. -/
def isSubset (left right : List Int) : Bool := left.all (binarySearch right)

def RuleNode.invalidMatch (node : RuleNode) : Bool :=
  (node.criteria.comm.isSome && node.criteria.commPrefix.isSome) ||
  (node.criteria.cgroup.isSome && node.criteria.cgroupPrefix.isSome) ||
  (node.criteria.comm.isNone && node.criteria.commPrefix.isNone && node.criteria.cgroup.isNone &&
    node.criteria.cgroupPrefix.isNone && node.criteria.tid.isNone)

/-- `validate_rule`: the rule, if there is nothing wrong with it. -/
def checkRule (node : RuleNode) (envelope : List Int) : Except String ThreadProfileRule :=
  if node.id = "" ∨ node.affinities = [] ∨ node.allowedCpus = [] then
    .error "profile rule requires id, allowed_cpus, and affinities"
  else if node.invalidMatch = true then .error ("profile rule has invalid match fields: " ++ node.id)
  else if isSubset node.allowedCpus envelope = false then
    .error ("profile allowed_cpus outside resource envelope: " ++ node.id)
  else if hsingle : node.affinities.length = 1 then
    let rule : ThreadProfileRule :=
      { id := node.id
        criteria := node.criteria
        allowedCpus := node.allowedCpus
        affinities := node.affinities
        dynamic := node.dynamic
        single := hsingle }
    if rule.cpus = [] ∨ isSubset rule.cpus node.allowedCpus = false then
      .error ("profile affinity is invalid: " ++ node.id)
    else .ok rule
  else .error ("profile rule must have exactly one affinity: " ++ node.id)

/-! ## The file -/

structure ProfileDynamic where
  enabled : Bool
  smallStepThreads : Int
  largeChangeRatio : ℚ
  largeStepThreads : Int
  cooldownSeconds : Int

/-- `ThreadProfile`, with everything a file says. -/
structure ProfileFile where
  schemaVersion : Int
  profileId : String
  generatedAt : String
  status : String
  sourceCommit : String
  experimentId : String
  testId : String
  description : String
  dynamic : ProfileDynamic
  placements : List ThreadProfileRule

/-- What the samples are matched against. -/
def ProfileFile.profile (file : ProfileFile) : ThreadProfile where
  dynamic := { enabled := file.dynamic.enabled }
  placements := file.placements

/-- The check of everything but the rules. -/
def ProfileFile.unsupported (file : ProfileFile) : Bool :=
  (decide (file.schemaVersion ≠ 1) && decide (file.schemaVersion ≠ 2)) || decide (file.profileId = "") ||
  decide (file.generatedAt = "") || (decide (file.status ≠ "candidate") && decide (file.status ≠ "tested")) ||
  decide (file.dynamic.smallStepThreads < 1) || decide (file.dynamic.largeStepThreads < file.dynamic.smallStepThreads) ||
  decide (file.dynamic.largeChangeRatio ≤ 0) || decide (1 < file.dynamic.largeChangeRatio) ||
  decide (file.dynamic.cooldownSeconds < 0)

/-- What is read before the rules. -/
def readHead (stod : Text → Except String ℚ) (root : Text) : Except String ProfileFile := do
  let schemaVersion ← intField root "schema_version"
  let source ← objectAfter root "source" '{' '}'
  let applicability ← objectAfter root "applicability" '{' '}'
  let dynamic ← objectAfter root "dynamic" '{' '}'
  let enabled ← boolField dynamic "enabled"
  let smallStepThreads ← intField dynamic "small_step_threads"
  let largeChangeRatio ← doubleField stod dynamic "large_change_ratio"
  let largeStepThreads ← intField dynamic "large_step_threads"
  let cooldownSeconds ← intField dynamic "cooldown_seconds"
  .ok
    { schemaVersion := schemaVersion
      profileId := String.ofList (stringOr root "profile_id")
      generatedAt := String.ofList (stringOr root "generated_at")
      status := String.ofList (stringOr root "status")
      sourceCommit := String.ofList (stringOr source "commit")
      experimentId := String.ofList (stringOr source "experiment_id")
      testId := String.ofList (stringOr source "test_id")
      description := String.ofList (stringOr applicability "description")
      dynamic :=
        { enabled := enabled
          smallStepThreads := smallStepThreads
          largeChangeRatio := largeChangeRatio
          largeStepThreads := largeStepThreads
          cooldownSeconds := cooldownSeconds }
      placements := [] }

/-- One turn of the loop over the rules: the ids seen and the rules taken. -/
def loadRule (envelope : List Int) (s : OrdSet String × List ThreadProfileRule) (node : Text) :
    Except String (OrdSet String × List ThreadProfileRule) := do
  let rule ← readRule node
  if rule.id ∈ s.1 then .error ("duplicate profile rule id: " ++ rule.id)
  else
    let valid ← checkRule rule envelope
    .ok (s.1.add rule.id, s.2 ++ [valid])

/-- `load_thread_profile`, on the text of the file. -/
def loadThreadProfile (stod : Text → Except String ℚ) (root : Text) (envelope : List Int) : Except String ProfileFile := do
  let head ← readHead stod root
  if head.unsupported = true then .error "thread profile has unsupported metadata"
  else
    let placements ← objectAfter root "placements" '[' ']'
    let (_, rules) ← (objects placements).foldlM (loadRule envelope) (∅, [])
    .ok { head with placements := rules }

/-! ## What has been loaded -/

/-- A loaded rule binds to some CPUs, all of them allowed, and allows only CPUs of the envelope. -/
structure Bounded (envelope : List Int) (rule : ThreadProfileRule) : Prop where
  cpus : rule.cpus ≠ []
  allowed : rule.cpus ⊆ rule.allowedCpus
  envelope : rule.allowedCpus ⊆ envelope

section Checked

variable {l left right envelope : List Int} {x : Int} {node : RuleNode} {rule : ThreadProfileRule}

/-- The search ends at the end of its range or at an element that is not smaller, sorted or not. -/
theorem lowerBound_stops : ∀ (fuel first count : Nat), count ≤ fuel →
    lowerBound l x fuel first count = first + count ∨ ¬ l.getD (lowerBound l x fuel first count) 0 < x
  | 0, first, count, h => Or.inl (by rw [lowerBound]; omega)
  | fuel + 1, first, count, h => by
    rw [lowerBound]
    split
    · rename_i hzero
      exact Or.inl (by omega)
    rename_i hcount
    split
    · rcases lowerBound_stops fuel (first + count / 2 + 1) (count - (count / 2 + 1)) (by omega) with hend | hstop
      · exact Or.inl (by rw [hend]; omega)
      · exact Or.inr hstop
    · rename_i hmid
      rcases lowerBound_stops fuel first (count / 2) (by omega) with hend | hstop
      · exact Or.inr (by rw [hend]; exact hmid)
      · exact Or.inr hstop

/-- What a binary search finds is there. -/
theorem mem_of_binarySearch (h : binarySearch l x = true) : x ∈ l := by
  unfold binarySearch at h
  obtain ⟨y, hy, hle⟩ : ∃ y, l[lowerBound l x l.length 0 l.length]? = some y ∧ (!decide (x < y)) = true := by
    cases hget : l[lowerBound l x l.length 0 l.length]? with
    | none =>
      rw [hget] at h
      cases h
    | some y =>
      rw [hget] at h
      exact ⟨y, rfl, h⟩
  have hsize : lowerBound l x l.length 0 l.length < l.length := (List.getElem?_eq_some_iff.1 hy).1
  rcases lowerBound_stops (l := l) (x := x) l.length 0 l.length (le_refl _) with hend | hstop
  · omega
  · rw [List.getD_eq_getElem?_getD, hy, Option.getD_some] at hstop
    have heq : y = x := by
      simp only [Bool.not_eq_true', decide_eq_false_iff_not] at hle
      omega
    rw [← heq]
    exact List.mem_of_getElem? hy

theorem subset_of_isSubset (h : isSubset left right = true) : left ⊆ right :=
  fun _ hx => mem_of_binarySearch (List.all_eq_true.1 h _ hx)

/-- **A rule that passes the check is bounded.** -/
theorem checkRule_ok (h : checkRule node envelope = .ok rule) : rule.id = node.id ∧ Bounded envelope rule := by
  unfold checkRule at h
  split at h
  · cases h
  split at h
  · cases h
  split at h
  · cases h
  rename_i henvelope
  split at h
  · dsimp only at h
    split at h
    · cases h
    rename_i hvalid
    cases h
    rw [not_or, Bool.not_eq_false] at hvalid
    rw [Bool.not_eq_false] at henvelope
    exact ⟨rfl, hvalid.1, subset_of_isSubset hvalid.2, subset_of_isSubset henvelope⟩
  · cases h

/-! ### The check of a rule that has been read -/

/-- What is read of a rule, for a rule. -/
def nodeOf (rule : ThreadProfileRule) : RuleNode where
  id := rule.id
  criteria := rule.criteria
  allowedCpus := rule.allowedCpus
  affinities := rule.affinities
  dynamic := rule.dynamic

theorem getD_eq {i : Nat} (hi : i < l.length) : l.getD i 0 = l[i] := by
  rw [List.getD_eq_getElem?_getD, List.getElem?_eq_getElem hi, Option.getD_some]

/-- In an ascending list the search leaves only smaller elements behind. -/
theorem lowerBound_below (hl : l.Pairwise (· ≤ ·)) : ∀ (fuel first count : Nat), first + count ≤ l.length →
    (∀ i < first, l.getD i 0 < x) → ∀ i < lowerBound l x fuel first count, l.getD i 0 < x
  | 0, first, count, _, hbelow => by
    rw [lowerBound]
    exact hbelow
  | fuel + 1, first, count, hsize, hbelow => by
    rw [lowerBound]
    split
    · exact hbelow
    rename_i hcount
    split
    · rename_i hmid
      refine lowerBound_below hl fuel _ _ (by omega) (fun i hi => lt_of_le_of_lt ?_ hmid)
      have hend : first + count / 2 < l.length := by omega
      have hstart : i < l.length := by omega
      rcases Nat.lt_or_eq_of_le (Nat.le_of_lt_succ hi) with hlt | rfl
      · rw [getD_eq hstart, getD_eq hend]
        exact List.pairwise_iff_getElem.1 hl i _ hstart hend hlt
      · exact le_refl _
    · exact lowerBound_below hl fuel _ _ (by omega) hbelow

/-- **In an ascending list the binary search finds what is there.** -/
theorem binarySearch_eq (hl : l.Pairwise (· ≤ ·)) (x : Int) : binarySearch l x = l.contains x := by
  rw [Bool.eq_iff_iff, List.contains_iff_mem]
  refine ⟨mem_of_binarySearch, fun hx => ?_⟩
  obtain ⟨i, hi, rfl⟩ := List.getElem_of_mem hx
  have hbound : lowerBound l l[i] l.length 0 l.length ≤ i := by
    by_contra hlt
    have hless := lowerBound_below (x := l[i]) hl l.length 0 l.length (by omega) (fun _ hj => absurd hj (Nat.not_lt_zero _)) i
      (by omega)
    rw [getD_eq hi] at hless
    exact lt_irrefl _ hless
  have hend : lowerBound l l[i] l.length 0 l.length < l.length := by omega
  unfold binarySearch
  rw [List.getElem?_eq_getElem hend, Option.any_some, Bool.not_eq_true', decide_eq_false_iff_not, not_lt]
  rcases Nat.lt_or_eq_of_le hbound with hlt | heq
  · exact List.pairwise_iff_getElem.1 hl _ i hend hi hlt
  · simp only [heq, le_refl]

theorem isSubset_eq (hright : right.Pairwise (· ≤ ·)) : isSubset left right = subset left right := by
  unfold isSubset subset
  exact congrArg left.all (funext (binarySearch_eq hright))

/-- **The two models of `validate_rule` are one**: on the ascending lists that `parse_cpu_list` makes, the check of a rule is
the check of what was read of it. -/
theorem validateRule_eq (henvelope : envelope.Pairwise (· ≤ ·)) (hallowed : rule.allowedCpus.Pairwise (· ≤ ·)) :
    validateRule rule envelope = ((checkRule (nodeOf rule) envelope).map (fun _ => ())).mapError .thrown := by
  have hmatch : ((rule.criteria.comm.isSome = true ∧ rule.criteria.commPrefix.isSome = true) ∨
      (rule.criteria.cgroup.isSome = true ∧ rule.criteria.cgroupPrefix.isSome = true) ∨
      (rule.criteria.comm.isNone = true ∧ rule.criteria.commPrefix.isNone = true ∧ rule.criteria.cgroup.isNone = true ∧
        rule.criteria.cgroupPrefix.isNone = true ∧ rule.criteria.tid.isNone = true)) ↔
      (nodeOf rule).invalidMatch = true := by
    unfold RuleNode.invalidMatch nodeOf
    simp only [Bool.or_eq_true, Bool.and_eq_true]
    tauto
  have hsingle : (nodeOf rule).affinities.length = 1 := rule.single
  have hcheck : checkRule (nodeOf rule) envelope =
      if rule.id = "" ∨ rule.affinities = [] ∨ rule.allowedCpus = [] then
        .error "profile rule requires id, allowed_cpus, and affinities"
      else if (nodeOf rule).invalidMatch = true then .error ("profile rule has invalid match fields: " ++ rule.id)
      else if isSubset rule.allowedCpus envelope = false then
        .error ("profile allowed_cpus outside resource envelope: " ++ rule.id)
      else if rule.cpus = [] ∨ isSubset rule.cpus rule.allowedCpus = false then
        .error ("profile affinity is invalid: " ++ rule.id)
      else .ok rule := by
    unfold checkRule
    rw [dif_pos hsingle]
    rfl
  unfold validateRule
  rw [hcheck, ← isSubset_eq henvelope, ← isSubset_eq hallowed]
  simp only [List.isEmpty_iff, hmatch]
  by_cases hfields : rule.id = "" ∨ rule.affinities = [] ∨ rule.allowedCpus = []
  · rw [if_pos hfields, if_pos hfields]
    rfl
  rw [if_neg hfields, if_neg hfields]
  by_cases hinvalid : (nodeOf rule).invalidMatch = true
  · rw [if_pos hinvalid, if_pos hinvalid]
    rfl
  rw [if_neg hinvalid, if_neg hinvalid]
  by_cases houtside : isSubset rule.allowedCpus envelope = false
  · rw [if_pos houtside, if_pos houtside]
    rfl
  rw [if_neg houtside, if_neg houtside, if_neg (not_not.2 rule.single)]
  by_cases hbad : rule.cpus = [] ∨ isSubset rule.cpus rule.allowedCpus = false
  · rw [if_pos hbad, if_pos hbad]
    rfl
  · rw [if_neg hbad, if_neg hbad]
    rfl

/-! ### The rules of a file -/

/-- A turn adds one bounded rule, with an id not seen before. -/
theorem loadRule_ok {s s' : OrdSet String × List ThreadProfileRule} {text : Text} (h : loadRule envelope s text = .ok s') :
    ∃ rule, Bounded envelope rule ∧ rule.id ∉ s.1 ∧ s' = (s.1.add rule.id, s.2 ++ [rule]) := by
  unfold loadRule at h
  obtain ⟨node, -, h⟩ := CppText.bind_eq_ok.1 h
  split at h
  · cases h
  rename_i hnew
  obtain ⟨rule, hrule, h⟩ := CppText.bind_eq_ok.1 h
  cases h
  obtain ⟨hid, hbounded⟩ := checkRule_ok hrule
  exact ⟨rule, hbounded, by rw [hid]; exact hnew, by rw [hid]⟩

/-- The rules taken so far, and their ids. -/
structure RulesOk (envelope : List Int) (s : OrdSet String × List ThreadProfileRule) : Prop where
  ids : ∀ id, id ∈ s.1 ↔ id ∈ s.2.map (·.id)
  distinct : (s.2.map (·.id)).Nodup
  bounded : ∀ rule ∈ s.2, Bounded envelope rule

theorem RulesOk.loadRule {s s' : OrdSet String × List ThreadProfileRule} (hs : RulesOk envelope s) {text : Text}
    (h : loadRule envelope s text = .ok s') : RulesOk envelope s' := by
  obtain ⟨rule, hbounded, hnew, rfl⟩ := loadRule_ok h
  refine ⟨fun id => ?_, ?_, fun r hr => ?_⟩
  · rw [OrdSet.mem_add, hs.ids, List.map_append, List.mem_append, List.map_singleton, List.mem_singleton]
    tauto
  · rw [List.map_append, List.map_singleton, List.nodup_append]
    refine ⟨hs.distinct, List.nodup_singleton _, fun a ha b hb hab => hnew ?_⟩
    rw [List.mem_singleton] at hb
    rw [← hb, ← hab]
    exact (hs.ids a).2 ha
  · rcases List.mem_append.1 hr with hr | hr
    · exact hs.bounded r hr
    · rw [List.mem_singleton.1 hr]
      exact hbounded

/-- **The rules of a loaded profile** are bounded, and no two have the same id. -/
theorem loaded_rules {stod : Text → Except String ℚ} {root : Text} {file : ProfileFile}
    (h : loadThreadProfile stod root envelope = .ok file) :
    (file.placements.map (·.id)).Nodup ∧ ∀ rule ∈ file.placements, Bounded envelope rule := by
  unfold loadThreadProfile at h
  obtain ⟨head, -, h⟩ := CppText.bind_eq_ok.1 h
  split at h
  · cases h
  obtain ⟨placements, -, h⟩ := CppText.bind_eq_ok.1 h
  obtain ⟨⟨ids, rules⟩, hloop, h⟩ := CppText.bind_eq_ok.1 h
  cases h
  have hempty : RulesOk envelope (∅, []) := by
    refine ⟨fun id => ?_, List.nodup_nil, fun rule hrule => absurd hrule List.not_mem_nil⟩
    simp [OrdMap.notMem_empty]
  have hrules := CppText.foldlM_keeps (RulesOk envelope) (fun s text s' hs hstep => hs.loadRule hstep) hempty hloop
  exact ⟨hrules.distinct, hrules.bounded⟩

end Checked

end ProfileText
end AffinityGraph
