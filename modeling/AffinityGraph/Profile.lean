import AffinityGraph.Domain
import AffinityGraph.Graph
/-!
# Profile — the rules of a thread profile and what they assign (`thread_profile.cpp`)

A rule names threads by what a sample shows of them and gives each the CPUs of its one affinity.  The first rule that
matches decides, once for every identity: `profile_assignment` returns what it has stored before it looks at a rule.

The text of a profile is not read here.  What `load_thread_profile` has checked of a rule is a field of it.
-/
namespace AffinityGraph

structure ThreadProfileMatch where
  comm : Option String := none
  commPrefix : Option String := none
  cgroup : Option String := none
  cgroupPrefix : Option String := none
  tid : Option Tid := none

structure ThreadProfileRule where
  id : String
  criteria : ThreadProfileMatch
  allowedCpus : Mask
  affinities : List Mask
  dynamic : Bool := true
  single : affinities.length = 1 := by decide

structure ThreadProfileDynamic where
  enabled : Bool := true

structure ThreadProfile where
  dynamic : ThreadProfileDynamic := {}
  placements : List ThreadProfileRule := []

structure ProfileAssignment where
  ruleId : String
  instance_ : Nat := 0
  targetCpus : Mask
  allowedCpus : Mask
  dynamic : Bool := true
  deriving DecidableEq

/-- `text.rfind(value, 0) == 0`. -/
def startsWith (value text : String) : Bool := value.toList.isPrefixOf text.toList

def profileRuleMatches (rule : ThreadProfileRule) (sample : ThreadSample) : Bool :=
  rule.criteria.comm.all (fun c => decide (sample.comm = c)) &&
  rule.criteria.commPrefix.all (fun c => startsWith c sample.comm) &&
  rule.criteria.cgroup.all (fun c => sample.cgroups.any (fun path => decide (path = c))) &&
  rule.criteria.cgroupPrefix.all (fun c => sample.cgroups.any (startsWith c)) &&
  rule.criteria.tid.all (fun t => decide (sample.identity.tid = t))

/-- `affinities[0].cpus`. -/
def ThreadProfileRule.cpus (rule : ThreadProfileRule) : Mask :=
  rule.affinities.head (List.ne_nil_of_length_eq_add_one rule.single)

/-- `subset`; the right side is ascending, and the binary search finds what is in it. -/
def subset (left right : Mask) : Bool := left.all (fun cpu => right.contains cpu)

/-- `validate_rule`, as `load_thread_profile` calls it for every rule it reads. -/
def validateRule (rule : ThreadProfileRule) (envelope : Mask) : Outcome Unit :=
  if rule.id = "" ∨ rule.affinities.isEmpty = true ∨ rule.allowedCpus.isEmpty = true then
    .error (.thrown "profile rule requires id, allowed_cpus, and affinities")
  else if (rule.criteria.comm.isSome = true ∧ rule.criteria.commPrefix.isSome = true) ∨
      (rule.criteria.cgroup.isSome = true ∧ rule.criteria.cgroupPrefix.isSome = true) ∨
      (rule.criteria.comm.isNone = true ∧ rule.criteria.commPrefix.isNone = true ∧ rule.criteria.cgroup.isNone = true ∧
        rule.criteria.cgroupPrefix.isNone = true ∧ rule.criteria.tid.isNone = true) then
    .error (.thrown ("profile rule has invalid match fields: " ++ rule.id))
  else if subset rule.allowedCpus envelope = false then
    .error (.thrown ("profile allowed_cpus outside resource envelope: " ++ rule.id))
  else if rule.affinities.length ≠ 1 then
    .error (.thrown ("profile rule must have exactly one affinity: " ++ rule.id))
  else if rule.cpus.isEmpty = true ∨ subset rule.cpus rule.allowedCpus = false then
    .error (.thrown ("profile affinity is invalid: " ++ rule.id))
  else .ok ()

/-- A rule that was loaded binds inside what it allows. -/
theorem cpus_allowed_of_valid {rule : ThreadProfileRule} {envelope : Mask} (h : validateRule rule envelope = .ok ())
    {cpu : Int} (hcpu : cpu ∈ rule.cpus) : cpu ∈ rule.allowedCpus := by
  unfold validateRule at h
  split at h
  · cases h
  · split at h
    · cases h
    · split at h
      · cases h
      · split at h
        · cases h
        · split at h
          · cases h
          · rename_i hvalid
            rw [not_or, Bool.not_eq_false] at hvalid
            simpa using List.all_eq_true.1 hvalid.2 cpu hcpu

/-- The rule that decides: the first that matches. -/
def ThreadProfile.ruleFor (profile : ThreadProfile) (sample : ThreadSample) : Option ThreadProfileRule :=
  profile.placements.find? (fun rule => profileRuleMatches rule sample)

/-- The maps `profile_assignment` updates. -/
structure ProfileBooks where
  nextInstances : OrdMap String Nat := ∅
  assignments : OrdMap ThreadIdentity ProfileAssignment := ∅

def ProfileBooks.assign (books : ProfileBooks) (rule : ThreadProfileRule) (identity : ThreadIdentity) :
    ProfileAssignment × ProfileBooks :=
  let count := books.nextInstances.getD rule.id 0
  let result : ProfileAssignment :=
    { ruleId := rule.id
      instance_ := count
      targetCpus := rule.cpus
      allowedCpus := rule.allowedCpus
      dynamic := rule.dynamic }
  (result,
    { nextInstances := books.nextInstances.insert rule.id (count + 1)
      assignments := books.assignments.insert identity result })

def profileAssignment (profile : ThreadProfile) (sample : ThreadSample) (books : ProfileBooks) :
    Option ProfileAssignment × ProfileBooks :=
  match books.assignments.find? sample.identity with
  | some found => (some found, books)
  | none =>
    match profile.ruleFor sample with
    | some rule => (some (books.assign rule sample.identity).1, (books.assign rule sample.identity).2)
    | none => (none, books)

end AffinityGraph
