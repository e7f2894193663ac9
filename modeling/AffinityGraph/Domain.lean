import AffinityGraph.Core
import Mathlib.Data.List.TakeWhile
/-!
# Domain — the selector's records and its node choice (`domain_solver.cpp`, first half)

The records of `core.hpp` that `NumaDomainSolver` reads and fills, the mask arithmetic, the top-K bound on the family
graph and the node planner.  `choose_nodes` visits the subsets of the nodes in the order of the source's recursion, so
that ties break the same way.
-/
namespace AffinityGraph

abbrev FamilyPair := String ×ₗ String

/-- `std::minmax`, as a key. -/
def minmax (a b : String) : FamilyPair := toLex (min a b, max a b)

structure FamilyMetric where
  name : String := ""
  threadCount : Nat := 0
  demand : ℚ := 0
  internalRelation : ℚ := 0
  externalRelation : ℚ := 0
  selfContainment : ℚ := 0
  relativeInternal : ℚ := 0
  demandEligible : Bool := false
  internalRelationEligible : Bool := false
  selfContainmentEligible : Bool := false
  relativeInternalEligible : Bool := false
  cohesiveEligible : Bool := false
  confirmation : Int := 0
  seedConfirmation : Int := 0
  cohesiveAnchor : Bool := false
  crossPending : Bool := false
  crossSeed : Bool := false
  anchor : Bool := false
  deriving DecidableEq

structure FamilyPairMetric where
  left : String
  right : String
  crossRelation : ℚ := 0
  denominator : ℚ := 0
  mergeRatio : ℚ := 0
  endpointsEligible : Bool := false
  qualifies : Bool := false
  confirmation : Int := 0
  confirmed : Bool := false
  deriving DecidableEq

inductive NodeDecision where
  | none
  | initial
  | stable
  | heldExisting
  | heldExpandPending
  | heldShrinkPending
  | expanded
  | shrunk
  | heldDomainDwell
  deriving DecidableEq, Repr

inductive InvalidReason where
  | maximumThreadsPerDomainExceeded
  | insufficientNodeCapacity
  | emptyApplicationMaskIntersection
  deriving DecidableEq, Repr

def InvalidReason.text : InvalidReason → String
  | maximumThreadsPerDomainExceeded => "maximum_threads_per_domain_exceeded"
  | insufficientNodeCapacity => "insufficient_node_capacity"
  | emptyApplicationMaskIntersection => "empty_application_mask_intersection"

structure NumaDomain where
  id : String
  families : List String
  tids : List Tid := []
  targetNodes : List Int := []
  targetMask : Mask := []
  demand : ℚ := 0
  previousNodes : List Int := []
  onlineCpuCount : Nat := 0
  capacityLimit : ℚ := 0
  capacityHeadroom : ℚ := 0
  relationLatency : ℚ := 0
  backgroundDemand : ℚ := 0
  initialMigrations : Nat := 0
  expandConfirmation : Int := 0
  shrinkConfirmation : Int := 0
  nodeDecision : NodeDecision := .none
  confirmation : Int := 0
  valid : Bool := true
  invalidReason : Option InvalidReason := Option.none
  deriving DecidableEq

structure NumaDomainOptions where
  familyMinimumDemand : ℚ := 1
  familyMinimumInternalRelation : ℚ := 1
  familyMinimumSelfContainment : ℚ := 1 / 5
  familyMinimumRelativeInternal : ℚ := 1 / 10
  domainMergeRatio : ℚ := 1 / 4
  familyEdgesPerFamily : Nat := 4
  familyStabilityConfirmations : Int := 3
  domainStabilityConfirmations : Int := 3
  planConfirmations : Int := 3
  maximumThreadsPerDomain : Nat := 1024
  capacityRatio : ℚ := 4 / 5
  expandRatio : ℚ := 9 / 10
  expandConfirmations : Int := 3
  shrinkRatio : ℚ := 11 / 20
  shrinkConfirmations : Int := 6
  minimumDwellNs : Nat := 300000000000

structure NumaDomainAction where
  identity : ThreadIdentity
  fromMask : Mask
  targetMask : Mask
  targetNodes : List Int
  forcedMigration : Bool := false
  deriving DecidableEq

structure NumaDomainProposal where
  id : Nat
  delta : PlacementDelta := {}
  plannedMasks : OrdMap Tid Mask := ∅
  inheritedTids : OrdSet Tid := ∅
  families : List FamilyMetric := []
  familyPairs : List FamilyPairMetric := []
  domains : List NumaDomain := []
  actions : List NumaDomainAction := []
  releasedTids : OrdSet Tid := ∅
  inputFamilyCount : Nat := 0
  inputCrossFamilyPairCount : Nat := 0
  selectedFamilyPairCount : Nat := 0
  totalDemand : ℚ := 0
  totalRelation : ℚ := 0
  ready : Bool := false
  valid : Bool := true
  /-- the id of the domain at fault and why -/
  invalidReason : Option (String × InvalidReason) := none
  deriving DecidableEq

/-! ## Masks -/

/-- `std::set_intersection` of an ascending list with another: each element of the first is matched with one equal
element of the second. -/
def setIntersection : List Int → List Int → List Int
  | [], _ => []
  | a :: as, bs =>
    match bs.dropWhile (· < a) with
    | [] => []
    | b :: bs' => if a = b then a :: setIntersection as bs' else setIntersection as (b :: bs')

def intersectMasks (left right : Mask) : Mask :=
  setIntersection (left.insertionSort (· ≤ ·)) (right.insertionSort (· ≤ ·))

section Intersection

theorem mem_setIntersection {x : Int} : ∀ {l r : List Int}, l.Pairwise (· < ·) → r.Pairwise (· ≤ ·) →
    (x ∈ setIntersection l r ↔ x ∈ l ∧ x ∈ r)
  | [], r, _, _ => by simp [setIntersection]
  | a :: l, r, hl, hr => by
    obtain ⟨hal, hl'⟩ := List.pairwise_cons.1 hl
    -- what the scan drops is below `a`, so below everything left in the first list
    have hdrop : ∀ y, a ≤ y → (y ∈ r.dropWhile (· < a) ↔ y ∈ r) := by
      intro y hy
      refine ⟨fun h => (List.dropWhile_sublist _).subset h, fun h => ?_⟩
      rw [← List.takeWhile_append_dropWhile (p := (· < a)) (l := r), List.mem_append] at h
      rcases h with h | h
      · have hlt := List.mem_takeWhile_imp h
        simp only [decide_eq_true_eq] at hlt
        omega
      · exact h
    have hsorted : (r.dropWhile (· < a)).Pairwise (· ≤ ·) := hr.sublist (List.dropWhile_sublist _)
    unfold setIntersection
    cases hd : r.dropWhile (· < a) with
    | nil =>
      have hnone : ∀ y, a ≤ y → y ∉ r := by
        intro y hy hmem
        rw [← hdrop y hy, hd] at hmem
        cases hmem
      simp only [List.not_mem_nil, List.mem_cons, false_iff, not_and]
      rintro (rfl | hx)
      · exact hnone x le_rfl
      · exact hnone x (hal x hx).le
    | cons b bs =>
      rw [hd] at hsorted hdrop
      dsimp only
      split
      · rename_i hab
        subst hab
        rw [List.mem_cons, List.mem_cons, mem_setIntersection hl' (List.pairwise_cons.1 hsorted).2]
        constructor
        · rintro (rfl | ⟨hxl, hxb⟩)
          · exact ⟨Or.inl rfl, (hdrop x le_rfl).1 List.mem_cons_self⟩
          · exact ⟨Or.inr hxl, (hdrop x (hal x hxl).le).1 (List.mem_cons_of_mem _ hxb)⟩
        · rintro ⟨rfl | hxl, hxr⟩
          · exact Or.inl rfl
          · have hlt := hal x hxl
            rcases List.mem_cons.1 ((hdrop x hlt.le).2 hxr) with rfl | hxb
            · exact absurd hlt (lt_irrefl _)
            · exact Or.inr ⟨hxl, hxb⟩
      · rename_i hab
        rw [mem_setIntersection hl' hsorted]
        constructor
        · rintro ⟨hxl, hxb⟩
          exact ⟨List.mem_cons_of_mem _ hxl, (hdrop x (hal x hxl).le).1 hxb⟩
        · rintro ⟨hxa, hxr⟩
          rcases List.mem_cons.1 hxa with rfl | hxl
          · -- the scan stopped above `a`, so `a` is not in the second list
            rcases List.mem_cons.1 ((hdrop x le_rfl).2 hxr) with hxb | hxb
            · exact absurd hxb hab
            · have hbx := (List.pairwise_cons.1 hsorted).1 x hxb
              have hnot := List.head?_dropWhile_not (· < x) r
              rw [hd] at hnot
              simp only [List.head?_cons, decide_eq_false_iff_not, not_lt] at hnot
              omega
          · exact ⟨hxl, (hdrop x (hal x hxl).le).2 hxr⟩

theorem setIntersection_sublist : ∀ (l r : List Int), (setIntersection l r).Sublist l
  | [], _ => by simp [setIntersection]
  | a :: l, r => by
    unfold setIntersection
    split
    · exact List.nil_sublist _
    · split
      · exact (setIntersection_sublist l _).cons_cons _
      · exact (setIntersection_sublist l _).cons _

variable {d k m : Mask}

theorem mem_intersectMasks (hd : d.Pairwise (· < ·)) {x : Int} : x ∈ intersectMasks d k ↔ x ∈ d ∧ x ∈ k := by
  have hsort : d.insertionSort (· ≤ ·) = d := (hd.imp le_of_lt).insertionSort_eq
  unfold intersectMasks
  rw [hsort, mem_setIntersection hd (List.pairwise_insertionSort _ _), List.mem_insertionSort]

theorem pairwise_intersectMasks (hd : d.Pairwise (· < ·)) : (intersectMasks d k).Pairwise (· < ·) := by
  have hsort : d.insertionSort (· ≤ ·) = d := (hd.imp le_of_lt).insertionSort_eq
  unfold intersectMasks
  rw [hsort]
  exact hd.sublist (setIntersection_sublist _ _)

theorem eq_of_mem_iff : ∀ {l r : List Int}, l.Pairwise (· < ·) → r.Pairwise (· < ·) → (∀ x, x ∈ l ↔ x ∈ r) → l = r :=
  fun hl hr h => List.Perm.eq_of_pairwise' (hl.imp le_of_lt) (hr.imp le_of_lt)
    ((List.perm_ext_iff_of_nodup (hl.imp ne_of_lt) (hr.imp ne_of_lt)).2 h)

/-- **When a thread's mask is its share of a domain's**: `k` is `d ∩ m` exactly when both have the same CPUs in `d` and
`k` has none outside. -/
theorem eq_intersectMasks_iff (hd : d.Pairwise (· < ·)) (hk : k.Pairwise (· < ·)) :
    k = intersectMasks d m ↔ intersectMasks d k = intersectMasks d m ∧ ∀ x ∈ k, x ∈ d := by
  have hself : (∀ x ∈ k, x ∈ d) → intersectMasks d k = k := by
    intro hsub
    refine eq_of_mem_iff (pairwise_intersectMasks hd) hk (fun x => ?_)
    rw [mem_intersectMasks hd]
    exact ⟨And.right, fun hx => ⟨hsub x hx, hx⟩⟩
  constructor
  · intro h
    have hsub : ∀ x ∈ k, x ∈ d := by
      intro x hx
      rw [h] at hx
      exact ((mem_intersectMasks hd).1 hx).1
    exact ⟨(hself hsub).trans h, hsub⟩
  · rintro ⟨h, hsub⟩
    exact (hself hsub).symm.trans h

end Intersection

/-- The online CPUs of some nodes, sorted, once each. -/
def maskForNodes (hardware : HardwareGraph) (nodes : List Int) : Mask :=
  (OrdSet.ofList (nodes.flatMap hardware.cpusInNode)).toList

def domainId (families : List String) : String := String.intercalate "+" families

def planSignature (domains : List NumaDomain) : String :=
  String.join (domains.map (fun d =>
    d.id ++ ":" ++ String.join (d.targetNodes.map (fun n => toString n ++ ",")) ++ ":" ++
      (if d.valid then "valid" else d.invalidReason.elim "" InvalidReason.text) ++ ";"))

/-! ## The bound on the family graph -/

/-- The order candidates of one family are ranked in: heavier first, then by pair. -/
def rankedBefore (l r : ℚ × FamilyPair) : Bool :=
  if l.1 ≠ r.1 then decide (r.1 < l.1) else decide (l.2 ≤ r.2)

/-- The candidates of each family, in the order the pairs are met. -/
def incidentPairs (cross : OrdMap FamilyPair ℚ) : OrdMap String (List (ℚ × FamilyPair)) :=
  cross.entries.foldl (fun incident e =>
    (incident.update (ofLex e.1).1 [] (· ++ [(e.2, e.1)])).update (ofLex e.1).2 [] (· ++ [(e.2, e.1)])) ∅

def selectFamilyEdges (cross : OrdMap FamilyPair ℚ) (edgesPerFamily : Nat) : OrdSet FamilyPair :=
  (incidentPairs cross).entries.foldl (fun selected e =>
    ((e.2.insertionSort (fun l r => rankedBefore l r = true)).take edgesPerFamily).foldl
      (fun s c => OrdSet.add s c.2) selected) ∅

/-! ## The node planner -/

def cpuInNodes (hardware : HardwareGraph) (cpu : Int) (nodes : List Int) : Bool :=
  match hardware.cpus.find? (fun c => decide (c.id = cpu)) with
  | some c => nodes.contains c.node
  | none => false

structure NodeChoice where
  nodes : List Int := []
  onlineCpuCount : Nat := 0
  capacityLimit : ℚ := 0
  capacityHeadroom : ℚ := 0
  relationLatency : ℚ := 0
  backgroundDemand : ℚ := 0
  initialMigrations : Nat := 0

/-- The latency a candidate set of nodes adds towards one domain already placed. -/
def placedLatency (hardware : HardwareGraph) (nodes : List Int) (families : List String)
    (cross : OrdMap FamilyPair ℚ) (placed : List String × List Int) : ℚ :=
  let weight := (families.flatMap (fun f => placed.1.map (fun o => cross.getD (minmax f o) 0))).sum
  -- no pair of nodes at all leaves the source's sentinel, which counts as no distance
  let distances := nodes.flatMap (fun n => placed.2.map (fun o => hardware.nodeDistance.getD (toLex (n, o)) 1000000))
  let distance := distances.foldl min (10 ^ 30)
  weight * (if distance = 10 ^ 30 then 0 else distance)

def evaluateNodes (hardware : HardwareGraph) (nodes : List Int) (demand capacityRatio : ℚ)
    (members allThreads : List ThreadDemand) (placedDomains : List (List String × List Int))
    (families : List String) (cross : OrdMap FamilyPair ℚ) : NodeChoice :=
  let online := (maskForNodes hardware nodes).length
  let memberTids := members.map (·.identity.tid)
  { nodes := nodes
    onlineCpuCount := online
    capacityLimit := online * capacityRatio
    capacityHeadroom := online * capacityRatio - demand
    relationLatency := (placedDomains.map (placedLatency hardware nodes families cross)).sum
    backgroundDemand := ((allThreads.filter (fun t =>
      !memberTids.contains t.identity.tid && cpuInNodes hardware t.currentCpu nodes)).map (·.demand)).sum
    initialMigrations := (members.filter (fun t => !cpuInNodes hardware t.currentCpu nodes)).length }

/-- The comparison that lets `current` replace `best`. -/
def NodeChoice.better (current best : NodeChoice) : Bool :=
  best.nodes.isEmpty || decide (current.nodes.length < best.nodes.length) ||
  (decide (current.nodes.length = best.nodes.length) &&
    (decide (current.relationLatency < best.relationLatency) ||
    (decide (current.relationLatency = best.relationLatency) &&
      (decide (current.backgroundDemand < best.backgroundDemand) ||
      (decide (current.backgroundDemand = best.backgroundDemand) &&
        (decide (current.initialMigrations < best.initialMigrations) ||
        (decide (current.initialMigrations = best.initialMigrations) &&
          decide (current.nodes < best.nodes))))))))

/-- The subsets in the order `visit` reaches them: with a node before without it. -/
def nodeSubsets : List Int → List (List Int)
  | [] => [[]]
  | n :: ns => (nodeSubsets ns).map (n :: ·) ++ nodeSubsets ns

def chooseNodes (hardware : HardwareGraph) (demand capacityRatio : ℚ) (members allThreads : List ThreadDemand)
    (placedDomains : List (List String × List Int)) (families : List String) (cross : OrdMap FamilyPair ℚ) :
    NodeChoice :=
  (nodeSubsets hardware.nodes).foldl (fun best candidate =>
    if candidate.isEmpty then best else
    let current := evaluateNodes hardware candidate demand capacityRatio members allThreads placedDomains families cross
    if current.capacityHeadroom + 1 / 10 ^ 12 < 0 then best else
    if current.better best then current else best) {}

end AffinityGraph
