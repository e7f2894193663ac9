import AffinityGraph.Domain
/-!
# DomainSolver — `NumaDomainSolver::propose`, `commit`, `discard`, `remove_thread`

`propose` is cut at the source's own seams: the aggregation, the two confirmations, the components, the candidate
domains, the dwell, the final plan.  Each stage is a function of what the source has computed by then.

A read `m[k]` of a missing key inserts a default in the source; here it only reads it, since no later code can tell a
key with the default from a missing one.
-/
namespace AffinityGraph

structure NumaDomainSolver where
  nextProposalId : Nat := 1
  generation : Nat := 0
  familyConfirmations : OrdMap String Int := ∅
  mergeConfirmations : OrdMap FamilyPair Int := ∅
  mergePendingGrace : OrdMap FamilyPair Int := ∅
  globalPlanConfirmation : Int := 0
  expandConfirmations : OrdMap String Int := ∅
  shrinkConfirmations : OrdMap String Int := ∅
  lastChangedNs : OrdMap String Nat := ∅
  lastConfirmedDomainEvidenceNs : OrdMap String Nat := ∅
  domainNodes : OrdMap String (List Int) := ∅
  placement : OrdMap Tid Mask := ∅
  domains : List NumaDomain := []
  families : List FamilyMetric := []
  pendingSignature : String := ""
  outstanding : Option NumaDomainProposal := none

/-- What one `propose` is called with. -/
structure ProposeInput where
  hardware : HardwareGraph
  threads : List ThreadDemand
  edges : List RelationEdge := []
  allowedMasks : OrdMap Tid Mask := ∅
  options : NumaDomainOptions := {}
  nowNs : Nat

namespace NumaDomainSolver

/-! ## The aggregation -/

def byTid (threads : List ThreadDemand) : OrdMap Tid ThreadDemand :=
  threads.foldl (fun m t => m.insert t.identity.tid t) ∅

/-- The threads of each family, in the order of the input. -/
def byFamily (threads : List ThreadDemand) : OrdMap String (List ThreadDemand) :=
  threads.foldl (fun m t => m.update t.group [] (· ++ [t])) ∅

structure Relations where
  internal : OrdMap String ℚ := ∅
  external : OrdMap String ℚ := ∅
  cross : OrdMap FamilyPair ℚ := ∅

def addRelation (tids : OrdMap Tid ThreadDemand) (r : Relations) (edge : RelationEdge) : Relations :=
  match tids.find? edge.fromTid, tids.find? edge.toTid with
  | some a, some b =>
    if a.group = b.group then { r with internal := r.internal.update a.group 0 (· + edge.score) }
    else { r with
      external := (r.external.update a.group 0 (· + edge.score)).update b.group 0 (· + edge.score)
      cross := r.cross.update (minmax a.group b.group) 0 (· + edge.score) }
  | _, _ => r

def relations (tids : OrdMap Tid ThreadDemand) (edges : List RelationEdge) : Relations :=
  edges.foldl (addRelation tids) {}

/-! ## Family and pair confirmation -/

def familyMetric (options : NumaDomainOptions) (r : Relations) (maximumInternal : ℚ) (confirmations : OrdMap String Int)
    (name : String) (members : List ThreadDemand) : FamilyMetric :=
  let demand := (members.map (·.demand)).sum
  let internal := r.internal.getD name 0
  let external := r.external.getD name 0
  let selfContainment := if internal + external > 0 then internal / (internal + external) else 0
  let relativeInternal := if maximumInternal > 0 then internal / maximumInternal else 0
  let demandEligible := decide (options.familyMinimumDemand ≤ demand)
  let internalEligible := decide (options.familyMinimumInternalRelation ≤ internal)
  let selfEligible := decide (options.familyMinimumSelfContainment ≤ selfContainment)
  let relativeEligible := decide (options.familyMinimumRelativeInternal ≤ relativeInternal)
  let cohesive := demandEligible && internalEligible && selfEligible && relativeEligible
  let confirmation := if cohesive then confirmations.getD name 0 + 1 else 0
  { name := name
    threadCount := members.length
    demand := demand
    internalRelation := internal
    externalRelation := external
    selfContainment := selfContainment
    relativeInternal := relativeInternal
    demandEligible := demandEligible
    internalRelationEligible := internalEligible
    selfContainmentEligible := selfEligible
    relativeInternalEligible := relativeEligible
    cohesiveEligible := cohesive
    confirmation := confirmation
    cohesiveAnchor := decide (options.familyStabilityConfirmations ≤ confirmation) }

/-- The metric of every observed family. -/
def familyMetrics (options : NumaDomainOptions) (r : Relations) (confirmations : OrdMap String Int)
    (families : OrdMap String (List ThreadDemand)) : OrdMap String FamilyMetric :=
  let maximumInternal := r.internal.entries.foldl (fun m e => max m e.2) 0
  families.mapVal (familyMetric options r maximumInternal confirmations)

/-- `family_confirmations_` afterwards: the observed families' counts, every other one back to zero. -/
def confirmFamilies (confirmations : OrdMap String Int) (metrics : OrdMap String FamilyMetric) : OrdMap String Int :=
  metrics.entries.foldl (fun c e => c.insert e.1 e.2.confirmation) (confirmations.mapVal (fun _ _ => 0))

structure PairState where
  metrics : OrdMap String FamilyMetric
  mergeConfirmations : OrdMap FamilyPair Int
  mergePendingGrace : OrdMap FamilyPair Int
  familyPairs : List FamilyPairMetric := []
  qualifying : OrdSet FamilyPair := ∅
  confirmedSeeds : List FamilyPair := []

/-- The body of the loop over the selected pairs. -/
def confirmPair (options : NumaDomainOptions) (r : Relations) (st : PairState) (pair : FamilyPair) : PairState :=
  let l := (ofLex pair).1
  let h := (ofLex pair).2
  let weight := r.cross.getD pair 0
  let left := st.metrics.getD l {}
  let right := st.metrics.getD h {}
  let eligible := decide (options.familyMinimumDemand ≤ left.demand) &&
    decide (options.familyMinimumDemand ≤ right.demand) &&
    decide (options.familyMinimumInternalRelation ≤ left.internalRelation) &&
    decide (options.familyMinimumInternalRelation ≤ right.internalRelation)
  let denominator := min (r.internal.getD l 0) (r.internal.getD h 0)
  let qualifies := eligible && decide (0 < denominator) && decide (options.domainMergeRatio ≤ weight / denominator)
  let confirmation := if qualifies then st.mergeConfirmations.getD pair 0 + 1 else 0
  let confirmed := decide (options.domainStabilityConfirmations ≤ confirmation)
  let seed (m : FamilyMetric) : FamilyMetric :=
    { m with seedConfirmation := max m.seedConfirmation confirmation, crossSeed := m.crossSeed || confirmed }
  { metrics := (st.metrics.update l {} seed).update h {} seed
    mergeConfirmations := st.mergeConfirmations.insert pair confirmation
    mergePendingGrace :=
      if qualifies then st.mergePendingGrace.insert pair options.planConfirmations else st.mergePendingGrace
    familyPairs := st.familyPairs ++ [
      { left := l, right := h, crossRelation := weight, denominator := denominator
        mergeRatio := if denominator > 0 then weight / denominator else 0
        endpointsEligible := eligible, qualifies := qualifies, confirmation := confirmation, confirmed := confirmed }]
    qualifying := if qualifies then OrdSet.add st.qualifying pair else st.qualifying
    confirmedSeeds := if confirmed then st.confirmedSeeds ++ [pair] else st.confirmedSeeds }

/-- A pair still inside its acquisition grace holds back both its families. -/
def markPending (options : NumaDomainOptions) (mergeConfirmations : OrdMap FamilyPair Int)
    (metrics : OrdMap String FamilyMetric) (e : FamilyPair × Int) : OrdMap String FamilyMetric :=
  let l := (ofLex e.1).1
  let h := (ofLex e.1).2
  if 0 < e.2 ∧ mergeConfirmations.getD e.1 0 < options.domainStabilityConfirmations ∧ l ∈ metrics ∧ h ∈ metrics then
    (metrics.update l {} (fun m => { m with crossPending := true })).update h {} (fun m => { m with crossPending := true })
  else metrics

/-- The selected pairs, then the counters of the others, then the graces. -/
def confirmPairs (options : NumaDomainOptions) (r : Relations) (s : NumaDomainSolver)
    (metrics : OrdMap String FamilyMetric) : PairState :=
  let selected := selectFamilyEdges r.cross options.familyEdgesPerFamily
  let st := selected.toList.foldl (confirmPair options r)
    { metrics := metrics, mergeConfirmations := s.mergeConfirmations, mergePendingGrace := s.mergePendingGrace }
  let confirmations := st.mergeConfirmations.mapVal (fun pair c => if pair ∈ selected then c else 0)
  let grace := st.mergePendingGrace.mapVal (fun pair g => if pair ∉ st.qualifying ∧ 0 < g then g - 1 else g)
  { st with
    mergeConfirmations := confirmations
    mergePendingGrace := grace
    metrics := grace.entries.foldl (markPending options confirmations) st.metrics }

/-! ## Anchors and components -/

def markAnchor (m : FamilyMetric) : FamilyMetric :=
  { m with anchor := m.crossSeed || (m.cohesiveAnchor && !m.crossPending) }

/-- The anchors, ascending. -/
def anchorNames (metrics : OrdMap String FamilyMetric) : List String :=
  (metrics.entries.filter (fun e => (markAnchor e.2).anchor)).map Prod.fst

/-- `root`, with its path compression.  A parent pointer goes to a smaller name, so a path is shorter than the map. -/
def root : Nat → OrdMap String String → String → String × OrdMap String String
  | 0, parent, name => (name, parent)
  | fuel + 1, parent, name =>
    let up := parent.getD name ""
    if up = name then (name, parent) else
    let (r, parent') := root fuel parent up
    (r, parent'.insert name r)

def unite (parent : OrdMap String String) (pair : FamilyPair) : OrdMap String String :=
  let (a, p₁) := root (parent.size + 1) parent (ofLex pair).1
  let (b, p₂) := root (parent.size + 1) p₁ (ofLex pair).2
  if a ≠ b then p₂.insert (max a b) (min a b) else p₂

/-- Push each anchor on the component of its root. -/
def addToComponent (st : OrdMap String (List String) × OrdMap String String) (name : String) :
    OrdMap String (List String) × OrdMap String String :=
  let (r, parent) := root (st.2.size + 1) st.2 name
  (st.1.update r [] (· ++ [name]), parent)

def components (anchors : List String) (seeds : List FamilyPair) : OrdMap String (List String) :=
  let parent := seeds.foldl unite (OrdMap.ofList (anchors.map (fun n => (n, n))))
  (anchors.foldl addToComponent (∅, parent)).1

/-! ## The candidate domains -/

structure CandidateState where
  expandConfirmations : OrdMap String Int
  shrinkConfirmations : OrdMap String Int
  placedDomains : List (List String × List Int) := []
  domains : List NumaDomain := []
  valid : Bool := true
  invalidReason : Option (String × InvalidReason) := none

/-- The mask a member gets out of its domain's. -/
def targetFor (allowedMasks : OrdMap Tid Mask) (targetMask : Mask) (tid : Tid) : Mask :=
  match allowedMasks.find? tid with
  | none => targetMask
  | some allowed => intersectMasks targetMask allowed

/-- The lifecycle of a domain's nodes: what is adopted, the decision, and both counters. -/
def decideNodes (input : ProposeInput) (s : NumaDomainSolver) (id : String) (demand : ℚ) (required previous : List Int)
    (expandCount shrinkCount : Int) : List Int × NodeDecision × Int × Int :=
  let mask := maskForNodes input.hardware previous
  let utilization := if mask.isEmpty then 1 else demand / mask.length
  let expand := decide (previous.length < required.length) && decide (input.options.expandRatio < utilization)
  let shrink := decide (required.length < previous.length) && decide (utilization < input.options.shrinkRatio) &&
    decide (input.options.minimumDwellNs ≤ subU64 input.nowNs (s.lastChangedNs.getD id 0))
  let e := if expand then expandCount + 1 else 0
  let h := if shrink then shrinkCount + 1 else 0
  if expand && decide (input.options.expandConfirmations ≤ e) then (required, .expanded, e, h)
  else if shrink && decide (input.options.shrinkConfirmations ≤ h) then (required, .shrunk, e, h)
  else
    (previous,
      (if required = previous then .stable else if expand then .heldExpandPending
        else if shrink then .heldShrinkPending else .heldExisting), e, h)

/-- The body of the loop over the components. -/
def addCandidate (input : ProposeInput) (s : NumaDomainSolver) (families : OrdMap String (List ThreadDemand))
    (cross : OrdMap FamilyPair ℚ) (st : CandidateState) (component : List String) : CandidateState :=
  let names := component.insertionSort (· ≤ ·)
  let id := domainId names
  let members := names.flatMap (fun n => families.getD n [])
  let tids := (members.map (·.identity.tid)).insertionSort (· ≤ ·)
  let demand := (members.map (·.demand)).sum
  let tooMany := decide (input.options.maximumThreadsPerDomain < tids.length)
  let choice := chooseNodes input.hardware demand input.options.capacityRatio members input.threads st.placedDomains
    names cross
  let noRoom := choice.nodes.isEmpty
  let previous := s.domainNodes.getD id []
  let expandCount := st.expandConfirmations.getD id 0
  let shrinkCount := st.shrinkConfirmations.getD id 0
  let follows := !previous.isEmpty && !tooMany && !noRoom
  let (nodes, decision, e, h) :=
    if follows then decideNodes input s id demand choice.nodes previous expandCount shrinkCount
    else (choice.nodes, if tooMany || noRoom then .none else .initial, expandCount, shrinkCount)
  let chosen := evaluateNodes input.hardware nodes demand input.options.capacityRatio members input.threads
    st.placedDomains names cross
  let targetMask := maskForNodes input.hardware nodes
  -- the masks gathered here are thrown away by the final rebuild; what stays is whether one is empty
  let noMask := members.any (fun m => (targetFor input.allowedMasks targetMask m.identity.tid).isEmpty)
  let reason := if noMask then some .emptyApplicationMaskIntersection
    else if noRoom then some .insufficientNodeCapacity
    else if tooMany then some .maximumThreadsPerDomainExceeded else none
  let domain : NumaDomain :=
    { id := id, families := names, tids := tids, targetNodes := nodes, targetMask := targetMask, demand := demand
      previousNodes := if follows then previous else []
      onlineCpuCount := chosen.onlineCpuCount, capacityLimit := chosen.capacityLimit
      capacityHeadroom := chosen.capacityHeadroom, relationLatency := chosen.relationLatency
      backgroundDemand := chosen.backgroundDemand, initialMigrations := chosen.initialMigrations
      expandConfirmation := e, shrinkConfirmation := h, nodeDecision := decision
      valid := reason.isNone, invalidReason := reason }
  { expandConfirmations := if follows then st.expandConfirmations.insert id e else st.expandConfirmations
    shrinkConfirmations := if follows then st.shrinkConfirmations.insert id h else st.shrinkConfirmations
    placedDomains := st.placedDomains ++ [(names, nodes)]
    domains := st.domains ++ [domain]
    valid := st.valid && reason.isNone
    invalidReason := match reason with
      | some r => some (id, r)
      | none => st.invalidReason }

def candidates (input : ProposeInput) (s : NumaDomainSolver) (families : OrdMap String (List ThreadDemand))
    (cross : OrdMap FamilyPair ℚ) (comps : OrdMap String (List String)) : CandidateState :=
  (comps.entries.map Prod.snd).foldl (addCandidate input s families cross)
    { expandConfirmations := s.expandConfirmations, shrinkConfirmations := s.shrinkConfirmations }

/-! ## The dwell -/

/-- Every family of the first list is one of the second. -/
def coveredBy (families candidate : List String) : Bool := families.all (fun f => candidate.contains f)

def overlaps (families candidate : List String) : Bool := candidate.any (fun f => families.contains f)

/-- A valid candidate that covers a committed domain is complete evidence for it. -/
def refreshEvidence (domains candidates : List NumaDomain) (nowNs : Nat) (evidence : OrdMap String Nat) :
    OrdMap String Nat :=
  domains.foldl (fun ev committed =>
    if candidates.any (fun c => c.valid && coveredBy committed.families c.families) then ev.insert committed.id nowNs
    else ev) evidence

structure Held where
  domains : List NumaDomain
  valid : Bool
  invalidReason : Option (String × InvalidReason)

/-- Whether a committed domain is still inside its dwell. -/
def inDwell (options : NumaDomainOptions) (nowNs : Nat) (evidence : OrdMap String Nat) (id : String) : Bool :=
  match evidence.find? id with
  | none => false
  | some confirmed => decide (subU64 nowNs confirmed < options.minimumDwellNs)

/-- The observed threads of a domain's families. -/
def membersOf (families : OrdMap String (List ThreadDemand)) (names : List String) : List ThreadDemand :=
  names.flatMap (fun n => families.getD n [])

/-- The committed domain as it is carried over. -/
def holdDomain (options : NumaDomainOptions) (families : OrdMap String (List ThreadDemand)) (committed : NumaDomain) :
    NumaDomain :=
  let members := membersOf families committed.families
  let tids := (members.map (·.identity.tid)).insertionSort (· ≤ ·)
  let demand := (members.map (·.demand)).sum
  let tooMany := decide (options.maximumThreadsPerDomain < tids.length)
  { committed with
    tids := tids
    demand := demand
    previousNodes := committed.targetNodes
    nodeDecision := .heldDomainDwell
    onlineCpuCount := committed.targetMask.length
    capacityLimit := committed.targetMask.length * options.capacityRatio
    capacityHeadroom := committed.targetMask.length * options.capacityRatio - demand
    initialMigrations := 0
    valid := committed.valid && !tooMany
    invalidReason := if tooMany then some .maximumThreadsPerDomainExceeded else committed.invalidReason }

/-- The body of the dwell loop. -/
def holdStep (options : NumaDomainOptions) (nowNs : Nat) (evidence : OrdMap String Nat)
    (families : OrdMap String (List ThreadDemand)) (st : Held) (committed : NumaDomain) : Held :=
  if !inDwell options nowNs evidence committed.id then st else
  if st.domains.any (fun c => coveredBy committed.families c.families) then st else
  if (membersOf families committed.families).isEmpty then st else
  let held := holdDomain options families committed
  let tooMany := decide (options.maximumThreadsPerDomain < held.tids.length)
  { domains := st.domains.filter (fun c => !overlaps committed.families c.families) ++ [held]
    valid := st.valid && !tooMany
    invalidReason := if tooMany then some (held.id, .maximumThreadsPerDomainExceeded) else st.invalidReason }

/-! ## The final plan -/

/-- The masks of one domain's threads over those already planned; `none` at the first empty intersection. -/
def planTids (tidMap : OrdMap Tid ThreadDemand) (allowedMasks : OrdMap Tid Mask) (targetMask : Mask) :
    List Tid → OrdMap Tid Mask → Option (OrdMap Tid Mask)
  | [], masks => some masks
  | tid :: tids, masks =>
    if tid ∈ tidMap then
      let target := targetFor allowedMasks targetMask tid
      if target.isEmpty then none else planTids tidMap allowedMasks targetMask tids (masks.insert tid target)
    else planTids tidMap allowedMasks targetMask tids masks

structure Plan where
  domains : List NumaDomain
  masks : OrdMap Tid Mask
  invalid : Option (String × InvalidReason) := none

/-- The rebuild over the sorted domains; it stops at the first domain with an empty intersection. -/
def planDomains (tidMap : OrdMap Tid ThreadDemand) (allowedMasks : OrdMap Tid Mask) :
    List NumaDomain → OrdMap Tid Mask → Plan
  | [], masks => { domains := [], masks := masks }
  | d :: ds, masks =>
    if !d.valid then
      let rest := planDomains tidMap allowedMasks ds masks
      { rest with domains := d :: rest.domains }
    else match planTids tidMap allowedMasks d.targetMask d.tids masks with
      | none =>
        let bad := { d with valid := false, invalidReason := some .emptyApplicationMaskIntersection }
        { domains := bad :: ds, masks := ∅, invalid := some (d.id, .emptyApplicationMaskIntersection) }
      | some masks' =>
        let rest := planDomains tidMap allowedMasks ds masks'
        { rest with domains := d :: rest.domains }

/-- The rebuild runs only while the plan is valid. -/
def finalPlan (tidMap : OrdMap Tid ThreadDemand) (allowedMasks : OrdMap Tid Mask) (held : Held) : Held × OrdMap Tid Mask :=
  let sorted := held.domains.insertionSort (fun a b => a.id ≤ b.id)
  if held.valid then
    let plan := planDomains tidMap allowedMasks sorted ∅
    ({ domains := plan.domains
       valid := plan.invalid.isNone
       invalidReason := match plan.invalid with
         | some r => some r
         | none => held.invalidReason }, plan.masks)
  else ({ held with domains := sorted }, ∅)

/-- What a planned TID needs: nothing, a note that it has the mask already, or a write. -/
inductive Need where
  | skip
  | inherited
  | action
  deriving DecidableEq

def need (placement allowedMasks : OrdMap Tid Mask) (tid : Tid) (target : Mask) : Need :=
  if placement.find? tid = some target then .skip
  else if placement.find? tid = none ∧ allowedMasks.getD tid [] = target then .inherited
  else .action

def actionFor (tidMap : OrdMap Tid ThreadDemand) (allowedMasks : OrdMap Tid Mask) (domains : List NumaDomain)
    (e : Tid × Mask) : Option NumaDomainAction :=
  (tidMap.find? e.1).map (fun thread =>
    { identity := thread.identity
      fromMask := allowedMasks.getD e.1 []
      targetMask := e.2
      targetNodes := (domains.find? (fun d => d.tids.contains e.1)).elim [] (·.targetNodes)
      forcedMigration := !e.2.contains thread.currentCpu })

/-! ## propose -/

def relationStage (input : ProposeInput) : Relations := relations (byTid input.threads) input.edges

def metricStage (s : NumaDomainSolver) (input : ProposeInput) : OrdMap String FamilyMetric :=
  familyMetrics input.options (relationStage input) s.familyConfirmations (byFamily input.threads)

def pairStage (s : NumaDomainSolver) (input : ProposeInput) : PairState :=
  confirmPairs input.options (relationStage input) s (metricStage s input)

def candidateStage (s : NumaDomainSolver) (input : ProposeInput) : CandidateState :=
  let pairs := pairStage s input
  candidates input s (byFamily input.threads) (relationStage input).cross
    (components (anchorNames pairs.metrics) pairs.confirmedSeeds)

/-- `last_confirmed_domain_evidence_ns_` as the dwell loop reads it. -/
def evidenceStage (s : NumaDomainSolver) (input : ProposeInput) : OrdMap String Nat :=
  refreshEvidence s.domains (candidateStage s input).domains input.nowNs s.lastConfirmedDomainEvidenceNs

def heldStage (s : NumaDomainSolver) (input : ProposeInput) : Held :=
  let cands := candidateStage s input
  s.domains.foldl (holdStep input.options input.nowNs (evidenceStage s input) (byFamily input.threads))
    { domains := cands.domains, valid := cands.valid, invalidReason := cands.invalidReason }

def planStage (s : NumaDomainSolver) (input : ProposeInput) : Held × OrdMap Tid Mask :=
  finalPlan (byTid input.threads) input.allowedMasks (heldStage s input)

/-- The managed TIDs that the plan no longer has. -/
def releasedBy (placement masks : OrdMap Tid Mask) : OrdSet Tid :=
  (placement.filter (fun tid _ => decide (tid ∉ masks))).mapVal (fun _ _ => ())

/-- The planned TIDs with one need. -/
def planned (s : NumaDomainSolver) (input : ProposeInput) (n : Need) : List (Tid × Mask) :=
  (planStage s input).2.entries.filter (fun e => decide (need s.placement input.allowedMasks e.1 e.2 = n))

def planConfirmation (s : NumaDomainSolver) (input : ProposeInput) : Int :=
  if planSignature (planStage s input).1.domains = s.pendingSignature then s.globalPlanConfirmation + 1 else 1

def planReady (s : NumaDomainSolver) (input : ProposeInput) : Bool :=
  let (final, masks) := planStage s input
  final.valid && ((!final.domains.isEmpty && decide (input.options.planConfirmations ≤ planConfirmation s input)) ||
    (final.domains.isEmpty && !(releasedBy s.placement masks).isEmpty))

/-- The proposal one call returns. -/
def proposalOf (s : NumaDomainSolver) (input : ProposeInput) : NumaDomainProposal :=
  let pairs := pairStage s input
  let (final, masks) := planStage s input
  let domains := final.domains.map (fun d => { d with confirmation := planConfirmation s input })
  let ready := planReady s input
  let actions := if ready then
    (planned s input .action).filterMap (actionFor (byTid input.threads) input.allowedMasks domains) else []
  { id := s.nextProposalId
    delta := { tidToMask := actions.foldl (fun m a => OrdMap.insert m a.identity.tid a.targetMask) ∅ }
    plannedMasks := masks
    inheritedTids := if ready then OrdSet.ofList ((planned s input .inherited).map Prod.fst) else ∅
    families := (pairs.metrics.mapVal (fun _ m => markAnchor m)).entries.map Prod.snd
    familyPairs := pairs.familyPairs
    domains := domains
    actions := actions
    releasedTids := releasedBy s.placement masks
    inputFamilyCount := (byFamily input.threads).size
    inputCrossFamilyPairCount := (relationStage input).cross.size
    selectedFamilyPairCount :=
      (selectFamilyEdges (relationStage input).cross input.options.familyEdgesPerFamily).toList.length
    totalDemand := (input.threads.map (·.demand)).sum
    totalRelation := (input.edges.map (·.score)).sum
    ready := ready
    valid := final.valid
    invalidReason := final.invalidReason }

/-- The solver's own state after the call. -/
def proposed (s : NumaDomainSolver) (input : ProposeInput) : NumaDomainSolver :=
  { s with
    nextProposalId := s.nextProposalId + 1
    familyConfirmations := confirmFamilies s.familyConfirmations (metricStage s input)
    mergeConfirmations := (pairStage s input).mergeConfirmations
    mergePendingGrace := (pairStage s input).mergePendingGrace
    globalPlanConfirmation := planConfirmation s input
    expandConfirmations := (candidateStage s input).expandConfirmations
    shrinkConfirmations := (candidateStage s input).shrinkConfirmations
    lastConfirmedDomainEvidenceNs := evidenceStage s input
    families := (proposalOf s input).families
    pendingSignature := planSignature (planStage s input).1.domains
    outstanding := some (proposalOf s input) }

def propose (s : NumaDomainSolver) (input : ProposeInput) : Outcome (NumaDomainProposal × NumaDomainSolver) :=
  if s.outstanding.isSome then .error (.thrown "outstanding NUMA domain proposal")
  else .ok (proposalOf s input, proposed s input)

/-! ## commit, discard, remove_thread -/

/-- `placement_` after a commit. -/
def commitPlacement (placement : OrdMap Tid Mask) (proposal : NumaDomainProposal) (committedTids : OrdSet Tid) :
    OrdMap Tid Mask :=
  let kept := proposal.releasedTids.toList.foldl OrdMap.erase placement
  let actionTids := proposal.actions.map (·.identity.tid)
  let planned := proposal.plannedMasks.entries.foldl (fun (p : OrdMap Tid Mask) e =>
    if e.1 ∈ p ∨ e.1 ∈ proposal.inheritedTids ∨
        (actionTids.contains e.1 = true ∧ (committedTids.isEmpty = true ∨ e.1 ∈ committedTids)) then p.insert e.1 e.2
    else p) kept
  proposal.actions.foldl (fun (p : OrdMap Tid Mask) a =>
    if committedTids.isEmpty = false ∧ a.identity.tid ∉ committedTids then p
    else p.insert a.identity.tid a.targetMask) planned

/-- The body of the loop over the committed domains. -/
def commitDomain (previous : List String) (nowNs : Nat) (s : NumaDomainSolver) (d : NumaDomain) : NumaDomainSolver :=
  { s with
    lastChangedNs :=
      if s.domainNodes.getD d.id [] ≠ d.targetNodes then s.lastChangedNs.insert d.id nowNs else s.lastChangedNs
    lastConfirmedDomainEvidenceNs :=
      if previous.contains d.id then s.lastConfirmedDomainEvidenceNs
      else s.lastConfirmedDomainEvidenceNs.insert d.id nowNs
    domainNodes := s.domainNodes.insert d.id d.targetNodes }

def commit (s : NumaDomainSolver) (proposal : NumaDomainProposal) (nowNs : Nat) (committedTids : OrdSet Tid := ∅) :
    Outcome NumaDomainSolver :=
  if s.outstanding.map (·.id) = some proposal.id then
    let s₁ := { s with placement := commitPlacement s.placement proposal committedTids }
    let s₂ := proposal.domains.foldl (commitDomain (s.domains.map (·.id)) nowNs) s₁
    .ok { s₂ with domains := proposal.domains, generation := s.generation + 1, outstanding := none }
  else .error (.thrown "NUMA domain proposal is not outstanding")

def discard (s : NumaDomainSolver) (proposal : NumaDomainProposal) : NumaDomainSolver :=
  if s.outstanding.map (·.id) = some proposal.id then { s with outstanding := none } else s

def reset (_ : NumaDomainSolver) : NumaDomainSolver := {}

def removeThread (s : NumaDomainSolver) (tid : Tid) : NumaDomainSolver := { s with placement := s.placement.erase tid }

def effective (s : NumaDomainSolver) : Bool := !s.placement.isEmpty

end NumaDomainSolver

end AffinityGraph
