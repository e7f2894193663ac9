import AffinityGraph.Emergencies
import AffinityGraph.ManagedThreads
import AffinityGraph.NodeFloors
import AffinityGraph.ProposalForm
import AffinityGraph.ReplaySolver
/-!
# ReplaySequence — a sequence of snapshots through the incremental solver (`affinity_replay.cpp`)

`run_sequence` keeps the threads it manages in step with one solver: it takes out those that cool down, proposes and commits
in the same frame.  The CPUs must stay the same from frame to frame, and the latencies need not.  `Follows` is what a frame's
result says of the one before it, and every sequence that is replayed is a chain of such (`runSequence_follows`).
-/
namespace AffinityGraph
namespace ReplaySequence

open IncrementalSolver (Kept Homed Booked)

/-! ## The code -/

/-- A frame with its snapshot as `read_snapshot` returns it. -/
structure Frame where
  timestampNs : Nat
  windowId : String
  hardware : HardwareGraph
  threads : List ThreadDemand
  edges : List RelationEdge
  cpus_nonempty : hardware.cpus ≠ []

/-- The strategy with the fields that only a sequence reads. -/
structure Strategy extends SolveOptions where
  inactiveThreshold : ℚ := 0
  minimumConfidence : ℚ := 4 / 5
  initialNodeThreadSlackRatio : ℚ := 1 / 2
  hotspotEdgesPerThread : Nat := 4
  hotspotEdgeQuantile : ℚ := 19 / 20
  hotspotComponentBoost : ℚ := 4
  maximumManagedThreads : Int := 32
  managedThreadHysteresisRatio : ℚ := 1
  hotspotReplanGrowthRatio : ℚ := 1 / 4
  hotspotReplanMinThreads : Nat := 8
  hotspotStabilityThreshold : ℚ := 13 / 20
  hotspotStabilityConfirmations : Int := 3

def Strategy.options (strategy : Strategy) : IncrementalOptions where
  maximumMigratedThreadsRatio := strategy.maximumMigratedActiveThreadsRatio
  proposalConfirmations := 3
  initialNodePasses := strategy.fmPasses.toNat
  initialNodeThreadSlackRatio := strategy.initialNodeThreadSlackRatio
  maximumThreadsPerCpu := if 0 < strategy.maxThreadsPerCpu then strategy.maxThreadsPerCpu else 0
  threadSlotSlack := strategy.slotSlack
  hotspotEdgesPerThread := strategy.hotspotEdgesPerThread
  hotspotEdgeQuantile := strategy.hotspotEdgeQuantile
  hotspotComponentBoost := strategy.hotspotComponentBoost
  maximumManagedThreads := strategy.maximumManagedThreads
  managedThreadHysteresisRatio := strategy.managedThreadHysteresisRatio
  hotspotReplanGrowthRatio := strategy.hotspotReplanGrowthRatio
  hotspotReplanMinThreads := strategy.hotspotReplanMinThreads
  hotspotStabilityThreshold := strategy.hotspotStabilityThreshold
  hotspotStabilityConfirmations := strategy.hotspotStabilityConfirmations

/-- `SequenceFrameResult`, without the time that `propose` took. -/
structure FrameResult where
  timestampNs : Nat := 0
  windowId : String := ""
  phase : IncrementalPhase := .uninitialized
  demandActive : Nat := 0
  managed : Nat := 0
  retainedManaged : Nat := 0
  replacedManaged : Nat := 0
  managedJaccard : ℚ := 1
  managedInternalHotspotCoverage : ℚ := 1
  managedIncidentHotspotCoverage : ℚ := 1
  eligible : Nat := 0
  pinned : Nat := 0
  dirty : Nat := 0
  candidates : Nat := 0
  budget : Nat := 0
  actions : Nat := 0
  cpuSlotCap : Int := 0
  maximumCpuThreads : Nat := 0
  predictedDemandThreads : Nat := 0
  relationEdgesInput : Nat := 0
  hotspotEdges : Nat := 0
  hotspotSimilarity : ℚ := 0
  hotspotStabilityConfirmation : Int := 0
  hotspotReplanTriggered : Bool := false
  relationNodeLocality : ℚ := 1
  p95RelationNodeLocality : ℚ := 1
  sameCpuRelationRatio : ℚ := 0
  hotspotNodeLocality : ℚ := 1
  hotspotSameCpuRatio : ℚ := 0
  crossNodeHotspotWeight : ℚ := 0
  minimumNodeUtilization : ℚ := 0
  maximumNodeUtilization : ℚ := 0
  generation : Nat := 0
  effective : Bool := false
  placement : OrdMap Tid Int := ∅

/-- What the loop carries from frame to frame. -/
structure State where
  solver : IncrementalSolver := { shadow := true }
  activeCohort : OrdSet Tid := ∅
  topology : List Cpu := []

/-- The threads that are confident, and active enough to enter or to stay. -/
def activeCandidates (strategy : Strategy) (cohort : OrdSet Tid) (threads : List ThreadDemand) : List ThreadDemand :=
  (threads.filter (fun t => !decide (t.confidence < strategy.minimumConfidence))).filter (fun t =>
    decide (strategy.activeThreshold ≤ t.demand) ||
      (decide (t.identity.tid ∈ cohort) && decide (strategy.inactiveThreshold ≤ t.demand)))

def byTid (threads : List ThreadDemand) : OrdMap Tid ThreadDemand :=
  threads.foldl (fun m t => m.insert t.identity.tid t) ∅

def weight (edges : List RelationEdge) : ℚ := (edges.map (·.score)).sum

/-- `whole > 0 ? part / whole : otherwise`. -/
def share (part whole otherwise : ℚ) : ℚ := if 0 < whole then part / whole else otherwise

/-- `percentile`. -/
def percentile (values : List ℚ) (quantile : ℚ) : ℚ :=
  if values = [] then 0
  else (values.insertionSort (· ≤ ·)).getD (⌈quantile * values.length⌉ - 1).toNat 0

/-- `cpu_node`: the last CPU with an id decides, and an id that is not there reads as node 0. -/
def nodeOf (hardware : HardwareGraph) (cpu : Int) : Int :=
  (hardware.cpus.foldl (fun (m : OrdMap Int Int) c => m.insert c.id c.node) ∅).getD cpu 0

/-- The edges with both ends placed. -/
def placedEdges (placement : OrdMap Tid Int) (edges : List RelationEdge) : List RelationEdge :=
  edges.filter (fun e => decide (e.fromTid ∈ placement ∧ e.toTid ∈ placement))

def sameCpu (placement : OrdMap Tid Int) (e : RelationEdge) : Bool :=
  decide (placement.getD e.fromTid 0 = placement.getD e.toTid 0)

def sameNode (hardware : HardwareGraph) (placement : OrdMap Tid Int) (e : RelationEdge) : Bool :=
  decide (nodeOf hardware (placement.getD e.fromTid 0) = nodeOf hardware (placement.getD e.toTid 0))

def threadsOn (placement : OrdMap Tid Int) (cpu : Int) : Nat :=
  (placement.entries.filter (fun e => decide (e.2 = cpu))).length

/-- The demand of the managed threads on the CPUs of a node, for each CPU the node has online. -/
def utilization (hardware : HardwareGraph) (placement : OrdMap Tid Int) (threads : List ThreadDemand) (node : Int) : ℚ :=
  ((threads.filter (fun t => decide (t.identity.tid ∈ placement ∧
    nodeOf hardware (placement.getD t.identity.tid 0) = node))).map (·.demand)).sum /
      (hardware.cpusInNode node).length

/-- The nodes with an online CPU, ascending. -/
def onlineNodes (hardware : HardwareGraph) : List Int :=
  (OrdSet.ofList ((hardware.cpus.filter (·.online)).map (·.node))).toList

/-- The cohort of a frame, and the solver without the threads that have cooled down. -/
def manage (strategy : Strategy) (st : State) (frame : Frame) : List ThreadDemand × OrdSet Tid × IncrementalSolver :=
  let active := selectManagedThreads (activeCandidates strategy st.activeCohort frame.threads) frame.edges st.activeCohort
    strategy.options
  let next := OrdSet.ofList (active.map (·.identity.tid))
  (active, next, (st.activeCohort.toList.filter (fun t => decide (t ∉ next))).foldl IncrementalSolver.removeThread st.solver)

def input (strategy : Strategy) (frame : Frame) (active : List ThreadDemand) : IncrementalInput where
  hardware := frame.hardware
  threads := active
  edges := frame.edges
  options := strategy.options
  nowNs := frame.timestampNs

/-- The record of a frame, after the commit. -/
def record (strategy : Strategy) (st : State) (frame : Frame) (active : List ThreadDemand) (next : OrdSet Tid)
    (proposal : SolverProposal) (solver : IncrementalSolver) : FrameResult :=
  let candidates := activeCandidates strategy st.activeCohort frame.threads
  let retained := st.activeCohort.toList.filter (fun t => decide (t ∈ next))
  let combined := (next.toList.foldl OrdSet.add st.activeCohort).size
  let hotspots := selectHotspotEdges frame.edges (byTid candidates) strategy.options
  let internal := weight (hotspots.filter (fun e => decide (e.fromTid ∈ next ∧ e.toTid ∈ next)))
  let incident := weight (hotspots.filter (fun e => decide (e.fromTid ∈ next ∨ e.toTid ∈ next)))
  let relations := (placedEdges solver.placement frame.edges).filter (fun e => decide (0 < e.score))
  let p95 := percentile (relations.map (·.score)) (19 / 20)
  let heavy := relations.filter (fun e => decide (p95 ≤ e.score + 1 / 10 ^ 12))
  let selected := placedEdges solver.placement (selectHotspotEdges frame.edges (byTid active) strategy.options)
  let utilizations := (onlineNodes frame.hardware).map (utilization frame.hardware solver.placement active)
  { timestampNs := frame.timestampNs
    windowId := frame.windowId
    phase := solver.phase
    demandActive := candidates.length
    managed := active.length
    retainedManaged := retained.length
    replacedManaged := st.activeCohort.size - retained.length
    managedJaccard := if combined = 0 then 1 else retained.length / combined
    managedInternalHotspotCoverage := share internal (weight hotspots) 1
    managedIncidentHotspotCoverage := share incident (weight hotspots) 1
    eligible := proposal.eligibleThreads
    pinned := solver.pinned.size
    dirty := proposal.dirtyThreads
    candidates := proposal.candidateThreads
    budget := proposal.migrationBudget
    actions := proposal.actions.length
    cpuSlotCap := proposal.cpuSlotCap
    maximumCpuThreads := ((solver.placement.entries.map Prod.snd).map (threadsOn solver.placement)).foldl max 0
    predictedDemandThreads := proposal.predictedDemandThreads
    relationEdgesInput := proposal.relationEdgesInput
    hotspotEdges := proposal.hotspotEdges
    hotspotSimilarity := proposal.hotspotSimilarity
    hotspotStabilityConfirmation := proposal.hotspotStabilityConfirmation
    hotspotReplanTriggered := proposal.hotspotReplanTriggered
    relationNodeLocality := share (weight (relations.filter (sameNode frame.hardware solver.placement))) (weight relations) 1
    p95RelationNodeLocality := share (weight (heavy.filter (sameNode frame.hardware solver.placement))) (weight heavy) 1
    sameCpuRelationRatio := share (weight (relations.filter (sameCpu solver.placement))) (weight relations) 0
    hotspotNodeLocality := share (weight (selected.filter (sameNode frame.hardware solver.placement))) (weight selected) 1
    hotspotSameCpuRatio := share (weight (selected.filter (sameCpu solver.placement))) (weight selected) 0
    crossNodeHotspotWeight := weight (selected.filter (fun e => !sameNode frame.hardware solver.placement e))
    minimumNodeUtilization := match utilizations with
      | [] => 0
      | u :: us => us.foldl min u
    maximumNodeUtilization := utilizations.foldl max 0
    generation := solver.generation
    effective := solver.effective
    placement := solver.placement }

/-- What is ready is committed at once, without a list of TIDs: all of it. -/
def settle (proposal : SolverProposal) (proposed : IncrementalSolver) (nowNs : Nat) : IncrementalSolver :=
  if proposal.ready then proposed.commit proposal nowNs else proposed

/-- One turn of the loop over the frames. -/
def play (strategy : Strategy) (st : State) (frame : Frame) : Outcome (FrameResult × State) :=
  if st.topology ≠ [] ∧ frame.hardware.cpus ≠ st.topology then .error (.thrown "sequence changes CPU topology") else
  let (active, next, cooled) := manage strategy st frame
  match cooled.propose (input strategy frame active) with
  | .error e => .error e
  | .ok (proposal, proposed) =>
    let solver := settle proposal proposed frame.timestampNs
    .ok (record strategy st frame active next proposal solver, ⟨solver, next, frame.hardware.cpus⟩)

def playAll (strategy : Strategy) : State → List Frame → Outcome (List FrameResult)
  | _, [] => .ok []
  | st, frame :: frames =>
    match play strategy st frame with
    | .error e => .error e
    | .ok (result, st') =>
      match playAll strategy st' frames with
      | .error e => .error e
      | .ok results => .ok (result :: results)

/-- `run_sequence`. -/
def runSequence (strategy : Strategy) (frames : List Frame) : Outcome (List FrameResult) :=
  match playAll strategy {} frames with
  | .error e => .error e
  | .ok [] => .error (.thrown "replay sequence has no frames")
  | .ok results => .ok results

/-! ## The CPUs decide, not the latencies -/

section Cpus

variable {hardware hardware' : HardwareGraph} {s : IncrementalSolver}

theorem hasCpu_congr (h : hardware.cpus = hardware'.cpus) {cpu : Int} (hc : hardware.HasCpu cpu) : hardware'.HasCpu cpu := by
  unfold HardwareGraph.HasCpu at hc ⊢
  rwa [← h]

theorem booked_congr (h : hardware.cpus = hardware'.cpus) (hb : Booked hardware s) : Booked hardware' s where
  identities := hb.identities
  keyed := hb.keyed
  pinned := hb.pinned
  placed := hb.placed
  moved := hb.moved
  targets hp t ht := by
    obtain ⟨cpu, hcpu, hhas, hnode⟩ := hb.targets hp t ht
    have hsame : cpuNode hardware cpu = cpuNode hardware' cpu := by
      unfold cpuNode
      rw [h]
    exact ⟨cpu, hcpu, hasCpu_congr h hhas, hsame ▸ hnode⟩
  candidates := hb.candidates
  candidateNodes t n hn := by
    have hsame : hardware.nodes = hardware'.nodes := by
      unfold HardwareGraph.nodes
      rw [h]
    exact hsame ▸ hb.candidateNodes t n hn
  calm := hb.calm

/-- **What the solver knows of the hardware is its CPUs.** -/
theorem kept_congr (h : hardware.cpus = hardware'.cpus) (hk : Kept hardware s) (hh : Homed hardware s) :
    Kept hardware' s ∧ Homed hardware' s :=
  ⟨⟨booked_congr h hk.booked, hk.settled, hk.offered⟩,
    fun t cpu hf => hasCpu_congr h (hh.placed t cpu hf), fun p hp a ha => hasCpu_congr h (hh.offered p hp a ha)⟩

end Cpus

/-! ## One proposal and its commit -/

section Turn

open IncrementalSolver

variable {s s' : IncrementalSolver} {i : IncrementalInput} {p : SolverProposal}

theorem generation_takenIn (s : IncrementalSolver) (i : IncrementalInput) : (takenIn s i).solver.generation = s.generation := by
  unfold takenIn
  refine Loop.foldl_keeps (fun st : Intake => st.solver.generation = s.generation) (fun st th h => ?_) _ ?_
  · have hforget : (forgetReused st.solver th.identity).generation = s.generation := by
      rcases forgetReused_cases st.solver th.identity with ⟨he, -⟩ | ⟨he, -⟩ <;> rw [he] <;> exact h
    unfold takeIn
    dsimp only
    split
    · exact hforget
    · split <;> exact hforget
  · exact dropStale_keeps (P := fun u => u.generation = s.generation) (fun u tid h => h) _ _ rfl

theorem generation_intake (s : IncrementalSolver) (i : IncrementalInput) : (intake s i).1.generation = s.generation := by
  have hphase : ∀ st : Intake, (settlePhase i st).generation = st.solver.generation := by
    intro st
    have harrivals : (afterArrivals i st).generation = st.solver.generation := by
      unfold afterArrivals
      split
      · rfl
      · split <;> rfl
    rw [settlePhase_eq]
    split <;> exact harrivals
  have hhotspots : ∀ u : IncrementalSolver, (settleHotspots i u).1.generation = u.generation := by
    intro u
    unfold settleHotspots
    dsimp only
    split
    · split
      · split <;> rfl
      · split <;> rfl
    · rfl
  have h := ((hhotspots _).trans (hphase _)).trans (generation_takenIn s i)
  rw [intake_eq]
  dsimp only
  split
  · exact h
  · split <;> exact h

theorem generation_nodePlanning {proposal : SolverProposal} {r : SolverProposal × IncrementalSolver}
    (hr : nodePlanning s i proposal = .ok r) : r.2.generation = s.generation := by
  unfold nodePlanning at hr
  cases hplan : planNodes s i with
  | error e =>
    rw [hplan] at hr
    cases hr
  | ok plan =>
    rw [hplan] at hr
    cases hr
    rcases confirmNodes_cases s i proposal (swapPasses s i (communityOrder s).ordered i.options.initialNodePasses plan) with
      he | he
    · have hfield := congrArg IncrementalSolver.generation he
      exact hfield
    · have hfield := congrArg IncrementalSolver.generation he
      exact hfield

/-- What a solver without an outstanding proposal proposes: it is outstanding when it has actions, of which there are no more
than the budget, and the threads are those of the window. -/
structure Proposed (s : IncrementalSolver) (i : IncrementalInput) (p : SolverProposal) (s' : IncrementalSolver) : Prop where
  threads : s'.threads = (intake s i).1.threads
  placement : s'.placement = (intake s i).1.placement
  generation : s'.generation = s.generation
  distinct : (p.actions.map (·.identity.tid)).Nodup
  known : ∀ a ∈ p.actions, a.identity.tid ∈ s'.threads
  budget : p.actions.length ≤ p.migrationBudget
  outstanding : p.actions = [] ∧ p.ready = false ∧ s'.outstanding = none ∨
    p.actions ≠ [] ∧ p.ready = true ∧ s'.outstanding = some p

theorem offered {u : IncrementalSolver} {q : SolverProposal} (hnone : u.outstanding = none) :
    (offer u q).1.actions = [] ∧ (offer u q).1.ready = false ∧ (offer u q).2.outstanding = none ∨
      (offer u q).1.actions ≠ [] ∧ (offer u q).1.ready = true ∧ (offer u q).2.outstanding = some (offer u q).1 := by
  unfold offer
  dsimp only
  cases hactions : q.actions with
  | nil => exact Or.inl ⟨rfl, rfl, hnone⟩
  | cons a l => exact Or.inr ⟨List.cons_ne_nil a l, rfl, rfl⟩

/-- The pinning branch keeps the budget, and offers what it has unless the budget is 0. -/
theorem initialPinning_offers {proposal : SolverProposal} {r : SolverProposal × IncrementalSolver}
    (hnone : s.outstanding = none) (hr : initialPinning s i proposal = .ok r) :
    r.1.migrationBudget = proposal.migrationBudget ∧
    (r.1.actions = proposal.actions ∧ r.2.outstanding = none ∨
      (r.1.actions = [] ∧ r.1.ready = false ∧ r.2.outstanding = none ∨
        r.1.actions ≠ [] ∧ r.1.ready = true ∧ r.2.outstanding = some r.1)) := by
  unfold initialPinning at hr
  dsimp only at hr
  split at hr
  · cases hr
    exact ⟨rfl, Or.inl ⟨rfl, hnone⟩⟩
  · cases hs : seatBatch i (pendingBatch s i.hardware proposal.migrationBudget)
        { solver := readTargets s, projected := vacated s (pendingBatch s i.hardware proposal.migrationBudget) } with
    | error e =>
      rw [hs] at hr
      cases hr
    | ok st =>
      have hkept : st.solver.outstanding = none := by
        rw [seatBatch_same hs]
        exact hnone
      rw [hs] at hr
      cases hr
      exact ⟨rfl, Or.inr (offered hkept)⟩

theorem propose_proposed (hd : i.hardware.Discovered) (hk : Kept i.hardware s) (hnone : s.outstanding = none)
    (h : propose s i = .ok (p, s')) : Proposed s i p s' := by
  have hout : (intake s i).1.outstanding = none := (intake_outstanding s i).trans hnone
  have hgen := generation_intake s i
  have hidle : ∀ {q : SolverProposal} {u : IncrementalSolver}, q.actions = [] → Filled q → u.outstanding = none →
      q.actions = [] ∧ q.ready = false ∧ u.outstanding = none ∨ q.actions ≠ [] ∧ q.ready = true ∧ u.outstanding = some q :=
    fun hnil hf hu => Or.inl ⟨hnil, by rw [hf.ready, hnil]; rfl, hu⟩
  have hempty : ∀ {q : SolverProposal} {T : OrdMap Tid ThreadDemand}, q.actions = [] →
      (q.actions.map (·.identity.tid)).Nodup ∧ (∀ a ∈ q.actions, a.identity.tid ∈ T) ∧
        q.actions.length ≤ q.migrationBudget := fun hnil => by
    rw [hnil]
    exact ⟨List.nodup_nil, fun a ha => absurd ha List.not_mem_nil, Nat.zero_le _⟩
  obtain hsame | ⟨-, hcpus, hphases⟩ := propose_cases h
  · rw [hsame.1] at hnone
    cases hnone
  obtain ⟨hib, -⟩ := intake_booked hd (cpus_ne_nil_of_online hcpus) hk.booked hk.settled
  rcases hphases with ⟨-, rfl, rfl⟩ | ⟨-, hr⟩ | ⟨hphase, hr⟩ | ⟨-, hr⟩
  · obtain ⟨hdistinct, hknown, hbudget⟩ := hempty (intake_actions s i)
    exact ⟨rfl, rfl, hgen, hdistinct, hknown, hbudget, hidle (intake_actions s i) (intake_filled s i) hout⟩
  · obtain ⟨hactions, ho, hthreads, -, hplacement, -⟩ := nodePlanning_same hr
    have hnil := hactions.trans (intake_actions s i)
    obtain ⟨hdistinct, hknown, hbudget⟩ := hempty hnil
    exact ⟨hthreads, hplacement, (generation_nodePlanning hr).trans hgen, hdistinct, hknown, hbudget,
      hidle hnil (nodePlanning_filled (intake_filled s i) hr) (ho.trans hout)⟩
  · have hsame := (initialPinning_same hr).1
    obtain ⟨hdistinct, hlength⟩ := initialPinning_tids hib hphase (intake_actions s i) hr
    have hheader := (initialPinning_offers hout hr).1
    have hfilled := initialPinning_filled hib hphase (intake_filled s i) hr
    dsimp only at hsame hfilled hdistinct hlength
    have hknown : ∀ a ∈ p.actions, a.identity.tid ∈ s'.threads := by
      intro a ha
      obtain ⟨t, ht, -, hid, -⟩ := initialPinning_actions hib hphase (intake_actions s i) hr ha
      rw [hid, (hib.identityOf ht).2, hsame]
      exact ht
    refine ⟨by rw [hsame], by rw [hsame], by rw [hsame]; exact hgen, hdistinct, hknown, by rw [hheader]; exact hlength, ?_⟩
    rcases (initialPinning_offers hout hr).2 with ⟨hactions, ho⟩ | ho
    · exact hidle (hactions.trans (intake_actions s i)) hfilled ho
    · exact ho
  · have hsame := optimize_same (intake s i).1 i (intake s i).2
    obtain ⟨hdistinct, hlength⟩ := optimize_distinct hib (intake_actions s i)
    have hheader : (optimize (intake s i).1 i (intake s i).2).1.migrationBudget = (intake s i).2.migrationBudget := by
      unfold optimize
      dsimp only
      split <;> rfl
    have hfilled : Filled (optimize (intake s i).1 i (intake s i).2).1 := optimize_filled (intake_filled s i)
    have hknown : ∀ a ∈ (optimize (intake s i).1 i (intake s i).2).1.actions, a.identity.tid ∈ (intake s i).1.threads := by
      intro a ha
      obtain ⟨t, ht, -, hid, -⟩ := optimize_actions (intake_actions s i) ha
      rw [hid, (hib.identityOf ht).2]
      exact ht
    rw [hr] at hsame hdistinct hlength hheader hfilled hknown
    dsimp only at hsame hdistinct hlength hheader hfilled hknown
    refine ⟨by rw [hsame], by rw [hsame], by rw [hsame]; exact hgen, hdistinct, by rw [hsame]; exact hknown,
      by rw [hheader]; exact hlength, ?_⟩
    unfold optimize at hr
    dsimp only at hr
    split at hr
    · cases hr
      exact hidle (intake_actions s i) hfilled hout
    · obtain ⟨rfl, rfl⟩ := Prod.mk.inj hr
      exact offered hout

/-- The proposal, as a call of the solver. -/
theorem propose_kept (hd : i.hardware.Discovered) (hn : (i.threads.map (·.identity.tid)).Nodup) (hk : Kept i.hardware s)
    (hh : Homed i.hardware s) (h : propose s i = .ok (p, s')) : Kept i.hardware s' ∧ Homed i.hardware s' := by
  have hstep : step s (.propose i) = some s' := by
    rw [step, h]
    rfl
  have hprotocol : Protocol i.hardware s (.propose i) := ⟨rfl, hn⟩
  exact ⟨hk.step hd hprotocol hstep, propose_homed hd hk hh h⟩

/-- What the frame's proposal leads to. -/
structure Turned (s : IncrementalSolver) (i : IncrementalInput) (p : SolverProposal) (u : IncrementalSolver) : Prop where
  kept : Kept i.hardware u
  homed : Homed i.hardware u
  idle : u.outstanding = none
  threads : u.threads = (intake s i).1.threads
  generation : u.generation = s.generation + if p.actions = [] then 0 else 1
  moved : ∀ t cpu, u.placement.find? t = some cpu →
    (∃ a ∈ p.actions, a.identity.tid = t) ∨ s.placement.find? t = some cpu

theorem settle_turned (hd : i.hardware.Discovered) (hn : (i.threads.map (·.identity.tid)).Nodup) (hk : Kept i.hardware s)
    (hh : Homed i.hardware s) (hnone : s.outstanding = none) (h : propose s i = .ok (p, s')) (nowNs : Nat) :
    Turned s i p (settle p s' nowNs) := by
  have hp := propose_proposed hd hk hnone h
  obtain ⟨hk', hh'⟩ := propose_kept hd hn hk hh h
  have hbefore : ∀ t cpu, s'.placement.find? t = some cpu → s.placement.find? t = some cpu := by
    intro t cpu hf
    rw [hp.placement] at hf
    exact find?_placement_intake hf
  rcases hp.outstanding with ⟨hnil, hready, hout⟩ | ⟨hne, hready, hout⟩
  · have hsame : settle p s' nowNs = s' := by
      unfold settle
      rw [hready]
      rfl
    rw [hsame]
    refine ⟨hk', hh', hout, hp.threads, ?_, fun t cpu hf => Or.inr (hbefore t cpu hf)⟩
    rw [if_pos hnil]
    exact hp.generation
  · have hsame : settle p s' nowNs = s'.commit p nowNs := if_pos hready
    have hprotocol : Protocol i.hardware s' (.commit nowNs ∅) := by
      intro q hq a ha
      rw [hout] at hq
      cases hq
      exact iff_of_true rfl (hp.known a ha)
    have hstep : step s' (.commit nowNs ∅) = some (s'.commit p nowNs) := by
      rw [step, hout]
      rfl
    have hsettled : ∀ u : IncrementalSolver, (settlePinning u).threads = u.threads ∧
        (settlePinning u).generation = u.generation := by
      intro u
      unfold settlePinning
      split <;> exact ⟨rfl, rfl⟩
    have hcommitted : (committed s' nowNs ∅ p.actions).threads = s'.threads ∧
        (committed s' nowNs ∅ p.actions).generation = s'.generation := by
      refine Loop.foldl_keeps (fun u : IncrementalSolver => u.threads = s'.threads ∧ u.generation = s'.generation)
        (fun u a hu => ?_) p.actions ⟨rfl, rfl⟩
      unfold commitAction
      dsimp only
      split <;> exact hu
    rw [hsame]
    refine ⟨hk'.step hd hprotocol hstep, ⟨?_, ?_⟩, commit_settles hout nowNs ∅, ?_, ?_, fun t cpu hf => ?_⟩
    · rw [placement_commit hout]
      exact committed_homed nowNs ∅ p.actions hh'.placed (hh'.offered p hout)
    · intro q hq
      rw [commit_settles hout nowNs ∅] at hq
      cases hq
    · rw [commit_eq hout]
      exact ((hsettled _).1.trans hcommitted.1).trans hp.threads
    · rw [commit_eq hout, if_neg hne]
      show (settlePinning (committed s' nowNs ∅ p.actions)).generation + 1 = _
      rw [(hsettled _).2, hcommitted.2, hp.generation]
    · rw [placement_commit hout] at hf
      rcases find?_committed hp.distinct hf with ⟨a, ha, htid, -⟩ | ⟨-, hf⟩
      · exact Or.inl ⟨a, ha, htid⟩
      · exact Or.inr (hbefore t cpu hf)

/-- Threads that leave. -/
theorem removed_kept {hardware : HardwareGraph} (hd : hardware.Discovered) (tids : List Tid) (hk : Kept hardware s)
    (hh : Homed hardware s) : Kept hardware (tids.foldl removeThread s) ∧ Homed hardware (tids.foldl removeThread s) ∧
      (tids.foldl removeThread s).generation = s.generation ∧
      ∀ t cpu, (tids.foldl removeThread s).placement.find? t = some cpu → s.placement.find? t = some cpu := by
  refine Loop.foldl_keeps (fun u : IncrementalSolver => Kept hardware u ∧ Homed hardware u ∧ u.generation = s.generation ∧
    ∀ t cpu, u.placement.find? t = some cpu → s.placement.find? t = some cpu) (fun u tid hu => ?_) tids
    ⟨hk, hh, rfl, fun _ _ hf => hf⟩
  obtain ⟨hku, hhu, hgen, hplace⟩ := hu
  have hprotocol : Protocol hardware u (.removeThread tid) := trivial
  exact ⟨hku.step hd hprotocol rfl, ⟨fun t cpu hf => hhu.placed t cpu (OrdMap.find?_of_erase hf), hhu.offered⟩, hgen,
    fun t cpu hf => hplace t cpu (OrdMap.find?_of_erase hf)⟩

end Turn

/-! ## Numbers of a record -/

section Numbers

theorem length_le_size {κ ν : Type} [LinearOrder κ] {l : List κ} {m : OrdMap κ ν} (hn : l.Nodup) (h : ∀ k ∈ l, k ∈ m) :
    l.length ≤ m.size := by
  rw [OrdMap.size_eq_length_keys]
  exact (hn.subperm (fun k hk => OrdMap.mem_keys.2 (h k hk))).length_le

theorem size_le_size {κ ν μ : Type} [LinearOrder κ] {a : OrdMap κ ν} {b : OrdMap κ μ} (h : ∀ k ∈ a, k ∈ b) :
    a.size ≤ b.size := by
  rw [OrdMap.size_eq_length_keys a]
  exact length_le_size a.nodup_keys (fun k hk => h k (OrdMap.mem_keys.1 hk))

theorem size_ofList {κ : Type} [LinearOrder κ] {l : List κ} (hn : l.Nodup) : (OrdSet.ofList l).size = l.length := by
  have hperm : (OrdSet.ofList l).keys.Perm l :=
    (List.perm_ext_iff_of_nodup (OrdMap.nodup_keys _) hn).2 (fun k => OrdMap.mem_keys.trans OrdSet.mem_ofList)
  rw [OrdMap.size_eq_length_keys, hperm.length_eq]

/-- Of edges with scores that are not negative, fewer weigh no more. -/
theorem weight_filter_le {edges : List RelationEdge} {a b : RelationEdge → Bool} (hpos : ∀ e ∈ edges, 0 ≤ e.score)
    (hab : ∀ e ∈ edges, a e = true → b e = true) :
    0 ≤ weight (edges.filter a) ∧ weight (edges.filter a) ≤ weight (edges.filter b) := by
  induction edges with
  | nil => exact ⟨le_refl _, le_refl _⟩
  | cons e edges ih =>
    obtain ⟨hnonneg, hle⟩ := ih (fun x hx => hpos x (List.mem_cons_of_mem e hx)) (fun x hx => hab x (List.mem_cons_of_mem e hx))
    have he := hpos e List.mem_cons_self
    unfold weight at hnonneg hle ⊢
    cases ha : a e with
    | true =>
      rw [List.filter_cons_of_pos ha, List.filter_cons_of_pos (hab e List.mem_cons_self ha), List.map_cons, List.map_cons,
        List.sum_cons, List.sum_cons]
      exact ⟨add_nonneg he hnonneg, add_le_add_right hle _⟩
    | false =>
      rw [List.filter_cons_of_neg (by rw [ha]; decide)]
      refine ⟨hnonneg, hle.trans ?_⟩
      cases hb : b e with
      | true =>
        rw [List.filter_cons_of_pos hb, List.map_cons, List.sum_cons]
        exact le_add_of_nonneg_left he
      | false =>
        rw [List.filter_cons_of_neg (by rw [hb]; decide)]

theorem jaccard_bounds (previous next : OrdSet Tid) :
    0 ≤ (if (next.toList.foldl OrdSet.add previous).size = 0 then (1 : ℚ)
      else ((previous.toList.filter (fun t => decide (t ∈ next))).length : ℚ) /
        ((next.toList.foldl OrdSet.add previous).size : ℚ)) ∧
    (if (next.toList.foldl OrdSet.add previous).size = 0 then (1 : ℚ)
      else ((previous.toList.filter (fun t => decide (t ∈ next))).length : ℚ) /
        ((next.toList.foldl OrdSet.add previous).size : ℚ)) ≤ 1 := by
  have hshared : (previous.toList.filter (fun t => decide (t ∈ next))).length ≤
      (next.toList.foldl OrdSet.add previous).size := by
    refine length_le_size ((OrdMap.nodup_keys previous).sublist List.filter_sublist) (fun t ht => ?_)
    exact (OrdSet.mem_foldl_add _ _).2 (Or.inl (OrdSet.mem_toList.1 (List.mem_filter.1 ht).1))
  split
  · exact ⟨zero_le_one, le_refl _⟩
  · rename_i hne
    have hpos : (0 : ℚ) < ((next.toList.foldl OrdSet.add previous).size : ℚ) := by
      exact_mod_cast Nat.pos_of_ne_zero hne
    exact ⟨div_nonneg (Nat.cast_nonneg _) hpos.le, (div_le_one hpos).2 (Nat.cast_le.2 hshared)⟩

theorem share_le {a b whole : ℚ} (ha : 0 ≤ a) (hab : a ≤ b) (hb : b ≤ whole) :
    0 ≤ share a whole 0 ∧ share a whole 0 ≤ share b whole 1 ∧ share b whole 1 ≤ 1 := by
  unfold share
  split
  · rename_i hpos
    exact ⟨div_nonneg ha hpos.le, div_le_div_of_nonneg_right hab hpos.le, (div_le_one hpos).2 hb⟩
  · exact ⟨le_refl _, zero_le_one, le_refl _⟩

/-- As many threads as may be managed. -/
theorem length_selectManagedThreads_le {threads : List ThreadDemand} {edges : List RelationEdge} {previous : OrdSet Tid}
    {options : IncrementalOptions} (hn : (threads.map (fun t => t.identity.tid)).Nodup)
    (hm : 0 < options.maximumManagedThreads) :
    ((selectManagedThreads threads edges previous options).length : Int) ≤ options.maximumManagedThreads := by
  unfold selectManagedThreads
  split
  · omega
  · let g := HotspotGraph.among threads edges options
    have hends := HotspotGraph.among_ends threads edges options
    let limit := min g.ranked.length options.maximumManagedThreads.toNat
    obtain ⟨hknown, hsize, -⟩ := g.admitted_spec hends (min_le_left _ _ : limit ≤ g.ranked.length) previous
      (min g.ranked.length ⌈(limit : ℚ) * (1 + options.managedThreadHysteresisRatio)⌉.toNat)
    obtain ⟨hin, hcount, -⟩ := HotspotGraph.refine_spec (fun e he => (hends e he).1) previous limit hknown
    have hlength := HotspotGraph.length_members hn (fun tid ht => HotspotGraph.mem_among.1 (hin tid ht))
    have hlimit : limit ≤ options.maximumManagedThreads.toNat := min_le_right _ _
    refine le_trans (Int.ofNat_le.2 (hlength.trans (hcount.trans hsize)).le) ?_
    omega

end Numbers

/-! ## A frame after another -/

/-- What the result of a frame says after the one before it. -/
structure Follows (strategy : Strategy) (previous : FrameResult) (frame : Frame) (result : FrameResult) : Prop where
  /-- Who is placed is a confident thread of the frame that is not inactive, on an online CPU of the frame. -/
  placed : ∀ t cpu, result.placement.find? t = some cpu → frame.hardware.HasCpu cpu ∧
    ∃ th ∈ frame.threads, th.identity.tid = t ∧ strategy.minimumConfidence ≤ th.confidence ∧
      strategy.inactiveThreshold ≤ th.demand
  counts : result.pinned = result.placement.size ∧ result.pinned ≤ result.managed ∧ result.managed ≤ result.demandActive
  managed : 0 < strategy.maximumManagedThreads → (result.managed : Int) ≤ strategy.maximumManagedThreads
  turnover : result.retainedManaged + result.replacedManaged = previous.managed
  /-- Who comes to a CPU has an action, and of these there are no more than the budget. -/
  moves : (result.placement.entries.filter (fun e => decide (previous.placement.find? e.1 ≠ some e.2))).length ≤
    result.actions ∧ result.actions ≤ result.budget
  generation : result.generation = previous.generation + if result.actions = 0 then 0 else 1
  effective : result.effective = true → result.pinned = result.managed ∧ 0 < result.managed
  jaccard : 0 ≤ result.managedJaccard ∧ result.managedJaccard ≤ 1
  locality : 0 ≤ result.sameCpuRelationRatio ∧ result.sameCpuRelationRatio ≤ result.relationNodeLocality ∧
    result.relationNodeLocality ≤ 1

/-- Every frame's result says so of the one before it. -/
def Chained (strategy : Strategy) : FrameResult → List Frame → List FrameResult → Prop
  | _, [], [] => True
  | previous, frame :: frames, result :: results =>
    Follows strategy previous frame result ∧ Chained strategy result frames results
  | _, _, _ => False

/-- A snapshot as the exporter writes it: the CPUs as they were discovered, and one thread to a TID. -/
structure Frame.Exported (frame : Frame) : Prop where
  discovered : frame.hardware.Discovered
  distinct : (frame.threads.map (·.identity.tid)).Nodup

/-- What holds between two frames. -/
structure Sound (st : State) (previous : FrameResult) : Prop where
  kept : ∀ hardware, st.topology = [] ∨ hardware.cpus = st.topology → Kept hardware st.solver ∧ Homed hardware st.solver
  idle : st.solver.outstanding = none
  managed : previous.managed = st.activeCohort.size
  placement : previous.placement = st.solver.placement
  generation : previous.generation = st.solver.generation

theorem Sound.start : Sound {} {} where
  kept hardware _ := ⟨Kept.new hardware true, Homed.new hardware true⟩
  idle := rfl
  managed := rfl
  placement := rfl
  generation := rfl

section Play

variable {strategy : Strategy} {st st' : State} {previous result : FrameResult} {frame : Frame}

theorem activeCandidates_sublist (strategy : Strategy) (cohort : OrdSet Tid) (threads : List ThreadDemand) :
    (activeCandidates strategy cohort threads).Sublist threads := List.filter_sublist.trans List.filter_sublist

theorem mem_activeCandidates {cohort : OrdSet Tid} {threads : List ThreadDemand} {th : ThreadDemand}
    (hle : strategy.inactiveThreshold ≤ strategy.activeThreshold) (h : th ∈ activeCandidates strategy cohort threads) :
    th ∈ threads ∧ strategy.minimumConfidence ≤ th.confidence ∧ strategy.inactiveThreshold ≤ th.demand := by
  obtain ⟨h, hdemand⟩ := List.mem_filter.1 h
  obtain ⟨hmem, hconfident⟩ := List.mem_filter.1 h
  rw [Bool.not_eq_true', decide_eq_false_iff_not, not_lt] at hconfident
  rw [Bool.or_eq_true, Bool.and_eq_true, decide_eq_true_eq, decide_eq_true_eq, decide_eq_true_eq] at hdemand
  exact ⟨hmem, hconfident, hdemand.elim hle.trans And.right⟩

/-- What a turn does: it manages, proposes and settles. -/
theorem play_eq_ok (h : play strategy st frame = .ok (result, st')) :
    (st.topology = [] ∨ frame.hardware.cpus = st.topology) ∧ ∃ active next cooled p s',
      manage strategy st frame = (active, next, cooled) ∧
      cooled.propose (input strategy frame active) = .ok (p, s') ∧
      result = record strategy st frame active next p (settle p s' frame.timestampNs) ∧
      st' = ⟨settle p s' frame.timestampNs, next, frame.hardware.cpus⟩ := by
  unfold play at h
  split at h
  · cases h
  · rename_i htopology
    refine ⟨?_, ?_⟩
    · by_cases hnil : st.topology = []
      · exact Or.inl hnil
      · exact Or.inr (not_not.1 (fun hne => htopology ⟨hnil, hne⟩))
    · obtain ⟨⟨active, next, cooled⟩, hmanage⟩ : ∃ x, manage strategy st frame = x := ⟨_, rfl⟩
      rw [hmanage] at h
      dsimp only at h
      split at h
      · cases h
      · rename_i p s' hr
        cases h
        exact ⟨active, next, cooled, p, s', hmanage, hr, rfl, rfl⟩

/-- **A turn of the loop.**  Its result follows the one before it, and the loop can go on from there. -/
theorem play_follows (hle : strategy.inactiveThreshold ≤ strategy.activeThreshold) (hf : frame.Exported)
    (hs : Sound st previous) (h : play strategy st frame = .ok (result, st')) :
    Follows strategy previous frame result ∧ Sound st' result := by
  obtain ⟨htopology, active, next, cooled, p, s', hmanage, hr, rfl, rfl⟩ := play_eq_ok h
  obtain ⟨hk, hh⟩ := hs.kept frame.hardware htopology
  have hactive : active = selectManagedThreads (activeCandidates strategy st.activeCohort frame.threads) frame.edges
      st.activeCohort strategy.options := (congrArg Prod.fst hmanage).symm
  have hnext : next = OrdSet.ofList (active.map (·.identity.tid)) := by
    rw [hactive]
    exact (congrArg (fun x => x.2.1) hmanage).symm
  have hcooled : cooled = (st.activeCohort.toList.filter (fun t => decide (t ∉ next))).foldl IncrementalSolver.removeThread
      st.solver := by
    rw [hnext, hactive]
    exact (congrArg (fun x => x.2.2) hmanage).symm
  have hsub : active.Sublist (activeCandidates strategy st.activeCohort frame.threads) := by
    rw [hactive]
    exact selectManagedThreads_sublist _ _ _ _
  have hcandidates : ((activeCandidates strategy st.activeCohort frame.threads).map (·.identity.tid)).Nodup :=
    hf.distinct.sublist ((activeCandidates_sublist strategy st.activeCohort frame.threads).map _)
  have hn : (active.map (·.identity.tid)).Nodup := hcandidates.sublist (hsub.map _)
  have htids : (IncrementalSolver.tids (input strategy frame active).threads).Nodup := hn
  obtain ⟨hkc, hhc, hgen, hplace⟩ := removed_kept hf.discovered
    (st.activeCohort.toList.filter (fun t => decide (t ∉ next))) hk hh
  have hidle := (IncrementalSolver.outstanding_foldl_removeThread
    (st.activeCohort.toList.filter (fun t => decide (t ∉ next))) st.solver).trans hs.idle
  rw [← hcooled] at hkc hhc hgen hplace hidle
  have hd : (input strategy frame active).hardware.Discovered := hf.discovered
  have hturn : Turned cooled (input strategy frame active) p (settle p s' frame.timestampNs) :=
    settle_turned hd hn hkc hhc hidle hr frame.timestampNs
  have hbudget := (propose_proposed hd hkc hidle hr).budget
  obtain ⟨u, hu⟩ : ∃ u, settle p s' frame.timestampNs = u := ⟨_, rfl⟩
  rw [hu] at hturn ⊢
  have hthreads : ∀ t, t ∈ u.threads ↔ t ∈ active.map (·.identity.tid) := by
    intro t
    have hmem : t ∈ (IncrementalSolver.intake cooled (input strategy frame active)).1.threads ↔
        t ∈ active.map (·.identity.tid) := IncrementalSolver.mem_intake htids
    rw [hturn.threads]
    exact hmem
  have hsize : u.threads.size = active.length := by
    have hlength : (IncrementalSolver.intake cooled (input strategy frame active)).1.threads.size = active.length :=
      IncrementalSolver.size_intake htids
    rw [hturn.threads]
    exact hlength
  have hbooked := hturn.kept.booked
  have hpinned : u.pinned.size = u.placement.size :=
    le_antisymm (size_le_size (fun t ht => (hbooked.pinned t).1 ht)) (size_le_size (fun t ht => (hbooked.pinned t).2 ht))
  have hretained : (st.activeCohort.toList.filter (fun t => decide (t ∈ next))).length ≤ st.activeCohort.size :=
    length_le_size ((OrdMap.nodup_keys st.activeCohort).sublist List.filter_sublist)
      (fun t ht => OrdSet.mem_toList.1 (List.mem_filter.1 ht).1)
  refine ⟨?_, ?_⟩
  · refine ⟨fun t cpu hf' => ?_, ⟨hpinned, ?_, hsub.length_le⟩, fun hm => ?_, ?_, ⟨?_, hbudget⟩, ?_, fun he => ?_, ?_, ?_⟩
    · refine ⟨hturn.homed.placed t cpu hf', ?_⟩
      obtain ⟨th, hth, htid⟩ := List.mem_map.1 ((hthreads t).1 (hbooked.placed t (OrdMap.mem_of_find hf')))
      obtain ⟨hmem, hconfident, hdemand⟩ := mem_activeCandidates hle (hsub.subset hth)
      exact ⟨th, hmem, htid, hconfident, hdemand⟩
    · show u.pinned.size ≤ active.length
      rw [hpinned, ← hsize]
      exact size_le_size hbooked.placed
    · show (active.length : Int) ≤ _
      rw [hactive]
      exact length_selectManagedThreads_le hcandidates hm
    · rw [hs.managed]
      exact Nat.add_sub_cancel' hretained
    · show (u.placement.entries.filter (fun e => decide (previous.placement.find? e.1 ≠ some e.2))).length ≤ p.actions.length
      have hkeys : ((u.placement.entries.filter (fun e => decide (previous.placement.find? e.1 ≠ some e.2))).map
          Prod.fst).Nodup := (OrdMap.nodup_keys u.placement).sublist (List.filter_sublist.map _)
      have hacted : (u.placement.entries.filter (fun e => decide (previous.placement.find? e.1 ≠ some e.2))).map Prod.fst ⊆
          p.actions.map (·.identity.tid) := by
        intro t ht
        obtain ⟨⟨t, cpu⟩, he, rfl⟩ := List.mem_map.1 ht
        obtain ⟨hin, hnew⟩ := List.mem_filter.1 he
        rw [decide_eq_true_eq, hs.placement] at hnew
        rcases hturn.moved t cpu (OrdMap.mem_entries.1 hin) with ⟨a, ha, htid⟩ | hstayed
        · exact List.mem_map.2 ⟨a, ha, htid⟩
        · exact absurd (hplace t cpu hstayed) hnew
      have hlength := (hkeys.subperm hacted).length_le
      rwa [List.length_map, List.length_map] at hlength
    · show u.generation = previous.generation + if p.actions.length = 0 then 0 else 1
      rw [hturn.generation, hgen, hs.generation]
      simp only [List.length_eq_zero_iff]
    · have he : u.effective = true := he
      unfold IncrementalSolver.effective at he
      rw [Bool.and_eq_true, Bool.and_eq_true, decide_eq_true_eq, decide_eq_true_eq, Bool.not_eq_true'] at he
      obtain ⟨⟨-, hnonempty⟩, hall⟩ := he
      refine ⟨hall.trans hsize, ?_⟩
      show 0 < active.length
      rw [← hsize]
      refine Nat.pos_of_ne_zero (fun hzero => ?_)
      have hnil : u.threads.entries = [] := List.eq_nil_of_length_eq_zero hzero
      rw [OrdMap.isEmpty, hnil] at hnonempty
      cases hnonempty
    · exact jaccard_bounds st.activeCohort next
    · have hscores : ∀ e ∈ (placedEdges u.placement frame.edges).filter (fun e => decide (0 < e.score)), 0 ≤ e.score :=
        fun e he => (of_decide_eq_true (List.mem_filter.1 he).2).le
      obtain ⟨hnonneg, hcloser⟩ := weight_filter_le (a := sameCpu u.placement) (b := sameNode frame.hardware u.placement)
        hscores (fun e _ he => decide_eq_true (congrArg (nodeOf frame.hardware) (of_decide_eq_true he)))
      have hall := (weight_filter_le (a := sameNode frame.hardware u.placement) (b := fun _ => true) hscores
        (fun _ _ _ => rfl)).2
      rw [List.filter_true] at hall
      exact share_le hnonneg hcloser hall
  · refine ⟨fun hardware hsame => ?_, hturn.idle, ?_, rfl, rfl⟩
    · have hcpus : frame.hardware.cpus = hardware.cpus := (hsame.resolve_left frame.cpus_nonempty).symm
      exact kept_congr hcpus hturn.kept hturn.homed
    · show active.length = next.size
      rw [hnext, size_ofList hn, List.length_map]

/-- **A sequence is a chain**, from any point of it. -/
theorem playAll_chained (hle : strategy.inactiveThreshold ≤ strategy.activeThreshold) : ∀ {frames : List Frame}
    {st : State} {previous : FrameResult} {results : List FrameResult}, (∀ f ∈ frames, f.Exported) → Sound st previous →
    playAll strategy st frames = .ok results → Chained strategy previous frames results
  | [], _, _, _, _, _, h => by
    cases h
    trivial
  | frame :: frames, st, previous, results, hf, hs, h => by
    unfold playAll at h
    split at h
    · cases h
    · rename_i result st' hplay
      obtain ⟨hfollows, hs'⟩ := play_follows hle (hf frame List.mem_cons_self) hs hplay
      split at h
      · cases h
      · rename_i rest hrest
        cases h
        exact ⟨hfollows, playAll_chained hle (fun f hf' => hf f (List.mem_cons_of_mem _ hf')) hs' hrest⟩

/-- **Every sequence that is replayed is a chain of frames**: each result follows the one before it, and the first follows a
solver that has placed nobody. -/
theorem runSequence_follows (hle : strategy.inactiveThreshold ≤ strategy.activeThreshold) {frames : List Frame}
    (hf : ∀ f ∈ frames, f.Exported) {results : List FrameResult} (h : runSequence strategy frames = .ok results) :
    Chained strategy {} frames results := by
  unfold runSequence at h
  split at h
  · cases h
  · cases h
  · rename_i results' hplay
    cases h
    exact playAll_chained hle hf Sound.start hplay

end Play

/-- Two threads on two nodes of one CPU, with the demand of the second. -/
def paired (timestampNs : Nat) (demand : ℚ) : Frame where
  timestampNs := timestampNs
  windowId := "w"
  hardware := { cpus := [⟨0, 0, true⟩, ⟨1, 1, true⟩] }
  threads := [⟨⟨1, 1, 0⟩, "g", 1 / 2, 1, 0⟩, ⟨⟨1, 2, 0⟩, "g", demand, 1, 1⟩]
  edges := []
  cpus_nonempty := by decide

/-- Both are pinned in the second frame, and in the third one has gone inactive. -/
theorem runSequence_follows_paired : ∃ results,
    runSequence { inactiveThreshold := 1 / 50 } [paired 1 (1 / 2), paired 2 (1 / 2), paired 3 0] = .ok results ∧
    results.map (fun r => (r.managed, r.actions, r.generation, r.placement.entries)) =
      [(2, 0, 0, []), (2, 2, 1, [(1, 0), (2, 1)]), (1, 0, 1, [(1, 0)])] ∧
    Chained { inactiveThreshold := 1 / 50 } {} [paired 1 (1 / 2), paired 2 (1 / 2), paired 3 0] results := by
  have hrun : (runSequence { inactiveThreshold := 1 / 50 } [paired 1 (1 / 2), paired 2 (1 / 2), paired 3 0]).toOption.any
      (fun results => decide (results.map (fun r => (r.managed, r.actions, r.generation, r.placement.entries)) =
        [(2, 0, 0, []), (2, 2, 1, [(1, 0), (2, 1)]), (1, 0, 1, [(1, 0)])])) = true := by decide +kernel
  cases h : runSequence { inactiveThreshold := 1 / 50 } [paired 1 (1 / 2), paired 2 (1 / 2), paired 3 0] with
  | error e =>
    rw [h] at hrun
    cases hrun
  | ok results =>
    rw [h] at hrun
    refine ⟨results, rfl, of_decide_eq_true hrun, runSequence_follows (by decide +kernel) ?_ h⟩
    intro f hf
    simp only [List.mem_cons, List.not_mem_nil, or_false] at hf
    rcases hf with rfl | rfl | rfl <;> exact ⟨⟨by decide, by decide⟩, by decide⟩

end ReplaySequence
end AffinityGraph
