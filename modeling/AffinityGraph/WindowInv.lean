import AffinityGraph.DomainPlan
import AffinityGraph.Gates
import AffinityGraph.ProposalForm
import AffinityGraph.SampledMasks
import AffinityGraph.Transactions
/-!
# WindowInv — what the solve windows rely on, over whole runs of the supervisor

Both solvers propose for threads of the window they are given: an action's identity is one of the window's, and a domain's
demand is the sum over the window's threads of its families.  For the incremental solver that needs a state its own protocol
reaches, with nothing outstanding (`Resting`), and for either the cached demands of the graph have to be those of its samples
(`Current`).  `Runtime.Sound` is the conjunction, and every input of the supervisor keeps it (`Supervisor.sound_handle`).
-/
namespace AffinityGraph

/-! ## Whom a proposal names -/

namespace NumaDomainSolver

variable {s : NumaDomainSolver} {input : ProposeInput}

/-- An action of the domain solver is for a thread of the window. -/
theorem action_identity {a : NumaDomainAction} (h : a ∈ (proposalOf s input).actions) :
    ∃ th ∈ input.threads, th.identity = a.identity := by
  have hmem : a ∈ if planReady s input then (planned s input .action).filterMap
      (actionFor (byTid input.threads) input.allowedMasks (proposalOf s input).domains) else [] := h
  split at hmem
  · obtain ⟨⟨u, m⟩, -, hact⟩ := List.mem_filterMap.1 hmem
    obtain ⟨th, hth, rfl⟩ := Option.map_eq_some_iff.1 hact
    exact ⟨th, (find_byTid hth).1, rfl⟩
  · cases hmem

/-- A domain's demand is that of the window's threads of its families. -/
def Counts (input : ProposeInput) (d : NumaDomain) : Prop :=
  d.demand = ((membersOf (byFamily input.threads) d.families).map (·.demand)).sum

theorem candidateStage_counts (s : NumaDomainSolver) (input : ProposeInput) :
    ∀ d ∈ (candidateStage s input).domains, Counts input d := by
  unfold candidateStage candidates
  dsimp only
  refine Loop.foldl_keeps (fun st : CandidateState => ∀ d ∈ st.domains, Counts input d) (fun st c hst d hd => ?_) _ ?_
  · rcases List.mem_append.1 hd with hd | hd
    · exact hst d hd
    · rw [List.mem_singleton.1 hd]
      rfl
  · intro d hd
    cases hd

theorem proposalOf_counts {d : NumaDomain} (hd : d ∈ (proposalOf s input).domains) : Counts input d := by
  obtain ⟨c, hc, he⟩ := exists_held (fun d => (d.demand, d.families)) (fun _ _ _ _ => rfl) hd
  simp only [Prod.mk.injEq] at he
  have hcount : Counts input c := by
    rcases mem_heldStage_cases hc with hc | ⟨old, -, -, rfl⟩
    · exact candidateStage_counts s input c hc
    · rfl
  unfold Counts
  rw [he.1, he.2]
  exact hcount

end NumaDomainSolver

namespace IncrementalSolver

variable {s s' : IncrementalSolver} {input : IncrementalInput} {p : SolverProposal}

/-- A proposal that is ready is the outstanding one, and one that is not leaves none. -/
def Offers (r : SolverProposal × IncrementalSolver) : Prop := r.2.outstanding = if r.1.ready then some r.1 else none

theorem offer_offers (proposal : SolverProposal) (h : s.outstanding = none) : Offers (offer s proposal) := by
  unfold Offers offer
  dsimp only
  split
  · rfl
  · exact h

theorem seatPending_outstanding {st st' : Seats} {tid : Tid} (h : seatPending input st tid = .ok st') :
    st'.solver.outstanding = st.solver.outstanding := by
  unfold seatPending at h
  dsimp only at h
  split at h
  · cases h
    rfl
  · split at h
    · cases h
    · cases h
      rfl

theorem seatBatch_outstanding : ∀ {batch : List Tid} {st st' : Seats}, seatBatch input batch st = .ok st' →
    st'.solver.outstanding = st.solver.outstanding
  | [], st, st', h => by
    cases h
    rfl
  | tid :: batch, st, st', h => by
    unfold seatBatch at h
    cases hseat : seatPending input st tid with
    | error e =>
      rw [hseat] at h
      cases h
    | ok st₁ =>
      rw [hseat] at h
      have hrest : seatBatch input batch st₁ = .ok st' := h
      exact (seatBatch_outstanding hrest).trans (seatPending_outstanding hseat)

section Branches

variable {r : SolverProposal × IncrementalSolver} (hnone : s.outstanding = none) (hready : p.ready = false)

include hnone hready

theorem nodePlanning_offers (hr : nodePlanning s input p = .ok r) : Offers r := by
  have hwaits : r.1.ready = false := by
    unfold nodePlanning at hr
    cases hplan : planNodes s input with
    | error e =>
      rw [hplan] at hr
      cases hr
    | ok plan =>
      rw [hplan] at hr
      cases hr
      show (confirmNodes s input p _).1.ready = false
      unfold confirmNodes
      dsimp only
      split
      · split <;> exact hready
      · split <;> exact hready
  unfold Offers
  rw [hwaits, (nodePlanning_same hr).2.1]
  exact hnone

theorem initialPinning_offers (hr : initialPinning s input p = .ok r) : Offers r := by
  unfold initialPinning at hr
  dsimp only at hr
  split at hr
  · cases hr
    unfold Offers
    rw [if_neg (by exact ne_true_of_eq_false hready)]
    exact hnone
  · cases hseats : seatBatch input (pendingBatch s input.hardware p.migrationBudget)
        { solver := readTargets s, projected := vacated s (pendingBatch s input.hardware p.migrationBudget) } with
    | error e =>
      rw [hseats] at hr
      cases hr
    | ok seats =>
      rw [hseats] at hr
      cases hr
      refine offer_offers _ ?_
      rw [seatBatch_outstanding hseats]
      exact hnone

theorem optimize_offers : Offers (optimize s input p) := by
  unfold optimize
  dsimp only
  split
  · unfold Offers
    rw [if_neg (by exact ne_true_of_eq_false hready)]
    exact hnone
  · exact offer_offers _ hnone

end Branches

theorem propose_offers (hnone : s.outstanding = none) (h : propose s input = .ok (p, s')) : Offers (p, s') := by
  have hintake : (intake s input).1.outstanding = none := (intake_outstanding s input).trans hnone
  have hready : (intake s input).2.ready = false := rfl
  obtain ⟨hout, -⟩ | ⟨-, -, hphases⟩ := propose_cases h
  · rw [hnone] at hout
    cases hout
  · rcases hphases with ⟨-, rfl, rfl⟩ | ⟨-, hr⟩ | ⟨-, hr⟩ | ⟨-, he⟩
    · exact hintake
    · exact nodePlanning_offers hintake hready hr
    · exact initialPinning_offers hintake hready hr
    · rw [← he]
      exact optimize_offers hintake hready

/-- After the intake the solver knows each thread as the window does. -/
theorem identityOf_intake (hd : input.hardware.Discovered) (hc : onlineCpus input.hardware ≠ 0)
    (hk : Kept input.hardware s) (hn : (input.threads.map (·.identity.tid)).Nodup) {t : Tid}
    (ht : t ∈ (intake s input).1.threads) : ∃ th ∈ input.threads, th.identity = identityOf (intake s input).1 t := by
  obtain ⟨hb, -⟩ := intake_booked hd (cpus_ne_nil_of_online hc) hk.booked hk.settled
  have htids : t ∈ tids (incomingThreads s input) := by
    rw [tids_incomingThreads]
    exact (mem_intake hn).1 ht
  obtain ⟨th', hth', rfl⟩ := List.mem_map.1 htids
  have hfind := find?_intake hn hth'
  have hid : (intake s input).1.identities.find? th'.identity.tid = some th'.identity := by
    rw [hb.identities, hfind]
    rfl
  have hknown : identityOf (intake s input).1 th'.identity.tid = th'.identity :=
    Option.some.inj ((hb.identityOf ht).1.symm.trans hid)
  obtain ⟨th, hth, rfl⟩ := List.mem_map.1 hth'
  exact ⟨th, hth, hknown.symm⟩

/-- **An action of the incremental solver is for a thread of the window**, one the solver keeps. -/
theorem propose_identities (hd : input.hardware.Discovered) (hk : Kept input.hardware s) (hnone : s.outstanding = none)
    (hn : (input.threads.map (·.identity.tid)).Nodup) (h : propose s input = .ok (p, s')) {a : PlacementAction}
    (ha : a ∈ p.actions) : (∃ th ∈ input.threads, th.identity = a.identity) ∧ a.identity.tid ∈ s'.threads := by
  obtain ⟨hout, -⟩ | ⟨-, hcpus, hphases⟩ := propose_cases h
  · rw [hnone] at hout
    cases hout
  · obtain ⟨hb, -⟩ := intake_booked hd (cpus_ne_nil_of_online hcpus) hk.booked hk.settled
    have hknown : ∀ t ∈ (intake s input).1.threads, a.identity = identityOf (intake s input).1 t →
        (∃ th ∈ input.threads, th.identity = a.identity) ∧ a.identity.tid ∈ (intake s input).1.threads := by
      intro t ht he
      rw [he, (hb.identityOf ht).2]
      exact ⟨identityOf_intake hd hcpus hk hn ht, ht⟩
    rcases hphases with ⟨-, rfl, rfl⟩ | ⟨-, hr⟩ | ⟨hphase, hr⟩ | ⟨-, he⟩
    · rw [intake_actions] at ha
      cases ha
    · rw [(nodePlanning_same hr).1, intake_actions] at ha
      cases ha
    · obtain ⟨t, ht, -, hid, -⟩ := initialPinning_actions hb hphase (intake_actions s input) hr ha
      have hsame := congrArg IncrementalSolver.threads (initialPinning_same hr).1
      have hthreads : s'.threads = (intake s input).1.threads := hsame
      rw [hthreads]
      exact hknown t ht hid
    · have hp : p = (optimize (intake s input).1 input (intake s input).2).1 := (congrArg Prod.fst he).symm
      have hs' : s' = (optimize (intake s input).1 input (intake s input).2).2 := (congrArg Prod.snd he).symm
      rw [hp] at ha
      obtain ⟨t, ht, -, hid, -⟩ := optimize_actions (intake_actions s input) ha
      rw [hs', optimize_same]
      exact hknown t ht hid

/-! ## Between the windows -/

/-- The solver as a window finds it: the calls so far kept to its protocol, and nothing is outstanding. -/
structure Resting (hardware : HardwareGraph) (s : IncrementalSolver) : Prop where
  reached : Reachable hardware s
  settled : s.outstanding = none

section Resting

variable {hardware : HardwareGraph}

theorem Reachable.removeThread (h : Reachable hardware s) (tid : Tid) : Reachable hardware (s.removeThread tid) := by
  have hallowed : Protocol hardware s (.removeThread tid) := trivial
  exact h.call hallowed rfl

theorem Reachable.foldl_removeThread (h : Reachable hardware s) (l : List Tid) :
    Reachable hardware (l.foldl IncrementalSolver.removeThread s) :=
  Loop.foldl_keeps (Reachable hardware) (fun _ tid hs => hs.removeThread tid) l h

theorem Reachable.discard (h : Reachable hardware s) (hout : s.outstanding = some p) : Resting hardware (s.discard p) := by
  have hallowed : Protocol hardware s .discard := trivial
  have hstep : IncrementalSolver.step s .discard = some (s.discard p) := by
    show s.outstanding.map s.discard = some (s.discard p)
    rw [hout]
    rfl
  exact ⟨h.call hallowed hstep, discard_settles hout⟩

/-- A commit of exactly the actions whose threads are still there. -/
theorem Reachable.commit (h : Reachable hardware s) (hout : s.outstanding = some p) (nowNs : Nat) {tids : OrdSet Tid}
    (ha : ∀ a ∈ p.actions, commits tids a.identity.tid = true ↔ a.identity.tid ∈ s.threads) :
    Resting hardware (s.commit p nowNs tids) := by
  have hallowed : Protocol hardware s (.commit nowNs tids) := by
    intro q hq
    rw [hout] at hq
    cases hq
    exact ha
  have hstep : IncrementalSolver.step s (.commit nowNs tids) = some (s.commit p nowNs tids) := by
    show s.outstanding.map (fun p => s.commit p nowNs tids) = _
    rw [hout]
    rfl
  exact ⟨h.call hallowed hstep, commit_settles hout nowNs tids⟩

theorem Resting.foldl_removeThread (h : Resting hardware s) (l : List Tid) :
    Resting hardware (l.foldl IncrementalSolver.removeThread s) := by
  refine ⟨h.reached.foldl_removeThread l, ?_⟩
  rw [outstanding_foldl_removeThread]
  exact h.settled

end Resting

theorem Resting.reset (hardware : HardwareGraph) (s : IncrementalSolver) : Resting hardware s.reset :=
  ⟨Reachable.new hardware s.shadow, rfl⟩

/-- A window's `propose` keeps to the protocol, and what is outstanding after it is the proposal that was returned. -/
theorem Resting.propose (h : Resting input.hardware s) (hn : (input.threads.map (·.identity.tid)).Nodup)
    (hp : s.propose input = .ok (p, s')) :
    Reachable input.hardware s' ∧ s'.outstanding = if p.ready then some p else none := by
  have hallowed : Protocol input.hardware s (.propose input) := ⟨rfl, hn⟩
  have hstep : step s (.propose input) = some s' := by
    show (s.propose input).toOption.map Prod.snd = some s'
    rw [hp]
    rfl
  exact ⟨h.reached.call hallowed hstep, propose_offers h.settled hp⟩

end IncrementalSolver

/-! ## What a solve window reads -/

namespace GraphWindow

variable {g : GraphWindow}

/-- The identities the window's threads were last sampled under. -/
def identities (g : GraphWindow) : List ThreadIdentity :=
  g.threads.entries.filterMap (fun e => e.2.getLast?.map (·.identity))

theorem mem_identities_of_demand {d : ThreadDemand} (h : d ∈ g.computeDemands) : d.identity ∈ g.identities := by
  unfold computeDemands at h
  rw [List.mem_insertionSort, List.mem_filterMap] at h
  obtain ⟨e, he, hd⟩ := h
  obtain ⟨last, hlast, rfl⟩ := Option.map_eq_some_iff.1 hd
  exact List.mem_filterMap.2 ⟨e, he, by rw [hlast]; rfl⟩

end GraphWindow

namespace Runtime

variable {r r' : Runtime}

theorem windowInput_current (now : Nat) (h : r.graph.Current) :
    (r.windowInput now).1.threads = r.graph.computeDemands ∧ (r.windowInput now).2.Current := by
  have hdemands := h.demands
  have hrecords : r.graph.demands.2.threadRecords.2.Current := hdemands.2.demands.2
  exact ⟨hdemands.1, hrecords.edges⟩

/-- What the solve windows rely on. -/
structure Sound (r : Runtime) : Prop where
  discovered : r.hardware.Discovered
  keyed : r.graph.WellKeyed
  current : r.graph.Current
  solver : r.config.solver = .incrementalHotspot → IncrementalSolver.Resting r.hardware r.solver

/-- The other fields do not count. -/
theorem Sound.congr (h : r.Sound) (hc : r'.config = r.config) (hh : r'.hardware = r.hardware) (hg : r'.graph = r.graph)
    (hs : r'.solver = r.solver) : r'.Sound where
  discovered := by rw [hh]; exact h.discovered
  keyed := by rw [hg]; exact h.keyed
  current := by rw [hg]; exact h.current
  solver := by rw [hc, hh, hs]; exact h.solver

theorem Sound.openWindow (h : r.Sound) (now : Nat) : (r.openWindow now).Sound where
  discovered := h.discovered
  keyed t hist hf := by
    rw [openWindow_graph, windowInput_graph] at hf
    exact h.keyed t hist hf
  current := (windowInput_current now h.current).2
  solver := h.solver

/-- The threads a window gives the solvers, each once. -/
theorem Sound.windowInput_nodup (h : r.Sound) (now : Nat) : ((r.windowInput now).1.threads.map (·.identity.tid)).Nodup := by
  rw [(windowInput_current now h.current).1]
  exact GraphWindow.nodup_computeDemands h.keyed

theorem Sound.windowInput_identity (h : r.Sound) {now : Nat} {th : ThreadDemand} (hth : th ∈ (r.windowInput now).1.threads) :
    th.identity ∈ r.graph.identities := by
  rw [(windowInput_current now h.current).1] at hth
  exact GraphWindow.mem_identities_of_demand hth

/-! ### The windows keep it -/

theorem Sound.solveNumaDomains {input : ProposeInput} (h : r.Sound) (hheld : r.mutexHeld = true)
    (hkind : r.config.solver = .numaDomain) (hr : r.solveNumaDomains input = .ok r') : r'.Sound := by
  obtain ⟨hc, hh, hg⟩ : r'.config = r.config ∧ r'.hardware = r.hardware ∧ r'.graph = r.graph := by
    by_cases hmode : r.config.mode = .plan
    · have hframe := solveNumaDomains_plan hmode hr
      exact ⟨hframe.config, hframe.hardware, hframe.graph⟩
    · have hframe := (solveNumaDomains_ok hheld hmode hr).1
      exact ⟨hframe.config, hframe.hardware, hframe.graph⟩
  refine ⟨?_, ?_, ?_, fun hinc => ?_⟩
  · rw [hh]
    exact h.discovered
  · rw [hg]
    exact h.keyed
  · rw [hg]
    exact h.current
  · rw [hc, hkind] at hinc
    cases hinc

theorem Sound.restoreCooling (h : r.Sound) (cooling : OrdSet Tid) : (r.restoreCooling cooling).1.Sound := by
  unfold Runtime.restoreCooling
  split
  · exact h.congr rfl rfl rfl rfl
  · exact h

theorem Sound.coolDown (h : r.Sound) (next cooling : OrdSet Tid) : (r.coolDown next cooling).Sound where
  discovered := h.discovered
  keyed := h.keyed
  current := h.current
  solver hkind := by
    have hrest := (h.solver hkind).foldl_removeThread cooling.toList
    unfold Runtime.coolDown
    dsimp only
    split
    · exact IncrementalSolver.Resting.reset _ _
    · exact hrest

section Apply

variable {p : SolverProposal} (live : OrdSet Tid) (now : Nat)

/-- The batch is settled one way or the other: discarded, or committed for the threads that are still there.  A batch that
went through tells each of its threads as committed or as vanished, and the vanished ones are removed first. -/
theorem applyPlacement_resting {options : IncrementalOptions} (hreached : IncrementalSolver.Reachable r.hardware r.solver)
    (hout : r.solver.outstanding = some p) (hform : IncrementalSolver.WellFormed r.hardware options r.solver p) :
    IncrementalSolver.Resting r.hardware (r.applyPlacement p live now).solver := by
  unfold applyPlacement Actuator.apply Actuator.applyDelta
  dsimp only
  split
  · exact hreached.discard hout
  · rename_i hsuccess
    have hdone := Actuator.applyRun_performed linuxView (by simpa using hsuccess)
    generalize Actuator.applyRun linux r.kernel r.actuator (Actuator.deltaMasks p.delta) live = st at hdone
    have hreached' := hreached.foldl_removeThread st.result.vanishedTids.toList
    have hout' : (st.result.vanishedTids.toList.foldl IncrementalSolver.removeThread r.solver).outstanding = some p :=
      (IncrementalSolver.outstanding_foldl_removeThread _ _).trans hout
    split
    · exact hreached'.discard hout'
    · rename_i hsome
      refine hreached'.commit hout' now (fun a ha => ?_)
      have hthread : a.identity.tid ∈ r.solver.threads := (hform.known a ha).1
      have hasked : a.identity.tid ∈ Actuator.deltaMasks p.delta :=
        Actuator.mem_deltaMasks ((hform.delta _ _).2 ⟨a, ha, rfl, rfl⟩)
      have hcommits : IncrementalSolver.commits st.result.committedTids a.identity.tid = true ↔
          a.identity.tid ∈ st.result.committedTids := by
        unfold IncrementalSolver.commits
        simp [hsome]
      have hthreads : a.identity.tid ∈ (st.result.vanishedTids.toList.foldl IncrementalSolver.removeThread r.solver).threads ↔
          a.identity.tid ∉ st.result.vanishedTids := by
        rw [OrdMap.mem_def, IncrementalSolver.find?_foldl_removeThread]
        by_cases hgone : a.identity.tid ∈ st.result.vanishedTids
        · rw [if_pos (OrdSet.mem_toList.2 hgone)]
          exact iff_of_false (by simp) (fun h => h hgone)
        · rw [if_neg (fun h => hgone (OrdSet.mem_toList.1 h))]
          exact iff_of_true hthread hgone
      rw [hcommits, hthreads]
      exact ⟨hdone.once _, fun hgone => ((hdone.told _).1 hasked).resolve_right hgone⟩

theorem applyPlacement_frame (r : Runtime) (p : SolverProposal) : (r.applyPlacement p live now).config = r.config ∧
    (r.applyPlacement p live now).hardware = r.hardware ∧ (r.applyPlacement p live now).graph = r.graph := by
  unfold applyPlacement
  dsimp only
  split <;> exact ⟨rfl, rfl, rfl⟩

end Apply

theorem Sound.proposePlacement {input : IncrementalInput} (h : r.Sound) (hkind : r.config.solver = .incrementalHotspot)
    (hhardware : input.hardware = r.hardware) (hn : (input.threads.map (·.identity.tid)).Nodup)
    (hr : r.proposePlacement input = .ok r') : r'.Sound := by
  have hrest := h.solver hkind
  have hd := h.discovered
  rw [← hhardware] at hrest hd
  unfold Runtime.proposePlacement at hr
  split at hr
  · cases hr
  · rename_i p s hp
    obtain ⟨hreached, hout⟩ := hrest.propose hn hp
    have hform := hrest.reached.proposal_wellFormed hd rfl hrest.settled hp
    rw [hhardware] at hreached hform
    dsimp only at hr
    split at hr
    · rename_i hready
      cases hr
      refine ⟨h.discovered, h.keyed, h.current, fun _ => ⟨hreached, ?_⟩⟩
      rw [if_neg (by simpa using hready)] at hout
      exact hout
    · rename_i hready
      rw [if_pos (by simpa using hready)] at hout
      split at hr
      · cases hr
        refine ⟨h.discovered, h.keyed, h.current, fun _ => ?_⟩
        refine hreached.commit hout input.nowNs (fun a ha => iff_of_true ?_ (hform.known a ha).1)
        unfold IncrementalSolver.commits
        rfl
      · cases hr
        obtain ⟨hc, hh, hg⟩ := applyPlacement_frame (cohortOf input.threads) input.nowNs { r with solver := s } p
        refine ⟨?_, ?_, ?_, fun _ => ?_⟩
        · rw [hh]
          exact h.discovered
        · rw [hg]
          exact h.keyed
        · rw [hg]
          exact h.current
        · rw [hh]
          have happlied := applyPlacement_resting (r := { r with solver := s }) (cohortOf input.threads) input.nowNs
            hreached hout hform
          exact happlied

theorem activeDemands_sublist (r : Runtime) (demands : List ThreadDemand) (edges : List RelationEdge) :
    (r.activeDemands demands edges).Sublist demands :=
  (selectManagedThreads_sublist _ _ _ _).trans (List.filter_sublist.trans List.filter_sublist)

/-- The runtime that proposes, once the threads that leave the cohort are restored and removed. -/
def cooled (r : Runtime) (input : ProposeInput) : Runtime :=
  let next := cohortOf (r.activeDemands input.threads input.edges)
  { (r.restoreCooling (r.coolingThreads next)).1.coolDown next (r.coolingThreads next) with selectorReady := true }

theorem Sound.cooled (h : r.Sound) (input : ProposeInput) : (r.cooled input).Sound :=
  ((h.restoreCooling _).coolDown _ _).congr rfl rfl rfl rfl

theorem cooled_frame (r : Runtime) (input : ProposeInput) :
    (r.cooled input).config = r.config ∧ (r.cooled input).hardware = r.hardware := by
  unfold cooled coolDown restoreCooling
  dsimp only
  split <;> exact ⟨rfl, rfl⟩

/-- What the branch gives the solver. -/
def cohortInput (r : Runtime) (input : ProposeInput) (dirtyTids : OrdSet Tid) : IncrementalInput :=
  (r.cooled input).incrementalInput input dirtyTids (r.activeDemands input.threads input.edges)

theorem Sound.solveIncremental {dirtyTids : OrdSet Tid} {input : ProposeInput} (h : r.Sound)
    (hkind : r.config.solver = .incrementalHotspot) (hn : (input.threads.map (·.identity.tid)).Nodup)
    (hr : Runtime.solveIncremental dirtyTids r input = .ok r') : r'.Sound := by
  unfold Runtime.solveIncremental at hr
  dsimp only at hr
  split at hr
  · cases hr
    exact (h.restoreCooling _).congr rfl rfl rfl rfl
  · split at hr
    · cases hr
      exact (h.restoreCooling _).coolDown _ _
    · split at hr
      · cases hr
        exact h.cooled input
      · have hpropose : (r.cooled input).proposePlacement (r.cohortInput input dirtyTids) = .ok r' := hr
        refine (h.cooled input).proposePlacement ?_ rfl ?_ hpropose
        · rw [(r.cooled_frame input).1]
          exact hkind
        · exact hn.sublist ((r.activeDemands_sublist input.threads input.edges).map _)

theorem Sound.maybeSolve {now : Nat} {dirtyTids : OrdSet Tid} (h : r.Sound)
    (hr : r.maybeSolve (Runtime.solveIncremental dirtyTids) now = .ok r') : r'.Sound := by
  have hopen := h.openWindow now
  unfold Runtime.maybeSolve at hr
  split at hr
  · cases hr
    exact h
  · split at hr
    · cases hr
    · by_cases hobserve : r.config.mode = .observe
      · simp only [hobserve, if_true] at hr
        cases hr
        exact hopen.congr rfl rfl rfl rfl
      · simp only [hobserve, if_false] at hr
        cases hkind : r.config.solver with
        | numaDomain =>
          simp only [hkind] at hr
          split at hr
          · rename_i r₁ hr₁
            cases hr
            exact (hopen.solveNumaDomains rfl hkind hr₁).congr rfl rfl rfl rfl
          · cases hr
        | incrementalHotspot =>
          simp only [hkind] at hr
          split at hr
          · rename_i r₁ hr₁
            cases hr
            exact (hopen.solveIncremental hkind (h.windowInput_nodup now) hr₁).congr rfl rfl rfl rfl
          · cases hr

end Runtime

/-! ## Every input keeps it -/

namespace Supervisor

open AffinityGraph.Runtime (Sound)

variable {s s' : Supervisor}

theorem sound_sampled (h : Sound s.toRuntime) (c : Collected) : Sound (s.sampled c).toRuntime := by
  have hframe := Runtime.foldl_sampleThread_frame c.samples { s.toRuntime with targetTgids := c.existing }
  have hloop : Sound (c.samples.foldl Runtime.sampleThread { s.toRuntime with targetTgids := c.existing }) :=
    h.congr hframe.config hframe.hardware hframe.graph hframe.solver
  unfold sampled
  dsimp only
  split
  · exact hloop.congr rfl rfl rfl rfl
  · refine ⟨hloop.discovered, ?_, GraphWindow.current_observeThreads _ _, hloop.solver⟩
    exact GraphWindow.wellKeyed_observeThreads hloop.keyed _

theorem sound_bindProfile (h : Sound s.toRuntime) (m : Matching) : Sound (s.bindProfile m).toRuntime := by
  unfold bindProfile
  split
  · exact h.congr rfl rfl rfl rfl
  · exact h

theorem sound_pause {r r' : Runtime} (h : r.Sound) (hr : r.pause = .ok r') : r'.Sound := by
  obtain ⟨-, rfl⟩ := Runtime.pause_ok hr
  exact ⟨h.discovered, h.keyed, h.current, fun _ => IncrementalSolver.Resting.reset _ _⟩

theorem sound_collectorFailure {now : Nat} (h : Sound s.toRuntime) (hs : s.collectorFailure now = .ok s') :
    Sound s'.toRuntime := by
  obtain ⟨since, -, ⟨-, r, hr, rfl⟩ | ⟨-, rfl⟩⟩ := collectorFailure_ok hs
  · exact sound_pause h hr
  · exact h

theorem sound_bpf {r : Runtime} (h : r.Sound) (staticProfile : Bool) (event : BpfEvent) (startSymbol : String) :
    (r.handleBpfEvent staticProfile event startSymbol).Sound := by
  have hrelation : (r.relate staticProfile event).Sound := by
    rcases r.relate_cases staticProfile event with he | ⟨o, he⟩
    · rw [he]
      exact h
    · rw [he]
      refine ⟨h.discovered, ?_, h.current.observeRelation o, h.solver⟩
      intro t hist hf
      have hsame : (r.graph.observeRelation o).threads = r.graph.threads := by
        unfold GraphWindow.observeRelation
        split <;> rfl
      rw [hsame] at hf
      exact h.keyed t hist hf
  unfold Runtime.handleBpfEvent
  cases event.kind with
  | futex => exact hrelation
  | vfs => exact hrelation
  | taskFork => exact h.congr rfl rfl rfl rfl
  | taskExec => exact h.congr rfl rfl rfl rfl
  | taskExit =>
    refine ⟨h.discovered, h.keyed, h.current, fun hkind => ?_⟩
    exact (h.solver hkind).foldl_removeThread [event.tid]
  | taskRename =>
    dsimp only [Runtime.threadRenamed]
    split
    · exact h.congr rfl rfl rfl rfl
    · exact h
  | affinity =>
    dsimp only [Runtime.applicationAffinity]
    split
    · exact h
    · split <;> exact h.congr rfl rfl rfl rfl

/-- **Every input leaves the windows what they rely on.** -/
theorem sound_handle {e : Input} (h : Sound s.toRuntime) (hs : s.handle e = .ok s') : Sound s'.toRuntime := by
  cases e with
  | outside kernel =>
    cases hs
    exact h.congr rfl rfl rfl rfl
  | bpf event startSymbol =>
    cases hs
    exact sound_bpf h _ event startSymbol
  | retain relations =>
    cases hs
    refine ⟨h.discovered, ?_, h.current.retainRelations relations, h.solver⟩
    intro t hist hf
    have hsame : (s.graph.retainRelations relations).threads = s.graph.threads := by
      unfold GraphWindow.retainRelations
      dsimp only
      split <;> rfl
    rw [hsame] at hf
    exact h.keyed t hist hf
  | health valid windowReady lossRatio =>
    cases hs
    exact h.congr rfl rfl rfl rfl
  | fatal message =>
    obtain ⟨r, hr, rfl⟩ := triggerFatal_ok hs
    obtain ⟨-, ⟨-, rfl⟩ | ⟨-, r₁, hr₁, rfl⟩⟩ := Runtime.triggerFatal_ok hr
    · exact h
    · have hfirst : Sound { s.toRuntime with fatalError := message } := h.congr rfl rfl rfl rfl
      exact (sound_pause hfirst hr₁).congr rfl rfl rfl rfl
  | pause =>
    obtain ⟨r, hr, rfl⟩ := pause_ok hs
    exact sound_pause h hr
  | resume =>
    cases hs
    exact h.congr rfl rfl rfl rfl
  | reconcile collected now =>
    obtain ⟨-, hf⟩ | ⟨c, -, -, stopped, last, rfl⟩ := reconcileAndSample_ok hs
    · exact sound_collectorFailure h hf
    · exact sound_bindProfile (sound_sampled h c) (s.matchSamples c.samples)
  | solve now dirtyTids =>
    obtain ⟨-, ⟨-, rfl⟩ | ⟨-, -, rfl⟩⟩ | ⟨-, r, hr, rfl⟩ := maybeSolve_ok hs
    · exact h
    · exact (h.openWindow now).congr rfl rfl rfl rfl
    · exact h.maybeSolve hr
  | shutdown =>
    cases hs
    exact h.congr rfl rfl rfl rfl

theorem create_starts {l : Launch} (hs : create l = .ok s) : s.config.solver = l.config.solver ∧
    s.threadProfile = l.threadProfile ∧ s.activeCohort = ∅ ∧ s.currentMasks = ∅ := by
  have hsolver : (if (l.collectorDegraded || (decide (l.config.solver = .numaDomain) && !l.bpfReader)) = true
      then { l.config with mode := .observe } else l.config).solver = l.config.solver := by
    split <;> rfl
  unfold create at hs
  dsimp only at hs
  generalize (if (l.collectorDegraded || (decide (l.config.solver = .numaDomain) && !l.bpfReader)) = true
    then { l.config with mode := .observe } else l.config) = config at hs hsolver
  split at hs
  · cases hs
  · cases hs
    exact ⟨hsolver, rfl, rfl, rfl⟩

theorem create_domains {l : Launch} (h : create l = .ok s) : s.config.domainOptions = l.config.domainOptions ∧
    s.hardware = l.hardware ∧ s.domainSolver = {} := by
  have hoptions : (if (l.collectorDegraded || (decide (l.config.solver = .numaDomain) && !l.bpfReader)) = true
      then { l.config with mode := .observe } else l.config).domainOptions = l.config.domainOptions := by
    split <;> rfl
  unfold create at h
  dsimp only at h
  generalize (if (l.collectorDegraded || (decide (l.config.solver = .numaDomain) && !l.bpfReader)) = true
    then { l.config with mode := .observe } else l.config) = config at h hoptions
  split at h
  · cases h
  · cases h
    exact ⟨hoptions, rfl, rfl⟩

theorem sound_create {l : Launch} (hd : l.hardware.Discovered) (hs : create l = .ok s) : Sound s.toRuntime := by
  unfold create at hs
  dsimp only at hs
  generalize (if (l.collectorDegraded || (decide (l.config.solver = .numaDomain) && !l.bpfReader)) = true
    then { l.config with mode := .observe } else l.config) = config at hs
  split at hs
  · cases hs
  · cases hs
    refine ⟨hd, ?_, ?_, fun _ => ⟨IncrementalSolver.Reachable.new _ _, rfl⟩⟩
    · intro t hist hf
      cases hf
    · intro ds hds
      cases hds

end Supervisor

end AffinityGraph
