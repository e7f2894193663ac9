import AffinityGraph.IncrementalInv
/-!
# IncrementalReach — what every run of the incremental solver keeps

The invariant of `IncrementalInv` for whole calls, and by it for every state a run under `Runtime`'s protocol leads to.
A TID that comes back under another identity is taken in by a solver that has forgotten it.
-/
namespace AffinityGraph
namespace IncrementalSolver

/-! ## What a call can do -/

section Calls

variable {s s' : IncrementalSolver} {input : IncrementalInput} {p : SolverProposal}

/-- **Everything a `propose` that returns can have done.** -/
theorem propose_cases (h : propose s input = .ok (p, s')) :
    (s.outstanding = some p ∧ s' = s) ∨
    (s.outstanding = none ∧ onlineCpus input.hardware ≠ 0 ∧
      (((intake s input).1.phase = .uninitialized ∧ p = (intake s input).2 ∧ s' = (intake s input).1) ∨
      ((intake s input).1.phase = .nodePlanning ∧ nodePlanning (intake s input).1 input (intake s input).2 = .ok (p, s')) ∨
      ((intake s input).1.phase = .initialPinning ∧
        initialPinning (intake s input).1 input (intake s input).2 = .ok (p, s')) ∨
      ((intake s input).1.phase = .optimizing ∧ optimize (intake s input).1 input (intake s input).2 = (p, s')))) := by
  unfold propose at h
  cases ho : s.outstanding with
  | some q =>
    rw [ho] at h
    cases h
    exact Or.inl ⟨rfl, rfl⟩
  | none =>
    rw [ho] at h
    dsimp only at h
    by_cases hcpus : onlineCpus input.hardware = 0
    · rw [if_pos hcpus] at h
      cases h
    · rw [if_neg hcpus] at h
      refine Or.inr ⟨rfl, hcpus, ?_⟩
      cases hphase : (intake s input).1.phase with
      | uninitialized =>
        rw [hphase] at h
        cases h
        exact Or.inl ⟨rfl, rfl, rfl⟩
      | nodePlanning =>
        rw [hphase] at h
        exact Or.inr (Or.inl ⟨rfl, h⟩)
      | initialPinning =>
        rw [hphase] at h
        exact Or.inr (Or.inr (Or.inl ⟨rfl, h⟩))
      | optimizing =>
        rw [hphase] at h
        exact Or.inr (Or.inr (Or.inr ⟨rfl, Except.ok.inj h⟩))

theorem cpus_ne_nil_of_online {hardware : HardwareGraph} (h : onlineCpus hardware ≠ 0) : hardware.cpus ≠ [] := by
  intro he
  unfold onlineCpus at h
  rw [he] at h
  exact h rfl

/-- A migration round writes the records the next one compares with, and the proposal. -/
theorem optimize_same (s : IncrementalSolver) (input : IncrementalInput) (proposal : SolverProposal) :
    (optimize s input proposal).2 = { s with
      scanCursor := (optimize s input proposal).2.scanCursor
      previousDemand := (optimize s input proposal).2.previousDemand
      previousEdgeScore := (optimize s input proposal).2.previousEdgeScore
      actionConfirmations := (optimize s input proposal).2.actionConfirmations
      outstanding := (optimize s input proposal).2.outstanding } := by
  unfold optimize
  dsimp only
  split
  · rfl
  · unfold offer
    dsimp only
    split <;> rfl

theorem optimize_booked (h : Booked input.hardware s) (hs : Settled s) (proposal : SolverProposal) :
    Booked input.hardware (optimize s input proposal).2 ∧ Settled (optimize s input proposal).2 := by
  rw [optimize_same]
  exact ⟨⟨h.identities, h.keyed, h.pinned, h.placed, h.moved, h.targets, h.candidates, h.candidateNodes, h.calm⟩, hs⟩

/-- **`propose` keeps the books.** -/
theorem propose_booked (hd : input.hardware.Discovered) (hb : Booked input.hardware s) (hs : Settled s)
    (h : propose s input = .ok (p, s')) : Booked input.hardware s' ∧ Settled s' := by
  rcases propose_cases h with ⟨-, he⟩ | ⟨-, hcpus, hphases⟩
  · rw [he]
    exact ⟨hb, hs⟩
  · have hc := cpus_ne_nil_of_online hcpus
    obtain ⟨hib, his⟩ := intake_booked hd hc hb hs
    rcases hphases with ⟨-, -, he⟩ | ⟨hphase, hr⟩ | ⟨hphase, hr⟩ | ⟨-, hr⟩
    · rw [he]
      exact ⟨hib, his⟩
    · exact nodePlanning_booked hd hc (fun e he => ends_ne_of_mem_edges he) hib hphase hr
    · exact initialPinning_booked hib hphase hr
    · have he : s' = (optimize (intake s input).1 input (intake s input).2).2 := by rw [hr]
      rw [he]
      exact optimize_booked hib his _

end Calls

/-! ## The actions of a proposal -/

/-- The actions are for the threads on record. -/
def Offered (s : IncrementalSolver) : Prop :=
  ∀ p, s.outstanding = some p → ∀ a ∈ p.actions, a.identity.tid ∈ s.threads →
    s.identities.find? a.identity.tid = some a.identity

section Actions

variable {s : IncrementalSolver} {input : IncrementalInput}

theorem Booked.identityOf {hardware : HardwareGraph} (h : Booked hardware s) {t : Tid} (ht : t ∈ s.threads) :
    s.identities.find? t = some (identityOf s t) ∧ (identityOf s t).tid = t := by
  obtain ⟨th, hth⟩ := OrdMap.mem_iff.1 ht
  have hid : s.identities.find? t = some th.identity := by rw [h.identities, hth]; rfl
  have he : IncrementalSolver.identityOf s t = th.identity := by
    unfold IncrementalSolver.identityOf
    rw [OrdMap.getD, hid]
    rfl
  rw [he]
  exact ⟨hid, h.keyed t th hth⟩

theorem mem_ranked {adjacency : OrdMap Tid (List RelationEdge)} {loads : Loads} {budget : Nat} {d : Dissatisfaction}
    (h : d ∈ ranked s input adjacency loads budget) : d.tid ∈ s.threads ∧ d.tid ∈ s.placement := by
  have hall := List.mem_of_mem_take h
  rw [List.mem_insertionSort, List.mem_filterMap] at hall
  obtain ⟨t, -, ht⟩ := hall
  split at ht
  · rename_i hmem
    obtain ⟨cpu, hcpu, rfl⟩ := Option.map_eq_some_iff.1 ht
    exact ⟨hmem, OrdMap.mem_of_find hcpu⟩
  · cases ht

theorem mem_rankedPairs {a b : Dissatisfaction} : ∀ {l : List Dissatisfaction}, (a, b) ∈ rankedPairs l → a ∈ l ∧ b ∈ l
  | x :: l, h => by
    unfold rankedPairs at h
    rcases List.mem_append.1 h with h | h
    · obtain ⟨v, hv, he⟩ := List.mem_map.1 h
      cases he
      exact ⟨List.mem_cons_self, List.mem_cons_of_mem _ hv⟩
    · obtain ⟨ha, hb⟩ := mem_rankedPairs h
      exact ⟨List.mem_cons_of_mem _ ha, List.mem_cons_of_mem _ hb⟩

theorem mem_potentials {adjacency : OrdMap Tid (List RelationEdge)} {loads : Loads} {candidates : List Dissatisfaction}
    {x : Potential} (h : x ∈ potentials s input adjacency loads candidates) :
    (∃ d ∈ candidates, singleMove s input adjacency loads d = some x) ∨
    ∃ pair ∈ rankedPairs candidates, pairSwap s input adjacency loads pair.1 pair.2 = some x := by
  unfold potentials at h
  rw [List.mem_insertionSort, List.mem_append, List.mem_filterMap, List.mem_filterMap] at h
  exact h

/-- **A potential moves candidates**, each once. -/
theorem potential_actions {adjacency : OrdMap Tid (List RelationEdge)} {loads : Loads} {candidates : List Dissatisfaction}
    {x : Potential} (h : x ∈ potentials s input adjacency loads candidates) {a : PlacementAction} (ha : a ∈ x.actions) :
    ∃ d ∈ candidates, ∃ target emergency, a = moveAction s d (s.placement.getD d.tid 0) target emergency := by
  rcases mem_potentials h with ⟨d, hd, hx⟩ | ⟨⟨d, e⟩, hpair, hx⟩
  · unfold singleMove at hx
    obtain ⟨m, -, rfl⟩ := Option.map_eq_some_iff.1 hx
    rw [List.mem_singleton] at ha
    exact ⟨d, hd, m.cpu, m.emergency, ha⟩
  · obtain ⟨hd, he⟩ := mem_rankedPairs hpair
    unfold pairSwap at hx
    dsimp only at hx
    split at hx
    · cases hx
    · split at hx
      · cases hx
      · split at hx
        · cases hx
          rcases List.mem_pair.1 ha with rfl | rfl
          · exact ⟨d, hd, _, _, rfl⟩
          · exact ⟨e, he, _, _, rfl⟩
        · cases hx

/-- One turn of the selection: the potential is passed over, or it is confirmed, fits the budget, moves no thread of the
batch, and its actions are added. -/
theorem selectPotential_cases (s : IncrementalSolver) (input : IncrementalInput) (confirmations : OrdMap String Int)
    (budget : Nat) (st : Batch) (x : Potential) :
    selectPotential s input confirmations budget st x = st ∨
    ((selectPotential s input confirmations budget st x).actions = st.actions ++ x.actions ∧
      st.actions.length + x.actions.length ≤ budget ∧
      ∀ a ∈ x.actions, ∀ b ∈ st.actions, b.identity.tid ≠ a.identity.tid) := by
  unfold selectPotential
  dsimp only
  split
  · exact Or.inl rfl
  · split
    · exact Or.inl rfl
    · rename_i hbudget
      split
      · exact Or.inl rfl
      · rename_i hconflict
        split
        · exact Or.inl rfl
        · refine Or.inr ⟨rfl, not_lt.1 hbudget, fun a ha b hb he => hconflict ?_⟩
          exact List.any_eq_true.2 ⟨a, ha, List.any_eq_true.2 ⟨b, hb, decide_eq_true he⟩⟩

theorem mem_select {confirmations : OrdMap String Int} {budget : Nat} {a : PlacementAction} :
    ∀ {l : List Potential} {st : Batch}, a ∈ (l.foldl (selectPotential s input confirmations budget) st).actions →
      a ∈ st.actions ∨ ∃ x ∈ l, a ∈ x.actions
  | [], st, h => Or.inl h
  | x :: l, st, h => by
    rw [List.foldl_cons] at h
    rcases mem_select h with h | ⟨y, hy, ha⟩
    · rcases selectPotential_cases s input confirmations budget st x with he | ⟨he, -⟩
      · rw [he] at h
        exact Or.inl h
      · rw [he] at h
        rcases List.mem_append.1 h with h | h
        · exact Or.inl h
        · exact Or.inr ⟨x, List.mem_cons_self, h⟩
    · exact Or.inr ⟨y, List.mem_cons_of_mem _ hy, ha⟩

/-- **A migration moves a placed thread from where it is.** -/
theorem optimize_actions {proposal : SolverProposal} (hno : proposal.actions = []) {a : PlacementAction}
    (ha : a ∈ (optimize s input proposal).1.actions) :
    ∃ t ∈ s.threads, t ∈ s.placement ∧ a.identity = identityOf s t ∧ a.fromCpu = s.placement.getD t 0 := by
  unfold optimize at ha
  dsimp only at ha
  split at ha
  · rw [hno] at ha
    cases ha
  · have hmem : a ∈ ((potentials s input (adjacencyOf (s.edges.entries.map Prod.snd)) (currentLoads s input.hardware)
        (ranked s input (adjacencyOf (s.edges.entries.map Prod.snd)) (currentLoads s input.hardware)
          proposal.migrationBudget)).foldl (selectPotential s input _ proposal.migrationBudget)
            { loads := currentLoads s input.hardware }).actions := ha
    rcases mem_select hmem with h | ⟨x, hx, ha⟩
    · cases h
    · obtain ⟨d, hd, target, emergency, rfl⟩ := potential_actions hx ha
      exact ⟨d.tid, (mem_ranked hd).1, (mem_ranked hd).2, rfl, rfl⟩

theorem optimize_phase (s : IncrementalSolver) (input : IncrementalInput) (proposal : SolverProposal) :
    (optimize s input proposal).1.phase = .optimizing := by
  unfold optimize
  dsimp only
  split
  · rfl
  · rfl

/-- What a proposal leaves outstanding is the proposal. -/
theorem optimize_outstanding (s : IncrementalSolver) (input : IncrementalInput) (proposal : SolverProposal) :
    (optimize s input proposal).2.outstanding = s.outstanding ∨
    (optimize s input proposal).2.outstanding = some (optimize s input proposal).1 := by
  unfold optimize
  dsimp only
  split
  · exact Or.inl rfl
  · unfold offer
    dsimp only
    split
    · exact Or.inr rfl
    · exact Or.inl rfl

theorem initialPinning_header {proposal : SolverProposal} {r : SolverProposal × IncrementalSolver}
    (h : initialPinning s input proposal = .ok r) : r.1.phase = .initialPinning ∧ r.1.cpuSlotCap = proposal.cpuSlotCap := by
  unfold initialPinning at h
  dsimp only at h
  split at h
  · cases h
    exact ⟨rfl, rfl⟩
  · cases hs : seatBatch input (pendingBatch s input.hardware proposal.migrationBudget)
        { solver := readTargets s, projected := vacated s (pendingBatch s input.hardware proposal.migrationBudget) } with
    | error e =>
      rw [hs] at h
      cases h
    | ok st =>
      rw [hs] at h
      cases h
      exact ⟨rfl, rfl⟩

/-- **A batch pins pending threads**, each from where it is. -/
theorem initialPinning_actions (hb : Booked input.hardware s) (hphase : s.phase = .initialPinning)
    {proposal : SolverProposal} (hno : proposal.actions = []) {r : SolverProposal × IncrementalSolver}
    (hr : initialPinning s input proposal = .ok r) {a : PlacementAction} (ha : a ∈ r.1.actions) :
    ∃ t ∈ s.threads, isPending s t = true ∧ a.identity = IncrementalSolver.identityOf s t ∧ a.fromCpu = homeCpu s t ∧
      a.targetCpu = r.2.initialTargetCpu.getD t 0 ∧ a.initialPin = true := by
  have ht := hb.targets (Or.inl hphase)
  rcases initialPinning_ok ht hr with ⟨-, he, -⟩ | ⟨st, hst, he, hs⟩
  · rw [he, hno] at ha
    cases ha
  · rw [he] at ha
    obtain ⟨t, hmem, rfl⟩ := List.mem_map.1 ha
    have hre := seatBatch_reseated (fun t hm => ht t (mem_pendingBatch hm).1) hst
    have hsame : r.2.initialTargetCpu = st.solver.initialTargetCpu := by
      rcases hs with ⟨hs, -⟩ | hs
      · rw [hs]
      · rw [hs]
    refine ⟨t, (mem_pendingBatch hmem).1, (mem_pendingBatch hmem).2, ?_, ?_, ?_, rfl⟩
    · unfold pinAction IncrementalSolver.identityOf
      dsimp only
      rw [hre.same]
    · unfold pinAction homeCpu
      dsimp only
      rw [hre.same]
    · rw [hsame]
      rfl

/-- A seated batch has other targets, and nothing else is changed. -/
theorem seatBatch_same : ∀ {batch : List Tid} {st st' : Seats}, seatBatch input batch st = .ok st' →
    st'.solver = { st.solver with
      initialTargetCpu := st'.solver.initialTargetCpu
      initialTargetNode := st'.solver.initialTargetNode }
  | [], st, st', h => by
    cases h
    rfl
  | tid :: batch, st, st', h => by
    cases hs : seatPending input st tid with
    | error e =>
      rw [seatBatch, hs] at h
      cases h
    | ok st₁ =>
      rw [seatBatch, hs] at h
      have hrest := seatBatch_same h
      have hone : st₁.solver = { st.solver with
          initialTargetCpu := st₁.solver.initialTargetCpu
          initialTargetNode := st₁.solver.initialTargetNode } := by
        unfold seatPending at hs
        dsimp only at hs
        split at hs
        · cases hs
          rfl
        · split at hs
          · cases hs
          · cases hs
            rfl
      rw [hone] at hrest
      exact hrest

/-- The branch changes the targets of the batch and the proposal. -/
theorem initialPinning_same {proposal : SolverProposal} {r : SolverProposal × IncrementalSolver}
    (hr : initialPinning s input proposal = .ok r) :
    r.2 = { s with
      initialTargetCpu := r.2.initialTargetCpu
      initialTargetNode := r.2.initialTargetNode
      outstanding := r.2.outstanding } ∧
    (r.2.outstanding = s.outstanding ∨ r.2.outstanding = some r.1) := by
  unfold initialPinning at hr
  dsimp only at hr
  split at hr
  · cases hr
    exact ⟨rfl, Or.inl rfl⟩
  · cases hs : seatBatch input (pendingBatch s input.hardware proposal.migrationBudget)
        { solver := readTargets s, projected := vacated s (pendingBatch s input.hardware proposal.migrationBudget) } with
    | error e =>
      rw [hs] at hr
      cases hr
    | ok st =>
      have hsame := seatBatch_same hs
      rw [hs] at hr
      cases hr
      unfold offer
      dsimp only
      split
      · rw [hsame]
        exact ⟨rfl, Or.inr rfl⟩
      · rw [hsame]
        exact ⟨rfl, Or.inl rfl⟩

theorem nodePlanning_same {proposal : SolverProposal} {r : SolverProposal × IncrementalSolver}
    (hr : nodePlanning s input proposal = .ok r) :
    r.1.actions = proposal.actions ∧ r.2.outstanding = s.outstanding ∧ r.2.threads = s.threads ∧
      r.2.identities = s.identities ∧ r.2.placement = s.placement ∧ r.2.baselineCpu = s.baselineCpu := by
  unfold nodePlanning at hr
  cases hplan : planNodes s input with
  | error e =>
    rw [hplan] at hr
    cases hr
  | ok plan =>
    rw [hplan] at hr
    cases hr
    refine ⟨?_, ?_⟩
    · show (confirmNodes s input proposal _).1.actions = _
      unfold confirmNodes
      dsimp only
      split
      · split <;> rfl
      · split <;> rfl
    · show (confirmNodes s input proposal _).2.outstanding = _ ∧ _
      rcases confirmNodes_cases s input proposal
        (swapPasses s input (communityOrder s).ordered input.options.initialNodePasses plan) with he | he
      · rw [he]
        exact ⟨rfl, rfl, rfl, rfl, rfl⟩
      · rw [he]
        exact ⟨rfl, rfl, rfl, rfl, rfl⟩

theorem nodePlanning_phase {proposal : SolverProposal} {r : SolverProposal × IncrementalSolver}
    (hr : nodePlanning s input proposal = .ok r) : r.1.phase ≠ .optimizing := by
  unfold nodePlanning at hr
  cases hplan : planNodes s input with
  | error e =>
    rw [hplan] at hr
    cases hr
  | ok plan =>
    rw [hplan] at hr
    cases hr
    show (confirmNodes s input proposal _).1.phase ≠ _
    unfold confirmNodes
    dsimp only
    split
    · split <;> simp
    · split <;> simp

end Actions

/-! ## The intake, thread by thread -/

section Intake

variable {s : IncrementalSolver} {input : IncrementalInput}

/-- What the solver has on record of its threads. -/
def records (s : IncrementalSolver) :=
  (s.threads, s.identities, s.placement, s.baselineCpu, s.pinned, s.lastMovedNs, s.outstanding)

theorem records_settlePhase (input : IncrementalInput) (st : Intake) : records (settlePhase input st) = records st.solver := by
  have harrivals : records (afterArrivals input st) = records st.solver := by
    unfold afterArrivals
    split
    · rfl
    · split <;> rfl
  rw [settlePhase_eq]
  split
  · exact harrivals
  · exact harrivals

theorem records_settleHotspots (input : IncrementalInput) (s : IncrementalSolver) :
    records (settleHotspots input s).1 = records s := by
  unfold settleHotspots
  dsimp only
  split
  · split
    · split <;> rfl
    · split <;> rfl
  · rfl

/-- The phase changes and the hotspot edges leave the records of the threads alone. -/
theorem records_intake (s : IncrementalSolver) (input : IncrementalInput) :
    records (intake s input).1 = records (takenIn s input).solver := by
  have h : records (settleHotspots input (settlePhase input (takenIn s input))).1 = records (takenIn s input).solver :=
    (records_settleHotspots input _).trans (records_settlePhase input _)
  rw [intake_eq]
  dsimp only
  split
  · exact h
  · split
    · exact h
    · exact h

theorem outstanding_takenIn (s : IncrementalSolver) (input : IncrementalInput) :
    (takenIn s input).solver.outstanding = s.outstanding := by
  unfold takenIn
  refine Loop.foldl_keeps (fun st : Intake => st.solver.outstanding = s.outstanding) (fun st th h => ?_) _ ?_
  · have hforget : (forgetReused st.solver th.identity).outstanding = st.solver.outstanding := by
      rcases forgetReused_cases st.solver th.identity with ⟨he, -⟩ | ⟨he, -⟩
      · rw [he]
      · rw [he]
        rfl
    unfold takeIn
    dsimp only
    split
    · exact hforget.trans h
    · split <;> exact hforget.trans h
  · exact dropStale_keeps (P := fun t => t.outstanding = s.outstanding) (fun t tid h => h) _ _ rfl

theorem intake_actions (s : IncrementalSolver) (input : IncrementalInput) : (intake s input).2.actions = [] := rfl

theorem intake_outstanding (s : IncrementalSolver) (input : IncrementalInput) :
    (intake s input).1.outstanding = s.outstanding := by
  have h := records_intake s input
  unfold records at h
  simp only [Prod.mk.injEq] at h
  rw [h.2.2.2.2.2.2, outstanding_takenIn]

end Intake

/-! ## Runs -/

section Runs

variable {hardware : HardwareGraph} {s s' : IncrementalSolver}

theorem propose_offered {input : IncrementalInput} {p : SolverProposal} (hd : input.hardware.Discovered)
    (hb : Booked input.hardware s) (hs : Settled s) (ho : Offered s) (h : propose s input = .ok (p, s')) : Offered s' := by
  obtain hsame | ⟨hnone, hcpus, hphases⟩ := propose_cases h
  · rw [hsame.2]
    exact ho
  · obtain ⟨hib, his⟩ := intake_booked hd (cpus_ne_nil_of_online hcpus) hb hs
    have hout : (intake s input).1.outstanding = none := (intake_outstanding s input).trans hnone
    rcases hphases with ⟨-, -, rfl⟩ | ⟨-, hr⟩ | ⟨hphase, hr⟩ | ⟨-, hr⟩
    · intro q hq
      rw [hout] at hq
      cases hq
    · intro q hq
      rw [(nodePlanning_same hr).2.1, hout] at hq
      cases hq
    · obtain ⟨hsame, hq⟩ := initialPinning_same hr
      rintro q hq' a ha -
      rcases hq with hq | hq
      · rw [hq, hout] at hq'
        cases hq'
      · rw [hq] at hq'
        cases hq'
        obtain ⟨t, ht, -, hid, -⟩ := initialPinning_actions hib hphase (intake_actions s input) hr ha
        have hid' := hib.identityOf ht
        have hids := congrArg IncrementalSolver.identities hsame
        dsimp only at hids
        rw [hid, hid'.2, hids]
        exact hid'.1
    · have hq := optimize_outstanding (intake s input).1 input (intake s input).2
      have hsame := optimize_same (intake s input).1 input (intake s input).2
      rw [hr] at hq hsame
      rintro q hq' a ha -
      rcases hq with hq | hq
      · rw [hq, hout] at hq'
        cases hq'
      · rw [hq] at hq'
        cases hq'
        have ha' : a ∈ (optimize (intake s input).1 input (intake s input).2).1.actions := by
          rw [hr]
          exact ha
        obtain ⟨t, ht, -, hid, -⟩ := optimize_actions (intake_actions s input) ha'
        have hid' := hib.identityOf ht
        have hids := congrArg IncrementalSolver.identities hsame
        dsimp only at hids
        rw [hid, hid'.2, hids]
        exact hid'.1

/-- A committed action of a known thread. -/
theorem Booked.commitAction (h : Booked hardware s) (nowNs : Nat) (tids : OrdSet Tid) {a : PlacementAction}
    (ha : commits tids a.identity.tid = true → a.identity.tid ∈ s.threads) :
    Booked hardware (commitAction nowNs tids s a) := by
  unfold IncrementalSolver.commitAction
  dsimp only
  split
  · rename_i hc
    refine ⟨h.identities, h.keyed, fun t => ?_, fun t ht => ?_, fun t ht => ?_, h.targets, h.candidates,
      h.candidateNodes, h.calm⟩
    · show t ∈ OrdSet.add s.pinned a.identity.tid ↔ t ∈ s.placement.insert a.identity.tid a.targetCpu
      rw [OrdSet.mem_add, OrdMap.mem_insert, h.pinned]
    · rcases OrdMap.mem_insert.1 (show t ∈ s.placement.insert a.identity.tid a.targetCpu from ht) with rfl | ht
      · exact ha hc
      · exact h.placed t ht
    · refine OrdMap.mem_insert.2 ?_
      have ht' : t ∈ if a.fromCpu ≠ a.targetCpu then s.lastMovedNs.insert a.identity.tid nowNs else s.lastMovedNs := ht
      split at ht'
      · rcases OrdMap.mem_insert.1 ht' with ht' | ht'
        · exact Or.inl ht'
        · exact Or.inr (h.moved t ht')
      · exact Or.inr (h.moved t ht')
  · exact h

/-- A committed action touches the placement of its thread. -/
theorem commitAction_same (nowNs : Nat) (tids : OrdSet Tid) (s : IncrementalSolver) (a : PlacementAction) :
    commitAction nowNs tids s a = { s with
      placement := (commitAction nowNs tids s a).placement
      pinned := (commitAction nowNs tids s a).pinned
      lastMovedNs := (commitAction nowNs tids s a).lastMovedNs } := by
  unfold commitAction
  dsimp only
  split <;> rfl

/-- The solver once the actions of a commit are booked. -/
def committed (s : IncrementalSolver) (nowNs : Nat) (tids : OrdSet Tid) (actions : List PlacementAction) :
    IncrementalSolver :=
  actions.foldl (commitAction nowNs tids) s

theorem committed_same (nowNs : Nat) (tids : OrdSet Tid) (actions : List PlacementAction) (s : IncrementalSolver) :
    committed s nowNs tids actions = { s with
      placement := (committed s nowNs tids actions).placement
      pinned := (committed s nowNs tids actions).pinned
      lastMovedNs := (committed s nowNs tids actions).lastMovedNs } := by
  unfold committed
  refine Loop.foldl_keeps (fun t : IncrementalSolver => t = { s with
    placement := t.placement, pinned := t.pinned, lastMovedNs := t.lastMovedNs }) (fun t a ht => ?_) actions rfl
  rw [commitAction_same, ht]

theorem committed_booked (nowNs : Nat) (tids : OrdSet Tid) : ∀ (actions : List PlacementAction) {s : IncrementalSolver},
    Booked hardware s → (∀ a ∈ actions, commits tids a.identity.tid = true → a.identity.tid ∈ s.threads) →
    Booked hardware (committed s nowNs tids actions)
  | [], _, h, _ => h
  | a :: actions, s, h, ha => by
    refine committed_booked nowNs tids actions (s := commitAction nowNs tids s a)
      (h.commitAction nowNs tids (ha a List.mem_cons_self)) (fun b hb hc => ?_)
    have hthreads : (commitAction nowNs tids s a).threads = s.threads := by rw [commitAction_same]
    rw [hthreads]
    exact ha b (List.mem_cons_of_mem _ hb) hc

/-- What is placed stays placed. -/
theorem placed_committed (nowNs : Nat) (tids : OrdSet Tid) {t : Tid} : ∀ (actions : List PlacementAction)
    {s : IncrementalSolver}, t ∈ s.placement → t ∈ (committed s nowNs tids actions).placement
  | [], _, h => h
  | a :: actions, s, h => by
    refine placed_committed nowNs tids actions (s := commitAction nowNs tids s a) ?_
    unfold commitAction
    dsimp only
    split
    · exact OrdMap.mem_insert.2 (Or.inr h)
    · exact h

theorem settlePinning_booked (h : Booked hardware s) (hs : Settled s) :
    Booked hardware (settlePinning s) ∧ Settled (settlePinning s) := by
  unfold settlePinning
  split
  · rename_i heff
    refine ⟨⟨h.identities, h.keyed, h.pinned, h.placed, h.moved, fun _ => h.targets (Or.inl heff.1), h.candidates,
      h.candidateNodes, h.calm⟩, fun _ => ?_⟩
    exact h.placed_of_size (pinned_of_effective heff.2)
  · exact ⟨h, hs⟩

theorem commit_eq {p : SolverProposal} (h : s.outstanding = some p) (nowNs : Nat) (tids : OrdSet Tid) :
    commit s p nowNs tids =
      { settlePinning (committed s nowNs tids p.actions) with
        generation := (settlePinning (committed s nowNs tids p.actions)).generation + 1
        outstanding := none } := by
  unfold commit
  rw [if_pos (by rw [h]; rfl)]
  rfl

/-- A commit leaves the threads and their identities alone. -/
theorem identities_commit {p : SolverProposal} (h : s.outstanding = some p) (nowNs : Nat)
    (tids : OrdSet Tid) : (s.commit p nowNs tids).threads = s.threads ∧ (s.commit p nowNs tids).identities = s.identities := by
  have hsettle : ∀ s : IncrementalSolver, (settlePinning s).threads = s.threads ∧
      (settlePinning s).identities = s.identities := by
    intro s
    unfold settlePinning
    split <;> exact ⟨rfl, rfl⟩
  rw [commit_eq h]
  show (settlePinning _).threads = _ ∧ (settlePinning _).identities = _
  rw [(hsettle _).1, (hsettle _).2, committed_same]
  exact ⟨rfl, rfl⟩

theorem commit_booked {p : SolverProposal} (hb : Booked hardware s) (hs : Settled s) (h : s.outstanding = some p)
    (nowNs : Nat) {tids : OrdSet Tid} (ha : ∀ a ∈ p.actions, commits tids a.identity.tid = true → a.identity.tid ∈ s.threads) :
    Booked hardware (commit s p nowNs tids) ∧ Settled (commit s p nowNs tids) := by
  have hc := committed_booked nowNs tids p.actions hb ha
  have hset : Settled (committed s nowNs tids p.actions) := by
    intro hphase t ht
    rw [committed_same] at hphase ht
    exact placed_committed nowNs tids p.actions (hs hphase t ht)
  obtain ⟨h1, h2⟩ := settlePinning_booked hc hset
  rw [commit_eq h]
  exact ⟨⟨h1.identities, h1.keyed, h1.pinned, h1.placed, h1.moved, h1.targets, h1.candidates, h1.candidateNodes, h1.calm⟩,
    h2⟩

/-- The invariant of the runs. -/
structure Kept (hardware : HardwareGraph) (s : IncrementalSolver) : Prop where
  booked : Booked hardware s
  settled : Settled s
  offered : Offered s

theorem Kept.new (hardware : HardwareGraph) (shadow : Bool) : Kept hardware { shadow := shadow } where
  booked := Booked.new hardware shadow
  settled h := by cases h
  offered p h := by cases h

/-- **Every call keeps the invariant.** -/
theorem Kept.step (hd : hardware.Discovered) (h : Kept hardware s) {call : Call} (hp : Protocol hardware s call)
    (hstep : step s call = some s') : Kept hardware s' := by
  cases call with
  | propose input =>
    obtain ⟨rfl, -⟩ := hp
    cases hr : s.propose input with
    | error e =>
      rw [IncrementalSolver.step, hr] at hstep
      cases hstep
    | ok r =>
      rw [IncrementalSolver.step, hr] at hstep
      cases hstep
      obtain ⟨hb, hs⟩ := propose_booked hd h.booked h.settled hr
      exact ⟨hb, hs, propose_offered hd h.booked h.settled h.offered hr⟩
  | commit nowNs tids =>
    obtain ⟨p, hout, rfl⟩ := Option.map_eq_some_iff.1 hstep
    obtain ⟨hb, hs⟩ := commit_booked h.booked h.settled hout nowNs (fun a ha => (hp p hout a ha).1)
    refine ⟨hb, hs, fun q hq => ?_⟩
    rw [commit_eq hout] at hq
    cases hq
  | discard =>
    obtain ⟨p, hout, rfl⟩ := Option.map_eq_some_iff.1 hstep
    have he : s.discard p = { s with outstanding := none } := by
      unfold discard
      rw [if_pos (by rw [hout]; rfl)]
    rw [he]
    have hb := h.booked
    refine ⟨⟨hb.identities, hb.keyed, hb.pinned, hb.placed, hb.moved, hb.targets, hb.candidates, hb.candidateNodes,
      hb.calm⟩, h.settled, fun q hq => ?_⟩
    cases hq
  | removeThread tid =>
    cases hstep
    refine ⟨h.booked.removeThread tid, h.settled.removeThread tid, fun p hout a ha hmem => ?_⟩
    have hm := OrdMap.mem_erase.1 (show a.identity.tid ∈ s.threads.erase tid from hmem)
    exact (OrdMap.find?_erase_ne _ hm.1).trans (h.offered p hout a ha hm.2)
  | reset =>
    cases hstep
    exact Kept.new hardware s.shadow

theorem Reachable.new (hardware : HardwareGraph) (shadow : Bool) : Reachable hardware { shadow := shadow } :=
  ⟨shadow, [], trivial, rfl⟩

theorem Reachable.call {call : Call} (h : Reachable hardware s) (hp : Protocol hardware s call)
    (hstep : step s call = some s') : Reachable hardware s' := by
  obtain ⟨shadow, calls, hobeys, hexec⟩ := h
  refine ⟨shadow, calls ++ [call], hobeys.snoc (fun t ht => ?_), Run.exec_snoc hexec hstep⟩
  rw [hexec] at ht
  cases ht
  exact hp

/-- **What every call keeps, every reachable state has**; the step may use the invariant. -/
theorem Reachable.induct (hd : hardware.Discovered) {P : IncrementalSolver → Prop} (hnew : ∀ shadow, P { shadow := shadow })
    (hstep : ∀ s call s', Kept hardware s → P s → Protocol hardware s call → step s call = some s' → P s')
    (h : Reachable hardware s) : Kept hardware s ∧ P s := by
  obtain ⟨shadow, calls, hobeys, hexec⟩ := h
  refine hobeys.invariant (fun s => Kept hardware s ∧ P s) (fun s call s' hi hp he => ?_)
    ⟨Kept.new hardware shadow, hnew shadow⟩ hexec
  exact ⟨hi.1.step hd hp he, hstep s call s' hi.1 hi.2 hp he⟩

theorem Reachable.kept (hd : hardware.Discovered) (h : Reachable hardware s) : Kept hardware s :=
  (Reachable.induct hd (P := fun _ => True) (fun _ => trivial) (fun _ _ _ _ _ _ _ => trivial) h).1

/-- A proposal that is newly outstanding comes from the pinning branch or from the optimizing one. -/
theorem propose_outstanding {input : IncrementalInput} {p q : SolverProposal} (hnone : s.outstanding = none)
    (h : propose s input = .ok (p, s')) (hq : s'.outstanding = some q) : q = p ∧ onlineCpus input.hardware ≠ 0 ∧
    ((intake s input).1.phase = .initialPinning ∧
        initialPinning (intake s input).1 input (intake s input).2 = .ok (p, s') ∨
      (intake s input).1.phase = .optimizing ∧ p.phase = .optimizing ∧
        optimize (intake s input).1 input (intake s input).2 = (p, s')) := by
  have hout : (intake s input).1.outstanding = none := (intake_outstanding s input).trans hnone
  obtain hsame | ⟨-, hcpus, hphases⟩ := propose_cases h
  · rw [hsame.1] at hnone
    cases hnone
  rcases hphases with ⟨-, -, rfl⟩ | ⟨-, hr⟩ | ⟨hphase, hr⟩ | ⟨hphase, hr⟩
  · rw [hout] at hq
    cases hq
  · rw [(nodePlanning_same hr).2.1, hout] at hq
    cases hq
  · rcases (initialPinning_same hr).2 with ho | ho
    · rw [ho, hout] at hq
      cases hq
    · rw [ho] at hq
      exact ⟨(Option.some.inj hq).symm, hcpus, Or.inl ⟨hphase, hr⟩⟩
  · have hp := optimize_phase (intake s input).1 input (intake s input).2
    rcases optimize_outstanding (intake s input).1 input (intake s input).2 with ho | ho
    · rw [hr] at ho
      rw [ho, hout] at hq
      cases hq
    · rw [hr] at ho hp
      rw [ho] at hq
      exact ⟨(Option.some.inj hq).symm, hcpus, Or.inr ⟨hphase, hp, hr⟩⟩

/-- **What a proposal has when it is offered, and keeps while threads leave, every outstanding one has.** -/
theorem Reachable.outstanding (hd : hardware.Discovered) {Q : IncrementalSolver → SolverProposal → Prop}
    (hoffer : ∀ s input p s' q, input.hardware = hardware → Kept hardware s → s.outstanding = none →
      propose s input = .ok (p, s') → s'.outstanding = some q → Q s' q)
    (hleave : ∀ s tid q, Q s q → Q (s.removeThread tid) q) (h : Reachable hardware s) :
    ∀ q, s.outstanding = some q → Q s q := by
  refine (Reachable.induct hd (P := fun s => ∀ q, s.outstanding = some q → Q s q) (fun _ q hq => by cases hq)
    (fun s call s' hk hQ hp hstep => ?_) h).2
  cases call with
  | propose input =>
    cases hr : s.propose input with
    | error e =>
      rw [step, hr] at hstep
      cases hstep
    | ok r =>
      rw [step, hr] at hstep
      cases hstep
      cases hout : s.outstanding with
      | none => exact fun q hq => hoffer s input r.1 r.2 q hp.1 hk hout hr hq
      | some p =>
        obtain hsame | ⟨hnone, -⟩ := propose_cases hr
        · rw [hsame.2]
          exact hQ
        · rw [hnone] at hout
          cases hout
  | commit nowNs tids =>
    obtain ⟨p, hout, rfl⟩ := Option.map_eq_some_iff.1 hstep
    intro q hq
    rw [commit_eq hout] at hq
    cases hq
  | discard =>
    obtain ⟨p, hout, rfl⟩ := Option.map_eq_some_iff.1 hstep
    intro q hq
    unfold discard at hq
    rw [if_pos (by rw [hout]; rfl)] at hq
    cases hq
  | removeThread tid =>
    cases hstep
    exact fun q hq => hleave s tid q (hQ q hq)
  | reset =>
    cases hstep
    intro q hq
    cases hq

end Runs

/-! ## A TID that comes back -/

section Reuse

variable {input : IncrementalInput} {adjacency : OrdMap Tid (List RelationEdge)}

/-- What the intake has on record of a TID. -/
def recordOf (st : Intake) (u : Tid) : Option ThreadIdentity × Option Int × Option Int :=
  (st.solver.identities.find? u, st.solver.placement.find? u, st.solver.baselineCpu.find? u)

theorem forgetReused_record (s : IncrementalSolver) (identity : ThreadIdentity) {u : Tid} (hu : identity.tid ≠ u) :
    (forgetReused s identity).identities.find? u = s.identities.find? u ∧
    (forgetReused s identity).placement.find? u = s.placement.find? u ∧
    (forgetReused s identity).baselineCpu.find? u = s.baselineCpu.find? u := by
  rcases forgetReused_cases s identity with ⟨he, -⟩ | ⟨he, -⟩
  · rw [he]
    exact ⟨rfl, rfl, rfl⟩
  · rw [he]
    exact ⟨OrdMap.find?_erase_ne _ hu, OrdMap.find?_erase_ne _ hu, OrdMap.find?_erase_ne _ hu⟩

theorem takeIn_record_local (input : IncrementalInput) (adjacency : OrdMap Tid (List RelationEdge)) :
    Loop.Local recordOf (fun th : ThreadDemand => th.identity.tid) (takeIn input adjacency) := by
  intro st th u hu
  obtain ⟨h1, h2, h3⟩ := forgetReused_record st.solver th.identity hu
  have hids : ∀ i, (OrdMap.insert (forgetReused st.solver th.identity).identities th.identity.tid i).find? u =
      st.solver.identities.find? u := fun i => (OrdMap.find?_insert_ne _ _ hu).trans h1
  have hbase : ∀ c, (OrdMap.insert (forgetReused st.solver th.identity).baselineCpu th.identity.tid c).find? u =
      st.solver.baselineCpu.find? u := fun c => (OrdMap.find?_insert_ne _ _ hu).trans h3
  unfold recordOf takeIn
  dsimp only
  split
  · dsimp only
    rw [h1, h2, h3]
  · split
    · dsimp only
      rw [hids, h2, hbase]
    · dsimp only
      rw [hids, h2, hbase]

/-- **A solver that knew the TID under another identity takes the thread in as one that never knew it.** -/
theorem takeIn_reused (input : IncrementalInput) (adjacency : OrdMap Tid (List RelationEdge)) {st : Intake} {th : ThreadDemand} {old : ThreadIdentity}
    (h : st.solver.identities.find? th.identity.tid = some old) (hne : old ≠ th.identity) :
    takeIn input adjacency st th =
      takeIn input adjacency { st with solver := removeThread st.solver th.identity.tid } th := by
  have h₁ : forgetReused st.solver th.identity = removeThread st.solver th.identity.tid := by
    unfold forgetReused
    rw [h]
    exact if_neg hne
  have h₂ : forgetReused (removeThread st.solver th.identity.tid) th.identity = removeThread st.solver th.identity.tid := by
    unfold forgetReused
    rw [show (removeThread st.solver th.identity.tid).identities.find? th.identity.tid = none from
      OrdMap.find?_erase_self _ _]
  unfold takeIn
  dsimp only
  rw [h₁, h₂]

/-- What is on record of it then. -/
theorem takeIn_record {st : Intake} {th : ThreadDemand} {old : ThreadIdentity}
    (h : st.solver.identities.find? th.identity.tid = some old) (hne : old ≠ th.identity) :
    recordOf (takeIn input adjacency st th) th.identity.tid = (some th.identity, none, some th.currentCpu) := by
  have hforget : forgetReused st.solver th.identity = removeThread st.solver th.identity.tid := by
    unfold forgetReused
    rw [h]
    exact if_neg hne
  have hno : th.identity.tid ∉ (removeThread st.solver th.identity.tid).identities :=
    OrdMap.notMem_iff.2 (OrdMap.find?_erase_self _ _)
  have hplace : (removeThread st.solver th.identity.tid).placement.find? th.identity.tid = none :=
    OrdMap.find?_erase_self _ _
  unfold recordOf takeIn
  dsimp only
  rw [hforget, if_neg hno]
  split
  · dsimp only
    rw [OrdMap.find?_insert_self, OrdMap.find?_insert_self, hplace]
  · dsimp only
    rw [OrdMap.find?_insert_self, OrdMap.find?_insert_self, hplace]

/-- A thread of the window is not stale. -/
theorem dropStale_window {β : Type} (proj : IncrementalSolver → Tid → β)
    (hlocal : Loop.Local proj id removeThread) (s : IncrementalSolver) {threads : List ThreadDemand} {th : ThreadDemand}
    (h : th ∈ threads) : proj (dropStale s threads) th.identity.tid = proj s th.identity.tid := by
  refine hlocal.foldl_notMem (fun tid htid he => ?_)
  have hstale := (List.mem_filter.1 htid).2
  rw [Bool.not_eq_true', List.any_eq_false] at hstale
  exact hstale th h (decide_eq_true he.symm)

/-- The intake as the loop over the window starts. -/
def startOf (s : IncrementalSolver) (input : IncrementalInput) : Intake :=
  { solver := dropStale { s with groupPeakDemand := groupPeaks s input } input.threads }

/-- A thread of the window with the demand it is planned with. -/
def plannedFor (s : IncrementalSolver) (input : IncrementalInput) (th : ThreadDemand) : ThreadDemand :=
  { th with demand := effectiveDemand input.options (groupPeaks s input) th }

/-- The intake when the loop reaches the thread, with everything of its TID forgotten, is what decides for it. -/
def TakenInAfresh (s : IncrementalSolver) (input : IncrementalInput) (th : ThreadDemand) : Prop :=
  ∃ earlier later, incomingThreads s input = earlier ++ plannedFor s input th :: later ∧
    let st := earlier.foldl (takeIn input (incomingAdjacency s input)) (startOf s input)
    takenIn s input = later.foldl (takeIn input (incomingAdjacency s input)) (takeIn input (incomingAdjacency s input)
      { st with solver := removeThread st.solver th.identity.tid } (plannedFor s input th))

/-- The loop reaches the thread, forgets the TID, and takes the thread in; nothing after that touches its records. -/
theorem takenIn_reused {s : IncrementalSolver} (hn : (input.threads.map (·.identity.tid)).Nodup) {th : ThreadDemand}
    (hth : th ∈ input.threads) {old : ThreadIdentity} (hold : s.identities.find? th.identity.tid = some old)
    (hne : old ≠ th.identity) :
    recordOf (takenIn s input) th.identity.tid = (some th.identity, none, some th.currentCpu) ∧
    TakenInAfresh s input th := by
  have hmem : plannedFor s input th ∈ incomingThreads s input := List.mem_map.2 ⟨th, hth, rfl⟩
  have hnodup : ((incomingThreads s input).map (·.identity.tid)).Nodup := by
    unfold incomingThreads
    rw [List.map_map]
    exact hn
  obtain ⟨earlier, later, hsplit, hpre, hrec⟩ :=
    (takeIn_record_local input (incomingAdjacency s input)).foldl_at hnodup hmem (startOf s input)
  have hfind : (earlier.foldl (takeIn input (incomingAdjacency s input)) (startOf s input)).solver.identities.find?
      (plannedFor s input th).identity.tid = some old := by
    have hstart : (startOf s input).solver.identities.find? th.identity.tid = s.identities.find? th.identity.tid :=
      dropStale_window (fun s u => s.identities.find? u) (fun s tid u hu => OrdMap.find?_erase_ne _ hu) _ hth
    rw [← hold, ← hstart]
    exact congrArg Prod.fst hpre
  refine ⟨hrec.trans (takeIn_record hfind hne), earlier, later, hsplit, ?_⟩
  have hst := takeIn_reused input (incomingAdjacency s input) hfind hne
  rw [show (plannedFor s input th).identity.tid = th.identity.tid from rfl] at hst
  dsimp only
  rw [← hst, ← List.foldl_cons (f := takeIn input (incomingAdjacency s input)), ← List.foldl_append, ← hsplit]
  rfl

/-- What `propose` does with a TID it knows under another identity. -/
structure Afresh (s : IncrementalSolver) (input : IncrementalInput) (th : ThreadDemand) (p : SolverProposal)
    (s' : IncrementalSolver) : Prop where
  identity : s'.identities.find? th.identity.tid = some th.identity
  unplaced : th.identity.tid ∉ s'.placement
  unpinned : th.identity.tid ∉ s'.pinned
  unmoved : th.identity.tid ∉ s'.lastMovedNs
  baseline : s'.baselineCpu.find? th.identity.tid = some th.currentCpu
  actions : ∀ a ∈ p.actions, a.identity.tid = th.identity.tid →
    a.identity = th.identity ∧ a.fromCpu = th.currentCpu ∧ a.initialPin = true
  taken : TakenInAfresh s input th

/-- **Nothing of the old incarnation is left for the new one.** -/
theorem propose_afresh {s s' : IncrementalSolver} {p : SolverProposal} (hd : input.hardware.Discovered)
    (hk : Kept input.hardware s) (hnone : s.outstanding = none) (hn : (input.threads.map (·.identity.tid)).Nodup)
    (h : propose s input = .ok (p, s')) {th : ThreadDemand} (hth : th ∈ input.threads) {old : ThreadIdentity}
    (hold : s.identities.find? th.identity.tid = some old) (hne : old ≠ th.identity) : Afresh s input th p s' := by
  obtain ⟨hb', hs'⟩ := propose_booked hd hk.booked hk.settled h
  obtain ⟨hrec, htaken⟩ := takenIn_reused hn hth hold hne
  obtain hout | ⟨-, hcpus, hphases⟩ := propose_cases h
  · rw [hnone] at hout
    cases hout.1
  obtain ⟨hib, his⟩ := intake_booked hd (cpus_ne_nil_of_online hcpus) hk.booked hk.settled
  have hrecords := records_intake s input
  unfold records at hrecords
  simp only [Prod.mk.injEq] at hrecords
  unfold recordOf at hrec
  simp only [Prod.mk.injEq] at hrec
  -- the same records after the intake
  have hid : (intake s input).1.identities.find? th.identity.tid = some th.identity := by
    rw [hrecords.2.1]
    exact hrec.1
  have hplace : (intake s input).1.placement.find? th.identity.tid = none := by
    rw [hrecords.2.2.1]
    exact hrec.2.1
  have hbase : (intake s input).1.baselineCpu.find? th.identity.tid = some th.currentCpu := by
    rw [hrecords.2.2.2.1]
    exact hrec.2.2
  have hmem : th.identity.tid ∈ (intake s input).1.threads := hib.mem_identities.1 (OrdMap.mem_of_find hid)
  -- whatever the phase, the solver's records are those and its actions start from them
  have hphase : (s'.identities = (intake s input).1.identities ∧ s'.placement = (intake s input).1.placement ∧
      s'.baselineCpu = (intake s input).1.baselineCpu) ∧
      ∀ a ∈ p.actions, a.identity.tid = th.identity.tid → a.identity = th.identity ∧ a.fromCpu = th.currentCpu ∧
        a.initialPin = true := by
    rcases hphases with ⟨-, rfl, rfl⟩ | ⟨-, hr⟩ | ⟨hphase, hr⟩ | ⟨hphase, -⟩
    · exact ⟨⟨rfl, rfl, rfl⟩, fun a ha => by cases ha⟩
    · obtain ⟨hact, -, -, h1, h2, h3⟩ := nodePlanning_same hr
      refine ⟨⟨h1, h2, h3⟩, fun a ha => ?_⟩
      rw [hact] at ha
      cases ha
    · have hsame := (initialPinning_same hr).1
      dsimp only at hsame
      refine ⟨by rw [hsame]; exact ⟨rfl, rfl, rfl⟩, fun a ha hat => ?_⟩
      obtain ⟨t, ht, -, hai, hfrom, -, hpin⟩ := initialPinning_actions hib hphase (intake_actions s input) hr ha
      have hidt := hib.identityOf ht
      have htt : t = th.identity.tid := by
        rw [← hidt.2, ← hai, hat]
      rw [htt] at hai hfrom hidt
      refine ⟨?_, ?_, hpin⟩
      · rw [hai]
        exact Option.some.inj (hidt.1.symm.trans hid)
      · rw [hfrom, homeCpu, hplace, OrdMap.getD, hbase]
        rfl
    · -- an optimizing solver has placed every thread
      obtain ⟨cpu, hcpu⟩ := OrdMap.mem_iff.1 (his hphase _ hmem)
      rw [hplace] at hcpu
      cases hcpu
  obtain ⟨⟨h1, h2, h3⟩, hactions⟩ := hphase
  have hunplaced : th.identity.tid ∉ s'.placement := by
    rw [h2]
    exact OrdMap.notMem_iff.2 hplace
  exact ⟨by rw [h1]; exact hid, hunplaced, fun hp => hunplaced ((hb'.pinned _).1 hp), fun hm => hunplaced (hb'.moved _ hm),
    by rw [h3]; exact hbase, hactions, htaken⟩

/-- **The representation invariant in every reachable state**, also of the actions that wait for their commit; and a TID
that comes back under another identity begins anew. -/
theorem reachable_represents {hardware : HardwareGraph} {s : IncrementalSolver} (hd : hardware.Discovered)
    (h : Reachable hardware s) :
    Represents hardware s ∧
    (∀ p, s.outstanding = some p → ∀ a ∈ p.actions, a.identity.tid ∈ s.threads →
      s.identities.find? a.identity.tid = some a.identity) ∧
    ∀ input p s', input.hardware = hardware → (input.threads.map (·.identity.tid)).Nodup → s.outstanding = none →
      propose s input = .ok (p, s') → ∀ th ∈ input.threads, ∀ old, s.identities.find? th.identity.tid = some old →
        old ≠ th.identity → Afresh s input th p s' := by
  have hk := h.kept hd
  refine ⟨hk.booked.represents hk.settled, hk.offered, ?_⟩
  rintro input p s' rfl hn hnone hr th hth old hold hne
  exact propose_afresh hd hk hnone hn hr hth hold hne

/-- Two nodes of one CPU, and a window of two threads; the TID 1 comes back with another start time. -/
def twoNodes : HardwareGraph := { cpus := [⟨0, 0, true⟩, ⟨1, 1, true⟩] }

def twoThreads (starttime : Nat) : IncrementalInput where
  hardware := twoNodes
  threads := [⟨⟨1, 1, starttime⟩, "g", 1 / 2, 1, 0⟩, ⟨⟨1, 2, 0⟩, "g", 1 / 2, 1, 1⟩]

def pinnedRun : List Call := [.propose (twoThreads 0), .propose (twoThreads 0), .commit 5 ∅]

theorem reachable_represents_returned :
    twoNodes.Discovered ∧ ∃ s, Run.exec step {} pinnedRun = some s ∧ s.phase = .optimizing ∧
      s.placement.find? 1 = some 0 ∧ Represents twoNodes s ∧
      ∃ p s', propose s (twoThreads 7) = .ok (p, s') ∧ p.actions.map (fun a => (a.identity.tid, a.fromCpu)) = [(1, 0)] ∧
        Afresh s (twoThreads 7) ⟨⟨1, 1, 7⟩, "g", 1 / 2, 1, 0⟩ p s' := by
  have hd : twoNodes.Discovered := ⟨by decide, by decide⟩
  have hobeys : Run.Obeys step (Protocol twoNodes) {} pinnedRun := by decide +kernel
  have hsome : ((Run.exec step {} pinnedRun).any (fun s => decide (s.phase = .optimizing ∧ s.outstanding.isNone = true ∧
      s.placement.find? 1 = some 0 ∧ s.identities.find? 1 = some ⟨1, 1, 0⟩) &&
      (match propose s (twoThreads 7) with
        | .ok r => decide (r.1.actions.map (fun a => (a.identity.tid, a.fromCpu)) = [(1, 0)])
        | .error _ => false))) = true := by decide +kernel
  cases hexec : Run.exec step {} pinnedRun with
  | none =>
    rw [hexec] at hsome
    cases hsome
  | some s =>
    rw [hexec, Option.any_some, Bool.and_eq_true, decide_eq_true_eq] at hsome
    obtain ⟨⟨hphase, hnone, hplace, hid⟩, hr⟩ := hsome
    cases hp : propose s (twoThreads 7) with
    | error e =>
      rw [hp] at hr
      cases hr
    | ok r =>
      rw [hp] at hr
      have hall := reachable_represents hd (s := s) ⟨false, pinnedRun, hobeys, hexec⟩
      exact ⟨hd, s, rfl, hphase, hplace, hall.1, r.1, r.2, hp, of_decide_eq_true hr,
        hall.2.2 (twoThreads 7) r.1 r.2 rfl (by decide) (Option.isNone_iff_eq_none.1 hnone) hp _ List.mem_cons_self
          ⟨1, 1, 0⟩ hid (by decide)⟩

end Reuse

end IncrementalSolver
end AffinityGraph
