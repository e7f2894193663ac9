import AffinityGraph.Cohort
import AffinityGraph.Emergencies
/-!
# ProposalForm — what a placement proposal looks like (`solver.cpp`)

Three branches fill a proposal, and the phase that chooses among them is settled by the intake, which computes the budget from
it too.  Whatever the branch: a proposal moves different threads, known under the identity it names, from where they are to
CPUs of the envelope, no more of them than the budget of its phase, and its delta says the same as its actions.
-/
namespace AffinityGraph
namespace IncrementalSolver

/-! ## Where a thread was found -/

/-- Every known thread has a baseline CPU. -/
def Based (s : IncrementalSolver) : Prop := ∀ t ∈ s.identities, t ∈ s.baselineCpu

section Based

variable {hardware : HardwareGraph} {s s' : IncrementalSolver} {input : IncrementalInput} {p : SolverProposal}

theorem Based.removeThread (h : Based s) (tid : Tid) : Based (s.removeThread tid) := by
  intro t ht
  obtain ⟨hne, ht⟩ := OrdMap.mem_erase.1 (show t ∈ s.identities.erase tid from ht)
  exact OrdMap.mem_erase.2 ⟨hne, h t ht⟩

theorem Based.forgetReused (h : Based s) (identity : ThreadIdentity) : Based (forgetReused s identity) := by
  rcases forgetReused_cases s identity with ⟨he, -⟩ | ⟨he, -⟩
  · rw [he]
    exact h
  · rw [he]
    exact h.removeThread _

/-- A thread enters with the CPU it was seen on. -/
theorem Based.takeIn {adjacency : OrdMap Tid (List RelationEdge)} {st : Intake} (h : Based st.solver) (th : ThreadDemand) :
    Based (takeIn input adjacency st th).solver := by
  have hforget := h.forgetReused th.identity
  have hentered : ∀ t ∈ (IncrementalSolver.forgetReused st.solver th.identity).identities.insert th.identity.tid th.identity,
      t ∈ (IncrementalSolver.forgetReused st.solver th.identity).baselineCpu.insert th.identity.tid th.currentCpu := by
    intro t ht
    rcases OrdMap.mem_insert.1 ht with he | ht
    · exact OrdMap.mem_insert.2 (.inl he)
    · exact OrdMap.mem_insert.2 (.inr (hforget t ht))
  unfold IncrementalSolver.takeIn
  dsimp only
  split
  · exact hforget
  · split
    · exact hentered
    · exact hentered

theorem takenIn_based (h : Based s) (input : IncrementalInput) : Based (takenIn s input).solver := by
  unfold takenIn
  refine Loop.foldl_keeps (fun st : Intake => Based st.solver) (fun st th hst => hst.takeIn th) _ ?_
  exact dropStale_keeps (P := Based) (fun t tid ht => ht.removeThread tid) _ _ h

theorem intake_based (h : Based s) (input : IncrementalInput) : Based (intake s input).1 := by
  have hrec := records_intake s input
  unfold records at hrec
  simp only [Prod.mk.injEq] at hrec
  intro t ht
  rw [hrec.2.1] at ht
  rw [hrec.2.2.2.1]
  exact takenIn_based h input t ht

theorem propose_based (h : Based s) (hr : propose s input = .ok (p, s')) : Based s' := by
  obtain hsame | ⟨-, -, hphases⟩ := propose_cases hr
  · rw [hsame.2]
    exact h
  have hi := intake_based h input
  rcases hphases with ⟨-, -, rfl⟩ | ⟨-, hr⟩ | ⟨-, hr⟩ | ⟨-, hr⟩
  · exact hi
  · obtain ⟨-, -, -, hids, -, hbase⟩ := nodePlanning_same hr
    intro t ht
    rw [hids] at ht
    rw [hbase]
    exact hi t ht
  · have hsame := (initialPinning_same hr).1
    dsimp only at hsame
    rw [hsame]
    exact hi
  · have hsame := optimize_same (intake s input).1 input (intake s input).2
    rw [hr] at hsame
    dsimp only at hsame
    rw [hsame]
    exact hi

theorem commit_based (h : Based s) (hout : s.outstanding = some p) (nowNs : Nat) (tids : OrdSet Tid) :
    Based (s.commit p nowNs tids) := by
  have hsettle : ∀ t : IncrementalSolver, Based t → Based (settlePinning t) := by
    intro t ht
    unfold settlePinning
    split <;> exact ht
  rw [commit_eq hout]
  refine hsettle _ ?_
  rw [committed_same]
  exact h

theorem Reachable.based (hd : hardware.Discovered) (h : Reachable hardware s) : Based s := by
  refine (Reachable.induct hd (P := Based) (fun _ t ht => absurd ht (OrdMap.notMem_empty t))
    (fun s call s' _ hb _ hstep => ?_) h).2
  cases call with
  | propose input =>
    cases hr : s.propose input with
    | error e =>
      rw [step, hr] at hstep
      cases hstep
    | ok r =>
      rw [step, hr] at hstep
      cases hstep
      exact propose_based hb hr
  | commit nowNs tids =>
    obtain ⟨p, hout, rfl⟩ := Option.map_eq_some_iff.1 hstep
    exact commit_based hb hout nowNs tids
  | discard =>
    obtain ⟨p, hout, rfl⟩ := Option.map_eq_some_iff.1 hstep
    unfold discard
    rw [if_pos (by rw [hout]; rfl)]
    exact hb
  | removeThread tid =>
    cases hstep
    exact hb.removeThread tid
  | reset =>
    cases hstep
    exact fun t ht => absurd ht (OrdMap.notMem_empty t)

end Based

/-! ## The delta and the flag -/

/-- The map of some actions. -/
def deltaOf (actions : List PlacementAction) : OrdMap Tid Int :=
  actions.foldl (fun (m : OrdMap Tid Int) a => m.insert a.identity.tid a.targetCpu) ∅

/-- The delta is the map of the actions, and a proposal with actions is ready. -/
structure Filled (p : SolverProposal) : Prop where
  delta : p.delta.tidToCpu = deltaOf p.actions
  ready : p.ready = !p.actions.isEmpty

section Filled

variable {s : IncrementalSolver} {input : IncrementalInput} {proposal : SolverProposal}

theorem find?_deltaOf {actions : List PlacementAction} (hn : (actions.map (·.identity.tid)).Nodup) {t : Tid} {cpu : Int} :
    (deltaOf actions).find? t = some cpu ↔ ∃ a ∈ actions, a.identity.tid = t ∧ a.targetCpu = cpu := by
  constructor
  · intro h
    rcases OrdMap.find?_foldl_insert (fun a : PlacementAction => a.identity.tid) (fun a => a.targetCpu) actions ∅ h with
      h | h
    · exact h
    · cases h
  · rintro ⟨a, ha, rfl, rfl⟩
    exact OrdMap.find?_foldl_insert_of_mem (fun a : PlacementAction => a.identity.tid) (fun a => a.targetCpu) actions ∅ hn ha

theorem intake_filled (s : IncrementalSolver) (input : IncrementalInput) : Filled (intake s input).2 := ⟨rfl, rfl⟩

theorem nodePlanning_filled (h : Filled proposal) {r : SolverProposal × IncrementalSolver}
    (hr : nodePlanning s input proposal = .ok r) : Filled r.1 := by
  unfold nodePlanning at hr
  cases hplan : planNodes s input with
  | error e =>
    rw [hplan] at hr
    cases hr
  | ok plan =>
    rw [hplan] at hr
    cases hr
    show Filled (confirmNodes s input proposal _).1
    unfold confirmNodes
    dsimp only
    split
    · split <;> exact ⟨h.delta, h.ready⟩
    · split <;> exact ⟨h.delta, h.ready⟩

/-- The delta of a batch is built from its threads, which are those of its actions. -/
theorem initialPinning_filled (hb : Booked input.hardware s) (hphase : s.phase = .initialPinning) (h : Filled proposal)
    {r : SolverProposal × IncrementalSolver} (hr : initialPinning s input proposal = .ok r) : Filled r.1 := by
  unfold initialPinning at hr
  dsimp only at hr
  split at hr
  · cases hr
    exact ⟨h.delta, h.ready⟩
  · rw [readTargets_eq (hb.targets (Or.inl hphase))] at hr
    cases hs : seatBatch input (pendingBatch s input.hardware proposal.migrationBudget)
        { solver := s, projected := vacated s (pendingBatch s input.hardware proposal.migrationBudget) } with
    | error e =>
      rw [hs] at hr
      cases hr
    | ok st =>
      rw [hs] at hr
      cases hr
      refine ⟨?_, rfl⟩
      show (pendingBatch s input.hardware proposal.migrationBudget).foldl _ ∅ = deltaOf (List.map _ _)
      unfold deltaOf
      rw [List.foldl_map]
      refine List.foldl_ext _ _ _ (fun m t ht => ?_)
      rw [pinAction_tid hb (mem_pendingBatch ht).1 hs]
      rfl

theorem optimize_filled (h : Filled proposal) : Filled (optimize s input proposal).1 := by
  unfold optimize
  dsimp only
  split
  · exact ⟨h.delta, h.ready⟩
  · exact ⟨rfl, rfl⟩

end Filled

/-! ## The budget -/

section Budget

variable {s : IncrementalSolver} {input : IncrementalInput}

/-- The budget of the phase the intake leaves. -/
def budgetFor (options : IncrementalOptions) (phase : IncrementalPhase) (threads : Nat) : Nat :=
  ⌊(threads : ℚ) * (if phase = .initialPinning then options.initialMigratedThreadsRatio
    else options.maximumMigratedThreadsRatio)⌋.toNat

/-- **The phase may change once more after the budget is computed, but not into or out of a phase that has actions.** -/
theorem intake_budget (s : IncrementalSolver) (input : IncrementalInput)
    (h : (intake s input).1.phase = .initialPinning ∨ (intake s input).1.phase = .optimizing) :
    (intake s input).2.migrationBudget =
      budgetFor input.options (intake s input).1.phase (intake s input).1.threads.size := by
  have hbudget : (intake s input).2.migrationBudget =
      budgetFor input.options (settleHotspots input (settlePhase input (takenIn s input))).1.phase
        (settleHotspots input (settlePhase input (takenIn s input))).1.threads.size := rfl
  rw [hbudget]
  rw [intake_eq] at h ⊢
  dsimp only at h ⊢
  split at h
  · rcases h with h | h <;> cases h
  · rename_i hsome
    rw [if_neg hsome]
    split at h
    · rcases h with h | h <;> cases h
    · rename_i hstarted
      rw [if_neg hstarted]

/-- The selection moves different threads, and no more than the budget. -/
theorem select_distinct {confirmations : OrdMap String Int} {budget : Nat} : ∀ (l : List Potential) (st : Batch),
    (∀ x ∈ l, (x.actions.map (·.identity.tid)).Nodup) → (st.actions.map (·.identity.tid)).Nodup → st.actions.length ≤ budget →
    ((l.foldl (selectPotential s input confirmations budget) st).actions.map (·.identity.tid)).Nodup ∧
      (l.foldl (selectPotential s input confirmations budget) st).actions.length ≤ budget
  | [], _, _, hn, hb => ⟨hn, hb⟩
  | x :: l, st, hx, hn, hb => by
    have hrest : ∀ y ∈ l, (y.actions.map (·.identity.tid)).Nodup := fun y hy => hx y (List.mem_cons_of_mem _ hy)
    rw [List.foldl_cons]
    rcases selectPotential_cases s input confirmations budget st x with he | ⟨he, hroom, hnew⟩
    · rw [he]
      exact select_distinct l st hrest hn hb
    · refine select_distinct l _ hrest ?_ ?_
      · rw [he, List.map_append]
        refine List.nodup_append.2 ⟨hn, hx x List.mem_cons_self, ?_⟩
        intro t ht u hu
        obtain ⟨b, hb, rfl⟩ := List.mem_map.1 ht
        obtain ⟨a, ha, rfl⟩ := List.mem_map.1 hu
        exact hnew a ha b hb
      · rw [he, List.length_append]
        exact hroom

/-- A batch pins different threads, and no more than the budget. -/
theorem initialPinning_tids (hb : Booked input.hardware s) (hphase : s.phase = .initialPinning) {proposal : SolverProposal}
    (hno : proposal.actions = []) {r : SolverProposal × IncrementalSolver} (hr : initialPinning s input proposal = .ok r) :
    (r.1.actions.map (·.identity.tid)).Nodup ∧ r.1.actions.length ≤ proposal.migrationBudget := by
  rcases initialPinning_ok (hb.targets (Or.inl hphase)) hr with ⟨-, he, -⟩ | ⟨st, hst, he, -⟩
  · rw [he, hno]
    exact ⟨List.nodup_nil, Nat.zero_le _⟩
  · have htids : r.1.actions.map (·.identity.tid) = pendingBatch s input.hardware proposal.migrationBudget := by
      rw [he]
      exact seatBatch_tids hb (fun t hm => (mem_pendingBatch hm).1) hst
    rw [htids]
    refine ⟨pendingBatch_nodup s input.hardware proposal.migrationBudget, ?_⟩
    rw [he, List.length_map]
    exact List.length_take_le _ _

theorem optimize_distinct {hardware : HardwareGraph} (hb : Booked hardware s) {proposal : SolverProposal}
    (hno : proposal.actions = []) :
    ((optimize s input proposal).1.actions.map (·.identity.tid)).Nodup ∧
      (optimize s input proposal).1.actions.length ≤ proposal.migrationBudget := by
  by_cases hzero : proposal.migrationBudget = 0
  · unfold optimize
    dsimp only
    rw [if_pos hzero]
    dsimp only
    rw [hno]
    exact ⟨List.nodup_nil, Nat.zero_le _⟩
  · rw [(optimize_selection hzero).1]
    exact select_distinct _ _ (fun x hx => (sourced_of_mem hb hx).distinct) List.nodup_nil (Nat.zero_le _)

/-- A migration goes elsewhere. -/
theorem optimize_elsewhere {proposal : SolverProposal} (hno : proposal.actions = []) {a : PlacementAction}
    (ha : a ∈ (optimize s input proposal).1.actions) : a.targetCpu ≠ a.fromCpu := by
  unfold optimize at ha
  dsimp only at ha
  split at ha
  · rw [hno] at ha
    cases ha
  · rcases mem_select (show a ∈ (List.foldl (selectPotential s input _ proposal.migrationBudget)
      { loads := currentLoads s input.hardware } _).actions from ha) with h | ⟨x, hx, ha⟩
    · cases h
    · rcases mem_potentials hx with ⟨d, -, hx⟩ | ⟨⟨d, e⟩, -, hx⟩
      · unfold singleMove at hx
        obtain ⟨m, hm, rfl⟩ := Option.map_eq_some_iff.1 hx
        obtain ⟨c, hc, hm⟩ := List.mem_map.1 (List.mem_filter.1 (Community.minElement_mem hm)).1
        rw [List.mem_singleton] at ha
        subst ha hm
        have hother := (List.mem_filter.1 hc).2
        rw [Bool.and_eq_true, decide_eq_true_eq] at hother
        exact hother.2
      · obtain ⟨hne, hactions, -⟩ := pairSwap_some hx
        rw [hactions] at ha
        rcases List.mem_pair.1 ha with rfl | rfl
        · exact hne.symm
        · exact hne

end Budget

/-! ## Every proposal -/

/-- A proposal as `propose` returns it with the solver it leaves. -/
structure WellFormed (hardware : HardwareGraph) (options : IncrementalOptions) (s : IncrementalSolver) (p : SolverProposal) :
    Prop where
  distinct : (p.actions.map (·.identity.tid)).Nodup
  known : ∀ a ∈ p.actions, a.identity.tid ∈ s.threads ∧ s.identities.find? a.identity.tid = some a.identity
  phases : p.actions ≠ [] → p.phase = .initialPinning ∨ p.phase = .optimizing
  pinningBudget : p.phase = .initialPinning →
    p.actions.length ≤ ⌊(s.threads.size : ℚ) * options.initialMigratedThreadsRatio⌋.toNat
  optimizingBudget : p.phase = .optimizing →
    p.actions.length ≤ ⌊(s.threads.size : ℚ) * options.maximumMigratedThreadsRatio⌋.toNat
  source : ∀ a ∈ p.actions, (s.placement.find? a.identity.tid).or (s.baselineCpu.find? a.identity.tid) = some a.fromCpu
  target : ∀ a ∈ p.actions, hardware.HasCpu a.targetCpu
  elsewhere : p.phase = .optimizing → ∀ a ∈ p.actions, a.targetCpu ≠ a.fromCpu
  delta : ∀ t cpu, p.delta.tidToCpu.find? t = some cpu ↔ ∃ a ∈ p.actions, a.identity.tid = t ∧ a.targetCpu = cpu
  idle : p.ready = false ∨ p.phase = .nodePlanning → p.actions = []

section WellFormed

variable {hardware : HardwareGraph} {s s' : IncrementalSolver} {input : IncrementalInput} {p : SolverProposal}

/-- A proposal without actions. -/
theorem WellFormed.of_nil {options : IncrementalOptions} (h : Filled p) (hnil : p.actions = []) :
    WellFormed hardware options s p where
  distinct := by rw [hnil]; exact List.nodup_nil
  known a ha := by rw [hnil] at ha; cases ha
  phases hne := absurd hnil hne
  pinningBudget _ := by rw [hnil]; exact Nat.zero_le _
  optimizingBudget _ := by rw [hnil]; exact Nat.zero_le _
  source a ha := by rw [hnil] at ha; cases ha
  target a ha := by rw [hnil] at ha; cases ha
  elsewhere _ a ha := by rw [hnil] at ha; cases ha
  delta t cpu := by
    rw [h.delta, find?_deltaOf (by rw [hnil]; exact List.nodup_nil)]
  idle _ := hnil

theorem Filled.idle (h : Filled p) (hready : p.ready = false) : p.actions = [] := by
  have := h.ready
  rw [hready] at this
  simpa using this

/-- A thread is on the CPU it is placed on, or on the one it was found on. -/
theorem Based.home (h : Based s) {t : Tid} (ht : t ∈ s.identities) :
    (s.placement.find? t).or (s.baselineCpu.find? t) = some (homeCpu s t) := by
  obtain ⟨cpu, hcpu⟩ := OrdMap.mem_iff.1 (h t ht)
  unfold homeCpu OrdMap.getD
  cases hp : s.placement.find? t with
  | none => rw [hcpu]; rfl
  | some c => rfl

theorem initialPinning_wellFormed (hb : Booked input.hardware s) (hbase : Based s) (hphase : s.phase = .initialPinning)
    {proposal : SolverProposal} (hf : Filled proposal) (hno : proposal.actions = [])
    (hbudget : proposal.migrationBudget = budgetFor input.options s.phase s.threads.size)
    (hr : initialPinning s input proposal = .ok (p, s')) : WellFormed input.hardware input.options s' p := by
  have hfilled : Filled p := initialPinning_filled hb hphase hf hr
  have hsame := (initialPinning_same hr).1
  dsimp only at hsame
  have hp := (initialPinning_header hr).1
  have hbooked := (initialPinning_booked hb hphase hr).1
  have hthreads : s'.threads = s.threads := by rw [hsame]
  have hids : s'.identities = s.identities := by rw [hsame]
  have hphase' : s'.phase = .initialPinning := by rw [hsame]; exact hphase
  have hhome : ∀ t, homeCpu s' t = homeCpu s t := fun t => by rw [hsame]; rfl
  have hbase' : Based s' := by rw [hsame]; exact hbase
  have hslots := initialPinning_tids hb hphase hno hr
  have hactions : ∀ a ∈ p.actions, ∃ t ∈ s.threads, a.identity = IncrementalSolver.identityOf s t ∧ a.fromCpu = homeCpu s t ∧
      a.targetCpu = s'.initialTargetCpu.getD t 0 := by
    intro a ha
    obtain ⟨t, ht, -, hid, hfrom, htarget, -⟩ := initialPinning_actions hb hphase hno hr ha
    exact ⟨t, ht, hid, hfrom, htarget⟩
  refine ⟨hslots.1, fun a ha => ?_, fun _ => .inl hp, fun _ => ?_, fun ho => ?_, fun a ha => ?_, fun a ha => ?_,
    fun ho => ?_, fun t cpu => ?_, fun hidle => ?_⟩
  · obtain ⟨t, ht, hid, -⟩ := hactions a ha
    rw [hid, (hb.identityOf ht).2, hthreads, hids]
    exact ⟨ht, (hb.identityOf ht).1⟩
  · rw [hthreads]
    refine hslots.2.trans (le_of_eq ?_)
    rw [hbudget, budgetFor, if_pos hphase]
  · rw [hp] at ho
    cases ho
  · obtain ⟨t, ht, hid, hfrom, -⟩ := hactions a ha
    rw [hid, (hb.identityOf ht).2, hbase'.home (by rw [hids]; exact hb.mem_identities.2 ht), hhome, hfrom]
  · obtain ⟨t, ht, -, -, htarget⟩ := hactions a ha
    obtain ⟨cpu, hcpu, hhas, -⟩ := hbooked.targets (Or.inl hphase') t (by rw [hthreads]; exact ht)
    rw [htarget, OrdMap.getD, hcpu]
    exact hhas
  · rw [hp] at ho
    cases ho
  · rw [hfilled.delta]
    exact find?_deltaOf hslots.1
  · rcases hidle with hidle | hidle
    · exact hfilled.idle hidle
    · rw [hp] at hidle
      cases hidle

theorem optimize_wellFormed (hb : Booked input.hardware s)
    (hplaced : ∀ t cpu, s.placement.find? t = some cpu → input.hardware.HasCpu cpu) (hphase : s.phase = .optimizing)
    {proposal : SolverProposal} (hf : Filled proposal) (hno : proposal.actions = [])
    (hbudget : proposal.migrationBudget = budgetFor input.options s.phase s.threads.size)
    (hr : optimize s input proposal = (p, s')) : WellFormed input.hardware input.options s' p := by
  have hpair : (optimize s input proposal).1 = p := by rw [hr]
  have hfilled : Filled p := by rw [← hpair]; exact optimize_filled hf
  have hsame := optimize_same s input proposal
  rw [hr] at hsame
  dsimp only at hsame
  have hp : p.phase = .optimizing := by rw [← hpair]; exact optimize_phase s input proposal
  have hthreads : s'.threads = s.threads := by rw [hsame]
  have hids : s'.identities = s.identities := by rw [hsame]
  have hplacement : s'.placement = s.placement := by rw [hsame]
  obtain ⟨hdistinct, hcount⟩ := optimize_distinct hb hno
  rw [hpair] at hdistinct hcount
  have hactions : ∀ a ∈ p.actions, ∃ t ∈ s.threads, t ∈ s.placement ∧ a.identity = IncrementalSolver.identityOf s t ∧
      a.fromCpu = s.placement.getD t 0 := by
    intro a ha
    rw [← hpair] at ha
    exact optimize_actions hno ha
  refine ⟨hdistinct, fun a ha => ?_, fun _ => .inr hp, fun ho => ?_, fun _ => ?_, fun a ha => ?_, fun a ha => ?_,
    fun _ a ha => ?_, fun t cpu => ?_, fun hidle => ?_⟩
  · obtain ⟨t, ht, -, hid, -⟩ := hactions a ha
    rw [hid, (hb.identityOf ht).2, hthreads, hids]
    exact ⟨ht, (hb.identityOf ht).1⟩
  · rw [hp] at ho
    cases ho
  · rw [hthreads]
    refine hcount.trans (le_of_eq ?_)
    rw [hbudget, budgetFor, if_neg (by rw [hphase]; simp)]
  · obtain ⟨t, ht, hmem, hid, hfrom⟩ := hactions a ha
    obtain ⟨cpu, hcpu⟩ := OrdMap.mem_iff.1 hmem
    rw [hid, (hb.identityOf ht).2, hplacement, hcpu, hfrom, OrdMap.getD, hcpu]
    rfl
  · rw [← hpair] at ha
    exact optimize_homed hplaced hno ha
  · rw [← hpair] at ha
    exact optimize_elsewhere hno ha
  · rw [hfilled.delta]
    exact find?_deltaOf hdistinct
  · rcases hidle with hidle | hidle
    · exact hfilled.idle hidle
    · rw [hp] at hidle
      cases hidle

/-- The proposal of a reachable state with nothing outstanding. -/
theorem Reachable.proposal_wellFormed (hd : hardware.Discovered) (h : Reachable hardware s) (hin : input.hardware = hardware)
    (hnone : s.outstanding = none) (hr : propose s input = .ok (p, s')) : WellFormed hardware input.options s' p := by
  have hk := h.kept hd
  have hbase := intake_based (h.based hd) input
  have hplaced : ∀ t cpu, (intake s input).1.placement.find? t = some cpu → hardware.HasCpu cpu :=
    fun t cpu hf => (h.homed hd).placed t cpu (find?_placement_intake hf)
  subst hin
  obtain hout | ⟨-, hcpus, hphases⟩ := propose_cases hr
  · rw [hnone] at hout
    cases hout.1
  obtain ⟨hib, -⟩ := intake_booked hd (cpus_ne_nil_of_online hcpus) hk.booked hk.settled
  rcases hphases with ⟨-, rfl, -⟩ | ⟨-, hr⟩ | ⟨hphase, hr⟩ | ⟨hphase, hr⟩
  · exact .of_nil (intake_filled s input) (intake_actions s input)
  · exact .of_nil (nodePlanning_filled (intake_filled s input) hr) ((nodePlanning_same hr).1.trans (intake_actions s input))
  · exact initialPinning_wellFormed hib hbase hphase (intake_filled s input) (intake_actions s input)
      (intake_budget s input (.inl hphase)) hr
  · exact optimize_wellFormed hib hplaced hphase (intake_filled s input) (intake_actions s input)
      (intake_budget s input (.inr hphase)) hr

/-- **Every proposal is well formed.**  `Runtime` proposes for a window once the last one's proposal is committed or discarded
(`Resting`). -/
theorem propose_wellFormed (hd : hardware.Discovered) (h : Reachable hardware s) (hin : input.hardware = hardware)
    (hnone : s.outstanding = none) (hr : propose s input = .ok (p, s')) : WellFormed hardware input.options s' p :=
  h.proposal_wellFormed hd hin hnone hr

/-- The second window of the pinning run: both threads are pinned where they were found. -/
theorem propose_wellFormed_pair : twoNodes.Discovered ∧ ∃ s p s', Run.exec step {} (pinnedRun.take 1) = some s ∧
    propose s (twoThreads 0) = .ok (p, s') ∧ p.actions.map (fun a => (a.fromCpu, a.targetCpu)) = [(0, 0), (1, 1)] ∧
    WellFormed twoNodes (twoThreads 0).options s' p := by
  have hd : twoNodes.Discovered := ⟨by decide, by decide⟩
  have hobeys : Run.Obeys step (Protocol twoNodes) {} (pinnedRun.take 1) := by decide +kernel
  have hsome : (Run.exec step {} (pinnedRun.take 1)).any (fun s => s.outstanding.isNone &&
      (match propose s (twoThreads 0) with
        | .ok r => decide (r.1.actions.map (fun a => (a.fromCpu, a.targetCpu)) = [(0, 0), (1, 1)])
        | .error _ => false)) = true := by decide +kernel
  obtain ⟨s, hexec, hs⟩ := (Option.any_eq_true _ _).1 hsome
  rw [Bool.and_eq_true] at hs
  obtain ⟨hnone, hr⟩ := hs
  cases hp : propose s (twoThreads 0) with
  | error e =>
    rw [hp] at hr
    cases hr
  | ok r =>
    rw [hp] at hr
    exact ⟨hd, s, r.1, r.2, hexec, hp, of_decide_eq_true hr, propose_wellFormed hd ⟨false, pinnedRun.take 1, hobeys, hexec⟩
      rfl (Option.isNone_iff_eq_none.1 hnone) hp⟩

end WellFormed

/-! ## One proposal at a time -/

section Settling

variable {s : IncrementalSolver} {p : SolverProposal}

theorem outstanding_foldl_removeThread : ∀ (l : List Tid) (s : IncrementalSolver),
    (l.foldl removeThread s).outstanding = s.outstanding
  | [], _ => rfl
  | tid :: l, s => outstanding_foldl_removeThread l (s.removeThread tid)

theorem commit_settles (h : s.outstanding = some p) (nowNs : Nat) (tids : OrdSet Tid) :
    (s.commit p nowNs tids).outstanding = none := by
  rw [commit_eq h]

theorem discard_settles (h : s.outstanding = some p) : (s.discard p).outstanding = none := by
  unfold discard
  rw [if_pos (by rw [h]; rfl)]

end Settling

end IncrementalSolver
end AffinityGraph
