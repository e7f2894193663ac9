import AffinityGraph.SlotCap
import AffinityGraph.BatchLoads
import AffinityGraph.Replan
/-!
# PinningRounds — how many rounds the initial pinning takes

A round is a `propose` and the commit of everything it offers.  While the window keeps its threads a round changes nothing
but the targets and the placement of its batch: the pending threads of the next round are those of this one without the
batch, also where the batch was given other CPUs than planned.  The measure is the number of pending threads, and each
round takes the budget from it.
-/
namespace AffinityGraph
namespace IncrementalSolver

/-- The threads that are unpinned, or off their target during a global replan. -/
def pending (s : IncrementalSolver) : Finset Tid := s.threads.keys.toFinset.filter (fun t => isPending s t = true)

/-- The threads of a proposal that are still there. -/
def live (s : IncrementalSolver) (p : SolverProposal) : List Tid :=
  (p.actions.map (·.identity.tid)).filter (fun t => decide (t ∈ s.threads))

/-- A window and the commit of the whole proposal: the threads that were acted on, and the solver. -/
def pinRound (s : IncrementalSolver) (input : IncrementalInput) (nowNs : Nat) : Option (List Tid × IncrementalSolver) :=
  match propose s input with
  | .error _ => none
  | .ok (p, s₁) => some (live s₁ p, s₁.commit p nowNs (OrdSet.ofList (live s₁ p)))

def pinRounds : IncrementalSolver → List (IncrementalInput × Nat) → Option (List (List Tid) × IncrementalSolver)
  | s, [] => some ([], s)
  | s, r :: rounds => do
    let (batch, s₁) ← pinRound s r.1 r.2
    let (batches, s₂) ← pinRounds s₁ rounds
    return (batch :: batches, s₂)

/-- A window with the threads the solver has, no slot cap of its own, and the budget `b`. -/
structure Steady (hardware : HardwareGraph) (s : IncrementalSolver) (b : Nat) (input : IncrementalInput) : Prop where
  hardware_eq : input.hardware = hardware
  distinct : (input.threads.map (·.identity.tid)).Nodup
  population : ∀ i, i ∈ input.threads.map (·.identity) ↔ s.identities.find? i.tid = some i
  accepted : input.options.Accepted
  uncapped : input.options.maximumThreadsPerCpu = 0
  budget : ⌊(input.threads.length : ℚ) * input.options.initialMigratedThreadsRatio⌋.toNat = b

/-- What waits for its commit in the pinning phase: distinct threads, each on its way to its target. -/
structure AimsAt (s : IncrementalSolver) (p : SolverProposal) : Prop where
  distinct : (p.actions.map (·.identity.tid)).Nodup
  targets : ∀ a ∈ p.actions, a.identity.tid ∈ s.threads → s.initialTargetCpu.find? a.identity.tid = some a.targetCpu

def Aimed (s : IncrementalSolver) : Prop := ∀ p, s.outstanding = some p → s.phase = .initialPinning → AimsAt s p

/-! ## The pending threads -/

section Pending

variable {hardware : HardwareGraph} {s s' : IncrementalSolver} {input : IncrementalInput} {p : SolverProposal}

theorem mem_pending {t : Tid} : t ∈ pending s ↔ t ∈ s.threads ∧ isPending s t = true := by
  unfold pending
  rw [Finset.mem_filter, List.mem_toFinset, OrdMap.mem_keys]

theorem isPending_eq_false {t : Tid} : isPending s t = false ↔
    t ∈ s.pinned ∧ (s.replanExistingThreads = true → strayed s t = false) := by
  unfold isPending
  rw [Bool.or_eq_false_iff, decide_eq_false_iff_not, not_not, Bool.and_eq_false_imp]

theorem strayed_eq_false {t : Tid} : strayed s t = false ↔ s.placement.find? t = some (s.initialTargetCpu.getD t 0) := by
  unfold strayed
  cases s.placement.find? t with
  | none => simp
  | some cpu => simp

/-- **The pinning is done exactly when nothing is pending.** -/
theorem effective_iff (hb : Booked hardware s) (hphase : s.phase = .initialPinning) :
    initialTargetsEffective s = true ↔ pending s = ∅ := by
  have ht := hb.targets (Or.inl hphase)
  rw [Finset.eq_empty_iff_forall_notMem]
  constructor
  · intro heff t hp
    obtain ⟨hm, hpend⟩ := mem_pending.1 hp
    have hno : isPending s t = false := by
      refine isPending_eq_false.2 ⟨(hb.pinned t).2 (hb.placed_of_size (pinned_of_effective heff) t hm), fun hr => ?_⟩
      obtain ⟨cpu, hcpu, -⟩ := ht t hm
      rw [strayed_eq_false, (effective_replan heff hr hm).2, OrdMap.getD, hcpu]
      rfl
    rw [hno] at hpend
    cases hpend
  · intro hnone
    have hno : ∀ t ∈ s.threads, isPending s t = false := by
      intro t hm
      rw [← Bool.not_eq_true]
      exact fun hp => hnone t (mem_pending.2 ⟨hm, hp⟩)
    unfold initialTargetsEffective
    rw [Bool.and_eq_true, decide_eq_true_eq]
    refine ⟨?_, ?_⟩
    · have hkeys : s.pinned.keys.Perm s.threads.keys :=
        (List.perm_ext_iff_of_nodup (OrdMap.nodup_keys _) (OrdMap.nodup_keys _)).2 (fun t => by
          rw [OrdMap.mem_keys, OrdMap.mem_keys]
          exact ⟨fun hp => hb.placed t ((hb.pinned t).1 hp), fun hm => (isPending_eq_false.1 (hno t hm)).1⟩)
      have := hkeys.length_eq
      rwa [OrdMap.keys, OrdMap.keys, List.length_map, List.length_map] at this
    · cases hr : s.replanExistingThreads with
      | false => rfl
      | true =>
        rw [Bool.not_true, Bool.false_or, List.all_eq_true]
        intro t hk
        have hm := OrdMap.mem_keys.1 hk
        obtain ⟨cpu, hcpu, -⟩ := ht t hm
        have hplace := strayed_eq_false.1 ((isPending_eq_false.1 (hno t hm)).2 hr)
        rw [OrdMap.getD, hcpu] at hplace
        rw [hcpu, hplace]
        exact decide_eq_true rfl

end Pending

/-! ## The intake of a window with the same threads -/

section Intake

variable {hardware : HardwareGraph} {s : IncrementalSolver} {input : IncrementalInput} {b : Nat}

theorem Steady.of_identities {s' : IncrementalSolver} (h : Steady hardware s b input) (he : s'.identities = s.identities) :
    Steady hardware s' b input :=
  ⟨h.hardware_eq, h.distinct, fun i => by rw [he]; exact h.population i, h.accepted, h.uncapped, h.budget⟩

/-- Known threads only get their new demands. -/
theorem foldl_takeIn_same (hd : input.hardware.Discovered) (hc : input.hardware.cpus ≠ [])
    (adjacency : OrdMap Tid (List RelationEdge)) : ∀ (l : List ThreadDemand) (st : Intake),
      (∀ th ∈ l, st.solver.identities.find? th.identity.tid = some th.identity) →
      ∃ threads, l.foldl (takeIn input adjacency) st = { st with solver := { st.solver with threads := threads } }
  | [], st, _ => ⟨st.solver.threads, rfl⟩
  | th :: l, st, h => by
    have hth := h th List.mem_cons_self
    have hknown : takeIn input adjacency st th =
        { st with solver := { st.solver with threads := st.solver.threads.insert th.identity.tid th } } := by
      have hforget : forgetReused st.solver th.identity = st.solver := by
        unfold forgetReused
        rw [hth]
        exact if_pos rfl
      rcases takeIn_cases hd hc adjacency st th with ⟨-, he⟩ | ⟨hno, -⟩ | ⟨hno, -⟩
      · exact he
      · rw [hforget] at hno
        exact absurd (OrdMap.mem_of_find hth) hno
      · rw [hforget] at hno
        exact absurd (OrdMap.mem_of_find hth) hno
    rw [List.foldl_cons, hknown]
    obtain ⟨threads, he⟩ := foldl_takeIn_same hd hc adjacency l
      { st with solver := { st.solver with threads := st.solver.threads.insert th.identity.tid th } }
      (fun u hu => h u (List.mem_cons_of_mem _ hu))
    exact ⟨threads, he⟩

/-- A thread of the window is known under its identity. -/
theorem Steady.known (h : Steady hardware s b input) {th : ThreadDemand} (hth : th ∈ input.threads) :
    s.identities.find? th.identity.tid = some th.identity :=
  (h.population th.identity).1 (List.mem_map.2 ⟨th, hth, rfl⟩)

/-- No thread has left. -/
theorem Steady.dropStale (h : Steady hardware s b input) (hb : Booked hardware s) (peaks : OrdMap String ℚ) :
    dropStale { s with groupPeakDemand := peaks } input.threads = { s with groupPeakDemand := peaks } := by
  unfold IncrementalSolver.dropStale
  have hnil : s.threads.keys.filter (fun tid => !(input.threads.any (fun t => decide (t.identity.tid = tid)))) = [] := by
    refine List.filter_eq_nil_iff.2 (fun t ht hstale => ?_)
    obtain ⟨i, hi⟩ := OrdMap.mem_iff.1 (hb.mem_identities.2 (OrdMap.mem_keys.1 ht))
    have htid : i.tid = t := by
      rw [hb.identities] at hi
      obtain ⟨th, hth, rfl⟩ := Option.map_eq_some_iff.1 hi
      exact hb.keyed t th hth
    obtain ⟨th, hth, rfl⟩ := List.mem_map.1 ((h.population i).2 (by rw [htid]; exact hi))
    rw [Bool.not_eq_true', List.any_eq_false] at hstale
    exact hstale th hth (decide_eq_true htid)
  rw [hnil]
  rfl

/-- What the intake of such a window changes. -/
structure TakesDemands (s s' : IncrementalSolver) : Prop where
  same : s' = { s with
    threads := s'.threads
    groupPeakDemand := s'.groupPeakDemand
    edges := s'.edges
    previousHotspotKeys := s'.previousHotspotKeys
    nextProposalId := s'.nextProposalId }
  threads : ∀ t, t ∈ s'.threads ↔ t ∈ s.threads

theorem TakesDemands.pending {s' : IncrementalSolver} (h : TakesDemands s s') : pending s' = pending s := by
  have hpend : ∀ t, isPending s' t = isPending s t := by
    intro t
    rw [h.same]
    rfl
  ext t
  rw [mem_pending, mem_pending, h.threads, hpend]

theorem Steady.takenIn (h : Steady hardware s b input) (hd : hardware.Discovered) (hc : hardware.cpus ≠ [])
    (hk : Kept hardware s) : TakesDemands s (takenIn s input).solver ∧ (takenIn s input).addedAfterInitial = false := by
  have hin := h.hardware_eq
  subst hin
  have hknown : ∀ th ∈ incomingThreads s input, s.identities.find? th.identity.tid = some th.identity := by
    intro th hth
    obtain ⟨u, hu, rfl⟩ := List.mem_map.1 hth
    have hknown := h.known hu
    exact hknown
  obtain ⟨threads, he⟩ := foldl_takeIn_same hd hc (incomingAdjacency s input) (incomingThreads s input)
    { solver := { s with groupPeakDemand := groupPeaks s input } } hknown
  have htaken : IncrementalSolver.takenIn s input =
      { solver := { s with groupPeakDemand := groupPeaks s input, threads := threads } } := by
    unfold IncrementalSolver.takenIn
    rw [h.dropStale hk.booked]
    exact he
  have hbooked := (takenIn_taking hd hc hk.booked hk.settled).booked
  refine ⟨⟨by rw [htaken], fun t => ?_⟩, by rw [htaken]⟩
  rw [← hbooked.mem_identities, ← hk.booked.mem_identities, htaken]

/-- **The intake of a window with the same threads**: new demands and new edges, and the budget of the phase. -/
theorem Steady.intake (h : Steady hardware s b input) (hd : hardware.Discovered) (hc : hardware.cpus ≠ [])
    (hk : Kept hardware s) (hphase : s.phase = .initialPinning) (hsome : pending s ≠ ∅) :
    TakesDemands s (intake s input).1 ∧ (intake s input).2.migrationBudget = b := by
  obtain ⟨htakes, hadded⟩ := h.takenIn hd hc hk
  have hin := h.hardware_eq
  subst hin
  have hbooked := (takenIn_taking hd hc hk.booked hk.settled).booked
  have hsame : (IncrementalSolver.takenIn s input).solver.phase = .initialPinning := by
    rw [htakes.same]
    exact hphase
  have harrivals : afterArrivals input (IncrementalSolver.takenIn s input) = (IncrementalSolver.takenIn s input).solver := by
    unfold afterArrivals
    rw [hadded]
    rfl
  have hsettle : settlePhase input (IncrementalSolver.takenIn s input) = (IncrementalSolver.takenIn s input).solver := by
    rw [settlePhase_eq, harrivals, if_neg]
    rintro ⟨-, heff⟩
    exact hsome (htakes.pending.symm.trans ((effective_iff hbooked hsame).1 heff))
  have hhot : (settleHotspots input (IncrementalSolver.takenIn s input).solver).1 = _ := settleHotspots_calm hbooked.calm
  obtain ⟨t, ht⟩ := Finset.nonempty_iff_ne_empty.2 hsome
  have hnonempty : (IncrementalSolver.takenIn s input).solver.threads.isEmpty = false := by
    rw [← Bool.not_eq_true]
    intro hempty
    exact OrdMap.notMem_iff.2 (OrdMap.isEmpty_iff.1 hempty t) ((htakes.threads t).2 (mem_pending.1 ht).1)
  have hbudget : (IncrementalSolver.intake s input).2.migrationBudget = b := by
    have hbudget : (IncrementalSolver.intake s input).2.migrationBudget =
        ⌊((settleHotspots input (settlePhase input (IncrementalSolver.takenIn s input))).1.threads.size : ℚ) *
          if (settleHotspots input (settlePhase input (IncrementalSolver.takenIn s input))).1.phase = .initialPinning
          then input.options.initialMigratedThreadsRatio else input.options.maximumMigratedThreadsRatio⌋.toNat := rfl
    rw [hbudget, hsettle, hhot]
    dsimp only
    rw [if_pos hsame, ← threads_intake, size_intake h.distinct]
    exact h.budget
  refine ⟨?_, hbudget⟩
  rw [intake_eq, hsettle, hhot]
  dsimp only
  rw [hnonempty, if_neg Bool.false_ne_true, if_neg (by rw [hsame]; decide)]
  exact ⟨by rw [htakes.same], htakes.threads⟩

end Intake

/-! ## What is offered -/

section Offer

variable {hardware : HardwareGraph} {s : IncrementalSolver} {input : IncrementalInput} {p : SolverProposal}

theorem mem_live {t : Tid} : t ∈ live s p ↔ (∃ a ∈ p.actions, a.identity.tid = t) ∧ t ∈ s.threads := by
  unfold live
  rw [List.mem_filter, List.mem_map, decide_eq_true_eq]

/-- A batch aims at the targets as its repairs left them. -/
theorem initialPinning_aims (hb : Booked input.hardware s) (hphase : s.phase = .initialPinning)
    {proposal : SolverProposal} (hno : proposal.actions = []) {r : SolverProposal × IncrementalSolver}
    (h : initialPinning s input proposal = .ok r) : AimsAt r.2 r.1 := by
  have ht := hb.targets (Or.inl hphase)
  rcases initialPinning_ok ht h with ⟨-, he, -⟩ | ⟨st, hst, he, hs⟩
  · rw [hno] at he
    refine ⟨by rw [he]; exact List.nodup_nil, fun a ha => ?_⟩
    rw [he] at ha
    cases ha
  · have hbatch : ∀ t ∈ pendingBatch s input.hardware proposal.migrationBudget, t ∈ s.threads :=
      fun t hm => (mem_pendingBatch hm).1
    have hre := seatBatch_reseated (fun t hm => ht t (hbatch t hm)) hst
    have htids := seatBatch_tids hb hbatch hst
    rw [← he] at htids
    have hsame : r.2.initialTargetCpu = st.solver.initialTargetCpu := by
      rcases hs with ⟨hs, -⟩ | hs
      · rw [hs]
      · rw [hs]
    refine ⟨by rw [htids]; exact pendingBatch_nodup _ _ _, fun a ha _ => ?_⟩
    rw [he] at ha
    obtain ⟨t, hm, rfl⟩ := List.mem_map.1 ha
    obtain ⟨cpu, hcpu, -⟩ := hre.targeted t (ht t (hbatch t hm))
    rw [hsame, pinAction_tid hb (hbatch t hm) hst, hcpu]
    show some cpu = some (st.solver.initialTargetCpu.getD t 0)
    rw [OrdMap.getD, hcpu]
    rfl

theorem Reachable.aimed (hd : hardware.Discovered) (h : Reachable hardware s) : Aimed s := by
  refine h.outstanding hd (Q := fun s p => s.phase = .initialPinning → AimsAt s p) ?_ (fun s tid q hq hphase => ?_)
  · rintro s input p s' q rfl hk hnone hr hq hphase
    obtain ⟨rfl, hcpus, ⟨hpinning, hr⟩ | ⟨hopt, -, hr⟩⟩ := propose_outstanding hnone hr hq
    · obtain ⟨hib, -⟩ := intake_booked hd (cpus_ne_nil_of_online hcpus) hk.booked hk.settled
      exact initialPinning_aims hib hpinning (intake_actions s input) hr
    · have hsame := optimize_same (intake s input).1 input (intake s input).2
      rw [hr] at hsame
      dsimp only at hsame
      rw [hsame] at hphase
      exact absurd (hopt.symm.trans hphase) (by decide)
  · refine ⟨(hq hphase).distinct, fun a ha hmem => ?_⟩
    have hm := OrdMap.mem_erase.1 (show a.identity.tid ∈ s.threads.erase tid from hmem)
    exact (OrdMap.find?_erase_ne _ hm.1).trans ((hq hphase).targets a ha hm.2)

end Offer

/-! ## What is committed -/

section Commit

variable {hardware : HardwareGraph} {s : IncrementalSolver} {p : SolverProposal} {tids : OrdSet Tid}
  {actions : List PlacementAction}

theorem find?_committed_of_mem (s : IncrementalSolver) (nowNs : Nat) (hn : (actions.map (·.identity.tid)).Nodup) {a : PlacementAction} (ha : a ∈ actions)
    (hc : commits tids a.identity.tid = true) :
    (committed s nowNs tids actions).placement.find? a.identity.tid = some a.targetCpu := by
  obtain ⟨pre, post, -, -, hat⟩ := (commitAction_local nowNs tids).foldl_at hn ha s
  refine hat.trans ?_
  unfold commitAction
  dsimp only
  rw [if_pos hc]
  exact OrdMap.find?_insert_self _ _ _

theorem find?_committed_of_not {nowNs : Nat} {t : Tid} (hc : commits tids t = false) :
    (committed s nowNs tids actions).placement.find? t = s.placement.find? t := by
  unfold committed
  refine Loop.foldl_keeps (fun u : IncrementalSolver => u.placement.find? t = s.placement.find? t) (fun u a hu => ?_)
    actions rfl
  rw [← hu]
  unfold commitAction
  dsimp only
  split
  · rename_i hcommits
    refine OrdMap.find?_insert_ne _ _ (fun he => ?_)
    rw [he, hc] at hcommits
    cases hcommits
  · rfl

theorem commits_ofList {l : List Tid} (hl : l ≠ []) {t : Tid} : commits (OrdSet.ofList l) t = true ↔ t ∈ l := by
  unfold commits
  rw [Bool.or_eq_true, decide_eq_true_eq, OrdSet.mem_ofList]
  refine ⟨fun h => h.resolve_left (fun hempty => ?_), Or.inr⟩
  obtain ⟨u, hu⟩ := List.exists_mem_of_ne_nil l hl
  exact OrdMap.notMem_iff.2 (OrdMap.isEmpty_iff.1 hempty u) (OrdSet.mem_ofList.2 hu)

/-- The commit of everything that is still there is one `Runtime` makes. -/
theorem protocol_live (hardware : HardwareGraph) (nowNs : Nat) (hl : live s p ≠ []) (hout : s.outstanding = some p) :
    Protocol hardware s (.commit nowNs (OrdSet.ofList (live s p))) := by
  intro q hq a ha
  rw [hout] at hq
  cases hq
  rw [commits_ofList hl, mem_live]
  exact ⟨fun h => h.2, fun h => ⟨⟨a, ha, rfl⟩, h⟩⟩

/-- Where a thread is, and where it is meant to be, decide whether it is pending. -/
theorem isPending_congr {s' : IncrementalSolver} (hb : Booked hardware s) (hb' : Booked hardware s') {t : Tid}
    (hplace : s'.placement.find? t = s.placement.find? t) (htarget : s'.initialTargetCpu.find? t = s.initialTargetCpu.find? t)
    (hreplan : s'.replanExistingThreads = s.replanExistingThreads) : isPending s' t = isPending s t := by
  have hpinned : t ∈ s'.pinned ↔ t ∈ s.pinned := by
    rw [hb.pinned, hb'.pinned, OrdMap.mem_def, OrdMap.mem_def, hplace]
  unfold isPending strayed OrdMap.getD
  rw [hplace, htarget, hreplan]
  simp only [hpinned]

/-- **The commit of a whole batch**: its threads are pending no more, all others as before. -/
theorem pending_committed (hk : Kept hardware s) (hout : s.outstanding = some p) (ha : AimsAt s p) (hl : live s p ≠ [])
    (nowNs : Nat) : Booked hardware (committed s nowNs (OrdSet.ofList (live s p)) p.actions) ∧
    pending (committed s nowNs (OrdSet.ofList (live s p)) p.actions) = pending s \ (live s p).toFinset := by
  have hprotocol := protocol_live hardware nowNs hl hout
  have hb := committed_booked nowNs (OrdSet.ofList (live s p)) p.actions hk.booked
    (fun a ha => (hprotocol p hout a ha).1)
  have hsame := committed_same nowNs (OrdSet.ofList (live s p)) p.actions s
  have hthreads : (committed s nowNs (OrdSet.ofList (live s p)) p.actions).threads = s.threads := by rw [hsame]
  have htarget : (committed s nowNs (OrdSet.ofList (live s p)) p.actions).initialTargetCpu = s.initialTargetCpu := by
    rw [hsame]
  have hreplan : (committed s nowNs (OrdSet.ofList (live s p)) p.actions).replanExistingThreads =
      s.replanExistingThreads := by rw [hsame]
  refine ⟨hb, ?_⟩
  ext t
  rw [Finset.mem_sdiff, List.mem_toFinset, mem_pending, mem_pending, hthreads]
  by_cases ht : t ∈ live s p
  · obtain ⟨⟨a, hact, rfl⟩, hmem⟩ := mem_live.1 ht
    have hplace := find?_committed_of_mem s nowNs ha.distinct hact ((commits_ofList hl).2 ht)
    have hdone : isPending (committed s nowNs (OrdSet.ofList (live s p)) p.actions) a.identity.tid = false := by
      refine isPending_eq_false.2 ⟨(hb.pinned _).2 (OrdMap.mem_of_find hplace), fun _ => strayed_eq_false.2 ?_⟩
      rw [hplace, htarget, OrdMap.getD, ha.targets a hact hmem]
      rfl
    rw [hdone]
    exact ⟨fun h => (by cases h.2), fun h => absurd ht h.2⟩
  · have hno : commits (OrdSet.ofList (live s p)) t = false := by
      rw [← Bool.not_eq_true, commits_ofList hl]
      exact ht
    rw [isPending_congr hk.booked hb (find?_committed_of_not hno) (by rw [htarget]) hreplan]
    exact ⟨fun h => ⟨h, ht⟩, fun h => h.1⟩

theorem commit_live (hd : hardware.Discovered) (hk : Kept hardware s) (hphase : s.phase = .initialPinning)
    (hout : s.outstanding = some p) (ha : AimsAt s p) (hl : live s p ≠ []) (nowNs : Nat) :
    let s' := s.commit p nowNs (OrdSet.ofList (live s p))
    Kept hardware s' ∧ s'.outstanding = none ∧ s'.identities = s.identities ∧
    pending s' = pending s \ (live s p).toFinset ∧
    s'.phase = if pending s' = ∅ then .optimizing else .initialPinning := by
  have hprotocol := protocol_live hardware nowNs hl hout
  have hkept : Kept hardware (s.commit p nowNs (OrdSet.ofList (live s p))) := by
    refine hk.step hd hprotocol ?_
    rw [step, hout]
    rfl
  have hids := (identities_commit hout nowNs (OrdSet.ofList (live s p))).2
  obtain ⟨hb, hpending⟩ := pending_committed hk hout ha hl nowNs
  have hsame : (committed s nowNs (OrdSet.ofList (live s p)) p.actions).phase = .initialPinning := by
    rw [committed_same]
    exact hphase
  rw [← hpending]
  refine ⟨hkept, by rw [commit_eq hout], hids, ?_⟩
  rw [commit_eq hout]
  set c := committed s nowNs (OrdSet.ofList (live s p)) p.actions
  unfold settlePinning
  by_cases heff : initialTargetsEffective c = true
  · -- the flag of the replan is cleared, which leaves fewer reasons to be pending
    have hnone := (effective_iff hb hsame).1 heff
    rw [if_pos ⟨hsame, heff⟩, hnone]
    have hempty : pending { c with
        phase := .optimizing, replanExistingThreads := false, generation := c.generation + 1, outstanding := none } = ∅ := by
      refine Finset.eq_empty_iff_forall_notMem.2 (fun t ht => ?_)
      obtain ⟨hm, hp⟩ := mem_pending.1 ht
      have hplaced := hb.placed_of_size (pinned_of_effective heff) t hm
      have hno : isPending { c with
          phase := .optimizing, replanExistingThreads := false, generation := c.generation + 1, outstanding := none } t =
          false := isPending_eq_false.2 ⟨(hb.pinned t).2 hplaced, fun hr => by cases hr⟩
      rw [hno] at hp
      cases hp
    exact ⟨hempty, (if_pos hempty).symm⟩
  · have hsome : pending c ≠ ∅ := fun h => heff ((effective_iff hb hsame).2 h)
    rw [if_neg (fun h => heff h.2)]
    have hstay : pending { c with generation := c.generation + 1, outstanding := none } = pending c := rfl
    rw [hstay, if_neg hsome]
    exact ⟨rfl, hsame⟩

end Commit

/-! ## Rounds -/

section Rounds

variable {hardware : HardwareGraph} {s s' : IncrementalSolver} {input : IncrementalInput} {b : Nat}

/-- What every round keeps. -/
structure Underway (hardware : HardwareGraph) (s : IncrementalSolver) : Prop where
  kept : Kept hardware s
  aimed : Aimed s
  phase : s.phase = if pending s = ∅ then .optimizing else .initialPinning

/-- What is outstanding takes a whole budget of the pending threads with it. -/
def FullBatch (s : IncrementalSolver) (b : Nat) : Prop :=
  ∀ p, s.outstanding = some p → ((live s p).toFinset ∩ pending s).card = min b (pending s).card

theorem length_pendingBatch (s : IncrementalSolver) (hardware : HardwareGraph) (b : Nat) :
    (pendingBatch s hardware b).length = min b (pending s).card := by
  unfold pendingBatch allPending pending
  rw [List.length_take, List.length_insertionSort, ← List.toFinset_filter,
    List.toFinset_card_of_nodup ((OrdMap.nodup_keys _).filter _)]

/-- A batch that was offered in a window with the same threads. -/
theorem propose_steady (hd : hardware.Discovered) (hk : Kept hardware s) (hphase : s.phase = .initialPinning)
    (hsteady : Steady hardware s b input) (hb : 0 < b) (hsome : pending s ≠ ∅) (hnone : s.outstanding = none) :
    ∃ p s', propose s input = .ok (p, s') ∧ s'.outstanding = some p ∧ s'.phase = .initialPinning ∧
      s'.identities = s.identities ∧ AimsAt s' p ∧ (live s' p).Nodup ∧ (live s' p).length = min b (pending s).card ∧
      (∀ t ∈ live s' p, t ∈ pending s) ∧ pending s' \ (live s' p).toFinset = pending s \ (live s' p).toFinset := by
  obtain ⟨t, ht⟩ := Finset.nonempty_iff_ne_empty.2 hsome
  have hc : hardware.cpus ≠ [] := by
    obtain ⟨cpu, -, ⟨c, hc, -⟩, -⟩ := hk.booked.targets (Or.inl hphase) t (mem_pending.1 ht).1
    exact List.ne_nil_of_mem hc
  obtain ⟨htakes, hbudget⟩ := hsteady.intake hd hc hk hphase hsome
  have hin := hsteady.hardware_eq
  subst hin
  obtain ⟨hib, -⟩ := intake_booked hd hc hk.booked hk.settled
  have hiphase : (intake s input).1.phase = .initialPinning := by
    rw [htakes.same]
    exact hphase
  have hcpus : onlineCpus input.hardware ≠ 0 := by
    rw [onlineCpus_eq hd.online]
    exact (List.length_pos_of_ne_nil hc).ne'
  have hslots := WindowFits.slots hd hc hsteady.accepted (Or.inl hsteady.uncapped)
  rw [← size_intake (s := s) hsteady.distinct] at hslots
  obtain ⟨⟨p, s'⟩, hr⟩ := (initialPinning_fits hd hib hiphase (intake s input).2).1
    (batch_fits hd hib (intake s input).2.migrationBudget hslots)
  have hpos : 0 < min b (pending s).card := lt_min hb (Finset.card_pos.2 ⟨t, ht⟩)
  have ht' := hib.targets (Or.inl hiphase)
  rcases initialPinning_ok ht' hr with ⟨hzero, -⟩ | ⟨st, hst, hactions, hs⟩
  · omega
  rw [hbudget] at hst hactions
  set batch := pendingBatch (intake s input).1 input.hardware b
  have hbatch : ∀ t ∈ batch, t ∈ (intake s input).1.threads := fun t hm => (mem_pendingBatch hm).1
  have htids := seatBatch_tids hib hbatch hst
  have hlength : batch.length = min b (pending s).card := by
    rw [length_pendingBatch, htakes.pending]
  dsimp only at hactions hs
  rw [← hactions] at htids
  replace hs : s' = { st.solver with outstanding := some p } := by
    refine hs.resolve_left (fun h => ?_)
    rw [h.2] at htids
    rw [← htids] at hlength
    exact hpos.ne hlength
  have hre := seatBatch_reseated (fun t hm => ht' t (hbatch t hm)) hst
  have hthreads : s'.threads = (intake s input).1.threads := by rw [hs, hre.same]
  have hlive : live s' p = batch := by
    unfold live
    rw [htids, hthreads]
    exact List.filter_eq_self.2 (fun t hm => decide_eq_true (hbatch t hm))
  refine ⟨p, s', ?_, by rw [hs], ?_, ?_, initialPinning_aims hib hiphase (intake_actions s input) hr, ?_, ?_, ?_, ?_⟩
  · rw [propose_pinning hcpus hnone hiphase]
    exact hr
  · rw [hs, hre.same]
    exact hiphase
  · rw [hs, hre.same, htakes.same]
  · rw [hlive]
    exact pendingBatch_nodup _ _ _
  · rw [hlive]
    exact hlength
  · intro t hm
    rw [hlive] at hm
    rw [← htakes.pending]
    exact mem_pending.2 (mem_pendingBatch hm)
  · -- a thread outside the batch has the target it had
    have hb' := (initialPinning_booked hib hiphase hr).1
    rw [hlive, ← htakes.pending]
    ext u
    rw [Finset.mem_sdiff, Finset.mem_sdiff, List.mem_toFinset, mem_pending, mem_pending, hthreads]
    refine and_congr_left (fun hu => ?_)
    rw [isPending_congr hib hb' (by rw [hs, hre.same]) (by rw [hs]; exact hre.kept u hu) (by rw [hs, hre.same])]

/-- What one round does: it acts on a budget of pending threads, and they are what the pending threads lose. -/
structure Rounded (hardware : HardwareGraph) (s : IncrementalSolver) (b : Nat) (batch : List Tid) (s' : IncrementalSolver) :
    Prop where
  underway : Underway hardware s'
  outstanding : s'.outstanding = none
  identities : s'.identities = s.identities
  distinct : batch.Nodup
  fresh : s.outstanding = none → ∀ t ∈ batch, t ∈ pending s
  taken : (batch.toFinset ∩ pending s).card = min b (pending s).card
  left : pending s' = pending s \ batch.toFinset

/-- Once the batch is outstanding, the commit does the rest. -/
theorem pinRound_commit (hd : hardware.Discovered) {p : SolverProposal} (hr : propose s input = .ok (p, s'))
    (hk : Kept hardware s') (hphase : s'.phase = .initialPinning) (hout : s'.outstanding = some p)
    (hids : s'.identities = s.identities) (haims : AimsAt s' p)
    (hfresh : s.outstanding = none → ∀ t ∈ live s' p, t ∈ pending s)
    (htaken : ((live s' p).toFinset ∩ pending s).card = min b (pending s).card) (hpos : 0 < min b (pending s).card)
    (hleft : pending s' \ (live s' p).toFinset = pending s \ (live s' p).toFinset) (nowNs : Nat) :
    ∃ batch s₂, pinRound s input nowNs = some (batch, s₂) ∧ Rounded hardware s b batch s₂ := by
  have hl : live s' p ≠ [] := by
    intro hnil
    rw [hnil, List.toFinset_nil, Finset.empty_inter, Finset.card_empty] at htaken
    exact hpos.ne htaken
  obtain ⟨hkept, hnone, hids', hpending, hphase'⟩ := commit_live hd hk hphase hout haims hl nowNs
  refine ⟨live s' p, s'.commit p nowNs (OrdSet.ofList (live s' p)), ?_, ⟨hkept, ?_, hphase'⟩, hnone, hids'.trans hids,
    haims.distinct.filter _, hfresh, htaken, hpending.trans hleft⟩
  · unfold pinRound
    rw [hr]
  · intro q hq
    rw [hnone] at hq
    cases hq

/-- **One round.** -/
theorem pinRound_steady (hd : hardware.Discovered) (hu : Underway hardware s) (hsteady : Steady hardware s b input)
    (hb : 0 < b) (hsome : pending s ≠ ∅) (hfull : FullBatch s b) (nowNs : Nat) :
    ∃ batch s', pinRound s input nowNs = some (batch, s') ∧ Rounded hardware s b batch s' := by
  have hphase : s.phase = .initialPinning := by
    rw [hu.phase, if_neg hsome]
  have hpos : 0 < min b (pending s).card := lt_min hb (Finset.card_pos.2 (Finset.nonempty_iff_ne_empty.2 hsome))
  by_cases hnone : s.outstanding = none
  · obtain ⟨p, s₁, hr, hout, hphase₁, hids, haims, hn, hlength, hsub, hleft⟩ :=
      propose_steady hd hu.kept hphase hsteady hb hsome hnone
    have hkept : Kept hardware s₁ := by
      have hprotocol : Protocol hardware s (.propose input) := ⟨hsteady.hardware_eq, hsteady.distinct⟩
      refine hu.kept.step hd hprotocol ?_
      rw [step, hr]
      rfl
    refine pinRound_commit hd hr hkept hphase₁ hout hids haims (fun _ => hsub) ?_ hpos hleft nowNs
    rw [Finset.inter_eq_left.2 (fun t ht => hsub t (List.mem_toFinset.1 ht)), List.toFinset_card_of_nodup hn, hlength]
  · obtain ⟨p, hout⟩ := Option.ne_none_iff_exists'.1 hnone
    have hr : propose s input = .ok (p, s) := by
      unfold propose
      rw [hout]
    exact pinRound_commit hd hr hu.kept hphase hout rfl (hu.aimed p hout hphase) (fun h => absurd h hnone) (hfull p hout)
      hpos rfl nowNs

/-- **Any number of rounds**: while the budgets taken are short of the pending threads, there is one more to make. -/
theorem pinRounds_steady (hd : hardware.Discovered) (hb : 0 < b) : ∀ {rounds : List (IncrementalInput × Nat)}
    {s : IncrementalSolver}, Underway hardware s → FullBatch s b → (∀ r ∈ rounds, Steady hardware s b r.1) →
    rounds.length * b < (pending s).card + b →
    ∃ acted s', pinRounds s rounds = some (acted, s') ∧ Underway hardware s' ∧ s'.identities = s.identities ∧
      acted.length = rounds.length ∧ acted.flatten.Nodup ∧
      (s.outstanding = none → ∀ t ∈ acted.flatten, t ∈ pending s) ∧
      pending s' = pending s \ acted.flatten.toFinset ∧ (pending s').card = (pending s).card - rounds.length * b
  | [], s, hu, _, _, _ => ⟨[], s, rfl, hu, rfl, rfl, List.nodup_nil, fun _ t ht => (by cases ht), by simp, by simp⟩
  | r :: rounds, s, hu, hfull, hsteady, hlen => by
    rw [List.length_cons, Nat.add_mul, Nat.one_mul] at hlen
    have hpos : 0 < (pending s).card := by omega
    have hsome : pending s ≠ ∅ := (Finset.card_pos.1 hpos).ne_empty
    obtain ⟨batch, s₁, hround, h⟩ := pinRound_steady hd hu (hsteady r List.mem_cons_self) hb hsome hfull r.2
    have hcard : (pending s₁).card = (pending s).card - min b (pending s).card := by
      rw [h.left, Finset.card_sdiff, h.taken]
    have hlen₁ : rounds.length * b < (pending s₁).card + b := by
      by_cases hle : b ≤ (pending s).card
      · rw [hcard, min_eq_left hle]
        omega
      · -- the last round: fewer than a budget were left
        have hzero : rounds.length = 0 := by
          by_contra hne
          have := Nat.le_mul_of_pos_left b (Nat.pos_of_ne_zero hne)
          omega
        rw [hzero]
        omega
    obtain ⟨acted, s', hrounds, hu', hids, hlength, hn, hfresh, hleft, hcount⟩ := pinRounds_steady hd hb h.underway
      (fun p hp => by rw [h.outstanding] at hp; cases hp)
      (fun q hq => (hsteady q (List.mem_cons_of_mem _ hq)).of_identities h.identities) hlen₁
    have hlater : ∀ t ∈ acted.flatten, t ∈ pending s ∧ t ∉ batch := by
      intro t ht
      have hmem := hfresh h.outstanding t ht
      rw [h.left, Finset.mem_sdiff, List.mem_toFinset] at hmem
      exact hmem
    refine ⟨batch :: acted, s', ?_, hu', hids.trans h.identities, by rw [List.length_cons, List.length_cons, hlength], ?_,
      fun hnone t ht => ?_, ?_, ?_⟩
    · rw [pinRounds, hround]
      show (pinRounds s₁ rounds).bind _ = _
      rw [hrounds]
      rfl
    · rw [List.flatten_cons]
      exact h.distinct.append hn (fun t ht ht' => (hlater t ht').2 ht)
    · rw [List.flatten_cons] at ht
      rcases List.mem_append.1 ht with ht | ht
      · exact h.fresh hnone t ht
      · exact (hlater t ht).1
    · rw [hleft, h.left, List.flatten_cons, List.toFinset_append, sdiff_sdiff]
      rfl
    · rw [hcount, hcard, List.length_cons, Nat.add_mul, Nat.one_mul]
      omega

/-- **The initial pinning converges**: from a pinning state with pending threads, rounds of a window with the same threads and
a full commit never fail, act on no thread twice and take the acted ones out of the pending threads; the solver optimizes,
with every thread placed, after the quotient of the pending threads and the budget, rounded up, and not before. -/
theorem pinning_converges (hd : hardware.Discovered) (h : Reachable hardware s) (hphase : s.phase = .initialPinning)
    (hb : 0 < b) (hsome : pending s ≠ ∅) (hfull : FullBatch s b) {rounds : List (IncrementalInput × Nat)}
    (hsteady : ∀ r ∈ rounds, Steady hardware s b r.1) (hlen : rounds.length ≤ ⌈((pending s).card : ℚ) / b⌉₊) :
    ∃ acted s', pinRounds s rounds = some (acted, s') ∧ acted.length = rounds.length ∧ acted.flatten.Nodup ∧
      (∀ t, t ∈ s'.threads ↔ t ∈ s.threads) ∧ pending s' = pending s \ acted.flatten.toFinset ∧
      (s'.phase = .optimizing ↔ rounds.length = ⌈((pending s).card : ℚ) / b⌉₊) ∧
      (s'.phase = .optimizing → ∀ t ∈ s'.threads, t ∈ s'.placement) := by
  have hbq : (0 : ℚ) < b := by exact_mod_cast hb
  have hshort : rounds.length * b < (pending s).card + b := by
    have hceil : (rounds.length : ℚ) < (pending s).card / b + 1 :=
      lt_of_le_of_lt (by exact_mod_cast hlen) (Nat.ceil_lt_add_one (by positivity))
    rw [← sub_lt_iff_lt_add, lt_div_iff₀ hbq, sub_mul, one_mul, sub_lt_iff_lt_add] at hceil
    exact_mod_cast hceil
  have hall : (pending s).card ≤ rounds.length * b ↔ rounds.length = ⌈((pending s).card : ℚ) / b⌉₊ := by
    rw [← hlen.ge_iff_eq, Nat.ceil_le, div_le_iff₀ hbq]
    exact_mod_cast Iff.rfl
  obtain ⟨acted, s', hrounds, hu, hids, hlength, hn, -, hleft, hcount⟩ :=
    pinRounds_steady hd hb ⟨h.kept hd, h.aimed hd, by rw [if_neg hsome]; exact hphase⟩ hfull hsteady hshort
  have hdone : s'.phase = .optimizing ↔ pending s' = ∅ := by
    rw [hu.phase]
    split
    · rename_i hnone
      exact ⟨fun _ => hnone, fun _ => rfl⟩
    · rename_i hleft
      exact ⟨fun h => (by cases h), fun h => absurd h hleft⟩
  refine ⟨acted, s', hrounds, hlength, hn, fun t => ?_, hleft, ?_, hu.kept.settled⟩
  · rw [← hu.kept.booked.mem_identities, ← (h.kept hd).booked.mem_identities, hids]
  · rw [hdone, ← hall, ← Finset.card_eq_zero, hcount]
    omega

/-- The threads that the solver knows, as a list. -/
theorem population_of_entries {l : List ThreadIdentity} (h : s.identities.entries = l.map (fun i => (i.tid, i)))
    (i : ThreadIdentity) : i ∈ l ↔ s.identities.find? i.tid = some i := by
  rw [← OrdMap.mem_entries, h, List.mem_map]
  constructor
  · exact fun hi => ⟨i, hi, rfl⟩
  · rintro ⟨j, hj, he⟩
    rw [← (Prod.mk.inj he).2]
    exact hj

def halfAtOnce : IncrementalOptions := { initialMigratedThreadsRatio := 1 / 2 }

theorem halfAtOnce_accepted : halfAtOnce.Accepted := by constructor <;> decide +kernel

/-- A window with a budget of half its threads. -/
def halves (l : List Tid) : IncrementalInput where
  hardware := twoNodes
  threads := l.map (fun t => ⟨⟨1, t, 0⟩, "g", 1 / 10, 1, 0⟩)
  options := halfAtOnce

theorem halves_steady {l : List Tid} (hn : ((halves l).threads.map (·.identity.tid)).Nodup)
    (hids : s.identities.entries = ((halves l).threads.map (·.identity)).map (fun i => (i.tid, i)))
    (hb : ⌊((halves l).threads.length : ℚ) * (1 / 2)⌋.toNat = b) : Steady twoNodes s b (halves l) where
  hardware_eq := rfl
  distinct := hn
  population := population_of_entries hids
  accepted := halfAtOnce_accepted
  uncapped := rfl
  budget := hb

/-- Four threads and a budget of two: two rounds. -/
theorem pinning_converges_halves : ∃ s, Reachable twoNodes s ∧ s.phase = .initialPinning ∧ (pending s).card = 4 ∧
    ∃ acted s', pinRounds s [(halves [1, 2, 3, 4], 1), (halves [1, 2, 3, 4], 2)] = some (acted, s') ∧ acted.flatten.Nodup ∧
      s'.phase = .optimizing ∧ ∀ t ∈ s'.threads, t ∈ s'.placement := by
  have hobeys : Run.Obeys step (Protocol twoNodes) {} [.propose (halves [1, 2, 3, 4])] := by decide +kernel
  have hsome : (Run.exec step {} [.propose (halves [1, 2, 3, 4])]).any (fun s => decide (s.phase = .initialPinning ∧
      s.outstanding.isNone = true ∧ (pending s).card = 4 ∧
      s.identities.entries = ((halves [1, 2, 3, 4]).threads.map (·.identity)).map (fun i => (i.tid, i)))) = true := by decide +kernel
  obtain ⟨s, hexec, hs⟩ := (Option.any_eq_true _ _).1 hsome
  obtain ⟨hphase, hnone, hcard, hids⟩ := of_decide_eq_true hs
  have hreach : Reachable twoNodes s := ⟨false, _, hobeys, hexec⟩
  have hsteady : Steady twoNodes s 2 (halves [1, 2, 3, 4]) := halves_steady (by decide) hids (by decide +kernel)
  have hrounds : ∀ r ∈ [(halves [1, 2, 3, 4], 1), (halves [1, 2, 3, 4], 2)], Steady twoNodes s 2 r.1 := by
    intro r hr
    rcases List.mem_pair.1 hr with rfl | rfl
    · exact hsteady
    · exact hsteady
  have hceil : ⌈((pending s).card : ℚ) / (2 : Nat)⌉₊ = 2 := by
    rw [hcard]
    norm_num
  obtain ⟨acted, s', hrun, -, hn, -, -, hopt, hplaced⟩ := pinning_converges ⟨by decide, by decide⟩ hreach hphase
    (by decide) (by rw [← Finset.nonempty_iff_ne_empty, ← Finset.card_pos, hcard]; decide)
    (fun p hp => by rw [Option.isNone_iff_eq_none.1 hnone] at hp; cases hp) hrounds hceil.ge
  have hdone := hopt.2 hceil.symm
  exact ⟨s, hreach, hphase, hcard, acted, s', hrun, hn, hdone, hplaced hdone⟩

/-- The threads still pending leave: nothing is pending, and it takes a window to see it. -/
def emptied : List Call :=
  [.propose (halves [1, 2, 3, 4]), .propose (halves [1, 2, 3, 4]), .commit 1 ∅, .removeThread 1, .removeThread 2]

/-- Threads of an outstanding batch leave: what is left of it is less than the budget. -/
def thinned : List Call :=
  [.propose (halves [1, 2, 3, 4, 5, 6]), .propose (halves [1, 2, 3, 4, 5, 6]), .removeThread 4, .removeThread 5]

/-- Two states from which the rounds are not what the pending threads and the budget say: one is not optimizing with
nothing pending, the other not after two rounds with four threads pending and a budget of two. -/
theorem pinning_lags :
    (∃ s, Reachable twoNodes s ∧ s.phase = .initialPinning ∧ s.outstanding = none ∧ Steady twoNodes s 1 (halves [3, 4]) ∧
      ⌈((pending s).card : ℚ) / (1 : Nat)⌉₊ = 0 ∧ pinRounds s [] = some ([], s)) ∧
    ∃ s acted s', Reachable twoNodes s ∧ s.phase = .initialPinning ∧ Steady twoNodes s 2 (halves [1, 2, 3, 6]) ∧
      ⌈((pending s).card : ℚ) / (2 : Nat)⌉₊ = 2 ∧
      pinRounds s [(halves [1, 2, 3, 6], 2), (halves [1, 2, 3, 6], 3)] = some (acted, s') ∧ s'.phase ≠ .optimizing := by
  constructor
  · have hobeys : Run.Obeys step (Protocol twoNodes) {} emptied := by decide +kernel
    have hsome : (Run.exec step {} emptied).any (fun s => decide (s.phase = .initialPinning ∧
        s.outstanding.isNone = true ∧ (pending s).card = 0 ∧
        s.identities.entries = ((halves [3, 4]).threads.map (·.identity)).map (fun i => (i.tid, i)))) = true := by
      decide +kernel
    obtain ⟨s, hexec, hs⟩ := (Option.any_eq_true _ _).1 hsome
    obtain ⟨hphase, hnone, hcard, hids⟩ := of_decide_eq_true hs
    refine ⟨s, ⟨false, _, hobeys, hexec⟩, hphase, Option.isNone_iff_eq_none.1 hnone,
      halves_steady (by decide) hids (by decide +kernel), ?_, rfl⟩
    rw [hcard]
    norm_num
  · have hobeys : Run.Obeys step (Protocol twoNodes) {} thinned := by decide +kernel
    have hsome : (Run.exec step {} thinned).any (fun s => decide (s.phase = .initialPinning ∧ (pending s).card = 4 ∧
        s.identities.entries = ((halves [1, 2, 3, 6]).threads.map (·.identity)).map (fun i => (i.tid, i))) &&
        (pinRounds s [(halves [1, 2, 3, 6], 2), (halves [1, 2, 3, 6], 3)]).any (fun r =>
          decide (r.2.phase ≠ .optimizing))) = true := by decide +kernel
    obtain ⟨s, hexec, hs⟩ := (Option.any_eq_true _ _).1 hsome
    rw [Bool.and_eq_true] at hs
    obtain ⟨hphase, hcard, hids⟩ := of_decide_eq_true hs.1
    obtain ⟨⟨acted, s'⟩, hrounds, hlags⟩ := (Option.any_eq_true _ _).1 hs.2
    refine ⟨s, acted, s', ⟨false, _, hobeys, hexec⟩, hphase, halves_steady (by decide) hids (by decide +kernel), ?_, hrounds,
      of_decide_eq_true hlags⟩
    rw [hcard]
    norm_num

end Rounds

end IncrementalSolver
end AffinityGraph
