import AffinityGraph.IncrementalReach
/-!
# Replan — the flag of a global replan along the runs

`replan_existing_threads_` is set when the cohort has grown substantially and cleared by the commit that reaches the last
initial target.  `propose` can reach the same point without a commit, when the threads still missing from their targets
have left: it then goes on to optimize with the flag set (`Slips`).
-/
namespace AffinityGraph
namespace IncrementalSolver

/-- A solver that optimizes is done with its replan. -/
def ReplanDone (s : IncrementalSolver) : Prop := s.phase = .optimizing → s.replanExistingThreads = false

/-- The window has only threads that are known, pinned and on their initial targets, while a replan is on. -/
def Slips (s : IncrementalSolver) : Call → Prop
  | .propose input => s.outstanding.isNone = true ∧ s.phase = .initialPinning ∧ s.replanExistingThreads = true ∧
      input.threads ≠ [] ∧ ∀ th ∈ input.threads, s.identities.find? th.identity.tid = some th.identity ∧
        th.identity.tid ∈ s.pinned ∧ th.identity.tid ∈ s.initialTargetCpu ∧
        s.placement.find? th.identity.tid = s.initialTargetCpu.find? th.identity.tid
  | _ => False

/-- The window's arrivals are substantial growth. -/
def Grows (s : IncrementalSolver) : Call → Prop
  | .propose input => s.outstanding.isNone = true ∧ (takenIn s input).addedAfterInitial = true ∧
      substantialGrowth input (takenIn s input) = true
  | _ => False

instance Slips.decidable (s : IncrementalSolver) : ∀ call, Decidable (Slips s call)
  | .propose _ => inferInstanceAs (Decidable (_ ∧ _))
  | .commit _ _ => isFalse id
  | .discard => isFalse id
  | .removeThread _ => isFalse id
  | .reset => isFalse id

/-! ## The intake -/

section Intake

variable {s : IncrementalSolver} {input : IncrementalInput}

theorem takenIn_flags (s : IncrementalSolver) (input : IncrementalInput) :
    (takenIn s input).solver.phase = s.phase ∧
    (takenIn s input).solver.replanExistingThreads = s.replanExistingThreads := by
  unfold takenIn
  refine Loop.foldl_keeps (fun st : Intake => st.solver.phase = s.phase ∧
    st.solver.replanExistingThreads = s.replanExistingThreads) (fun st th h => ?_) _ ?_
  · have hforget : (forgetReused st.solver th.identity).replanExistingThreads = st.solver.replanExistingThreads := by
      rcases forgetReused_cases st.solver th.identity with ⟨he, -⟩ | ⟨he, -⟩
      · rw [he]
      · rw [he]
        rfl
    refine ⟨(takeIn_phase st th).trans h.1, ?_⟩
    unfold takeIn
    dsimp only
    split
    · exact hforget.trans h.2
    · split <;> exact hforget.trans h.2
  · exact dropStale_keeps (P := fun t => t.phase = s.phase ∧ t.replanExistingThreads = s.replanExistingThreads)
      (fun t tid h => h) _ _ ⟨rfl, rfl⟩

/-- A thread that is not known is not placed. -/
theorem unplaced_of_unknown {hardware : HardwareGraph} (h : Booked hardware s) {t : Tid} (ht : t ∉ s.identities) :
    t ∉ s.placement :=
  fun hp => ht (h.mem_identities.2 (h.placed t hp))

/-- An arrival after the node plan has no placement yet, and nothing in the loop gives it one. -/
theorem takenIn_unplaced (hd : input.hardware.Discovered) (hc : input.hardware.cpus ≠ [])
    (hb : Booked input.hardware (startOf s input).solver) (h : (takenIn s input).addedAfterInitial = true) :
    ∃ t ∈ (takenIn s input).solver.threads, t ∉ (takenIn s input).solver.placement := by
  have hloop : Booked input.hardware (takenIn s input).solver ∧ ((takenIn s input).addedAfterInitial = true →
      ∃ t ∈ (takenIn s input).solver.threads, t ∉ (takenIn s input).solver.placement) := by
    unfold takenIn
    refine Loop.foldl_keeps (fun st : Intake => Booked input.hardware st.solver ∧ (st.addedAfterInitial = true →
      ∃ t ∈ st.solver.threads, t ∉ st.solver.placement)) (fun st th hst => ⟨hst.1.takeIn hd hc th, fun hadded => ?_⟩) _
      ⟨hb, fun h => by cases h⟩
    have hforget := hst.1.forgetReused th.identity
    rcases takeIn_cases hd hc (incomingAdjacency s input) st th with ⟨-, he⟩ | ⟨hno, -, he⟩ | ⟨hno, -, cpu, -, he⟩
    · rw [he] at hadded ⊢
      obtain ⟨t, ht, hp⟩ := hst.2 hadded
      exact ⟨t, OrdMap.mem_insert.2 (Or.inr ht), hp⟩
    · rw [he]
      exact ⟨th.identity.tid, OrdMap.mem_insert.2 (Or.inl rfl), unplaced_of_unknown hforget hno⟩
    · rw [he]
      exact ⟨th.identity.tid, OrdMap.mem_insert.2 (Or.inl rfl), unplaced_of_unknown hforget hno⟩
  exact hloop.2 h

/-- Without arrivals every thread of the window is known, and only the demands change. -/
theorem foldl_takeIn_known (hd : input.hardware.Discovered) (hc : input.hardware.cpus ≠ [])
    (adjacency : OrdMap Tid (List RelationEdge)) : ∀ (l : List ThreadDemand) (st : Intake), st.solver.Pinning →
      (l.foldl (takeIn input adjacency) st).addedAfterInitial = false →
      (l.foldl (takeIn input adjacency) st).solver =
        { st.solver with threads := (l.foldl (takeIn input adjacency) st).solver.threads } ∧
      st.addedAfterInitial = false ∧ ∀ th ∈ l, st.solver.identities.find? th.identity.tid = some th.identity
  | [], st, _, h => ⟨rfl, h, fun th hth => by cases hth⟩
  | th :: l, st, hp, h => by
    have hp' : (takeIn input adjacency st th).solver.Pinning := by
      unfold Pinning
      rw [takeIn_phase]
      exact hp
    rw [List.foldl_cons] at h ⊢
    obtain ⟨hsame, hadded, hknown⟩ := foldl_takeIn_known hd hc adjacency l _ hp' h
    rcases takeIn_cases hd hc adjacency st th with ⟨hth, he⟩ | ⟨-, hno, -⟩ | ⟨-, -, cpu, -, he⟩
    · rw [he] at hadded hknown
      refine ⟨?_, hadded, fun u hu => ?_⟩
      · rw [hsame, he]
      · rcases List.mem_cons.1 hu with rfl | hu
        · exact hth
        · exact hknown u hu
    · exact absurd hp hno
    · rw [he] at hadded
      cases hadded

theorem booked_startOf {hardware : HardwareGraph} (h : Booked hardware s) (input : IncrementalInput) :
    Booked hardware (startOf s input).solver :=
  dropStale_keeps (P := Booked hardware) (fun _ tid h => h.removeThread tid) _ _
    ⟨h.identities, h.keyed, h.pinned, h.placed, h.moved, h.targets, h.candidates, h.candidateNodes, h.calm⟩

/-- The flags as the intake leaves them, on the solver the phase changes left. -/
theorem intake_flags (hcalm : (settlePhase input (takenIn s input)).stableHotspotReplanPending = false) :
    (intake s input).1.replanExistingThreads = (settlePhase input (takenIn s input)).replanExistingThreads ∧
    ((intake s input).1.phase = .optimizing → (settlePhase input (takenIn s input)).phase = .optimizing ∧
      (takenIn s input).solver.threads.isEmpty = false) := by
  have hrecords := records_settlePhase input (takenIn s input)
  unfold records at hrecords
  rw [intake_eq, settleHotspots_calm hcalm]
  dsimp only
  rw [(Prod.mk.inj hrecords).1]
  split
  · exact ⟨rfl, fun h => by cases h⟩
  · rename_i hempty
    split
    · exact ⟨rfl, fun h => by cases h⟩
    · exact ⟨rfl, fun h => ⟨h, by simpa using hempty⟩⟩

/-- All threads pinned on their initial targets. -/
theorem effective_replan (heff : initialTargetsEffective s = true) (hr : s.replanExistingThreads = true) {t : Tid}
    (ht : t ∈ s.threads) : t ∈ s.initialTargetCpu ∧ s.placement.find? t = s.initialTargetCpu.find? t := by
  unfold initialTargetsEffective at heff
  rw [hr, Bool.and_eq_true, Bool.not_true, Bool.false_or, List.all_eq_true] at heff
  have hone := heff.2 t (OrdMap.mem_keys.2 ht)
  cases htarget : s.initialTargetCpu.find? t with
  | none =>
    rw [htarget] at hone
    cases hone
  | some target =>
    cases hplace : s.placement.find? t with
    | none =>
      rw [htarget, hplace] at hone
      cases hone
    | some cpu =>
      rw [htarget, hplace] at hone
      exact ⟨OrdMap.mem_of_find htarget, by rw [of_decide_eq_true hone]⟩

/-- **The intake leaves a solver that optimizes without a replan, unless it slips.** -/
theorem intake_replanDone (hd : input.hardware.Discovered) (hc : input.hardware.cpus ≠ []) (hk : Kept input.hardware s)
    (hdone : ReplanDone s) (hout : s.outstanding = none) (hslip : ¬ Slips s (.propose input)) :
    ReplanDone (intake s input).1 := by
  have htaking := takenIn_taking hd hc hk.booked hk.settled
  obtain ⟨hflag, hopt⟩ := intake_flags (settlePhase_booked input htaking).1.calm
  obtain ⟨hphase, hreplan⟩ := takenIn_flags s input
  intro ho
  obtain ⟨ho', hnonempty⟩ := hopt ho
  rw [hflag]
  by_contra htrue
  rw [Bool.not_eq_false] at htrue
  rw [settlePhase_eq] at ho' htrue
  split at ho'
  · rename_i heff
    rw [if_pos heff] at htrue
    obtain ⟨hpinning, heff⟩ := heff
    dsimp only at htrue
    unfold afterArrivals at hpinning heff htrue
    split at hpinning
    · cases hpinning
    · rename_i hgrow
      rw [if_neg hgrow] at heff htrue
      split at hpinning
      · -- an arrival is not placed, so not every thread is pinned
        rename_i hadded
        rw [if_pos hadded] at heff
        obtain ⟨t, ht, hp⟩ := takenIn_unplaced hd hc (booked_startOf hk.booked input) hadded
        exact hp (htaking.booked.placed_of_size (pinned_of_effective heff) t ht)
      · rename_i hadded
        rw [if_neg hadded] at heff htrue
        rw [Bool.not_eq_true] at hadded
        have hs : s.phase = .initialPinning := hphase.symm.trans hpinning
        have hstart : (startOf s input).solver.phase = s.phase :=
          dropStale_keeps (P := fun t => t.phase = s.phase) (fun t tid h => h) _ _ rfl
        obtain ⟨hsame, -, hknown⟩ := foldl_takeIn_known hd hc (incomingAdjacency s input) (incomingThreads s input)
          (startOf s input) (Or.inl (hstart.trans hs)) hadded
        -- so what the phase change read of the window's threads is what the state before had
        have hkeep : ∀ th ∈ input.threads,
            (startOf s input).solver.identities.find? th.identity.tid = s.identities.find? th.identity.tid ∧
            (startOf s input).solver.placement.find? th.identity.tid = s.placement.find? th.identity.tid ∧
            (startOf s input).solver.initialTargetCpu.find? th.identity.tid = s.initialTargetCpu.find? th.identity.tid :=
          fun th hth =>
            ⟨dropStale_window (fun s u => s.identities.find? u) (fun _ _ _ hu => OrdMap.find?_erase_ne _ hu) _ hth,
            dropStale_window (fun s u => s.placement.find? u) (fun _ _ _ hu => OrdMap.find?_erase_ne _ hu) _ hth,
            dropStale_window (fun s u => s.initialTargetCpu.find? u) (fun _ _ _ hu => OrdMap.find?_erase_ne _ hu) _ hth⟩
        refine hslip ⟨Option.isNone_iff_eq_none.2 hout, hs, hreplan.symm.trans htrue, fun hnil => ?_, fun th hth => ?_⟩
        · have hsize : (takenIn s input).solver.threads.size = 0 := by
            rw [← threads_intake, size_intake (by rw [hnil]; exact List.nodup_nil), hnil]
            rfl
          have hentries := List.eq_nil_of_length_eq_zero hsize
          rw [OrdMap.isEmpty, hentries] at hnonempty
          cases hnonempty
        · obtain ⟨hid, hplace, htarget⟩ := hkeep th hth
          have hknow := hknown (plannedFor s input th) (List.mem_map.2 ⟨th, hth, rfl⟩)
          have hmem : th.identity.tid ∈ (takenIn s input).solver.threads := by
            refine htaking.booked.mem_identities.1 (OrdMap.mem_of_find (v := th.identity) ?_)
            rw [show (takenIn s input).solver = _ from hsame]
            exact hknow
          obtain ⟨h1, h2⟩ := effective_replan heff htrue hmem
          rw [show (takenIn s input).solver = _ from hsame] at h1 h2
          have h1' : th.identity.tid ∈ s.initialTargetCpu := by
            rw [OrdMap.mem_def, ← htarget]
            exact h1
          have h2' : s.placement.find? th.identity.tid = s.initialTargetCpu.find? th.identity.tid := by
            rw [← hplace, ← htarget]
            exact h2
          refine ⟨hid.symm.trans hknow, (hk.booked.pinned _).2 ?_, h1', h2'⟩
          rw [OrdMap.mem_def, h2']
          exact h1'
  · rename_i heff
    rw [if_neg heff] at htrue
    unfold afterArrivals at ho' htrue
    split at ho'
    · cases ho'
    · rename_i hgrow
      rw [if_neg hgrow] at htrue
      split at ho'
      · cases ho'
      · rename_i hadded
        rw [if_neg hadded, hreplan, hdone (hphase.symm.trans ho')] at htrue
        cases htrue

/-- Without substantial growth no replan starts. -/
theorem intake_replan (hd : input.hardware.Discovered) (hc : input.hardware.cpus ≠ []) (hk : Kept input.hardware s)
    (hno : s.replanExistingThreads = false) (hout : s.outstanding = none) (hgrow : ¬ Grows s (.propose input)) :
    (intake s input).1.replanExistingThreads = false := by
  have htaking := takenIn_taking hd hc hk.booked hk.settled
  rw [(intake_flags (settlePhase_booked input htaking).1.calm).1, settlePhase_eq]
  have harrivals : (afterArrivals input (takenIn s input)).replanExistingThreads = false := by
    have hsame := (takenIn_flags s input).2.trans hno
    unfold afterArrivals
    split
    · rename_i hboth
      rw [Bool.and_eq_true] at hboth
      exact absurd ⟨Option.isNone_iff_eq_none.2 hout, hboth⟩ hgrow
    · split
      · exact hsame
      · exact hsame
  split
  · exact harrivals
  · exact harrivals

end Intake

/-! ## Runs -/

section Runs

variable {hardware : HardwareGraph} {s s' : IncrementalSolver} {input : IncrementalInput} {p : SolverProposal}

/-- The phases and the flag after `propose`, on the state the intake left. -/
theorem propose_flags (hd : input.hardware.Discovered) (hk : Kept input.hardware s) (hnone : s.outstanding = none)
    (h : propose s input = .ok (p, s')) :
    s'.replanExistingThreads = (intake s input).1.replanExistingThreads ∧
    (s'.phase = .optimizing → (intake s input).1.phase = .optimizing) := by
  obtain hout | ⟨-, hcpus, hphases⟩ := propose_cases h
  · rw [hnone] at hout
    cases hout.1
  obtain ⟨hib, -⟩ := intake_booked hd (cpus_ne_nil_of_online hcpus) hk.booked hk.settled
  rcases hphases with ⟨-, -, rfl⟩ | ⟨hphase, hr⟩ | ⟨hphase, hr⟩ | ⟨hphase, hr⟩
  · exact ⟨rfl, id⟩
  · unfold nodePlanning at hr
    cases hplan : planNodes (intake s input).1 input with
    | error e =>
      rw [hplan] at hr
      cases hr
    | ok plan =>
      rw [hplan] at hr
      have he : (confirmNodes (intake s input).1 input (intake s input).2 (swapPasses (intake s input).1 input
          (communityOrder (intake s input).1).ordered input.options.initialNodePasses plan)).2 = s' :=
        congrArg Prod.snd (Except.ok.inj hr)
      rcases confirmNodes_cases (intake s input).1 input (intake s input).2 (swapPasses (intake s input).1 input
          (communityOrder (intake s input).1).ordered input.options.initialNodePasses plan) with hc | hc
      · rw [← he, hc]
        exact ⟨rfl, id⟩
      · rw [← he, hc]
        exact ⟨rfl, fun ho => by cases ho⟩
  · have hsame := (initialPinning_same hr).1
    dsimp only at hsame
    rw [hsame]
    exact ⟨rfl, id⟩
  · have hsame := optimize_same (intake s input).1 input (intake s input).2
    rw [hr] at hsame
    dsimp only at hsame
    rw [hsame]
    exact ⟨rfl, id⟩

/-- The two ways a commit leaves the solver optimizing. -/
theorem commit_replanDone (hdone : ReplanDone s) (hout : s.outstanding = some p) (nowNs : Nat) (tids : OrdSet Tid) :
    ReplanDone (commit s p nowNs tids) := by
  rw [commit_eq hout]
  unfold ReplanDone settlePinning
  dsimp only
  rw [committed_same]
  split
  · exact fun _ => rfl
  · exact hdone

theorem replanDone_step (hd : hardware.Discovered) (hk : Kept hardware s) (hdone : ReplanDone s) {call : Call}
    (hp : Protocol hardware s call) (hslip : ¬ Slips s call) (hstep : step s call = some s') : ReplanDone s' := by
  cases call with
  | propose input =>
    obtain ⟨rfl, -⟩ := hp
    cases hr : s.propose input with
    | error e =>
      rw [step, hr] at hstep
      cases hstep
    | ok r =>
      rw [step, hr] at hstep
      cases hstep
      by_cases hout : s.outstanding = none
      · obtain ⟨hflag, hphase⟩ := propose_flags hd hk hout hr
        have hc : input.hardware.cpus ≠ [] := by
          rcases propose_cases hr with hsame | ⟨-, hcpus, -⟩
          · rw [hout] at hsame
            cases hsame.1
          · exact cpus_ne_nil_of_online hcpus
        intro ho
        rw [hflag]
        exact intake_replanDone hd hc hk hdone hout hslip (hphase ho)
      · rcases propose_cases hr with hsame | ⟨hnone, -⟩
        · rw [hsame.2]
          exact hdone
        · exact absurd hnone hout
  | commit nowNs tids =>
    obtain ⟨q, hout, rfl⟩ := Option.map_eq_some_iff.1 hstep
    exact commit_replanDone hdone hout nowNs tids
  | discard =>
    obtain ⟨q, hout, rfl⟩ := Option.map_eq_some_iff.1 hstep
    unfold discard
    rw [if_pos (by rw [hout]; rfl)]
    exact hdone
  | removeThread tid =>
    cases hstep
    exact hdone
  | reset =>
    cases hstep
    intro ho
    cases ho

/-- Only substantial growth starts a replan. -/
theorem replan_step (hd : hardware.Discovered) (hk : Kept hardware s) (hno : s.replanExistingThreads = false) {call : Call}
    (hp : Protocol hardware s call) (hgrow : ¬ Grows s call) (hstep : step s call = some s') :
    s'.replanExistingThreads = false := by
  cases call with
  | propose input =>
    obtain ⟨rfl, -⟩ := hp
    cases hr : s.propose input with
    | error e =>
      rw [step, hr] at hstep
      cases hstep
    | ok r =>
      rw [step, hr] at hstep
      cases hstep
      rcases propose_cases hr with hsame | ⟨hout, hcpus, -⟩
      · rw [hsame.2]
        exact hno
      · rw [(propose_flags hd hk hout hr).1]
        exact intake_replan hd (cpus_ne_nil_of_online hcpus) hk hno hout hgrow
  | commit nowNs tids =>
    obtain ⟨q, hout, rfl⟩ := Option.map_eq_some_iff.1 hstep
    rw [commit_eq hout]
    show (settlePinning (committed s nowNs tids q.actions)).replanExistingThreads = false
    unfold settlePinning
    rw [committed_same]
    split
    · rfl
    · exact hno
  | discard =>
    obtain ⟨q, hout, rfl⟩ := Option.map_eq_some_iff.1 hstep
    unfold discard
    rw [if_pos (by rw [hout]; rfl)]
    exact hno
  | removeThread tid =>
    cases hstep
    exact hno
  | reset =>
    cases hstep
    rfl

/-- The batch of a pinning phase without a replan. -/
theorem unpinned_of_action (hd : input.hardware.Discovered) (hk : Kept input.hardware s) (hnone : s.outstanding = none)
    (hno : (intake s input).1.replanExistingThreads = false) (h : propose s input = .ok (p, s'))
    (hphase : p.phase = .initialPinning) {a : PlacementAction} (ha : a ∈ p.actions) : a.identity.tid ∉ s'.pinned := by
  obtain hout | ⟨-, hcpus, hphases⟩ := propose_cases h
  · rw [hnone] at hout
    cases hout.1
  obtain ⟨hib, -⟩ := intake_booked hd (cpus_ne_nil_of_online hcpus) hk.booked hk.settled
  rcases hphases with ⟨-, rfl, -⟩ | ⟨-, hr⟩ | ⟨hpin, hr⟩ | ⟨-, hr⟩
  · cases ha
  · rw [(nodePlanning_same hr).1] at ha
    cases ha
  · obtain ⟨t, ht, hpending, hid, -⟩ := initialPinning_actions hib hpin (intake_actions s input) hr ha
    have hsame := (initialPinning_same hr).1
    dsimp only at hsame
    rw [hid, (hib.identityOf ht).2, hsame]
    unfold isPending at hpending
    rw [hno, Bool.false_and, Bool.or_false] at hpending
    exact of_decide_eq_true hpending
  · have := optimize_phase (intake s input).1 input (intake s input).2
    rw [hr] at this
    rw [this] at hphase
    cases hphase

/-- **A run that never slips ends every replan**: whenever it has come to optimize, the flag is down; and from there on,
while nothing grows substantially, the pinning phases move unpinned threads only. -/
theorem replan_ends (hd : hardware.Discovered) {shadow : Bool} {calls : List Call}
    (hobeys : Run.Obeys step (fun s call => Protocol hardware s call ∧ ¬ Slips s call) { shadow := shadow } calls)
    (hexec : Run.exec step { shadow := shadow } calls = some s) (hphase : s.phase = .optimizing) :
    s.replanExistingThreads = false ∧
    ∀ later t, Run.Obeys step (fun s call => Protocol hardware s call ∧ ¬ Grows s call) s later →
      Run.exec step s later = some t → ∀ input p t', Protocol hardware t (.propose input) → ¬ Grows t (.propose input) →
        t.outstanding = none → propose t input = .ok (p, t') → p.phase = .initialPinning →
          ∀ a ∈ p.actions, a.identity.tid ∉ t'.pinned := by
  obtain ⟨hk, hdone⟩ : Kept hardware s ∧ ReplanDone s := by
    refine hobeys.invariant (fun s => Kept hardware s ∧ ReplanDone s) (fun s call s' hi hp hstep => ?_)
      ⟨Kept.new hardware shadow, fun ho => by cases ho⟩ hexec
    exact ⟨hi.1.step hd hp.1 hstep, replanDone_step hd hi.1 hi.2 hp.1 hp.2 hstep⟩
  refine ⟨hdone hphase, fun later t hlater ht input p t' hp hgrow hnone hr hpin a ha => ?_⟩
  obtain ⟨hkt, hno⟩ : Kept hardware t ∧ t.replanExistingThreads = false := by
    refine hlater.invariant (fun s => Kept hardware s ∧ s.replanExistingThreads = false)
      (fun s call s' hi hp hstep => ?_) ⟨hk, hdone hphase⟩ ht
    exact ⟨hi.1.step hd hp.1 hstep, replan_step hd hi.1 hi.2 hp.1 hp.2 hstep⟩
  obtain ⟨rfl, -⟩ := hp
  have hc : input.hardware.cpus ≠ [] := by
    rcases propose_cases hr with hsame | ⟨-, hcpus, -⟩
    · rw [hnone] at hsame
      cases hsame.1
    · exact cpus_ne_nil_of_online hcpus
  exact unpinned_of_action hd hkt hnone (intake_replan hd hc hkt hno hnone hgrow) hr hpin ha

/-- Two CPUs of one node, and a cohort whose threads all have the same demand. -/
def onePair : HardwareGraph := { cpus := [⟨0, 0, true⟩, ⟨1, 0, true⟩] }

def cohort (tids : List Tid) (demand : ℚ) : IncrementalInput where
  hardware := onePair
  threads := tids.map (fun t => ⟨⟨1, t, 0⟩, "g", demand, 1, 0⟩)
  options := { hotspotReplanMinThreads := 1, maximumMigratedThreadsRatio := 1 }

/-- Three threads are pinned, a fourth starts a replan and commits with them. -/
def regrown : List Call :=
  [.propose (cohort [1, 2, 3] (3 / 10)), .propose (cohort [1, 2, 3] (3 / 10)), .commit 1 ∅,
    .propose (cohort [1, 2, 3, 4] (3 / 10)), .propose (cohort [1, 2, 3, 4] (3 / 10)), .commit 2 ∅]

instance Grows.decidable (s : IncrementalSolver) : ∀ call, Decidable (Grows s call)
  | .propose _ => inferInstanceAs (Decidable (_ ∧ _))
  | .commit _ _ => isFalse id
  | .discard => isFalse id
  | .removeThread _ => isFalse id
  | .reset => isFalse id

/-- A thread that comes for the fourth is pinned alone. -/
theorem replan_ends_regrown : ∃ s, Run.exec step {} regrown = some s ∧ s.phase = .optimizing ∧
    s.replanExistingThreads = false ∧ ∃ p s', propose s (cohort [1, 2, 3, 5] (3 / 10)) = .ok (p, s') ∧
      p.actions.map (·.identity.tid) = [5] ∧ ∀ a ∈ p.actions, a.identity.tid ∉ s'.pinned := by
  have hd : onePair.Discovered := ⟨by decide, by decide⟩
  have hobeys : Run.Obeys step (fun s call => Protocol onePair s call ∧ ¬ Slips s call) {} regrown := by decide +kernel
  have hsome : (Run.exec step {} regrown).any (fun s => decide (s.phase = .optimizing ∧ s.outstanding.isNone = true ∧
      ¬ Grows s (.propose (cohort [1, 2, 3, 5] (3 / 10)))) &&
      (match propose s (cohort [1, 2, 3, 5] (3 / 10)) with
        | .ok r => decide (r.1.phase = .initialPinning ∧ r.1.actions.map (·.identity.tid) = [5])
        | .error _ => false)) = true := by decide +kernel
  obtain ⟨s, hexec, hs⟩ := (Option.any_eq_true _ _).1 hsome
  rw [Bool.and_eq_true, decide_eq_true_eq] at hs
  obtain ⟨⟨hphase, hnone, hgrow⟩, hr⟩ := hs
  obtain ⟨hflag, hlater⟩ := replan_ends hd hobeys hexec hphase
  cases hp : propose s (cohort [1, 2, 3, 5] (3 / 10)) with
  | error e =>
    rw [hp] at hr
    cases hr
  | ok r =>
    rw [hp] at hr
    obtain ⟨hpin, htids⟩ := of_decide_eq_true hr
    exact ⟨s, hexec, hphase, hflag, r.1, r.2, hp, htids, hlater [] s trivial rfl _ _ _ ⟨rfl, by decide⟩ hgrow
      (Option.isNone_iff_eq_none.1 hnone) hp hpin⟩

/-- The fourth thread leaves before it is pinned, and the second with it: the window finds the others on their targets. -/
def slipped : List Call := regrown.take 4 ++ [.propose (cohort [1, 3] (9 / 10)), .commit 2 ∅]

/-- **It optimizes with the flag set**, and the next arrival drags a pinned thread back to its old target, onto the CPU
it was just moved away from. -/
theorem replan_slips : Run.Obeys step (Protocol onePair) {} slipped ∧ ∃ s, Run.exec step {} slipped = some s ∧
    s.phase = .optimizing ∧ s.replanExistingThreads = true ∧ ¬ Grows s (.propose (cohort [1, 3, 5] (9 / 10))) ∧
    ∃ p s', propose s (cohort [1, 3, 5] (9 / 10)) = .ok (p, s') ∧ p.phase = .initialPinning ∧ (1 : Tid) ∈ s'.pinned ∧
      p.actions.map (fun a => (a.identity.tid, a.fromCpu, a.targetCpu)) = [(1, 1, 0), (5, 0, 1)] := by
  have hobeys : Run.Obeys step (Protocol onePair) {} slipped := by decide +kernel
  have hsome : (Run.exec step {} slipped).any (fun s => decide (s.phase = .optimizing ∧ s.replanExistingThreads = true ∧
      ¬ Grows s (.propose (cohort [1, 3, 5] (9 / 10)))) &&
      (match propose s (cohort [1, 3, 5] (9 / 10)) with
        | .ok r => decide (r.1.phase = .initialPinning ∧ (1 : Tid) ∈ r.2.pinned ∧
            r.1.actions.map (fun a => (a.identity.tid, a.fromCpu, a.targetCpu)) = [(1, 1, 0), (5, 0, 1)])
        | .error _ => false)) = true := by decide +kernel
  obtain ⟨s, hexec, hs⟩ := (Option.any_eq_true _ _).1 hsome
  rw [Bool.and_eq_true, decide_eq_true_eq] at hs
  obtain ⟨⟨hphase, hflag, hgrow⟩, hr⟩ := hs
  cases hp : propose s (cohort [1, 3, 5] (9 / 10)) with
  | error e =>
    rw [hp] at hr
    cases hr
  | ok r =>
    rw [hp] at hr
    obtain ⟨hpin, hpinned, hactions⟩ := of_decide_eq_true hr
    exact ⟨hobeys, s, hexec, hphase, hflag, hgrow, r.1, r.2, hp, hpin, hpinned, hactions⟩

end Runs

end IncrementalSolver
end AffinityGraph
