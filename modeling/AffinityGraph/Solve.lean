import AffinityGraph.ActuatorRestore
import AffinityGraph.DomainRuns
import AffinityGraph.Runtime
/-!
# Solve — one solve window of the domain solver (`runtime.cpp`, `solve_numa_domains` and `maybe_solve`)

`solve_numa_domains` proposes, restores what the plan released, applies what it adds and commits or discards, with an
early return after each of these.  The returns are the branches here, each stage a function of its own; `SolveExit` lists
what a call that returns has done.

`maybe_solve` holds `mutex_` around all of it.  The two branches that find a failed restore call `trigger_fatal`, which
takes that lock again: `solveNumaDomains_failed_restore_blocks`.
-/
namespace AffinityGraph
namespace Runtime

/-! ## The stages -/

def bpfGatePassed (r : Runtime) : Bool :=
  r.bpfReader && r.bpfHealthValid && r.bpfWindowReady && decide (r.bpfWindowLossRatio < 1 / 100)

def restoreTids (r : Runtime) (tids : OrdSet Tid) : Runtime :=
  let restored := Actuator.restore linux r.kernel r.actuator tids
  { r with kernel := restored.backend, actuator := restored.actuator, lastRestore := restored.result }

def commitProposal (r : Runtime) (proposal : NumaDomainProposal) (now : Nat) (committedTids : OrdSet Tid := ∅) :
    Outcome Runtime :=
  match r.domainSolver.commit proposal now committedTids with
  | .ok s => .ok { r with domainSolver := s, currentMasks := s.placement }
  | .error e => .error e

def discardProposal (r : Runtime) (proposal : NumaDomainProposal) : Runtime :=
  { r with domainSolver := r.domainSolver.discard proposal }

/-- An invalid plan is left unrestricted: everything managed is restored. -/
def solveInvalid (r : Runtime) (proposal : NumaDomainProposal) (now : Nat) : Outcome Runtime :=
  if r.config.mode = .active ∧ proposal.releasedTids.isEmpty = false then
    let r₁ := r.restoreTids proposal.releasedTids
    if r₁.lastRestore.success then r₁.commitProposal proposal now
    else (r₁.discardProposal proposal).triggerFatal "invalid NUMA domain affinity restore failed"
  else r.commitProposal proposal now

/-- The batch, and what follows from its result. -/
def applyProposal (r : Runtime) (proposal : NumaDomainProposal) (live : OrdSet Tid) (now : Nat) : Outcome Runtime :=
  let (kernel, actuator, result) := Actuator.apply linux r.kernel r.actuator proposal.delta live
  let r₁ := { r with
    kernel := kernel
    actuator := actuator
    actionRequested := r.actionRequested + result.requested
    actionCommitted := r.actionCommitted + result.committed
    actionVanished := r.actionVanished + result.vanished
    actionRolledBack := r.actionRolledBack + result.rolledBack
    actionFailures := if result.success then r.actionFailures else r.actionFailures + 1 }
  if !result.success then .ok (r₁.discardProposal proposal) else
  let r₂ := { r₁ with
    domainSolver := result.vanishedTids.toList.foldl NumaDomainSolver.removeThread r₁.domainSolver }
  if !proposal.actions.isEmpty && result.committedTids.isEmpty then
    let s := (proposal.releasedTids.toList.foldl NumaDomainSolver.removeThread r₂.domainSolver).discard proposal
    .ok { r₂ with domainSolver := s, currentMasks := s.placement }
  else r₂.commitProposal proposal now result.committedTids

def solveActive (r : Runtime) (proposal : NumaDomainProposal) (live : OrdSet Tid) (now : Nat) : Outcome Runtime :=
  if proposal.releasedTids.isEmpty then r.applyProposal proposal live now else
  let r₁ := r.restoreTids proposal.releasedTids
  if r₁.lastRestore.success then r₁.applyProposal proposal live now
  else (r₁.discardProposal proposal).triggerFatal "NUMA domain affinity restore failed"

def solveNumaDomains (r : Runtime) (input : ProposeInput) : Outcome Runtime :=
  if !r.bpfGatePassed then .ok { r with selectorReady := false } else
  match r.domainSolver.propose input with
  | .error e => .error e
  | .ok (proposal, s) =>
    let r₁ := { r with domainSolver := s }
    if !proposal.valid then solveInvalid { r₁ with selectorReady := false } proposal input.nowNs else
    let r₂ := { r₁ with selectorReady := proposal.ready || s.effective }
    if !proposal.ready then .ok (r₂.discardProposal proposal)
    else if proposal.actions.isEmpty && proposal.releasedTids.isEmpty &&
        decide (proposal.plannedMasks = s.placement) then .ok (r₂.discardProposal proposal)
    else if r₂.config.mode = .plan then r₂.commitProposal proposal input.nowNs
    else r₂.solveActive proposal (OrdSet.ofList (input.threads.map (·.identity.tid))) input.nowNs

/-! ## maybe_solve -/

/-- What the window gives the solver: the demands, the edges and every thread's sampled mask. -/
def windowInput (r : Runtime) (now : Nat) : ProposeInput × GraphWindow :=
  let (demands, g₁) := r.graph.demands
  let (records, g₂) := g₁.threadRecords
  let (edges, g₃) := g₂.edges
  ({ hardware := r.hardware
     threads := demands
     edges := edges
     allowedMasks := records.foldl (fun m record => m.insert record.identity.tid record.allowedCpus) ∅
     options := r.config.domainOptions
     nowNs := now }, g₃)

/-- The interval has passed and the supervisor is not paused. -/
def due (r : Runtime) (now : Nat) : Bool :=
  !(decide (subU64 now r.lastSolveNs < r.config.solveIntervalSeconds * 10 ^ 9) || r.paused)

/-- The runtime inside the lock, with the window's demands and edges computed. -/
def openWindow (r : Runtime) (now : Nat) : Runtime :=
  { r with
    lastSolveNs := now
    mutexHeld := true
    solveWindowSequence := r.solveWindowSequence + 1
    graph := (r.windowInput now).2 }

section OpenWindow

variable (r : Runtime) (now : Nat)

@[simp] theorem openWindow_config : (r.openWindow now).config = r.config := rfl

@[simp] theorem openWindow_hardware : (r.openWindow now).hardware = r.hardware := rfl

@[simp] theorem openWindow_kernel : (r.openWindow now).kernel = r.kernel := rfl

@[simp] theorem openWindow_actuator : (r.openWindow now).actuator = r.actuator := rfl

@[simp] theorem openWindow_domainSolver : (r.openWindow now).domainSolver = r.domainSolver := rfl

@[simp] theorem openWindow_targetTgids : (r.openWindow now).targetTgids = r.targetTgids := rfl

@[simp] theorem openWindow_mutexHeld : (r.openWindow now).mutexHeld = true := rfl

@[simp] theorem openWindow_graph : (r.openWindow now).graph = (r.windowInput now).2 := rfl

@[simp] theorem windowInput_hardware : (r.windowInput now).1.hardware = r.hardware := rfl

end OpenWindow

/-- `maybe_solve`; the branch of the other solver is the parameter. -/
def maybeSolve (solveIncremental : Runtime → ProposeInput → Outcome Runtime) (r : Runtime) (now : Nat) :
    Outcome Runtime :=
  if !r.due now then .ok r
  else if r.mutexHeld then .error .blocked
  else
    let solved := if r.config.mode = .observe then .ok (r.openWindow now)
      else match r.config.solver with
        | .numaDomain => (r.openWindow now).solveNumaDomains (r.windowInput now).1
        | .incrementalHotspot => solveIncremental (r.openWindow now) (r.windowInput now).1
    match solved with
    | .ok r' => .ok { r' with mutexHeld := false }
    | .error e => .error e

/-! ## What a call that returns has done -/

section Exits

variable (r : Runtime) (input : ProposeInput)

/-- The proposal of the window. -/
def proposal : NumaDomainProposal := NumaDomainSolver.proposalOf r.domainSolver input

/-- The restore of what it releases; nothing happens when that is empty. -/
def release : RestoreState Kernel := Actuator.restore linux r.kernel r.actuator (r.proposal input).releasedTids

/-- The batch, after the restore. -/
def batch : ApplyState Kernel :=
  Actuator.applyRun linux (r.release input).backend (r.release input).actuator
    (Actuator.deltaMasks (r.proposal input).delta) (OrdSet.ofList (input.threads.map (·.identity.tid)))

/-- Every way out of `solve_numa_domains`, for a mode other than `Plan`. -/
inductive SolveExit (r' : Runtime) : Prop
  | idle (kernel : r'.kernel = r.kernel) (actuator : r'.actuator = r.actuator)
      (placement : r'.domainSolver.placement = r.domainSolver.placement)
      (domains : r'.domainSolver.domains = r.domainSolver.domains)
  | invalid (valid : (r.proposal input).valid = false)
      (placement : r'.domainSolver.placement =
        NumaDomainSolver.commitPlacement r.domainSolver.placement (r.proposal input) ∅)
      (domains : r'.domainSolver.domains = (r.proposal input).domains)
  | failed (ready : (r.proposal input).ready = true) (restored : (r.release input).result.failed = 0)
      (stopped : (r.batch input).result.success = false)
      (kernel : r'.kernel = (r.batch input).backend) (actuator : r'.actuator = (r.batch input).actuator)
      (placement : r'.domainSolver.placement = r.domainSolver.placement)
      (domains : r'.domainSolver.domains = r.domainSolver.domains)
  | vanished (ready : (r.proposal input).ready = true) (restored : (r.release input).result.failed = 0)
      (success : (r.batch input).result.success = true) (nobody : (r.batch input).result.committedTids.isEmpty = true)
      (kernel : r'.kernel = (r.batch input).backend) (actuator : r'.actuator = (r.batch input).actuator)
      (placement : r'.domainSolver.placement = (r.proposal input).releasedTids.toList.foldl OrdMap.erase
        ((r.batch input).result.vanishedTids.toList.foldl OrdMap.erase r.domainSolver.placement))
      (domains : r'.domainSolver.domains = r.domainSolver.domains)
  | committed (ready : (r.proposal input).ready = true) (restored : (r.release input).result.failed = 0)
      (success : (r.batch input).result.success = true)
      (somebody : (r.proposal input).actions = [] ∨ (r.batch input).result.committedTids.isEmpty = false)
      (kernel : r'.kernel = (r.batch input).backend) (actuator : r'.actuator = (r.batch input).actuator)
      (placement : r'.domainSolver.placement = NumaDomainSolver.commitPlacement
        ((r.batch input).result.vanishedTids.toList.foldl OrdMap.erase r.domainSolver.placement) (r.proposal input)
        (r.batch input).result.committedTids)
      (domains : r'.domainSolver.domains = (r.proposal input).domains)

end Exits

/-- What no exit touches. -/
structure SolveFrame (r r' : Runtime) : Prop where
  graph : r'.graph = r.graph
  hardware : r'.hardware = r.hardware
  config : r'.config = r.config
  targets : r'.targetTgids = r.targetTgids
  tasks : Kernel.SameTasks r.kernel r'.kernel

variable {r r' : Runtime} {input : ProposeInput}

theorem restore_of_isEmpty {k : Kernel} {a : Actuator} {tids : OrdSet Tid} (h : tids.isEmpty = true) :
    Actuator.restore linux k a tids = ⟨k, a, {}⟩ := by
  have hnil : tids.toList = [] := by
    have hentries : tids.entries = [] := List.isEmpty_iff.1 h
    rw [OrdSet.toList, OrdMap.keys, hentries]
    rfl
  rw [Actuator.restore, hnil]
  rfl

theorem triggerFatal_held (message : String) (h : r.mutexHeld = true) : r.triggerFatal message = .error .blocked := by
  simp [triggerFatal, h]

theorem commitProposal_ok {p : NumaDomainProposal} {now : Nat} {tids : OrdSet Tid}
    (h : r.commitProposal p now tids = .ok r') :
    ∃ s, r' = { r with domainSolver := s, currentMasks := s.placement } ∧ s.domains = p.domains ∧
      s.placement = NumaDomainSolver.commitPlacement r.domainSolver.placement p tids := by
  unfold commitProposal at h
  split at h
  · rename_i s hs
    cases h
    obtain ⟨-, hdom, -, hplace⟩ := NumaDomainSolver.commit_ok hs
    exact ⟨s, rfl, hdom, hplace⟩
  · cases h

theorem release_sameTasks (r : Runtime) (input : ProposeInput) :
    Kernel.SameTasks r.kernel (r.release input).backend :=
  Actuator.restore_keeps (fun _ t m => linux_set_sameTasks t m) _ _ _ (Kernel.SameTasks.refl _)

theorem batch_sameTasks (r : Runtime) (input : ProposeInput) :
    Kernel.SameTasks r.kernel (r.batch input).backend :=
  Actuator.applyRun_keeps (fun _ t m => linux_set_sameTasks t m) _ _ _ _ (r.release_sameTasks input)

theorem placement_foldl_removeThread : ∀ (l : List Tid) (s : NumaDomainSolver),
    (l.foldl NumaDomainSolver.removeThread s).placement = l.foldl OrdMap.erase s.placement ∧
    (l.foldl NumaDomainSolver.removeThread s).domains = s.domains
  | [], _ => ⟨rfl, rfl⟩
  | t :: l, s => placement_foldl_removeThread l (s.removeThread t)

@[simp]
theorem placement_discard (s : NumaDomainSolver) (p : NumaDomainProposal) :
    (s.discard p).placement = s.placement ∧ (s.discard p).domains = s.domains := by
  unfold NumaDomainSolver.discard
  split <;> exact ⟨rfl, rfl⟩

/-- The last stage, unpacked, over the solver and the kernel it starts from. -/
theorem applyProposal_ok {p : NumaDomainProposal} {live : OrdSet Tid} {now : Nat} {st : ApplyState Kernel}
    (hst : Actuator.applyRun linux r.kernel r.actuator (Actuator.deltaMasks p.delta) live = st)
    (h : r.applyProposal p live now = .ok r') :
    r'.kernel = st.backend ∧ r'.actuator = st.actuator ∧
    (r'.graph = r.graph ∧ r'.hardware = r.hardware ∧ r'.config = r.config ∧ r'.targetTgids = r.targetTgids) ∧
    (st.result.success = false ∧ r'.domainSolver.placement = r.domainSolver.placement ∧
        r'.domainSolver.domains = r.domainSolver.domains ∨
      st.result.success = true ∧ (p.actions ≠ [] ∧ st.result.committedTids.isEmpty = true) ∧
        r'.domainSolver.placement = p.releasedTids.toList.foldl OrdMap.erase
          (st.result.vanishedTids.toList.foldl OrdMap.erase r.domainSolver.placement) ∧
        r'.domainSolver.domains = r.domainSolver.domains ∨
      st.result.success = true ∧ (p.actions = [] ∨ st.result.committedTids.isEmpty = false) ∧
        r'.domainSolver.placement = NumaDomainSolver.commitPlacement
          (st.result.vanishedTids.toList.foldl OrdMap.erase r.domainSolver.placement) p st.result.committedTids ∧
        r'.domainSolver.domains = p.domains) := by
  have happly : Actuator.apply linux r.kernel r.actuator p.delta live = (st.backend, st.actuator, st.result) := by
    rw [← hst]
    rfl
  unfold applyProposal at h
  rw [happly] at h
  dsimp only at h
  cases hs : st.result.success with
  | false =>
    rw [hs] at h
    simp only [Bool.not_false, if_true, Except.ok.injEq] at h
    rw [← h]
    exact ⟨rfl, rfl, ⟨rfl, rfl, rfl, rfl⟩, Or.inl ⟨rfl, (placement_discard _ p).1, (placement_discard _ p).2⟩⟩
  | true =>
    rw [hs] at h
    simp only [Bool.not_true, Bool.false_eq_true, if_false] at h
    split at h
    · rename_i hnobody
      rw [Bool.and_eq_true] at hnobody
      have hactions : p.actions ≠ [] := by simpa using hnobody.1
      cases h
      refine ⟨rfl, rfl, ⟨rfl, rfl, rfl, rfl⟩, Or.inr (Or.inl ⟨rfl, ⟨hactions, hnobody.2⟩, ?_, ?_⟩)⟩
      · rw [(placement_discard _ p).1, (placement_foldl_removeThread _ _).1, (placement_foldl_removeThread _ _).1]
      · rw [(placement_discard _ p).2, (placement_foldl_removeThread _ _).2, (placement_foldl_removeThread _ _).2]
    · rename_i hsome
      obtain ⟨s, rfl, hdom, hplace⟩ := commitProposal_ok h
      refine ⟨rfl, rfl, ⟨rfl, rfl, rfl, rfl⟩, Or.inr (Or.inr ⟨rfl, ?_, ?_, hdom⟩)⟩
      · cases ha : p.actions with
        | nil => exact Or.inl rfl
        | cons a l =>
          refine Or.inr ?_
          rw [ha] at hsome
          simpa using hsome
      · rw [hplace, (placement_foldl_removeThread _ _).1]

/-- The restore and the batch, unpacked; `p` and `r` are the window's. -/
theorem solveActive_ok {r₀ : Runtime} (hk : r₀.kernel = r.kernel) (ha : r₀.actuator = r.actuator)
    (hheld : r₀.mutexHeld = true)
    (h : r₀.solveActive (r.proposal input) (OrdSet.ofList (input.threads.map (·.identity.tid))) input.nowNs = .ok r') :
    (r.release input).result.failed = 0 ∧ ∃ r₁ : Runtime, r₁.kernel = (r.release input).backend ∧
      r₁.actuator = (r.release input).actuator ∧ r₁.domainSolver = r₀.domainSolver ∧
      (r₁.graph = r₀.graph ∧ r₁.hardware = r₀.hardware ∧ r₁.config = r₀.config ∧ r₁.targetTgids = r₀.targetTgids) ∧
      r₁.applyProposal (r.proposal input) (OrdSet.ofList (input.threads.map (·.identity.tid))) input.nowNs = .ok r' := by
  unfold solveActive at h
  split at h
  · rename_i hempty
    have hrel : r.release input = ⟨r.kernel, r.actuator, {}⟩ := restore_of_isEmpty hempty
    rw [hrel]
    exact ⟨rfl, r₀, hk, ha, rfl, ⟨rfl, rfl, rfl, rfl⟩, h⟩
  · have hrel : Actuator.restore linux r₀.kernel r₀.actuator (r.proposal input).releasedTids = r.release input := by
      rw [hk, ha]
      rfl
    dsimp only at h
    split at h
    · rename_i hsucc
      have hfail : (r.release input).result.failed = 0 := by
        unfold restoreTids at hsucc
        rw [hrel] at hsucc
        exact of_decide_eq_true hsucc
      refine ⟨hfail, r₀.restoreTids (r.proposal input).releasedTids, ?_, ?_, rfl, ⟨rfl, rfl, rfl, rfl⟩, h⟩
      · rw [← hrel]; rfl
      · rw [← hrel]; rfl
    · rw [triggerFatal_held _ (by exact hheld)] at h
      cases h

theorem solveInvalid_ok {p : NumaDomainProposal} {now : Nat} (hheld : r.mutexHeld = true)
    (h : r.solveInvalid p now = .ok r') : SolveFrame r r' ∧ r'.domainSolver.domains = p.domains ∧
      r'.domainSolver.placement = NumaDomainSolver.commitPlacement r.domainSolver.placement p ∅ := by
  unfold solveInvalid at h
  split at h
  · dsimp only at h
    split at h
    · obtain ⟨s, rfl, hdom, hplace⟩ := commitProposal_ok h
      refine ⟨⟨rfl, rfl, rfl, rfl, ?_⟩, hdom, hplace⟩
      exact Actuator.restore_keeps (fun _ t m => linux_set_sameTasks t m) _ _ _ (Kernel.SameTasks.refl _)
    · rw [triggerFatal_held _ (by exact hheld)] at h
      cases h
  · obtain ⟨s, rfl, hdom, hplace⟩ := commitProposal_ok h
    exact ⟨⟨rfl, rfl, rfl, rfl, Kernel.SameTasks.refl _⟩, hdom, hplace⟩

/-- **Every return of `solve_numa_domains`** that is made under the lock, in a mode other than `Plan`. -/
theorem solveNumaDomains_ok (hheld : r.mutexHeld = true) (hmode : r.config.mode ≠ .plan)
    (h : r.solveNumaDomains input = .ok r') : SolveFrame r r' ∧ SolveExit r input r' := by
  unfold solveNumaDomains at h
  split at h
  · cases h
    exact ⟨⟨rfl, rfl, rfl, rfl, Kernel.SameTasks.refl _⟩, .idle rfl rfl rfl rfl⟩
  · split at h
    · cases h
    · rename_i p s hp
      obtain ⟨-, rfl, rfl⟩ := NumaDomainSolver.propose_ok hp
      have hplace : (NumaDomainSolver.proposed r.domainSolver input).placement = r.domainSolver.placement := rfl
      have hdom : (NumaDomainSolver.proposed r.domainSolver input).domains = r.domainSolver.domains := rfl
      dsimp only at h
      split at h
      · rename_i hvalid
        obtain ⟨hframe, hdoms, hplaces⟩ := solveInvalid_ok (by exact hheld) h
        refine ⟨⟨hframe.graph, hframe.hardware, hframe.config, hframe.targets, hframe.tasks⟩,
          .invalid (by simpa [proposal] using hvalid) hplaces hdoms⟩
      · split at h
        · cases h
          exact ⟨⟨rfl, rfl, rfl, rfl, Kernel.SameTasks.refl _⟩,
            .idle rfl rfl (placement_discard _ _).1 (placement_discard _ _).2⟩
        · rename_i hready
          have hready' : (r.proposal input).ready = true := by simpa [proposal] using hready
          split at h
          · cases h
            exact ⟨⟨rfl, rfl, rfl, rfl, Kernel.SameTasks.refl _⟩,
              .idle rfl rfl (placement_discard _ _).1 (placement_discard _ _).2⟩
          · obtain ⟨hfail, r₁, hk, ha, hs, ⟨hg, hh, hc, ht⟩, happly⟩ :=
              solveActive_ok (r := r) (by rfl) (by rfl) (by exact hheld) h
            have hbatch : Actuator.applyRun linux r₁.kernel r₁.actuator
                (Actuator.deltaMasks (r.proposal input).delta) (OrdSet.ofList (input.threads.map (·.identity.tid))) =
                r.batch input := by rw [hk, ha]; rfl
            obtain ⟨hk', ha', ⟨hg', hh', hc', ht'⟩, hcase⟩ := applyProposal_ok hbatch happly
            rw [hs] at hcase
            refine ⟨⟨hg'.trans hg, hh'.trans hh, hc'.trans hc, ht'.trans ht, by rw [hk']; exact r.batch_sameTasks input⟩, ?_⟩
            rcases hcase with ⟨hs', hp', hd'⟩ | ⟨hs', ⟨-, hno⟩, hp', hd'⟩ | ⟨hs', hsome, hp', hd'⟩
            · exact .failed hready' hfail hs' hk' ha' hp' hd'
            · exact .vanished hready' hfail hs' hno hk' ha' hp' hd'
            · exact .committed hready' hfail hs' hsome hk' ha' hp' hd'

/-- **A valid plan in a window that can be solved**: it waits or changes nothing, or it is applied; and when the batch
goes through, it is committed. -/
theorem solveNumaDomains_valid (hheld : r.mutexHeld = true) (hmode : r.config.mode ≠ .plan)
    (hgate : r.bpfGatePassed = true) (hvalid : (r.proposal input).valid = true) (h : r.solveNumaDomains input = .ok r') :
    (r'.kernel = r.kernel ∧ r'.currentMasks = r.currentMasks ∧ r'.domainSolver.placement = r.domainSolver.placement ∧
      r'.domainSolver.domains = r.domainSolver.domains ∧ ((r.proposal input).ready = false ∨
        (r.proposal input).ready = true ∧ (r.proposal input).actions = [] ∧
          (r.proposal input).releasedTids.isEmpty = true ∧
          (r.proposal input).plannedMasks = r.domainSolver.placement)) ∨
    (r.proposal input).ready = true ∧ ((r.batch input).result.success = true →
      (r.proposal input).actions = [] ∨ (r.batch input).result.committedTids.isEmpty = false →
      r'.kernel = (r.batch input).backend ∧ r'.domainSolver.domains = (r.proposal input).domains ∧
      r'.domainSolver.placement = NumaDomainSolver.commitPlacement ((r.batch input).result.vanishedTids.toList.foldl
        OrdMap.erase r.domainSolver.placement) (r.proposal input) (r.batch input).result.committedTids) := by
  unfold solveNumaDomains at h
  rw [hgate] at h
  simp only [Bool.not_true, Bool.false_eq_true, if_false] at h
  split at h
  · cases h
  · rename_i p s hp
    obtain ⟨-, rfl, rfl⟩ := NumaDomainSolver.propose_ok hp
    rw [show (NumaDomainSolver.proposalOf r.domainSolver input).valid = true from hvalid] at h
    simp only [Bool.not_true, Bool.false_eq_true, if_false] at h
    split at h
    · rename_i hready
      cases h
      exact Or.inl ⟨rfl, rfl, (placement_discard _ _).1, (placement_discard _ _).2,
        Or.inl (by simpa [proposal] using hready)⟩
    · rename_i hready
      have hready' : (r.proposal input).ready = true := by simpa [proposal] using hready
      split at h
      · rename_i hstable
        simp only [Bool.and_eq_true, List.isEmpty_iff, decide_eq_true_eq] at hstable
        cases h
        exact Or.inl ⟨rfl, rfl, (placement_discard _ _).1, (placement_discard _ _).2,
          Or.inr ⟨hready', hstable.1.1, hstable.1.2, hstable.2⟩⟩
      · refine Or.inr ⟨hready', fun hsuccess hsomebody => ?_⟩
        obtain ⟨-, r₁, hk, ha, hs, -, happly⟩ := solveActive_ok (r := r) (by rfl) (by rfl) (by exact hheld) h
        have hbatch : Actuator.applyRun linux r₁.kernel r₁.actuator (Actuator.deltaMasks (r.proposal input).delta)
            (OrdSet.ofList (input.threads.map (·.identity.tid))) = r.batch input := by rw [hk, ha]; rfl
        obtain ⟨hkernel, -, -, hcase⟩ := applyProposal_ok hbatch happly
        rw [hs] at hcase
        rcases hcase with ⟨hfail, -, -⟩ | ⟨-, ⟨hsome, hno⟩, -, -⟩ | ⟨-, -, hplace, hdom⟩
        · exact absurd (hfail.symm.trans hsuccess) (by simp)
        · rcases hsomebody with hnone | hcommitted
          · exact absurd hnone hsome
          · exact absurd (hno.symm.trans hcommitted) (by simp)
        · exact ⟨hkernel, hdom, hplace⟩

/-- Giving the lock back is no part of either. -/
theorem SolveFrame.unlock (h : SolveFrame r r') : SolveFrame r { r' with mutexHeld := false } :=
  ⟨h.graph, h.hardware, h.config, h.targets, h.tasks⟩

theorem SolveExit.unlock (h : SolveExit r input r') : SolveExit r input { r' with mutexHeld := false } := by
  cases h with
  | idle kernel actuator placement domains => exact .idle kernel actuator placement domains
  | invalid valid placement domains => exact .invalid valid placement domains
  | failed ready restored stopped kernel actuator placement domains =>
    exact .failed ready restored stopped kernel actuator placement domains
  | vanished ready restored success nobody kernel actuator placement domains =>
    exact .vanished ready restored success nobody kernel actuator placement domains
  | committed ready restored success somebody kernel actuator placement domains =>
    exact .committed ready restored success somebody kernel actuator placement domains

/-- A window of the domain solver, unpacked. -/
theorem maybeSolve_domains {solveIncremental : Runtime → ProposeInput → Outcome Runtime} {now : Nat}
    (hmode : r.config.mode ≠ .observe) (hsolver : r.config.solver = .numaDomain)
    (h : r.maybeSolve solveIncremental now = .ok r') :
    r.due now = false ∧ r' = r ∨ r.due now = true ∧ r.mutexHeld = false ∧
      ∃ r₁, (r.openWindow now).solveNumaDomains (r.windowInput now).1 = .ok r₁ ∧ r' = { r₁ with mutexHeld := false } := by
  unfold maybeSolve at h
  split at h
  · rename_i hdue
    cases h
    exact Or.inl ⟨by simpa using hdue, rfl⟩
  · rename_i hdue
    split at h
    · cases h
    · rename_i hheld
      simp only [hsolver] at h
      split at h
      · rename_i r₁ hr₁
        cases h
        exact Or.inr ⟨by simpa using hdue, by simpa using hheld, r₁, hr₁, rfl⟩
      · cases h

/-- A turn of the solver in active mode: nothing, or one window. -/
theorem maybeSolve_ok {solveIncremental : Runtime → ProposeInput → Outcome Runtime} {now : Nat}
    (hmode : r.config.mode = .active) (hsolver : r.config.solver = .numaDomain)
    (h : r.maybeSolve solveIncremental now = .ok r') :
    r' = r ∨ r.due now = true ∧ SolveFrame (r.openWindow now) r' ∧
      SolveExit (r.openWindow now) (r.windowInput now).1 r' := by
  have hobserve : r.config.mode ≠ .observe := by simp [hmode]
  have hplan : (r.openWindow now).config.mode ≠ .plan := by
    rw [openWindow_config, hmode]
    simp
  rcases maybeSolve_domains hobserve hsolver h with ⟨-, hsame⟩ | ⟨hdue, -, r₁, hr₁, hsame⟩
  · exact Or.inl hsame
  · obtain ⟨hframe, hexit⟩ := solveNumaDomains_ok (openWindow_mutexHeld r now) hplan hr₁
    rw [hsame]
    exact Or.inr ⟨hdue, hframe.unlock, hexit.unlock⟩

/-! ## The hard failure -/

/-- What is to hold after a hard failure. -/
structure HardFailed (r r' : Runtime) : Prop where
  fatal : r'.fatalError ≠ ""
  /-- `restore_all` has run: the actuator has forgotten everything -/
  restored : r'.actuator = {}
  masks : r'.currentMasks = ∅
  solver : r'.solver = r.solver.reset
  domainSolver : r'.domainSolver = {}
  paused : r'.paused = true
  signalled : r.rootPid ∈ r'.kernel.terminated

/-- With the lock free, `trigger_fatal` does all of it. -/
theorem triggerFatal_hardFailed {message : String} (hm : message ≠ "") (hfree : r.mutexHeld = false)
    (hfirst : r.fatalError = "") : ∃ r', r.triggerFatal message = .ok r' ∧ HardFailed r r' := by
  refine ⟨_, by simp only [triggerFatal, pause, hfree, hfirst, bind, Except.bind]; rfl, hm, rfl, rfl, rfl, rfl, rfl, ?_⟩
  simp [pauseSection, Kernel.killGroup]

/-- The window comes to a restore, and the restore reports a failure: the plan is invalid or ready, in active mode. -/
structure RestoreFails (r : Runtime) (input : ProposeInput) : Prop where
  gate : r.bpfGatePassed = true
  outstanding : r.domainSolver.outstanding = none
  mode : r.config.mode = .active
  plan : (r.proposal input).valid = false ∨ (r.proposal input).ready = true
  failed : 0 < (r.release input).result.failed

theorem valid_of_ready {s : NumaDomainSolver} (h : (s.proposalOf input).ready = true) :
    (s.proposalOf input).valid = true := by
  have hready : s.planReady input = true := h
  unfold NumaDomainSolver.planReady at hready
  rw [Bool.and_eq_true] at hready
  exact hready.1

/-- **The hard failure never completes**: whenever the restore of a window reports a failure, `trigger_fatal` waits for
the lock that `maybe_solve` holds, and the call does not return. -/
theorem solveNumaDomains_failed_restore_blocks (hheld : r.mutexHeld = true) (h : RestoreFails r input) :
    r.solveNumaDomains input = .error .blocked ∧
    ¬ ∃ r', r.solveNumaDomains input = .ok r' ∧ HardFailed r r' := by
  have hblocks : r.solveNumaDomains input = .error .blocked := by
    have hsome : (r.proposal input).releasedTids.isEmpty = false := by
      cases he : (r.proposal input).releasedTids.isEmpty with
      | false => rfl
      | true =>
        have hfailed := h.failed
        rw [release, restore_of_isEmpty he] at hfailed
        exact absurd hfailed (lt_irrefl 0)
    have hno : (r.release input).result.success = false := decide_eq_false (Nat.pos_iff_ne_zero.1 h.failed)
    have hpropose : r.domainSolver.propose input = .ok (r.proposal input, r.domainSolver.proposed input) := by
      rw [NumaDomainSolver.propose, h.outstanding]
      rfl
    have hgate : (!r.bpfGatePassed) = false := by rw [h.gate]; rfl
    unfold solveNumaDomains
    rw [hgate, hpropose]
    simp only [Bool.false_eq_true, if_false]
    cases hv : (r.proposal input).valid with
    | false =>
      simp only [Bool.not_false, if_true, solveInvalid, h.mode, hsome, and_self]
      rw [if_neg]
      · exact triggerFatal_held _ hheld
      · exact ne_true_of_eq_false hno
    | true =>
      have hready : (r.proposal input).ready = true := by
        rcases h.plan with hp | hp
        · rw [hv] at hp; cases hp
        · exact hp
      simp only [Bool.not_true, Bool.false_eq_true, if_false, hready, hsome, Bool.and_false, Bool.false_and, h.mode,
        reduceCtorEq, solveActive]
      rw [if_neg]
      · exact triggerFatal_held _ hheld
      · exact ne_true_of_eq_false hno
  refine ⟨hblocks, ?_⟩
  rintro ⟨r', hr', -⟩
  rw [hblocks] at hr'
  cases hr'

/-- Whether a call waits forever. -/
def blocks (outcome : Outcome Runtime) : Bool :=
  match outcome with
  | .error .blocked => true
  | _ => false

theorem blocks_iff {outcome : Outcome Runtime} : blocks outcome = true ↔ outcome = .error .blocked := by
  unfold blocks
  split <;> simp_all

/-- Thread 7 is managed, pinned to CPU 0, and due CPUs 0 and 1; the kernel will refuse the next write. -/
def refusedRuntime : Runtime where
  config := { mode := .active, solver := .numaDomain }
  hardware := { cpus := [⟨0, 0, true⟩, ⟨1, 0, true⟩] }
  rootPid := 7
  kernel := { threads := OrdMap.ofList [(7, ⟨7, 1, OrdSet.ofList [0]⟩)], answers := [.rejects 1] }
  graph :=
    { horizonSeconds := 60
      libm := ⟨id, id⟩
      threads := OrdMap.ofList [(7, [{ identity := ⟨7, 7, 1⟩, allowedCpus := [0] }])] }
  actuator := (({} : Actuator).remember 7 [0, 1]).markActed 7 (Actuator.mem_remember _ _ _)
  domainSolver := { placement := OrdMap.ofList [(7, [0])] }

/-- The same inside `maybe_solve`. -/
def refusedWindow : Runtime := { refusedRuntime with mutexHeld := true }

theorem refusedWindow_fails : RestoreFails refusedWindow (refusedRuntime.windowInput (2 * 10 ^ 9)).1 where
  gate := by decide +kernel
  outstanding := rfl
  mode := rfl
  plan := by decide +kernel
  failed := by decide +kernel

theorem solveNumaDomains_failed_restore_blocks_refused :
    refusedWindow.solveNumaDomains (refusedRuntime.windowInput (2 * 10 ^ 9)).1 = .error .blocked ∧
    ¬ ∃ r', refusedWindow.solveNumaDomains (refusedRuntime.windowInput (2 * 10 ^ 9)).1 = .ok r' ∧
      HardFailed refusedWindow r' :=
  solveNumaDomains_failed_restore_blocks rfl refusedWindow_fails

/-- **A refused restore hangs the supervisor**: nothing holds the lock, `maybe_solve` takes it, the window releases
thread 7, the kernel refuses the write, and the call never returns. -/
theorem maybeSolve_hangs_on_refused_restore :
    refusedRuntime.mutexHeld = false ∧ RestoreFails refusedWindow (refusedRuntime.windowInput (2 * 10 ^ 9)).1 ∧
    refusedRuntime.maybeSolve (fun r _ => .ok r) (2 * 10 ^ 9) = .error .blocked := by
  have hblocked : blocks (refusedRuntime.maybeSolve (fun r _ => .ok r) (2 * 10 ^ 9)) = true := by decide +kernel
  exact ⟨rfl, refusedWindow_fails, blocks_iff.1 hblocked⟩

end Runtime
end AffinityGraph
