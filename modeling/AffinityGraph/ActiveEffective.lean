import AffinityGraph.DomainPartition
import AffinityGraph.Placement
import AffinityGraph.ProfileRuns
/-!
# ActiveEffective — what `active_effective` tells of a domain window (`runtime.cpp`, `status_json`)

`active_effective` says that a plan is in effect: the selector is ready, which it is as soon as an earlier plan is placed,
and there are masks.  Along every run the masks it counts are the solver's placement (`Booked`).  After a window whose plan
is ready and whose batch went through, every live member of the plan has its mask on record, and in the kernel if the
window wrote it or it was there (`Supervisor.effective_window`).  While a changed plan waits for its confirmations, the
earlier one stays as it is and the flag with it, and a member that has come since is not pinned
(`Supervisor.effective_with_newcomer`).
-/
namespace AffinityGraph

/-! ## What a commit places -/

namespace NumaDomainSolver

variable {s : NumaDomainSolver} {input : ProposeInput}

/-- **A planned thread is placed** by a commit when it was placed before, has its mask already, or was written. -/
theorem commitPlacement_of_planned {placement : OrdMap Tid Mask} {tids : OrdSet Tid} {t : Tid} {m : Mask}
    (hready : (proposalOf s input).ready = true) (hplan : (proposalOf s input).plannedMasks.find? t = some m)
    (hwhy : t ∈ placement ∨ need s.placement input.allowedMasks t m = .inherited ∨
      need s.placement input.allowedMasks t m = .action ∧ t ∈ tids) :
    (commitPlacement placement (proposalOf s input) tids).find? t = some m := by
  have hkept : ∀ q : OrdMap Tid Mask,
      ((proposalOf s input).releasedTids.toList.foldl OrdMap.erase q).find? t = q.find? t := by
    intro q
    rw [OrdMap.find?_foldl_erase, if_neg]
    rw [OrdSet.mem_toList, mem_releasedTids]
    exact fun h => h.2 (OrdMap.mem_of_find hplan)
  -- every action for the thread is to the planned mask
  have hactions : ∀ (l : List NumaDomainAction) (q : OrdMap Tid Mask), (∀ a ∈ l, a ∈ (proposalOf s input).actions) →
      q.find? t = some m → (l.foldl (fun (q : OrdMap Tid Mask) a =>
        if tids.isEmpty = false ∧ a.identity.tid ∉ tids then q else q.insert a.identity.tid a.targetMask) q).find? t =
        some m := by
    intro l
    induction l with
    | nil => exact fun q _ hq => hq
    | cons a l ih =>
      intro q hl hq
      refine ih _ (fun x hx => hl x (List.mem_cons_of_mem _ hx)) ?_
      dsimp only
      split
      · exact hq
      · rw [OrdMap.find?_insert]
        split
        · rename_i htid
          have hmask := (mem_actions (hl a List.mem_cons_self)).1
          rw [htid] at hmask
          exact hmask.symm.trans hplan
        · exact hq
  unfold commitPlacement
  refine hactions _ _ (fun _ ha => ha) ?_
  obtain ⟨pre, post, -, hbefore, hafter⟩ := (placePlanned_local (proposalOf s input) tids).foldl_at
    (proposalOf s input).plannedMasks.nodup_keys (OrdMap.mem_entries.2 hplan)
    ((proposalOf s input).releasedTids.toList.foldl OrdMap.erase placement)
  refine hafter.trans ?_
  dsimp only at hbefore ⊢
  rw [if_pos, OrdMap.find?_insert_self]
  rcases hwhy with hin | hneed | ⟨hneed, hin⟩
  · refine Or.inl ?_
    rw [OrdMap.mem_def, hbefore, hkept]
    exact hin
  · exact Or.inr (Or.inl (mem_inheritedTids.2 ⟨hready, m, hplan, hneed⟩))
  · refine Or.inr (Or.inr ⟨?_, Or.inr hin⟩)
    obtain ⟨a, ha, -⟩ := (written_of_need hready hplan hneed).action
    have hmem : a ∈ (proposalOf s input).actions.filter (fun a => decide (a.identity.tid = t)) := by simp [ha]
    obtain ⟨haction, htid⟩ := List.mem_filter.1 hmem
    rw [List.contains_iff_mem, ← of_decide_eq_true htid]
    exact List.mem_map_of_mem haction

end NumaDomainSolver

/-! ## The status of a window -/

namespace Runtime

variable {r r' : Runtime} {input : ProposeInput} {now : Nat}

/-- `active_effective` of `status_json`. -/
def activeEffective (r : Runtime) : Bool :=
  decide (r.config.mode = .active) && !r.paused && r.selectorReady &&
    (match r.config.solver with
      | .numaDomain => !r.currentMasks.isEmpty && r.domainSolver.effective
      | .incrementalHotspot =>
        (r.activeCohort.isEmpty && r.currentPlan.isEmpty && decide (r.solver.pinned.size = 0)) || r.solver.effective) &&
    r.bpfHealthy && decide (r.fatalError = "")

theorem activeEffective_domains (hkind : r.config.solver = .numaDomain) (h : r.activeEffective = true) :
    r.config.mode = .active ∧ r.selectorReady = true ∧ r.currentMasks.isEmpty = false := by
  unfold activeEffective at h
  rw [hkind] at h
  simp only [Bool.and_eq_true, decide_eq_true_eq, Bool.not_eq_true'] at h
  exact ⟨h.1.1.1.1.1, h.1.1.1.2, h.1.1.2.1⟩

/-- Every thread of the window whose group is a family of a valid domain is on record with a mask, and has it. -/
def MembersPinned (r : Runtime) (threads : List ThreadDemand) : Prop :=
  ∀ th ∈ threads, ∀ d ∈ r.domainSolver.domains, d.valid = true → th.group ∈ d.families →
    ∃ m, r.currentMasks.find? th.identity.tid = some m ∧ r.kernel.maskOf th.identity.tid = some m

/-- What a stage of a window does to what the status is read from. -/
structure Staged (r : Runtime) (p : NumaDomainProposal) (r' : Runtime) : Prop where
  config : r'.config = r.config
  hardware : r'.hardware = r.hardware
  selector : r'.selectorReady = r.selectorReady
  masks : r'.currentMasks = r'.domainSolver.placement ∨
    r'.currentMasks = r.currentMasks ∧ r'.domainSolver.placement = r.domainSolver.placement
  domains : r'.domainSolver.domains = r.domainSolver.domains ∨ r'.domainSolver.domains = p.domains

theorem commitProposal_staged {p : NumaDomainProposal} {tids : OrdSet Tid} (h : r.commitProposal p now tids = .ok r') :
    r.Staged p r' := by
  obtain ⟨s, rfl, hdom, -⟩ := commitProposal_ok h
  exact ⟨rfl, rfl, rfl, Or.inl rfl, Or.inr hdom⟩

theorem applyProposal_staged {p : NumaDomainProposal} {live : OrdSet Tid} (h : r.applyProposal p live now = .ok r') :
    r.Staged p r' := by
  unfold applyProposal at h
  generalize Actuator.apply linux r.kernel r.actuator p.delta live = applied at h
  obtain ⟨kernel, actuator, result⟩ := applied
  dsimp only at h
  split at h
  · cases h
    exact ⟨rfl, rfl, rfl, Or.inr ⟨rfl, (placement_discard _ p).1⟩, Or.inl (placement_discard _ p).2⟩
  · split at h
    · cases h
      refine ⟨rfl, rfl, rfl, Or.inl rfl, Or.inl ?_⟩
      rw [(placement_discard _ p).2, (placement_foldl_removeThread _ _).2, (placement_foldl_removeThread _ _).2]
    · obtain ⟨s, rfl, hdom, -⟩ := commitProposal_ok h
      exact ⟨rfl, rfl, rfl, Or.inl rfl, Or.inr hdom⟩

theorem solveActive_staged {p : NumaDomainProposal} {live : OrdSet Tid} (hheld : r.mutexHeld = true)
    (h : r.solveActive p live now = .ok r') : r.Staged p r' := by
  unfold solveActive at h
  split at h
  · exact applyProposal_staged h
  · dsimp only at h
    split at h
    · have hstage := applyProposal_staged h
      exact ⟨hstage.config, hstage.hardware, hstage.selector, hstage.masks, hstage.domains⟩
    · rw [triggerFatal_held _ (by exact hheld)] at h
      cases h

theorem solveInvalid_staged {p : NumaDomainProposal} (hheld : r.mutexHeld = true) (h : r.solveInvalid p now = .ok r') :
    r.Staged p r' := by
  unfold solveInvalid at h
  split at h
  · dsimp only at h
    split at h
    · have hstage := commitProposal_staged h
      exact ⟨hstage.config, hstage.hardware, hstage.selector, hstage.masks, hstage.domains⟩
    · rw [triggerFatal_held _ (by exact hheld)] at h
      cases h
  · exact commitProposal_staged h

/-- The selector is ready after a window when the window could be solved, its plan is valid, and this plan is ready or an
earlier one is placed. -/
def selectorAfter (r : Runtime) (input : ProposeInput) : Bool :=
  r.bpfGatePassed && (r.proposal input).valid && ((r.proposal input).ready || r.domainSolver.effective)

/-- **What a window leaves of the status**, by every way out and in every mode. -/
theorem solveNumaDomains_status (hheld : r.mutexHeld = true) (h : r.solveNumaDomains input = .ok r') :
    Staged { r with selectorReady := r.selectorAfter input } (r.proposal input) r' := by
  unfold solveNumaDomains at h
  split at h
  · rename_i hgate
    cases h
    have hclosed : r.selectorAfter input = false := by
      have hno : r.bpfGatePassed = false := by simpa using hgate
      simp [selectorAfter, hno]
    rw [hclosed]
    exact ⟨rfl, rfl, rfl, Or.inr ⟨rfl, rfl⟩, Or.inl rfl⟩
  · rename_i hgate
    split at h
    · cases h
    · rename_i p s hp
      obtain ⟨-, rfl, rfl⟩ := NumaDomainSolver.propose_ok hp
      have hopen : r.bpfGatePassed = true := by simpa using hgate
      dsimp only at h
      split at h
      · rename_i hvalid
        have hafter : r.selectorAfter input = false := by
          have hno : (r.proposal input).valid = false := by simpa [proposal] using hvalid
          simp [selectorAfter, hno]
        rw [hafter]
        have hstage := solveInvalid_staged (by exact hheld) h
        exact ⟨hstage.config, hstage.hardware, hstage.selector, hstage.masks, hstage.domains⟩
      · rename_i hvalid
        have hafter : r.selectorAfter input = ((r.proposal input).ready || r.domainSolver.effective) := by
          have hyes : (r.proposal input).valid = true := by simpa [proposal] using hvalid
          simp [selectorAfter, hopen, hyes]
        rw [hafter]
        split at h
        · cases h
          exact ⟨rfl, rfl, rfl, Or.inr ⟨rfl, (placement_discard _ _).1⟩, Or.inl (placement_discard _ _).2⟩
        · split at h
          · cases h
            exact ⟨rfl, rfl, rfl, Or.inr ⟨rfl, (placement_discard _ _).1⟩, Or.inl (placement_discard _ _).2⟩
          · split at h
            · have hstage := commitProposal_staged h
              exact ⟨hstage.config, hstage.hardware, hstage.selector, hstage.masks, hstage.domains⟩
            · have hstage := solveActive_staged (by exact hheld) h
              exact ⟨hstage.config, hstage.hardware, hstage.selector, hstage.masks, hstage.domains⟩

/-! ### The plan that is in effect -/

/-- Where a batch that went through leaves a planned thread that is still there: on record with the planned mask, and
with this mask in the kernel or with the one it had, when nothing was written. -/
theorem recorded_of_planned {t : Tid} {k m : Mask} (hready : (r.proposal input).ready = true)
    (hsuccess : (r.batch input).result.success = true) (hplan : (r.proposal input).plannedMasks.find? t = some m)
    (hk : (r.batch input).backend.maskOf t = some k) :
    (NumaDomainSolver.commitPlacement ((r.batch input).result.vanishedTids.toList.foldl OrdMap.erase
      r.domainSolver.placement) (r.proposal input) (r.batch input).result.committedTids).find? t = some m ∧
    (k = m ∨ r.kernel.maskOf t = some k ∧ (r.domainSolver.placement.find? t = some m ∨
      r.domainSolver.placement.find? t = none ∧ input.allowedMasks.find? t = some m)) := by
  rcases World.mask_of_planned hready hsuccess hplan hk with ⟨hneed, hmask, htold⟩ | ⟨hneed, hbefore⟩
  · exact ⟨NumaDomainSolver.commitPlacement_of_planned hready hplan (Or.inr (Or.inr ⟨hneed, htold⟩)), Or.inl hmask⟩
  · have hspared := NumaDomainSolver.spared_of_need hplan hneed
    refine ⟨NumaDomainSolver.commitPlacement_of_planned hready hplan ?_,
      Or.inr ⟨hbefore, hspared.imp_right (fun h => h.2)⟩⟩
    rcases hspared with hplaced | ⟨hinherited, -, -⟩
    · -- a thread that is not in the batch is not told as vanished
      have hthere : t ∉ (r.batch input).result.vanishedTids.toList := by
        rw [OrdSet.mem_toList]
        intro hgone
        obtain ⟨x, hx⟩ := OrdMap.mem_iff.1 (Actuator.applyRun_vanished_mem linuxView hgone)
        obtain ⟨-, hplan', hneed'⟩ := NumaDomainSolver.find?_delta.1 hx
        have hmx : m = x := Option.some.inj (hplan.symm.trans hplan')
        rw [← hmx] at hneed'
        exact hneed hneed'
      refine Or.inl ?_
      rw [OrdMap.mem_def, OrdMap.find?_foldl_erase, if_neg hthere, hplaced]
      rfl
    · exact Or.inr (Or.inl hinherited)

theorem maybeSolve_observe {solveIncremental : Runtime → ProposeInput → Outcome Runtime} (hobserve : r.config.mode = .observe)
    (h : r.maybeSolve solveIncremental now = .ok r') : r' = r ∨ r' = { r.openWindow now with mutexHeld := false } := by
  unfold maybeSolve at h
  split at h
  · cases h
    exact Or.inl rfl
  · split at h
    · cases h
    · cases h
      exact Or.inr rfl

/-- The plan of the window is ready and its batch goes through: nothing fails, and not every action is for a thread that
has gone. -/
structure GoesThrough (r : Runtime) (input : ProposeInput) : Prop where
  ready : (r.proposal input).ready = true
  success : (r.batch input).result.success = true
  somebody : (r.proposal input).actions = [] ∨ (r.batch input).result.committedTids.isEmpty = false

/-- An event takes a thread off the books, or leaves them alone. -/
theorem handleBpfEvent_shrinks (r : Runtime) (staticProfile : Bool) (event : BpfEvent) (startSymbol : String) :
    (r.handleBpfEvent staticProfile event startSymbol).domainSolver.domains = r.domainSolver.domains ∧
    (r.currentMasks = r.domainSolver.placement → (r.handleBpfEvent staticProfile event startSymbol).currentMasks =
      (r.handleBpfEvent staticProfile event startSymbol).domainSolver.placement) ∧
    ∀ t, r.domainSolver.placement.find? t = none →
      (r.handleBpfEvent staticProfile event startSymbol).domainSolver.placement.find? t = none := by
  by_cases hexit : event.kind = .taskExit
  · simp only [handleBpfEvent, hexit]
    refine ⟨rfl, fun h => congrArg (OrdMap.erase · event.tid) h, fun t ht => ?_⟩
    show (r.domainSolver.placement.erase event.tid).find? t = none
    rw [OrdMap.find?_erase]
    split
    · rfl
    · exact ht
  · have hsame : (r.handleBpfEvent staticProfile event startSymbol).domainSolver = r.domainSolver ∧
        (r.handleBpfEvent staticProfile event startSymbol).currentMasks = r.currentMasks := by
      unfold handleBpfEvent
      cases hkind : event.kind with
      | futex =>
        dsimp only
        split
        · exact ⟨rfl, rfl⟩
        · split <;> exact ⟨rfl, rfl⟩
      | vfs =>
        dsimp only
        split
        · exact ⟨rfl, rfl⟩
        · split <;> exact ⟨rfl, rfl⟩
      | taskFork => exact ⟨rfl, rfl⟩
      | taskExec => exact ⟨rfl, rfl⟩
      | taskExit => exact absurd hkind hexit
      | taskRename =>
        dsimp only [threadRenamed]
        split <;> exact ⟨rfl, rfl⟩
      | affinity =>
        dsimp only [applicationAffinity]
        split
        · exact ⟨rfl, rfl⟩
        · split <;> exact ⟨rfl, rfl⟩
    rw [hsame.1, hsame.2]
    exact ⟨rfl, id, fun _ h => h⟩

end Runtime

/-! ## The books of a run -/

namespace Supervisor

variable {s s' : Supervisor}

/-- What the domain side of a supervisor always keeps: the masks it reports are the solver's placement, the domains stand,
and a static profile leaves nothing to place. -/
structure Booked (s : Supervisor) : Prop where
  kind : s.config.solver = .numaDomain
  masks : s.currentMasks = s.domainSolver.placement
  standing : NumaDomainSolver.Standing s.hardware s.domainSolver
  held : s.staticProfileEffective = true → s.domainSolver.placement.isEmpty = true

/-- Only these fields count; a placement may lose threads, and the domains may be dropped. -/
theorem Booked.shrinks (h : s.Booked) (hc : s'.config = s.config) (hp : s'.threadProfile = s.threadProfile)
    (hh : s'.hardware = s.hardware) (hm : s'.currentMasks = s'.domainSolver.placement)
    (hd : s'.domainSolver.domains = s.domainSolver.domains ∨ s'.domainSolver.domains = [])
    (hlost : ∀ t, s.domainSolver.placement.find? t = none → s'.domainSolver.placement.find? t = none) : s'.Booked where
  kind := by rw [hc]; exact h.kind
  masks := hm
  standing := by
    rw [hh]
    rcases hd with hd | hd
    · exact ⟨by rw [hd]; exact h.standing.split, by rw [hd]; exact h.standing.mask⟩
    · refine ⟨by rw [hd]; exact WellSplit.nil, fun d hmem => ?_⟩
      rw [hd] at hmem
      cases hmem
  held hs := by
    have hstatic := Host.static_of hc.symm hp.symm hs
    exact OrdMap.isEmpty_iff.2 (fun t => hlost t (OrdMap.isEmpty_iff.1 (h.held hstatic) t))

theorem Booked.same (h : s.Booked) (hc : s'.config = s.config) (hp : s'.threadProfile = s.threadProfile)
    (hh : s'.hardware = s.hardware) (hm : s'.currentMasks = s.currentMasks) (hs : s'.domainSolver = s.domainSolver) :
    s'.Booked :=
  h.shrinks hc hp hh (by rw [hm, hs]; exact h.masks) (Or.inl (by rw [hs])) (fun t ht => by rw [hs]; exact ht)

theorem Booked.pause {r : Runtime} (h : s.Booked) (hr : s.toRuntime.pause = .ok r) : Booked { s with toRuntime := r } := by
  obtain ⟨-, rfl⟩ := Runtime.pause_ok hr
  exact h.shrinks rfl rfl rfl rfl (Or.inr rfl) (fun _ _ => rfl)

theorem Booked.collectorFailure {now : Nat} (h : s.Booked) (hs : s.collectorFailure now = .ok s') : s'.Booked := by
  obtain ⟨since, -, ⟨-, r, hr, rfl⟩ | ⟨-, rfl⟩⟩ := collectorFailure_ok hs
  · exact (h.pause hr).same rfl rfl rfl rfl rfl
  · exact h.same rfl rfl rfl rfl rfl

theorem Booked.bpf (h : s.Booked) (event : BpfEvent) (startSymbol : String) :
    Booked { s with toRuntime := s.toRuntime.handleBpfEvent s.staticProfileEffective event startSymbol } := by
  have hframe := Runtime.handleBpfEvent_frame s.toRuntime s.staticProfileEffective event startSymbol
  obtain ⟨hdomains, hmasks, hlost⟩ := Runtime.handleBpfEvent_shrinks s.toRuntime s.staticProfileEffective event startSymbol
  exact h.shrinks hframe.config rfl hframe.hardware (hmasks h.masks) (Or.inl hdomains) hlost

theorem currentMasks_foldl_sampleThread (l : List ThreadSample) (r : Runtime) :
    (l.foldl Runtime.sampleThread r).currentMasks = r.currentMasks := by
  refine Loop.foldl_keeps (fun r' : Runtime => r'.currentMasks = r.currentMasks) (fun r' x h => ?_) l rfl
  exact h

theorem Booked.sampled (h : s.Booked) (c : Collected) : (s.sampled c).Booked := by
  have hloop := Runtime.foldl_sampleThread_frame c.samples { s.toRuntime with targetTgids := c.existing }
  have hmasks := currentMasks_foldl_sampleThread c.samples { s.toRuntime with targetTgids := c.existing }
  unfold Supervisor.sampled
  dsimp only
  split
  · exact h.same hloop.config rfl hloop.hardware hmasks hloop.domainSolver
  · refine h.shrinks hloop.config rfl hloop.hardware ?_ (Or.inl ?_) (fun t ht => ?_)
    · dsimp only [Runtime.sweep]
      rw [(Runtime.placement_foldl_removeThread _ _).1, hmasks, hloop.domainSolver]
      exact congrArg (List.foldl OrdMap.erase · _) h.masks
    · dsimp only [Runtime.sweep]
      rw [(Runtime.placement_foldl_removeThread _ _).2, hloop.domainSolver]
    · dsimp only [Runtime.sweep]
      rw [(Runtime.placement_foldl_removeThread _ _).1, OrdMap.find?_foldl_erase, hloop.domainSolver]
      split
      · rfl
      · exact ht

theorem Booked.maybeSolve {now : Nat} {dirtyTids : OrdSet Tid} (h : s.Booked) (hs : s.maybeSolve now dirtyTids = .ok s') :
    s'.Booked := by
  obtain ⟨-, ⟨-, rfl⟩ | ⟨-, -, rfl⟩⟩ | ⟨hdynamic, r, hr, rfl⟩ := maybeSolve_ok hs
  · exact h
  · exact h.same rfl rfl rfl rfl rfl
  · by_cases hobserve : s.config.mode = .observe
    · obtain rfl | rfl := Runtime.maybeSolve_observe hobserve hr
      · exact h
      · exact h.same rfl rfl rfl rfl rfl
    · obtain ⟨-, rfl⟩ | ⟨-, -, r₁, hr₁, rfl⟩ := Runtime.maybeSolve_domains hobserve h.kind hr
      · exact h
      · have hstage := Runtime.solveNumaDomains_status (s.toRuntime.openWindow_mutexHeld now) hr₁
        have hproposal := World.standing_proposal (s.toRuntime.windowInput_hardware now) h.standing
        refine ⟨?_, ?_, ?_, fun hstatic => ?_⟩
        · exact (congrArg Config.solver hstage.config).trans h.kind
        · rcases hstage.masks with hmasks | ⟨hmasks, hplacement⟩
          · exact hmasks
          · exact hmasks.trans (h.masks.trans hplacement.symm)
        · have hhardware : r₁.hardware = s.hardware := hstage.hardware
          show NumaDomainSolver.Standing r₁.hardware r₁.domainSolver
          rw [hhardware]
          rcases hstage.domains with hd | hd
          · exact ⟨by rw [hd]; exact h.standing.split, by rw [hd]; exact h.standing.mask⟩
          · exact ⟨by rw [hd]; exact hproposal.1, by rw [hd]; exact hproposal.2⟩
        · have hconfig : r₁.config = s.config := hstage.config
          have hsame : s.staticProfileEffective = true := by
            unfold staticProfileEffective at hstatic ⊢
            rw [← hconfig]
            exact hstatic
          exact absurd (hsame.symm.trans hdynamic) (by simp)

/-- **Every input keeps the books.** -/
theorem Booked.handle {e : Input} (h : s.Booked) (hs : s.handle e = .ok s') : s'.Booked := by
  cases e with
  | outside kernel =>
    cases hs
    exact h.same rfl rfl rfl rfl rfl
  | bpf event startSymbol =>
    cases hs
    exact h.bpf event startSymbol
  | retain relations =>
    cases hs
    exact h.same rfl rfl rfl rfl rfl
  | health valid windowReady lossRatio =>
    cases hs
    exact h.same rfl rfl rfl rfl rfl
  | fatal message =>
    obtain ⟨r, hr, rfl⟩ := triggerFatal_ok hs
    obtain ⟨-, ⟨-, rfl⟩ | ⟨-, r₁, hr₁, rfl⟩⟩ := Runtime.triggerFatal_ok hr
    · exact h
    · have hfirst : Booked { s with fatalError := message } := h.same rfl rfl rfl rfl rfl
      exact (hfirst.pause hr₁).same rfl rfl rfl rfl rfl
  | pause =>
    obtain ⟨r, hr, rfl⟩ := pause_ok hs
    exact h.pause hr
  | resume =>
    cases hs
    exact h.same rfl rfl rfl rfl rfl
  | reconcile collected now =>
    obtain ⟨-, hf⟩ | ⟨c, -, -, stopped, last, rfl⟩ := reconcileAndSample_ok hs
    · exact h.collectorFailure hf
    · obtain ⟨kernel, actuator, hbound⟩ := bindProfile_eq (s.sampled c) (s.matchSamples c.samples)
      rw [hbound]
      exact (h.sampled c).same rfl rfl rfl rfl rfl
  | solve now dirtyTids => exact h.maybeSolve hs
  | shutdown =>
    cases hs
    exact h.same rfl rfl rfl rfl rfl

theorem Booked.create {l : Launch} (hkind : l.config.solver = .numaDomain) (hs : create l = .ok s) : s.Booked := by
  obtain ⟨hsolver, -, -, hmasks⟩ := create_starts hs
  have hnew := (create_domains hs).2.2
  refine ⟨hsolver.trans hkind, by rw [hmasks, hnew], ?_, fun _ => by rw [hnew]; rfl⟩
  rw [hnew]
  exact ⟨WellSplit.nil, fun d hd => by cases hd⟩

/-! ## What the flag tells -/

/-- What is true at the end of a solve window from `s` to `s'` when the flag is: there is a plan in effect. -/
structure PlanInEffect (s s' : Supervisor) (now : Nat) : Prop where
  recorded : s'.currentMasks = s'.domainSolver.placement
  placed : s'.currentMasks.isEmpty = false
  valid : ((s.openWindow now).proposal (s.windowInput now).1).valid = true
  /-- a plan that is not ready leaves the earlier one in effect -/
  waiting : ((s.openWindow now).proposal (s.windowInput now).1).ready = false →
    s'.kernel = s.kernel ∧ s'.currentMasks = s.currentMasks ∧ s'.domainSolver.domains = s.domainSolver.domains
  /-- a plan that goes through is committed, unless it is what was placed -/
  domains : (s.openWindow now).GoesThrough (s.windowInput now).1 →
    s'.domainSolver.domains = ((s.openWindow now).proposal (s.windowInput now).1).domains ∨
      s'.domainSolver.domains = s.domainSolver.domains ∧
        ((s.openWindow now).proposal (s.windowInput now).1).plannedMasks = s.domainSolver.placement
  /-- and every member of it that is still there is on record with a mask; it has this mask in the kernel, or nothing was
  written for it, since it was on record with the mask or sampled with it -/
  members : (s.openWindow now).GoesThrough (s.windowInput now).1 → ∀ th ∈ (s.windowInput now).1.threads,
    ∀ d ∈ ((s.openWindow now).proposal (s.windowInput now).1).domains, d.valid = true → th.group ∈ d.families →
    ∀ k, s'.kernel.maskOf th.identity.tid = some k → ∃ m, s'.currentMasks.find? th.identity.tid = some m ∧
      (k = m ∨ s.kernel.maskOf th.identity.tid = some k ∧ (s.currentMasks.find? th.identity.tid = some m ∨
        s.currentMasks.find? th.identity.tid = none ∧
          (s.windowInput now).1.allowedMasks.find? th.identity.tid = some m))

/-- A thread of the window is planned its mask when its group is a family of a valid domain of the plan. -/
theorem Booked.planned (h : s.Booked) (hsound : Runtime.Sound s.toRuntime) {now : Nat} {th : ThreadDemand}
    (hth : th ∈ (s.windowInput now).1.threads) {d : NumaDomain}
    (hvalid : ((s.openWindow now).proposal (s.windowInput now).1).valid = true)
    (hd : d ∈ ((s.openWindow now).proposal (s.windowInput now).1).domains) (hdv : d.valid = true)
    (hgroup : th.group ∈ d.families) :
    ∃ m, ((s.openWindow now).proposal (s.windowInput now).1).plannedMasks.find? th.identity.tid = some m := by
  have hstanding : NumaDomainSolver.Standing (s.windowInput now).1.hardware s.domainSolver := h.standing
  have hmember : th.identity.tid ∈ d.tids := by
    rw [NumaDomainSolver.proposalOf_tids _ _ d hd]
    exact (List.mem_insertionSort _).2 (List.mem_map_of_mem (NumaDomainSolver.mem_membersOf.2 ⟨hth, hgroup⟩))
  exact ⟨_, NumaDomainSolver.plannedMasks_of_member hstanding (hsound.windowInput_nodup now) hvalid hd hdv hmember⟩

/-- **What `active_effective` tells**, at the end of every solve window of every run, whatever the kernel answers. -/
theorem effective_window {l : Launch} {s₀ : Supervisor} (hd : l.hardware.Discovered) (hstart : create l = .ok s₀)
    (hkind : l.config.solver = .numaDomain) {run : List Input} (hrun : Run.exec step s₀ run = some s) {now : Nat}
    {dirtyTids : OrdSet Tid} (hdue : s.due now = true) (hsolve : s.step (.solve now dirtyTids) = some s')
    (hflag : s'.activeEffective = true) : PlanInEffect s s' now := by
  have hbooked : s.Booked :=
    Run.exec_keeps Booked (fun s e s' h hs => h.handle (step_handle hs).2) (Booked.create hkind hstart) hrun
  have hsound : Runtime.Sound s.toRuntime := Run.exec_keeps (fun s : Supervisor => Runtime.Sound s.toRuntime)
    (fun s e s' h hs => sound_handle h (step_handle hs).2) (sound_create hd hstart) hrun
  have hhandle := (step_handle hsolve).2
  have hbooked' : s'.Booked := hbooked.handle hhandle
  obtain ⟨hmode, hselector, hplaced⟩ := Runtime.activeEffective_domains hbooked'.kind hflag
  obtain ⟨hstatic, ⟨-, rfl⟩ | ⟨-, -, rfl⟩⟩ | ⟨-, r, hr, rfl⟩ := maybeSolve_ok hhandle
  · -- a static profile places nothing
    rw [hbooked.masks, hbooked.held hstatic] at hplaced
    cases hplaced
  · have hempty : s.currentMasks.isEmpty = true := by
      rw [hbooked.masks]
      exact hbooked.held hstatic
    exact absurd (hempty.symm.trans hplaced) (by simp)
  have hobserve : s.config.mode ≠ .observe := by
    intro hlooks
    obtain rfl | rfl := Runtime.maybeSolve_observe hlooks hr
    · exact absurd (hlooks.symm.trans hmode) (by simp)
    · exact absurd (hlooks.symm.trans hmode) (by simp)
  obtain ⟨hnot, -⟩ | ⟨-, -, r₁, hr₁, rfl⟩ := Runtime.maybeSolve_domains hobserve hbooked.kind hr
  · exact absurd (hdue.symm.trans hnot) (by simp)
  have hheld := s.toRuntime.openWindow_mutexHeld now
  have hstage := Runtime.solveNumaDomains_status hheld hr₁
  have hplan : (s.openWindow now).config.mode ≠ .plan := by
    have hconfig : r₁.config = s.config := hstage.config
    rw [Runtime.openWindow_config, ← hconfig]
    intro h
    exact absurd (h.symm.trans hmode) (by simp)
  have hafter : (s.openWindow now).selectorAfter (s.windowInput now).1 = true := hstage.selector.symm.trans hselector
  unfold Runtime.selectorAfter at hafter
  simp only [Bool.and_eq_true] at hafter
  obtain ⟨⟨hgate, hvalid⟩, -⟩ := hafter
  have hexit := Runtime.solveNumaDomains_valid hheld hplan hgate hvalid hr₁
  refine ⟨hbooked'.masks, hplaced, hvalid, fun hwait => ?_, fun hgoes => ?_, fun hgoes th hth d hd hdv hgroup k hk => ?_⟩
  · rcases hexit with ⟨hkernel, hmasks, -, hdomains, -⟩ | ⟨hready, -⟩
    · exact ⟨hkernel, hmasks, hdomains⟩
    · exact absurd (hready.symm.trans hwait) (by simp)
  · rcases hexit with ⟨-, -, -, hdomains, hwait | ⟨-, -, -, hsame⟩⟩ | ⟨-, happlied⟩
    · exact absurd (hgoes.ready.symm.trans hwait) (by simp)
    · exact Or.inr ⟨hdomains, hsame⟩
    · exact Or.inl (happlied hgoes.success hgoes.somebody).2.1
  · obtain ⟨m, hm⟩ := hbooked.planned hsound hth hvalid hd hdv hgroup
    refine ⟨m, ?_⟩
    rw [hbooked'.masks, hbooked.masks]
    rcases hexit with ⟨hkernel, -, hplacement, -, hwait | ⟨-, -, -, hsame⟩⟩ | ⟨-, happlied⟩
    · exact absurd (hgoes.ready.symm.trans hwait) (by simp)
    · -- the plan is what was placed
      have hold : s.domainSolver.placement.find? th.identity.tid = some m := by
        rw [hsame] at hm
        exact hm
      refine ⟨?_, Or.inr ⟨?_, Or.inl hold⟩⟩
      · show r₁.domainSolver.placement.find? th.identity.tid = some m
        rw [hplacement]
        exact hold
      · have hbefore : (s.openWindow now).kernel.maskOf th.identity.tid = some k := by
          rw [← hkernel]
          exact hk
        exact hbefore
    · obtain ⟨hkernel, -, hplacement⟩ := happlied hgoes.success hgoes.somebody
      have hbatch : ((s.openWindow now).batch (s.windowInput now).1).backend.maskOf th.identity.tid = some k := by
        rw [← hkernel]
        exact hk
      obtain ⟨hrecord, hmask⟩ := Runtime.recorded_of_planned hgoes.ready hgoes.success hm hbatch
      refine ⟨?_, hmask⟩
      show r₁.domainSolver.placement.find? th.identity.tid = some m
      rw [hplacement]
      exact hrecord

/-! ### A worker that comes while a plan waits -/

/-- The launch of `leaverLaunch`, with plans that have to be confirmed once more. -/
def waitingLaunch : Launch :=
  { Watch.leaverLaunch .numaDomain with
    config := { (Watch.leaverLaunch .numaDomain).config with
      domainOptions := { (Watch.leaverLaunch .numaDomain).config.domainOptions with planConfirmations := 2 } } }

/-- Whether the run is followed by a window that meets `ok`. -/
def windowIn (run : List Input) (now : Nat) (ok : Supervisor → Supervisor → Bool) : Bool :=
  (create waitingLaunch).toOption.any (fun s₀ => (Run.exec step s₀ run).any (fun s =>
    s.due now && (s.step (.solve now ∅)).any (ok s)))

theorem exists_of_windowIn {run : List Input} {now : Nat} {ok : Supervisor → Supervisor → Bool}
    (h : windowIn run now ok = true) : ∃ s₀ s s', create waitingLaunch = .ok s₀ ∧ Run.exec step s₀ run = some s ∧
      s.due now = true ∧ s.step (.solve now ∅) = some s' ∧ ok s s' = true := by
  obtain ⟨s₀, hs₀, h⟩ := (Option.any_eq_true _ _).1 h
  obtain ⟨s, hs, h⟩ := (Option.any_eq_true _ _).1 h
  rw [Bool.and_eq_true] at h
  obtain ⟨hdue, h⟩ := h
  obtain ⟨s', hs', h⟩ := (Option.any_eq_true _ _).1 h
  exact ⟨s₀, s, s', toOption_eq_some hs₀, hs, hdue, hs', h⟩

/-- Both workers are sampled, and their plan is confirmed once. -/
def confirmedOnce : List Input :=
  [.health true true 0, workersAt 1, workersAt 2, .solve (3 * 10 ^ 9) ∅, workersAt 4]

/-- A thread of another name. -/
def stranger (seconds : Nat) : ThreadSample :=
  { Watch.workerAt 4 seconds with
    comm := "v" }

/-- A worker on the CPU it was put on. -/
def settled (tid : Tid) (seconds : Nat) : ThreadSample :=
  { Watch.workerAt tid seconds with
    allowedCpus := [1] }

/-- Both workers are placed; then a third worker starts, and a thread of another family. -/
def joined : List Input :=
  confirmedOnce ++ [.solve (5 * 10 ^ 9) ∅, .outside
      { threads := OrdMap.ofList [(1, ⟨9, 10, OrdSet.ofList [1]⟩), (2, ⟨9, 10, OrdSet.ofList [1]⟩),
          (3, ⟨9, 10, OrdSet.ofList [0, 1]⟩), (4, ⟨9, 10, OrdSet.ofList [0, 1]⟩)] },
    sampledAt 6 [settled 1 6, settled 2 6, Watch.workerAt 3 6, stranger 6] (by decide),
    sampledAt 7 [settled 1 7, settled 2 7, Watch.workerAt 3 7, stranger 7] (by decide)]

/-- The second confirmation puts both workers on CPU 1. -/
theorem effective_window_confirmed : ∃ s₀ s s', create waitingLaunch = .ok s₀ ∧ Run.exec step s₀ confirmedOnce = some s ∧
    s.step (.solve (5 * 10 ^ 9) ∅) = some s' ∧ s'.activeEffective = true ∧
    (s.openWindow (5 * 10 ^ 9)).GoesThrough (s.windowInput (5 * 10 ^ 9)).1 ∧
    s'.currentMasks.entries = [(1, [1]), (2, [1])] ∧ PlanInEffect s s' (5 * 10 ^ 9) := by
  have hends : windowIn confirmedOnce (5 * 10 ^ 9) (fun s s' => s'.activeEffective &&
      decide (((s.openWindow (5 * 10 ^ 9)).proposal (s.windowInput (5 * 10 ^ 9)).1).ready = true) &&
      decide (((s.openWindow (5 * 10 ^ 9)).batch (s.windowInput (5 * 10 ^ 9)).1).result.success = true) &&
      decide (((s.openWindow (5 * 10 ^ 9)).batch (s.windowInput (5 * 10 ^ 9)).1).result.committedTids.isEmpty = false) &&
      decide (s'.currentMasks.entries = [(1, [1]), (2, [1])])) = true := by decide +kernel
  obtain ⟨s₀, s, s', hcreate, hrun, hdue, hsolve, hok⟩ := exists_of_windowIn hends
  simp only [Bool.and_eq_true, decide_eq_true_eq] at hok
  obtain ⟨⟨⟨⟨hflag, hready⟩, hsuccess⟩, hsomebody⟩, hmasks⟩ := hok
  have hd : waitingLaunch.hardware.Discovered := ⟨by decide, by decide⟩
  exact ⟨s₀, s, s', hcreate, hrun, hsolve, hflag, ⟨hready, hsuccess, Or.inr hsomebody⟩, hmasks,
    effective_window hd hcreate rfl hrun hdue hsolve hflag⟩

/-- A thread of the window is of a family of a valid domain and has no mask on record. -/
def leftOut (s s' : Supervisor) (now : Nat) (t : Tid) : Bool :=
  (s.windowInput now).1.threads.any (fun th => decide (th.identity.tid = t) &&
    s'.domainSolver.domains.any (fun d => d.valid && d.families.contains th.group)) &&
  decide (s'.currentMasks.find? t = none)

theorem not_membersPinned_of_leftOut {now : Nat} {t : Tid} (h : s.leftOut s' now t = true) :
    ¬ s'.MembersPinned (s.windowInput now).1.threads := by
  intro hpinned
  simp only [leftOut, Bool.and_eq_true, List.any_eq_true, decide_eq_true_eq, List.contains_iff_mem] at h
  obtain ⟨⟨th, hth, htid, d, hd, hvalid, hgroup⟩, hnone⟩ := h
  obtain ⟨m, hm, -⟩ := hpinned th hth d hd hvalid hgroup
  rw [htid, hnone] at hm
  cases hm

/-- **The flag stands while a member is unpinned.**  A third worker has come with a thread of another family; the plan
with both families is new and waits for its second confirmation, and the plan in effect has no mask for worker 3. -/
theorem effective_with_newcomer : ∃ s₀ s s', create waitingLaunch = .ok s₀ ∧ s₀.config.mode = .active ∧
    s₀.config.solver = .numaDomain ∧ Run.exec step s₀ joined = some s ∧ s.due (8 * 10 ^ 9) = true ∧
    s.step (.solve (8 * 10 ^ 9) ∅) = some s' ∧ s'.activeEffective = true ∧ s'.kernel.maskOf 3 = some [0, 1] ∧
    ¬ s'.MembersPinned (s.windowInput (8 * 10 ^ 9)).1.threads := by
  have hends : windowIn joined (8 * 10 ^ 9) (fun s s' => s'.activeEffective &&
      decide (s'.kernel.maskOf 3 = some [0, 1]) && s.leftOut s' (8 * 10 ^ 9) 3) = true := by decide +kernel
  have hmode : (create waitingLaunch).toOption.all (fun s₀ => decide (s₀.config.mode = .active) &&
      decide (s₀.config.solver = .numaDomain)) = true := by decide +kernel
  obtain ⟨s₀, s, s', hcreate, hrun, hdue, hsolve, hok⟩ := exists_of_windowIn hends
  simp only [Bool.and_eq_true, decide_eq_true_eq] at hok
  obtain ⟨⟨hflag, hmask⟩, hleft⟩ := hok
  rw [hcreate] at hmode
  simp only [Except.toOption, Option.all_some, Bool.and_eq_true, decide_eq_true_eq] at hmode
  exact ⟨s₀, s, s', hcreate, hmode.1, hmode.2, hrun, hdue, hsolve, hflag, hmask, not_membersPinned_of_leftOut hleft⟩

end Supervisor

end AffinityGraph
