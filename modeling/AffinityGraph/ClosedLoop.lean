import AffinityGraph.DomainPlan
import AffinityGraph.SampledMasks
import AffinityGraph.WorldMoves
/-!
# ClosedLoop — the supervisor's turns over the kernel it samples and writes

One turn of `Runtime::run` samples every target and then solves, so what the solver is told a thread may use is the
kernel mask of that moment, and what it writes is what the next turn samples.  Between turns the application forks,
exits and sets masks, relations come and go, and the supervisor may be paused.
-/
namespace AffinityGraph

/-- The events that come from outside of the turns. -/
def Event.outside : Event → Bool
  | .fork .. | .started _ | .exit _ | .exited _ | .declare .. | .pause => true
  | .reconcile _ | .apply .. | .restore _ => false

namespace World

/-! ## The loop -/

inductive Tick where
  | outside (e : Event)
  | resume
  | relate (o : RelationObservation)
  | retain (relations : OrdSet EdgeKey)
  | turn (probe : Tid → ThreadSample) (now : Nat)

/-- The runtime the sampling of a turn leaves. -/
def sampled (w : World) (probe : Tid → ThreadSample) : Outcome Runtime :=
  w.runtime.reconcileAndSample (existing w.kernel w.runtime.targetTgids) (samples w.kernel w.runtime.targetTgids probe)

section Loop

variable (solveIncremental : Runtime → ProposeInput → Outcome Runtime)

/-- Sample, then solve; a turn that throws or never returns ends the run. -/
def turn (w : World) (probe : Tid → ThreadSample) (now : Nat) : Option World :=
  (w.sampled probe).toOption.bind (fun r =>
    (r.maybeSolve solveIncremental now).toOption.map (fun r' => { w with runtime := r' }))

/-- One step of the loop.  Of the histories only the application's masks are kept up to date here. -/
def tick (w : World) : Tick → Option World
  | .outside e => if e.outside then w.step e else none
  | .resume => some { w with runtime := w.runtime.resume }
  | .relate o => some { w with runtime := { w.runtime with graph := w.runtime.graph.observeRelation o } }
  | .retain relations => some { w with runtime := { w.runtime with graph := w.runtime.graph.retainRelations relations } }
  | .turn probe now => w.turn solveIncremental probe now

end Loop

/-! ## Sampling -/

/-- What the sampling of a turn does, as far as the solver sees it. -/
structure Sampled (w : World) (probe : Tid → ThreadSample) (r : Runtime) : Prop where
  kernel : r.kernel = w.kernel
  actuatorMarks : r.actuator.actedTids = w.actuator.actedTids
  config : r.config = w.runtime.config
  hardware : r.hardware = w.runtime.hardware
  targets : r.targetTgids = existing w.kernel w.runtime.targetTgids
  placement : ∀ t m, r.domainSolver.placement.find? t = some m → w.runtime.domainSolver.placement.find? t = some m
  domains : r.domainSolver.domains = w.runtime.domainSolver.domains
  graph : ∃ life, r.graph = w.runtime.graph.observeThreads
    ((samples w.kernel w.runtime.targetTgids probe).map (Runtime.enrich life))

theorem sampled_spec {w : World} {probe : Tid → ThreadSample} {r : Runtime} (h : w.sampled probe = .ok r) :
    Sampled w probe r := by
  have hloop := Runtime.foldl_sampleThread_frame (samples w.kernel w.runtime.targetTgids probe) w.reconciling
  unfold sampled Runtime.reconcileAndSample at h
  split at h
  · cases h
  · change Except.ok _ = Except.ok r at h
    have hr := Except.ok.inj h
    rw [show ({ w.runtime with targetTgids := existing w.kernel w.runtime.targetTgids } : Runtime) = w.reconciling from rfl]
      at hr
    generalize (samples w.kernel w.runtime.targetTgids probe).foldl Runtime.sampleThread w.reconciling = r₁
      at hloop hr
    rw [← hr]
    refine ⟨hloop.kernel, hloop.acted, hloop.config, hloop.hardware, hloop.targetTgids, fun t m hm => ?_, ?_,
      ⟨r₁.lifecycle, ?_⟩⟩
    · simp only [Runtime.sweep] at hm
      rw [(Runtime.placement_foldl_removeThread _ _).1, OrdMap.find?_foldl_erase, hloop.domainSolver] at hm
      split at hm
      · cases hm
      · exact hm
    · simp only [Runtime.sweep]
      rw [(Runtime.placement_foldl_removeThread _ _).2, hloop.domainSolver]
      rfl
    · rw [show w.runtime.graph = w.reconciling.graph from rfl, ← hloop.graph]
      rfl

theorem identity_enrich (life : OrdMap Tid LifecycleRecord) (s : ThreadSample) :
    (Runtime.enrich life s).identity = s.identity ∧ (Runtime.enrich life s).allowedCpus = s.allowedCpus := by
  unfold Runtime.enrich
  split <;> exact ⟨rfl, rfl⟩

section Sampled

variable {w : World} {probe : Tid → ThreadSample} {r : Runtime} (hs : Sampled w probe r)
  (hk : w.runtime.graph.WellKeyed)

include hs

theorem Sampled.wellKeyed (hk : w.runtime.graph.WellKeyed) : r.graph.WellKeyed := by
  obtain ⟨life, hg⟩ := hs.graph
  rw [hg]
  exact GraphWindow.wellKeyed_observeThreads hk _

theorem Sampled.demandCache : r.graph.demandCache = none := by
  obtain ⟨life, hg⟩ := hs.graph
  rw [hg]
  exact GraphWindow.demandCache_observeThreads _ _

/-- **What the solver is told of a live thread is the kernel mask of this turn.** -/
theorem Sampled.allowed (hk : w.runtime.graph.WellKeyed) {now : Nat} {t : Tid} {th : KThread}
    (hlive : w.kernel.threads.find? t = some th) (htg : th.tgid ∈ w.runtime.targetTgids) (hin : t ∈ r.graph.threads) :
    (r.windowInput now).1.allowedMasks.find? t = some th.mask.toList := by
  obtain ⟨life, hg⟩ := hs.graph
  obtain ⟨h, hh⟩ := OrdMap.mem_iff.1 hin
  have hmem : Runtime.enrich life (sampleOf probe (t, th)) ∈
      (samples w.kernel w.runtime.targetTgids probe).map (Runtime.enrich life) :=
    List.mem_map_of_mem (mem_samples.2 ⟨t, th, hlive, htg, rfl⟩)
  have hnodup : (((samples w.kernel w.runtime.targetTgids probe).map (Runtime.enrich life)).map
      (·.identity.tid)).Nodup := by
    rw [List.map_map]
    have hfun : (fun s : ThreadSample => s.identity.tid) ∘ Runtime.enrich life = fun s => s.identity.tid := by
      funext s
      exact congrArg (·.tid) (identity_enrich life s).1
    rw [hfun]
    exact nodup_samples w.kernel w.runtime.targetTgids probe
  have htid : (Runtime.enrich life (sampleOf probe (t, th))).identity.tid = t :=
    congrArg (·.tid) (identity_enrich life _).1
  have hlast : h.getLast? = some (Runtime.enrich life (sampleOf probe (t, th))) := by
    refine GraphWindow.last_of_sampled (g := w.runtime.graph) hnodup hmem ?_
    rw [htid, ← hg]
    exact hh
  rw [Runtime.windowInput_allowed (hs.wellKeyed hk) hs.demandCache hh hlast, (identity_enrich life _).2]
  rfl

end Sampled

/-! ## One window -/

section Window

variable {r : Runtime} {input : ProposeInput} {t : Tid} {k' m : Mask}

theorem maskOf_release (ht : t ∉ (r.proposal input).releasedTids) :
    (r.release input).backend.maskOf t = r.kernel.maskOf t := by
  rcases Actuator.restore_effect linuxView r.kernel r.actuator (r.proposal input).releasedTids t
    with ⟨-, hmask, -, -⟩ | ⟨hasked, -, -, -, -⟩ | ⟨hasked, -, -, -, -⟩
  · exact hmask
  · exact absurd hasked ht
  · exact absurd hasked ht

theorem stopped_of_success (h : (r.batch input).result.success = true) : (r.batch input).stopped = none :=
  (Actuator.applyRun_success_iff _ _ _ _).1 h

/-- **Where a batch that went through leaves a planned thread**: with the planned mask if that was an action, else as it
was before the window. -/
theorem mask_of_planned (hready : (r.proposal input).ready = true) (hsucc : (r.batch input).result.success = true)
    (hplan : (r.proposal input).plannedMasks.find? t = some m) (hk' : (r.batch input).backend.maskOf t = some k') :
    (NumaDomainSolver.need r.domainSolver.placement input.allowedMasks t m = .action ∧ k' = m ∧
      t ∈ (r.batch input).result.committedTids) ∨
    NumaDomainSolver.need r.domainSolver.placement input.allowedMasks t m ≠ .action ∧ r.kernel.maskOf t = some k' := by
  have hkept : t ∉ (r.proposal input).releasedTids := fun h =>
    (NumaDomainSolver.mem_releasedTids.1 h).2 (OrdMap.mem_of_find hplan)
  have hstop := stopped_of_success hsucc
  rcases Actuator.applyRun_effect linuxView (r.release input).backend (r.release input).actuator
      (Actuator.deltaMasks (r.proposal input).delta) (OrdSet.ofList (input.threads.map (·.identity.tid))) t
    with ⟨hmask, -, -, -, htold, -⟩ | ⟨cpus, hasked, -, -, -, hout⟩
  · right
    refine ⟨fun hneed => ?_, ?_⟩
    · -- an action is in the batch, and its thread is one of the window
      have hin := OrdMap.mem_of_find (NumaDomainSolver.find?_delta.2 ⟨hready, hplan, hneed⟩)
      obtain ⟨th, hth⟩ := OrdMap.mem_iff.1 (NumaDomainSolver.mem_byTid_of_planned hplan)
      obtain ⟨hmem, htid⟩ := NumaDomainSolver.find_byTid hth
      refine (htold hstop hin).1 (OrdSet.mem_ofList.2 ?_)
      rw [← htid]
      exact List.mem_map_of_mem hmem
    · rw [← maskOf_release hkept]
      exact hmask.symm.trans hk'
  · left
    obtain ⟨-, hplan', hneed⟩ := NumaDomainSolver.find?_delta.1 hasked
    have hcpus : m = cpus := Option.some.inj (hplan.symm.trans hplan')
    rw [hcpus]
    refine ⟨hneed, ?_⟩
    cases hout with
    | committed ok nonempty alive mask acted told => exact ⟨Option.some.inj (hk'.symm.trans mask), told⟩
    | vanished mask acted told untold => exact absurd (hk'.symm.trans mask) (by simp)
    | failed F stop tid asked error write before mask acted => exact absurd (hstop.symm.trans stop) (by simp)
    | rolledBack stop nonempty alive mask acted => exact absurd (stop.symm.trans (congrArg _ hstop)) (by simp)
    | stuck stop nonempty alive acted told => exact absurd (stop.symm.trans (congrArg _ hstop)) (by simp)

/-- Where a batch that failed leaves a live thread, when the roll-back succeeded and the failed write changed nothing. -/
theorem mask_of_failed (hfail : (r.batch input).result.success = false)
    (hroll : (r.batch input).result.rollbackSuccess = true)
    (hleaves : ∀ F, (r.batch input).stopped = some F → F.before.WriteLeavesMask F.tid F.cpus)
    (hk' : (r.batch input).backend.maskOf t = some k') : (r.release input).backend.maskOf t = some k' := by
  have hsome : (r.batch input).stopped ≠ none := fun h =>
    absurd ((Actuator.applyRun_success_iff _ _ _ _).2 h) (ne_true_of_eq_false hfail)
  rcases Actuator.applyRun_effect linuxView (r.release input).backend (r.release input).actuator
      (Actuator.deltaMasks (r.proposal input).delta) (OrdSet.ofList (input.threads.map (·.identity.tid))) t
    with ⟨hmask, -, -, -, -, -⟩ | ⟨cpus, hasked, -, -, -, hout⟩
  · exact hmask.symm.trans hk'
  · cases hout with
    | committed ok nonempty alive mask acted told => exact absurd ok hsome
    | vanished mask acted told untold => exact absurd (hk'.symm.trans mask) (by simp)
    | failed F stop tid asked error write before mask acted =>
      have hsame := hleaves F stop
      rw [tid, asked] at hsame
      exact (mask.trans (((writeMask_linux_leaves_iff write error).2 hsame).trans before)).symm.trans hk'
    | rolledBack stop nonempty alive mask acted =>
      rcases mask with hmask | hmask
      · exact hmask.symm.trans hk'
      · exact absurd (hk'.symm.trans hmask) (by simp)
    | stuck stop nonempty alive acted told => exact absurd (hroll.symm.trans told) (by simp)

end Window

/-! ## The loop keeps its books -/

/-- What a run of the loop can rely on: the windows are filed by TID, the domains share no family and have the masks of
their nodes. -/
structure LoopInv (w : World) : Prop where
  mode : w.runtime.config.mode = .active
  solver : w.runtime.config.solver = .numaDomain
  keyed : w.runtime.graph.WellKeyed
  standing : NumaDomainSolver.Standing w.runtime.hardware w.runtime.domainSolver

/-- What an event from outside leaves of the solver and its input. -/
structure OutsideFrame (w w' : World) : Prop where
  config : w'.runtime.config = w.runtime.config
  hardware : w'.runtime.hardware = w.runtime.hardware
  graph : w'.runtime.graph = w.runtime.graph
  domains : w'.runtime.domainSolver.domains = w.runtime.domainSolver.domains ∨ w'.runtime.domainSolver.domains = []
  placement : ∀ t m, w'.runtime.domainSolver.placement.find? t = some m →
    w.runtime.domainSolver.placement.find? t = some m

theorem outside_frame {w w' : World} {e : Event} (h : w.step e = some w') (ho : e.outside = true) :
    OutsideFrame w w' := by
  cases e with
  | fork parent child tgid starttime =>
    simp only [step, fork] at h
    split at h
    · split at h
      · cases h
      · cases h
        exact ⟨rfl, rfl, rfl, Or.inl rfl, fun _ _ hm => hm⟩
    · cases h
  | started record =>
    simp only [step, started] at h
    split at h
    · cases h
      exact ⟨rfl, rfl, rfl, Or.inl rfl, fun _ _ hm => hm⟩
    · cases h
  | exit tid =>
    cases h
    exact ⟨rfl, rfl, rfl, Or.inl rfl, fun _ _ hm => hm⟩
  | exited tid =>
    simp only [step, exited] at h
    split at h
    · cases h
    · cases h
      refine ⟨rfl, rfl, rfl, Or.inl rfl, fun t m hm => ?_⟩
      have herase : (w.runtime.domainSolver.placement.erase tid).find? t = some m := hm
      rw [OrdMap.find?_erase] at herase
      split at herase
      · cases herase
      · exact herase
  | declare tid mask =>
    simp only [step, declare] at h
    split at h
    · split at h
      · cases h
      · cases h
        unfold Runtime.applicationAffinity
        split
        · exact ⟨rfl, rfl, rfl, Or.inl rfl, fun _ _ hm => hm⟩
        · split <;> exact ⟨rfl, rfl, rfl, Or.inl rfl, fun _ _ hm => hm⟩
    · cases h
  | pause =>
    simp only [step, pause, Runtime.pause] at h
    split at h
    · rename_i r hr
      split at hr
      · cases hr
      · cases hr
        cases h
        exact ⟨rfl, rfl, rfl, Or.inr rfl, fun t m hm => by cases hm⟩
    · cases h
  | reconcile probe => cases ho
  | apply delta live => cases ho
  | restore tids => cases ho

section Turn

variable {solveIncremental : Runtime → ProposeInput → Outcome Runtime} {w w' : World} {probe : Tid → ThreadSample}
  {now : Nat}

/-- The window of a turn, when there is one. -/
inductive TurnExit (r : Runtime) (now : Nat) (w' : World) : Prop
  | quiet (runtime : w'.runtime = r)
  | solved (due : r.due now = true) (frame : Runtime.SolveFrame (r.openWindow now) w'.runtime)
      (exit : Runtime.SolveExit (r.openWindow now) (r.windowInput now).1 w'.runtime)

/-- **A turn, unpacked**: the sampling, and the solver's way out. -/
theorem turn_spec (hinv : LoopInv w) (h : w.turn solveIncremental probe now = some w') :
    w'.history = w.history ∧ w'.used = w.used ∧
    ∃ r, w.sampled probe = .ok r ∧ Sampled w probe r ∧ TurnExit r now w' := by
  obtain ⟨r, hr, hrest⟩ := Option.bind_eq_some_iff.1 h
  obtain ⟨r', hr', hw'⟩ := Option.map_eq_some_iff.1 hrest
  have hs := sampled_spec (toOption_eq_some hr)
  have hmode : r.config.mode = .active := by rw [hs.config]; exact hinv.mode
  have hsolver : r.config.solver = .numaDomain := by rw [hs.config]; exact hinv.solver
  rw [← hw']
  refine ⟨rfl, rfl, r, toOption_eq_some hr, hs, ?_⟩
  rcases Runtime.maybeSolve_ok hmode hsolver (toOption_eq_some hr') with hsame | ⟨hdue, hframe, hexit⟩
  · exact .quiet hsame
  · exact .solved hdue hframe hexit

theorem standing_proposal {hardware : HardwareGraph} {s : NumaDomainSolver} {input : ProposeInput}
    (hin : input.hardware = hardware) (hs : NumaDomainSolver.Standing hardware s) :
    WellSplit (s.proposalOf input).domains ∧
      ∀ d ∈ (s.proposalOf input).domains, d.targetMask = maskForNodes hardware d.targetNodes := by
  rw [← hin] at hs ⊢
  exact ⟨NumaDomainSolver.proposalOf_wellSplit hs.split.nonempty input,
    fun d hd => (NumaDomainSolver.proposalOf_seats hs.mask d hd).mask⟩

theorem LoopInv.turn (hinv : LoopInv w) (h : w.turn solveIncremental probe now = some w') : LoopInv w' := by
  obtain ⟨-, -, r, -, hs, hexit⟩ := turn_spec hinv h
  have hkeyed := hs.wellKeyed hinv.keyed
  have hstanding : NumaDomainSolver.Standing r.hardware r.domainSolver := by
    refine ⟨?_, ?_⟩
    · rw [hs.domains]
      exact hinv.standing.split
    · rw [hs.domains, hs.hardware]
      exact hinv.standing.mask
  have hmode : r.config.mode = .active := by rw [hs.config]; exact hinv.mode
  have hsolver : r.config.solver = .numaDomain := by rw [hs.config]; exact hinv.solver
  cases hexit with
  | quiet runtime =>
    refine ⟨?_, ?_, ?_, ?_⟩ <;> rw [runtime] <;> assumption
  | solved due frame exit =>
    have hdomains : w'.runtime.domainSolver.domains = r.domainSolver.domains ∨
        w'.runtime.domainSolver.domains = (r.domainSolver.proposalOf (r.windowInput now).1).domains := by
      cases exit with
      | idle kernel actuator placement domains => exact Or.inl domains
      | invalid valid placement domains => exact Or.inr domains
      | failed ready restored stopped kernel actuator placement domains => exact Or.inl domains
      | vanished ready restored success nobody kernel actuator placement domains => exact Or.inl domains
      | committed ready restored success somebody kernel actuator placement domains => exact Or.inr domains
    have hproposal := standing_proposal (r.windowInput_hardware now) hstanding
    refine ⟨?_, ?_, ?_, ?_⟩
    · rw [frame.config, Runtime.openWindow_config]; exact hmode
    · rw [frame.config, Runtime.openWindow_config]; exact hsolver
    · intro t h hf
      rw [frame.graph, Runtime.openWindow_graph, Runtime.windowInput_graph] at hf
      exact hkeyed t h hf
    · rw [frame.hardware, Runtime.openWindow_hardware]
      rcases hdomains with hd | hd
      · exact ⟨by rw [hd]; exact hstanding.split, by rw [hd]; exact hstanding.mask⟩
      · exact ⟨by rw [hd]; exact hproposal.1, by rw [hd]; exact hproposal.2⟩

theorem LoopInv.tick (hinv : LoopInv w) {e : Tick} (h : w.tick solveIncremental e = some w') : LoopInv w' := by
  cases e with
  | outside e =>
    simp only [World.tick] at h
    split at h
    · rename_i ho
      obtain ⟨hconfig, hhardware, hgraph, hdomains, -⟩ := outside_frame h ho
      refine ⟨by rw [hconfig]; exact hinv.mode, by rw [hconfig]; exact hinv.solver, by rw [hgraph]; exact hinv.keyed, ?_⟩
      rw [hhardware]
      rcases hdomains with hd | hd
      · exact ⟨by rw [hd]; exact hinv.standing.split, by rw [hd]; exact hinv.standing.mask⟩
      · refine ⟨by rw [hd]; exact WellSplit.nil, fun d hmem => ?_⟩
        rw [hd] at hmem
        cases hmem
    · cases h
  | resume =>
    cases h
    exact ⟨hinv.mode, hinv.solver, hinv.keyed, hinv.standing⟩
  | relate o =>
    cases h
    refine ⟨hinv.mode, hinv.solver, ?_, hinv.standing⟩
    unfold GraphWindow.observeRelation
    split <;> exact hinv.keyed
  | retain relations =>
    cases h
    refine ⟨hinv.mode, hinv.solver, ?_, hinv.standing⟩
    unfold GraphWindow.retainRelations
    dsimp only
    split <;> exact hinv.keyed
  | turn probe now => exact hinv.turn h

end Turn

end World
end AffinityGraph
