import AffinityGraph.ClosedLoop
import AffinityGraph.Departed
import AffinityGraph.PlanSound
import AffinityGraph.TidReuse
/-!
# Placement — the solver's placement against the kernel's masks

`placement_` is what the domain solver takes its threads to have been given, and a thread whose target it has already
placed is skipped.  A window that restores what it releases and then fails in its batch discards the proposal with the
placement as it was: the restored threads stay in it (`Supervisor.placement_is_stale`).  A window that is solved on the
samples of an earlier turn, because the collector failed in this one, can take a mask for inherited that the thread no
longer has.  When no window does either, the placement is what the kernel holds, at every moment of every run
(`Supervisor.placement_agrees`).
-/
namespace AffinityGraph

namespace Runtime

variable {r r' : Runtime} {input : ProposeInput} {now : Nat}

/-- Every placed thread that lives has the mask it is placed with. -/
def Placed (r : Runtime) : Prop :=
  ∀ t m k, r.domainSolver.placement.find? t = some m → r.kernel.maskOf t = some k → k = m

/-- What is promised of the backend: a call that fails leaves the mask alone, and the roll-back succeeds. -/
def CleanFailure (r : Runtime) (input : ProposeInput) : Prop :=
  (r.batch input).result.success = false → (r.batch input).result.rollbackSuccess = true ∧
    ∀ F ∈ (r.batch input).stopped, F.before.WriteLeavesMask F.tid F.cpus

/-- When the batch fails, every released thread that was restored had its restore mask for its placement. -/
def ReleasesInPlace (r : Runtime) (input : ProposeInput) : Prop :=
  (r.batch input).result.success = false → ∀ t ∈ (r.proposal input).releasedTids.toList,
    ∀ m ∈ r.domainSolver.placement.find? t, t ∈ r.actuator.actedTids → (r.release input).backend.maskOf t ≠ none →
      r.actuator.restoreMaskOf t = m

/-- When the batch succeeds, every live thread that was taken to have its target already still has the mask of its
sample. -/
def InheritsInPlace (r : Runtime) (input : ProposeInput) : Prop :=
  (r.batch input).result.success = true → ∀ t ∈ (r.proposal input).inheritedTids.toList, ∀ k ∈ r.kernel.maskOf t,
    input.allowedMasks.find? t = some k

/-- A thread that nothing was committed for keeps its mask, unless it is restored. -/
theorem mask_of_uncommitted {t : Tid} {k : Mask} (hsuccess : (r.batch input).result.success = true)
    (hnobody : (r.batch input).result.committedTids.isEmpty = true) (ht : t ∉ (r.proposal input).releasedTids)
    (hk : (r.batch input).backend.maskOf t = some k) : r.kernel.maskOf t = some k := by
  have hstop := World.stopped_of_success hsuccess
  rw [← World.maskOf_release ht]
  rcases Actuator.applyRun_effect linuxView (r.release input).backend (r.release input).actuator
      (Actuator.deltaMasks (r.proposal input).delta) (OrdSet.ofList (input.threads.map (·.identity.tid))) t
    with ⟨hmask, -, -, -, -, -⟩ | ⟨cpus, hasked, -, -, -, hout⟩
  · exact hmask.symm.trans hk
  · cases hout with
    | committed ok nonempty alive mask acted told =>
      have hnone : t ∉ (r.batch input).result.committedTids := OrdMap.notMem_iff.2 (OrdMap.isEmpty_iff.1 hnobody t)
      exact absurd told hnone
    | vanished mask acted told untold => exact absurd (hk.symm.trans mask) (by simp)
    | failed F stop tid asked error write before mask acted => exact absurd (hstop.symm.trans stop) (by simp)
    | rolledBack stop nonempty alive mask acted => exact absurd (stop.symm.trans (congrArg _ hstop)) (by simp)
    | stuck stop nonempty alive acted told => exact absurd (stop.symm.trans (congrArg _ hstop)) (by simp)

/-- **Every way out of a window keeps the placement right.** -/
theorem SolveExit.placed (hexit : SolveExit r input r') (hplaced : r.Placed) (hclean : r.CleanFailure input)
    (hrelease : r.ReleasesInPlace input) (hinherit : r.InheritsInPlace input) : r'.Placed := by
  intro t m k hm hk
  cases hexit with
  | idle kernel actuator placement domains =>
    rw [placement] at hm
    rw [kernel] at hk
    exact hplaced t m k hm hk
  | invalid valid placement domains =>
    rw [placement] at hm
    have hplan := NumaDomainSolver.find?_commitPlacement id hm
    rw [NumaDomainSolver.plannedMasks_of_invalid valid] at hplan
    cases hplan
  | failed ready restored stopped kernel actuator placement domains =>
    rw [placement] at hm
    rw [kernel] at hk
    obtain ⟨hroll, hleaves⟩ := hclean stopped
    have hback := World.mask_of_failed stopped hroll hleaves hk
    by_cases hreleased : t ∈ (r.proposal input).releasedTids ∧ t ∈ r.actuator.actedTids
    · have hsame := hrelease stopped t (OrdSet.mem_toList.2 hreleased.1) m hm hreleased.2 (by rw [hback]; simp)
      rcases Actuator.restore_effect linuxView r.kernel r.actuator (r.proposal input).releasedTids t
        with ⟨hwhy, -, -, -⟩ | ⟨-, -, hmask, -, -⟩ | ⟨-, -, -, -, htold⟩
      · exact absurd hreleased hwhy
      · rcases hmask with hmask | hmask
        · rw [← hsame]
          exact Option.some.inj (hback.symm.trans hmask)
        · exact absurd (hback.symm.trans hmask) (by simp)
      · exact absurd (restored ▸ htold) (Nat.lt_irrefl 0)
    · rcases Actuator.restore_effect linuxView r.kernel r.actuator (r.proposal input).releasedTids t
        with ⟨-, hmask, -, -⟩ | ⟨hasked, hacted, -, -, -⟩ | ⟨hasked, hacted, -, -, -⟩
      · exact hplaced t m k hm (hmask.symm.trans hback)
      · exact absurd ⟨hasked, hacted⟩ hreleased
      · exact absurd ⟨hasked, hacted⟩ hreleased
  | vanished ready restored success nobody kernel actuator placement domains =>
    rw [placement, OrdMap.find?_foldl_erase] at hm
    rw [kernel] at hk
    split at hm
    · cases hm
    · rename_i hkept
      rw [OrdMap.find?_foldl_erase] at hm
      split at hm
      · cases hm
      · have hunreleased : t ∉ (r.proposal input).releasedTids := fun h => hkept (OrdSet.mem_toList.2 h)
        exact hplaced t m k hm (mask_of_uncommitted success nobody hunreleased hk)
  | committed ready restored success somebody kernel actuator placement domains =>
    rw [placement] at hm
    rw [kernel] at hk
    have hsub : t ∈ (r.batch input).result.vanishedTids.toList.foldl OrdMap.erase r.domainSolver.placement →
        t ∈ r.domainSolver.placement := by
      intro hin
      obtain ⟨x, hx⟩ := OrdMap.mem_iff.1 hin
      rw [OrdMap.find?_foldl_erase] at hx
      split at hx
      · cases hx
      · exact OrdMap.mem_of_find hx
    have hplan := NumaDomainSolver.find?_commitPlacement hsub hm
    rcases World.mask_of_planned ready success hplan hk with ⟨-, hmask, -⟩ | ⟨hneed, hbefore⟩
    · exact hmask
    · rcases NumaDomainSolver.spared_of_need hplan hneed with hskip | ⟨hinherited, -, hallowed⟩
      · exact hplaced t m k hskip hbefore
      · have hin : t ∈ (r.proposal input).inheritedTids :=
          NumaDomainSolver.mem_inheritedTids.2 ⟨ready, m, hplan, hinherited⟩
        have hsample := hinherit success t (OrdSet.mem_toList.2 hin) k hbefore
        exact Option.some.inj (hsample.symm.trans hallowed)

end Runtime

namespace Supervisor

variable {s s' : Supervisor}

/-- What a run is promised: outside of the supervisor no placed thread is given another mask, and no placed TID is given
out again; a write that fails leaves the mask alone, and the roll-back succeeds. -/
def Calm (s : Supervisor) : Input → Prop
  | .outside kernel => ∀ t ∈ s.domainSolver.placement.keys, ∀ k ∈ kernel.maskOf t, s.kernel.maskOf t = some k
  | .solve now _ => s.due now = true → s.bpfGatePassed = true →
      (s.openWindow now).CleanFailure (s.windowInput now).1
  | _ => True

/-- **What no step may do** for the placement to stay right: release and restore threads in a window whose batch fails,
take a thread's mask from a sample that is no longer true, or bind a placed thread to the CPUs of a profile. -/
def InPlace (s : Supervisor) : Input → Prop
  | .solve now _ => s.due now = true → s.bpfGatePassed = true →
      (s.openWindow now).ReleasesInPlace (s.windowInput now).1 ∧ (s.openWindow now).InheritsInPlace (s.windowInput now).1
  | .reconcile (some c) _ => ∀ t ∈ (s.matchSamples c.samples).masks.keys, t ∉ s.domainSolver.placement
  | _ => True

/-- The placement loses threads and the masks of the placed ones stay, or it is empty. -/
theorem placed_of_shrinks {r r' : Runtime} (h : r.Placed)
    (hplacement : ∀ t m, r'.domainSolver.placement.find? t = some m → r.domainSolver.placement.find? t = some m ∧
      r'.kernel.maskOf t = r.kernel.maskOf t) : r'.Placed := by
  intro t m k hm hk
  obtain ⟨hold, hmask⟩ := hplacement t m hm
  exact h t m k hold (hmask.symm.trans hk)

theorem placed_of_reset {r : Runtime} (h : r.domainSolver = {}) : r.Placed := by
  intro t m k hm _
  rw [h] at hm
  cases hm

theorem bpf_placed (h : Runtime.Placed s.toRuntime) (event : BpfEvent) (startSymbol : String) :
    (s.toRuntime.handleBpfEvent s.staticProfileEffective event startSymbol).Placed := by
  have hkernel := (Runtime.handleBpfEvent_frame s.toRuntime s.staticProfileEffective event startSymbol).kernel
  refine placed_of_shrinks h (fun t m hm => ⟨?_, by rw [hkernel]⟩)
  unfold Runtime.handleBpfEvent at hm
  split at hm
  case h_5 =>
    have herase : (s.domainSolver.placement.erase event.tid).find? t = some m := hm
    rw [OrdMap.find?_erase] at herase
    split at herase
    · cases herase
    · exact herase
  case h_6 =>
    unfold Runtime.threadRenamed at hm
    split at hm <;> exact hm
  case h_7 =>
    unfold Runtime.applicationAffinity at hm
    split at hm
    · exact hm
    · split at hm <;> exact hm
  all_goals first
    | exact hm
    | (split at hm
       · exact hm
       · split at hm <;> exact hm)

theorem sampled_placement {c : Collected} {t : Tid} {m : Mask}
    (hm : (s.sampled c).domainSolver.placement.find? t = some m) : s.domainSolver.placement.find? t = some m := by
  have hsolver := (Runtime.foldl_sampleThread_frame c.samples { s.toRuntime with targetTgids := c.existing }).domainSolver
  unfold sampled at hm
  dsimp only at hm
  split at hm
  · rw [hsolver] at hm
    exact hm
  · dsimp only [Runtime.sweep] at hm
    rw [(Runtime.placement_foldl_removeThread _ _).1, OrdMap.find?_foldl_erase, hsolver] at hm
    split at hm
    · cases hm
    · exact hm

/-- A profile's batch leaves the masks of the others. -/
theorem maskOf_bindProfile (s : Supervisor) {m : Matching} {t : Tid} (ht : t ∉ m.masks) :
    (s.bindProfile m).kernel.maskOf t = s.kernel.maskOf t := by
  unfold bindProfile
  split
  · have hasked : ¬ t ∈ Actuator.deltaMasks { tidToMask := m.masks } := ht
    rcases Actuator.applyRun_effect linuxView s.kernel s.actuator (Actuator.deltaMasks { tidToMask := m.masks }) m.live t
      with ⟨hmask, -, -, -, -, -⟩ | ⟨cpus, hcpus, -, -, -, -⟩
    · exact hmask
    · exact absurd (OrdMap.mem_of_find hcpus) hasked
  · rfl

theorem reconcile_placed {c : Option Collected} {now : Nat} (h : Runtime.Placed s.toRuntime)
    (hplace : s.InPlace (.reconcile c now)) (hs : s.reconcileAndSample c now = .ok s') :
    Runtime.Placed s'.toRuntime ∧ s'.config = s.config := by
  obtain ⟨-, hf⟩ | ⟨c, rfl, -, stopped, last, rfl⟩ := reconcileAndSample_ok hs
  · obtain ⟨since, -, ⟨-, r, hr, rfl⟩ | ⟨-, rfl⟩⟩ := collectorFailure_ok hf
    · obtain ⟨-, rfl⟩ := Runtime.pause_ok hr
      exact ⟨placed_of_reset rfl, rfl⟩
    · exact ⟨h, rfl⟩
  · have hframe := sampled_frame s c
    obtain ⟨kernel, actuator, hbound⟩ := bindProfile_eq (s.sampled c) (s.matchSamples c.samples)
    refine ⟨placed_of_shrinks h (fun t m hm => ?_), ?_⟩
    · rw [hbound] at hm
      have hold := sampled_placement hm
      have hunbound : t ∉ (s.matchSamples c.samples).masks := fun hin =>
        hplace t (OrdMap.mem_keys.2 hin) (OrdMap.mem_of_find hold)
      refine ⟨hold, ?_⟩
      dsimp only
      rw [maskOf_bindProfile _ hunbound, hframe.kernel]
    · rw [hbound]
      exact hframe.config

/-- A window whose gate is closed does nothing. -/
theorem solve_placed {now : Nat} {dirtyTids : OrdSet Tid} (hmode : s.config.mode = .active)
    (hkind : s.config.solver = .numaDomain) (h : Runtime.Placed s.toRuntime) (hcalm : s.Calm (.solve now dirtyTids))
    (hplace : s.InPlace (.solve now dirtyTids)) (hs : s.maybeSolve now dirtyTids = .ok s') :
    Runtime.Placed s'.toRuntime ∧ s'.config = s.config := by
  have hobserve : s.config.mode ≠ .observe := by simp [hmode]
  have hplan : (s.openWindow now).config.mode ≠ .plan := by simp [hmode]
  obtain ⟨-, ⟨-, rfl⟩ | ⟨-, -, rfl⟩⟩ | ⟨-, r, hr, rfl⟩ := maybeSolve_ok hs
  · exact ⟨h, rfl⟩
  · exact ⟨h, rfl⟩
  · obtain ⟨-, rfl⟩ | ⟨hdue, -, r₁, hr₁, rfl⟩ := Runtime.maybeSolve_domains hobserve hkind hr
    · exact ⟨h, rfl⟩
    · by_cases hgate : s.bpfGatePassed = true
      · obtain ⟨hframe, hexit⟩ := Runtime.solveNumaDomains_ok (s.toRuntime.openWindow_mutexHeld now) hplan hr₁
        obtain ⟨hrelease, hinherit⟩ := hplace hdue hgate
        have hopen : (s.openWindow now).Placed := h
        exact ⟨hexit.placed hopen (hcalm hdue hgate) hrelease hinherit, hframe.config⟩
      · have hclosed : (!(s.toRuntime.openWindow now).bpfGatePassed) = true := by
          change (!s.bpfGatePassed) = true
          simpa using hgate
        unfold Runtime.solveNumaDomains at hr₁
        rw [if_pos hclosed] at hr₁
        cases hr₁
        exact ⟨h, rfl⟩

/-- **Every input but the last keeps the placement right.** -/
theorem handle_placed {e : Input} (hmode : s.config.mode = .active) (hkind : s.config.solver = .numaDomain)
    (h : Runtime.Placed s.toRuntime) (hcalm : s.Calm e) (hplace : s.InPlace e) (hs : s.handle e = .ok s') :
    (s'.ended = false → Runtime.Placed s'.toRuntime) ∧ s'.config = s.config := by
  cases e with
  | outside kernel =>
    cases hs
    refine ⟨fun _ t m k hm hk => ?_, rfl⟩
    exact h t m k hm (hcalm t (OrdMap.mem_keys.2 (OrdMap.mem_of_find hm)) k hk)
  | bpf event startSymbol =>
    cases hs
    exact ⟨fun _ => bpf_placed h event startSymbol,
      (Runtime.handleBpfEvent_frame s.toRuntime s.staticProfileEffective event startSymbol).config⟩
  | retain relations =>
    cases hs
    exact ⟨fun _ => h, rfl⟩
  | health valid windowReady lossRatio =>
    cases hs
    exact ⟨fun _ => h, rfl⟩
  | fatal message =>
    obtain ⟨r, hr, rfl⟩ := triggerFatal_ok hs
    obtain ⟨-, ⟨-, rfl⟩ | ⟨-, r₁, hr₁, rfl⟩⟩ := Runtime.triggerFatal_ok hr
    · exact ⟨fun _ => h, rfl⟩
    · obtain ⟨-, rfl⟩ := Runtime.pause_ok hr₁
      exact ⟨fun _ => placed_of_reset rfl, rfl⟩
  | pause =>
    obtain ⟨r, hr, rfl⟩ := pause_ok hs
    obtain ⟨-, rfl⟩ := Runtime.pause_ok hr
    exact ⟨fun _ => placed_of_reset rfl, rfl⟩
  | resume =>
    cases hs
    exact ⟨fun _ => h, rfl⟩
  | reconcile c now =>
    obtain ⟨hplaced, hconfig⟩ := reconcile_placed h hplace hs
    exact ⟨fun _ => hplaced, hconfig⟩
  | solve now dirtyTids =>
    obtain ⟨hplaced, hconfig⟩ := solve_placed hmode hkind h hcalm hplace hs
    exact ⟨fun _ => hplaced, hconfig⟩
  | shutdown =>
    cases hs
    exact ⟨fun hended => absurd hended (by simp [shutdown]), rfl⟩

/-- **The placement is what the kernel holds**, at every moment of every calm run in which no step takes it out of place. -/
theorem placement_agrees {l : Launch} {s₀ : Supervisor} (hstart : create l = .ok s₀) (hmode : s₀.config.mode = .active)
    (hkind : s₀.config.solver = .numaDomain) {run : List Input}
    (hobeys : Run.Obeys step (fun s e => s.Calm e ∧ s.InPlace e) s₀ run) (hrun : Run.exec step s₀ run = some s)
    (hended : s.ended = false) :
    ∀ t m k, s.domainSolver.placement.find? t = some m → s.kernel.maskOf t = some k → k = m := by
  have hnew : s₀.domainSolver = {} := (create_domains hstart).2.2
  have hinv := hobeys.invariant (fun s : Supervisor => (s.ended = false → Runtime.Placed s.toRuntime) ∧
    s.config.mode = .active ∧ s.config.solver = .numaDomain) (fun s e s' h hok hs => ?_)
    ⟨fun _ => placed_of_reset hnew, hmode, hkind⟩ hrun
  · exact hinv.1 hended
  · obtain ⟨hopen, hhandle⟩ := step_handle hs
    obtain ⟨hplaced, hconfig⟩ := handle_placed h.2.1 h.2.2 (h.1 hopen) hok.1 hok.2 hhandle
    exact ⟨hplaced, by rw [hconfig]; exact h.2.1, by rw [hconfig]; exact h.2.2⟩

/-! ### A window that releases one thread and fails on another -/

instance Calm.decidable (s : Supervisor) : ∀ e, Decidable (s.Calm e)
  | .outside kernel => inferInstanceAs (Decidable (∀ t ∈ s.domainSolver.placement.keys, ∀ k ∈ kernel.maskOf t,
      s.kernel.maskOf t = some k))
  | .solve now _ => inferInstanceAs (Decidable (s.due now = true → s.bpfGatePassed = true →
      ((s.openWindow now).batch (s.windowInput now).1).result.success = false →
        ((s.openWindow now).batch (s.windowInput now).1).result.rollbackSuccess = true ∧
        ∀ F ∈ ((s.openWindow now).batch (s.windowInput now).1).stopped, F.before.WriteLeavesMask F.tid F.cpus))
  | .bpf _ _ => isTrue trivial
  | .retain _ => isTrue trivial
  | .health _ _ _ => isTrue trivial
  | .fatal _ => isTrue trivial
  | .pause => isTrue trivial
  | .resume => isTrue trivial
  | .reconcile _ _ => isTrue trivial
  | .shutdown => isTrue trivial

instance releasesInPlaceDecidable (r : Runtime) (input : ProposeInput) : Decidable (r.ReleasesInPlace input) :=
  inferInstanceAs (Decidable ((r.batch input).result.success = false → ∀ t ∈ (r.proposal input).releasedTids.toList,
    ∀ m ∈ r.domainSolver.placement.find? t, t ∈ r.actuator.actedTids → (r.release input).backend.maskOf t ≠ none →
      r.actuator.restoreMaskOf t = m))

instance inheritsInPlaceDecidable (r : Runtime) (input : ProposeInput) : Decidable (r.InheritsInPlace input) :=
  inferInstanceAs (Decidable ((r.batch input).result.success = true → ∀ t ∈ (r.proposal input).inheritedTids.toList,
    ∀ k ∈ r.kernel.maskOf t, input.allowedMasks.find? t = some k))

instance InPlace.decidable (s : Supervisor) : ∀ e, Decidable (s.InPlace e)
  | .solve now _ => inferInstanceAs (Decidable (s.due now = true → s.bpfGatePassed = true →
      (s.openWindow now).ReleasesInPlace (s.windowInput now).1 ∧ (s.openWindow now).InheritsInPlace (s.windowInput now).1))
  | .reconcile (some c) _ => inferInstanceAs (Decidable (∀ t ∈ (s.matchSamples c.samples).masks.keys,
      t ∉ s.domainSolver.placement))
  | .reconcile none _ => isTrue trivial
  | .outside _ => isTrue trivial
  | .bpf _ _ => isTrue trivial
  | .retain _ => isTrue trivial
  | .health _ _ _ => isTrue trivial
  | .fatal _ => isTrue trivial
  | .pause => isTrue trivial
  | .resume => isTrue trivial
  | .shutdown => isTrue trivial

def sampledAt (seconds : Nat) (samples : List ThreadSample) (distinct : (samples.map (·.identity.tid)).Nodup) : Input :=
  .reconcile (some
    { existing := OrdSet.ofList [9]
      samples := samples
      distinct := distinct }) (seconds * 10 ^ 9)

def workersAt (seconds : Nat) : Input :=
  sampledAt seconds [Watch.workerAt 1 seconds, Watch.workerAt 2 seconds] (Watch.workers_distinct seconds)

/-- Worker 1, on the CPU it was put on. -/
def stayer (seconds : Nat) : ThreadSample :=
  { Watch.workerAt 1 seconds with
    allowedCpus := [1] }

/-- Worker 2 has changed its name and stopped working. -/
def leaver (seconds : Nat) : ThreadSample :=
  { Watch.workerAt 2 seconds with
    comm := "x"
    runtimeNs := 8 * 10 ^ 8
    allowedCpus := [1] }

/-- Both workers are put on CPU 1. -/
def bothPlaced : List Input :=
  [.health true true 0, workersAt 1, workersAt 2, .solve (3 * 10 ^ 9) ∅]

/-- Then a third starts, and the next writes are answered so. -/
def released (answers : List SetAnswer) : List Input :=
  bothPlaced ++ [.outside
      { threads := OrdMap.ofList [(1, ⟨9, 10, OrdSet.ofList [1]⟩), (2, ⟨9, 10, OrdSet.ofList [1]⟩),
          (3, ⟨9, 10, OrdSet.ofList [0, 1]⟩)]
        answers := answers },
    sampledAt 70 [stayer 70, leaver 70, Watch.workerAt 3 70] (by decide),
    sampledAt 71 [stayer 71, leaver 71, Watch.workerAt 3 71] (by decide)]

/-- The run ends so, from the launch of `leaverLaunch`. -/
def endsIn (run : List Input) (ok : Supervisor → Supervisor → Bool) : Bool :=
  (create (Watch.leaverLaunch .numaDomain)).toOption.any (fun s₀ => (Run.exec step s₀ run).any (ok s₀))

theorem exists_of_endsIn {run : List Input} {ok : Supervisor → Supervisor → Bool} (h : endsIn run ok = true) :
    ∃ s₀ s, create (Watch.leaverLaunch .numaDomain) = .ok s₀ ∧ Run.exec step s₀ run = some s ∧ ok s₀ s = true := by
  obtain ⟨s₀, hs₀, h⟩ := (Option.any_eq_true _ _).1 h
  obtain ⟨s, hs, h⟩ := (Option.any_eq_true _ _).1 h
  exact ⟨s₀, s, toOption_eq_some hs₀, hs, h⟩

/-- When the kernel takes every mask, worker 2 is released and worker 3 has its place. -/
theorem placement_agrees_released : ∃ s₀ s, create (Watch.leaverLaunch .numaDomain) = .ok s₀ ∧
    Run.exec step s₀ (released [] ++ [.solve (72 * 10 ^ 9) ∅]) = some s ∧ s.domainSolver.placement.entries = [(1, [1]), (3, [1])] ∧
    s.kernel.maskOf 2 = some [0, 1] ∧
    ∀ t m k, s.domainSolver.placement.find? t = some m → s.kernel.maskOf t = some k → k = m := by
  have hends : endsIn (released [] ++ [.solve (72 * 10 ^ 9) ∅]) (fun s₀ s => decide (s₀.config.mode = .active) &&
      decide (s₀.config.solver = .numaDomain) &&
      decide (Run.Obeys step (fun s e => s.Calm e ∧ s.InPlace e) s₀ (released [] ++ [.solve (72 * 10 ^ 9) ∅])) &&
      decide (s.ended = false) &&
      decide (s.domainSolver.placement.entries = [(1, [1]), (3, [1])]) && decide (s.kernel.maskOf 2 = some [0, 1])) =
      true := by decide +kernel
  obtain ⟨s₀, s, hs₀, hs, h⟩ := exists_of_endsIn hends
  simp only [Bool.and_eq_true, decide_eq_true_eq] at h
  obtain ⟨⟨⟨⟨⟨hmode, hkind⟩, hobeys⟩, hended⟩, hplacement⟩, hmask⟩ := h
  exact ⟨s₀, s, hs₀, hs, hplacement, hmask, placement_agrees hs₀ hmode hkind hobeys hs hended⟩

/-- A calm run that ends with a solve window leaves the thread placed with `m` and its kernel mask `k`. -/
def EndsPlaced (run : List Input) (now : Nat) (t : Tid) (m k : Mask) : Prop := ∃ s₀ s,
  create (Watch.leaverLaunch .numaDomain) = .ok s₀ ∧ s₀.config.mode = .active ∧ s₀.config.solver = .numaDomain ∧
  Run.Obeys step Calm s₀ (run ++ [.solve now ∅]) ∧ Run.exec step s₀ (run ++ [.solve now ∅]) = some s ∧
  s.domainSolver.placement.find? t = some m ∧ s.kernel.maskOf t = some k

theorem endsPlaced_of_endsIn {run : List Input} {now : Nat} {t : Tid} {m k : Mask}
    (h : endsIn (run ++ [.solve now ∅]) (fun s₀ s => decide (s₀.config.mode = .active) &&
      decide (s₀.config.solver = .numaDomain) && decide (Run.Obeys step Calm s₀ (run ++ [.solve now ∅])) &&
      decide (s.domainSolver.placement.find? t = some m) && decide (s.kernel.maskOf t = some k)) = true) :
    EndsPlaced run now t m k := by
  obtain ⟨s₀, s, hs₀, hs, h⟩ := exists_of_endsIn h
  simp only [Bool.and_eq_true, decide_eq_true_eq] at h
  obtain ⟨⟨⟨⟨hmode, hkind⟩, hcalm⟩, hplacement⟩, hmask⟩ := h
  exact ⟨s₀, s, hs₀, hmode, hkind, hcalm, hs, hplacement, hmask⟩

/-- Both workers are put on CPU 1 and sampled there; the supervisor is paused and resumed, and the collector fails. -/
def resumed : List Input :=
  bothPlaced ++ [sampledAt 4 [stayer 4, { stayer 4 with identity := ⟨9, 2, 10⟩ }] (by decide), .pause, .resume,
    .reconcile none (5 * 10 ^ 9)]

/-- **The placement of a restored thread is stale.**  A window restores worker 2, the write for worker 3 is refused, and
worker 2 stays placed on CPU 1.  A pause restores worker 1; a window without a new sample takes it to be on CPU 1
still. -/
theorem placement_is_stale : EndsPlaced (released [.exact, .rejects 22]) (72 * 10 ^ 9) 2 [1] [0, 1] ∧
    EndsPlaced resumed (6 * 10 ^ 9) 1 [1] [0, 1] :=
  ⟨endsPlaced_of_endsIn (by decide +kernel), endsPlaced_of_endsIn (by decide +kernel)⟩

end Supervisor

end AffinityGraph
