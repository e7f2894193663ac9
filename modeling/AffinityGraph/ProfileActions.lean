import AffinityGraph.Departed
import AffinityGraph.ProfileMatch
import AffinityGraph.Writes
/-!
# ProfileActions — a dynamic profile beside the incremental solver (`runtime.cpp`, `thread_profile.cpp`)

`profile_assignment` copies a rule's `allowed_cpus` and `dynamic` into the assignment, and nothing reads them there.  What
binds a thread to its rule is the one batch in which it is first matched; after that the solve windows act on whom their
cohort holds.  Every batch write of a run is told apart by who makes it (`batch_is_binding_or_move`), and a thread that no
window manages is written by none.
-/
namespace AffinityGraph

/-! ## The calls of a batch -/

namespace Actuator

variable {κ : Type} {b : AffinityBackend κ} (V : MaskView b)

/-- The log does not hide the masks. -/
def loggedView : MaskView (logged b) where
  view s t := V.view s.1 t
  get_eq s t := V.get_eq s.1 t
  set_other s t m u h := V.set_other s.1 t m u h
  set_ok s t m h := V.set_ok s.1 t m h
  set_esrch s t m h := V.set_esrch s.1 t m h
  set_dead s t m h := V.set_dead s.1 t m h

theorem applyStep_calls (live : OrdSet Tid) (st : ApplyState (κ × List (Tid × Mask))) (t : Tid) (cpus : Mask)
    {call : Tid × Mask} (h : call ∈ (applyStep (logged b) live st (t, cpus)).backend.2) :
    call ∈ st.backend.2 ∨ (call = (t, cpus) ∧ t ∈ live) := by
  rcases applyStep_cases (b := logged b) live st t cpus with ⟨-, he⟩ | ⟨-, -, he⟩ | ⟨-, hlive, st', hb, -, -, -, he, -⟩
  · rw [he] at h
    exact Or.inl h
  · rw [he] at h
    exact Or.inl h
  · rw [he, hb] at h
    unfold writeMask at h
    split at h
    · exact Or.inl h
    · rcases List.mem_append.1 h with h | h
      · exact Or.inl h
      · exact Or.inr ⟨List.mem_singleton.1 h, hlive⟩

theorem foldl_applyStep_calls (live : OrdSet Tid) {call : Tid × Mask} : ∀ (l : List (Tid × Mask))
    (st : ApplyState (κ × List (Tid × Mask))), call ∈ (l.foldl (applyStep (logged b) live) st).backend.2 →
      call ∈ st.backend.2 ∨ (call ∈ l ∧ call.1 ∈ live)
  | [], _, h => Or.inl h
  | (t, cpus) :: l, st, h => by
    rcases foldl_applyStep_calls live l _ h with h | ⟨h, hlive⟩
    · rcases applyStep_calls live st t cpus h with h | ⟨rfl, hlive⟩
      · exact Or.inl h
      · exact Or.inr ⟨List.mem_cons_self, hlive⟩
    · exact Or.inr ⟨List.mem_cons_of_mem _ h, hlive⟩

theorem foldl_rollBackStep_calls {call : Tid × Mask} : ∀ (l : List Tid) (st : ApplyState (κ × List (Tid × Mask))),
    call ∈ (l.foldl (rollBackStep (logged b)) st).backend.2 →
      call ∈ st.backend.2 ∨ (call.1 ∈ l ∧ call.2 = st.previousMasks.getD call.1 [])
  | [], _, h => Or.inl h
  | t :: l, st, h => by
    obtain ⟨hframe, hb, -⟩ := rollBackStep_cases (b := logged b) st t
    rcases foldl_rollBackStep_calls l _ h with h | ⟨h, hm⟩
    · rw [hb] at h
      rcases List.mem_append.1 h with h | h
      · exact Or.inl h
      · rw [List.mem_singleton.1 h]
        exact Or.inr ⟨List.mem_cons_self, rfl⟩
    · rw [hframe.previousMasks] at hm
      exact Or.inr ⟨List.mem_cons_of_mem _ h, hm⟩

/-- A thread the batch has written was live, and the roll-back knows the mask it had. -/
theorem completed_previous (k : κ) (a : Actuator) (masks : OrdMap Tid Mask) (live : OrdSet Tid) (r : ApplyResult)
    (hr : r.vanishedTids = ∅) {t : Tid}
    (h : t ∈ (masks.entries.foldl (applyStep b live) { backend := k, actuator := a, result := r }).completed) :
    t ∈ live ∧ ∃ m, V.view k t = some m ∧
      (masks.entries.foldl (applyStep b live) { backend := k, actuator := a, result := r }).previousMasks.getD t [] = m := by
  obtain ⟨c, hsub, he⟩ := foldl_applyStep_completed (b := b) live masks.entries { backend := k, actuator := a, result := r }
  have hkey : t ∈ masks.keys := by
    rw [he, List.append_nil] at h
    exact List.mem_reverse.1 (hsub.subset h)
  obtain ⟨cpus, hcpus⟩ := OrdMap.mem_iff.1 (OrdMap.mem_keys.1 hkey)
  cases foldl_applyStep_outcome V live masks k a hr hcpus with
  | unreached _ same =>
    have hnone : t ∈ ([] : List Tid) := (iff_of_eq (congrArg Slot.completed same)).1 h
    cases hnone
  | notLive _ same =>
    have hnone : t ∈ ([] : List Tid) := (iff_of_eq (congrArg Slot.completed same)).1 h
    cases hnone
  | tried alive previous _ _ outcome =>
    refine ⟨alive, ?_⟩
    rcases outcome with ⟨-, ⟨m, hm⟩, -⟩ | ⟨-, -, hn, -⟩ | ⟨F, -, -, -, -, -, -, -, -, hn⟩
    · refine ⟨m, hm, ?_⟩
      rw [OrdMap.getD, previous, V.get_of_view hm]
      rfl
    · exact absurd h hn
    · exact absurd h hn

/-- **The calls of a batch**: what it was asked to write to a live thread, or the mask a live thread had before. -/
theorem applyRun_calls (k : κ) (a : Actuator) (masks : OrdMap Tid Mask) (live : OrdSet Tid) {t : Tid} {m : Mask}
    (h : (t, m) ∈ (applyRun (logged b) (k, []) a masks live).backend.2) :
    t ∈ live ∧ (masks.find? t = some m ∨ V.view k t = some m) := by
  have hloop : (t, m) ∈ (masks.entries.foldl (applyStep (logged b) live)
      { backend := (k, []), actuator := a, result := { requested := masks.size } }).backend.2 →
      t ∈ live ∧ (masks.find? t = some m ∨ V.view k t = some m) := by
    intro hcall
    rcases foldl_applyStep_calls live _ _ hcall with hcall | ⟨hmem, hlive⟩
    · cases hcall
    · exact ⟨hlive, Or.inl (OrdMap.mem_entries.1 hmem)⟩
  unfold applyRun at h
  dsimp only at h
  split at h
  · rcases foldl_rollBackStep_calls _ _ h with h | ⟨hmem, hm⟩
    · exact hloop h
    · obtain ⟨hlive, m', hview, hprev⟩ := completed_previous (loggedView V) (k, []) a masks live _ rfl hmem
      have he : m = m' := hm.trans hprev
      rw [he]
      exact ⟨hlive, Or.inr hview⟩
  · exact hloop h

end Actuator

/-! ## The moves of the incremental solver -/

theorem Actuator.find?_deltaMasks {delta : PlacementDelta} (hnone : delta.tidToMask = ∅) {t : Tid} {m : Mask}
    (h : (Actuator.deltaMasks delta).find? t = some m) : ∃ cpu, m = [cpu] := by
  have hbody : ∀ (masks : OrdMap Tid Mask) (e : Tid × Int), (∀ u m, masks.find? u = some m → ∃ cpu, m = [cpu]) →
      ∀ u m, (if e.1 ∈ masks then masks else masks.insert e.1 [e.2]).find? u = some m → ∃ cpu, m = [cpu] := by
    intro masks e hmasks u m hm
    split at hm
    · exact hmasks u m hm
    · rw [OrdMap.find?_insert] at hm
      split at hm
      · cases hm
        exact ⟨e.2, rfl⟩
      · exact hmasks u m hm
  have hstart : ∀ u m, delta.tidToMask.find? u = some m → ∃ cpu, m = [cpu] := by
    intro u m hm
    rw [hnone] at hm
    cases hm
  exact Loop.foldl_keeps (fun masks : OrdMap Tid Mask => ∀ u m, masks.find? u = some m → ∃ cpu, m = [cpu]) hbody
    delta.tidToCpu.entries hstart t m h

namespace IncrementalSolver

variable {s s' : IncrementalSolver} {input : IncrementalInput} {p : SolverProposal}

section Branches

variable {r : SolverProposal × IncrementalSolver} (hnone : p.delta.tidToMask = ∅)

include hnone

theorem nodePlanning_masks (hr : nodePlanning s input p = .ok r) : r.1.delta.tidToMask = ∅ := by
  unfold nodePlanning at hr
  cases hplan : planNodes s input with
  | error e =>
    rw [hplan] at hr
    cases hr
  | ok plan =>
    rw [hplan] at hr
    cases hr
    show (confirmNodes s input p _).1.delta.tidToMask = ∅
    unfold confirmNodes
    dsimp only
    split
    · split <;> exact hnone
    · split <;> exact hnone

theorem initialPinning_masks (hr : initialPinning s input p = .ok r) : r.1.delta.tidToMask = ∅ := by
  unfold initialPinning at hr
  dsimp only at hr
  split at hr
  · cases hr
    exact hnone
  · cases hseats : seatBatch input (pendingBatch s input.hardware p.migrationBudget)
        { solver := readTargets s, projected := vacated s (pendingBatch s input.hardware p.migrationBudget) } with
    | error e =>
      rw [hseats] at hr
      cases hr
    | ok seats =>
      rw [hseats] at hr
      cases hr
      rfl

theorem optimize_masks : (optimize s input p).1.delta.tidToMask = ∅ := by
  unfold optimize
  dsimp only
  split
  · exact hnone
  · rfl

end Branches

/-- The solver names CPUs, never masks. -/
theorem propose_masks (hnone : s.outstanding = none) (h : s.propose input = .ok (p, s')) : p.delta.tidToMask = ∅ := by
  have hintake : (intake s input).2.delta.tidToMask = ∅ := rfl
  obtain ⟨hout, -⟩ | ⟨-, -, hphases⟩ := propose_cases h
  · rw [hnone] at hout
    cases hout
  · rcases hphases with ⟨-, rfl, -⟩ | ⟨-, hr⟩ | ⟨-, hr⟩ | ⟨-, he⟩
    · exact hintake
    · exact nodePlanning_masks hintake hr
    · exact initialPinning_masks hintake hr
    · have hoptimized : (optimize (intake s input).1 input (intake s input).2).1.delta.tidToMask = ∅ := optimize_masks hintake
      rw [he] at hoptimized
      exact hoptimized

end IncrementalSolver

namespace Runtime

variable {r : Runtime}

/-- The managed cohort of the window that is due now. -/
def managed (r : Runtime) (now : Nat) : OrdSet Tid :=
  cohortOf ((r.openWindow now).activeDemands (r.windowInput now).1.threads (r.windowInput now).1.edges)

theorem mem_batchWrites {delta : PlacementDelta} {live : OrdSet Tid} {w : Write} (h : w ∈ r.batchWrites delta live) :
    w.purpose = .batch ∧ w.tid ∈ live ∧
      ((Actuator.deltaMasks delta).find? w.tid = some w.mask ∨ r.kernel.maskOf w.tid = some w.mask) := by
  obtain ⟨⟨t, m⟩, hcall, rfl⟩ := List.mem_map.1 h
  exact ⟨rfl, Actuator.applyRun_calls linuxView r.kernel r.actuator _ live hcall⟩

theorem mem_restoreWrites {tids : OrdSet Tid} {w : Write} (h : w ∈ r.restoreWrites tids) :
    w.purpose = .restore ∧ w.tid ∈ tids := by
  obtain ⟨⟨t, m⟩, hcall, rfl⟩ := List.mem_map.1 h
  exact ⟨rfl, ((Actuator.restore_calls r.kernel r.actuator tids).1 hcall).1⟩

theorem mem_coolingThreads {next : OrdSet Tid} {t : Tid} : t ∈ r.coolingThreads next ↔ t ∈ r.activeCohort ∧ t ∉ next := by
  unfold coolingThreads
  rw [OrdMap.mem_iff, OrdMap.mem_iff, OrdMap.find?_filter]
  simp only [Option.filter_eq_some_iff, decide_eq_true_eq]
  constructor
  · rintro ⟨u, h, hn⟩
    exact ⟨⟨u, h⟩, hn⟩
  · rintro ⟨⟨u, h⟩, hn⟩
    exact ⟨u, h, hn⟩

/-- The restore of the threads that leave does not touch the others. -/
theorem restoreCooling_mask {cooling : OrdSet Tid} {t : Tid} (h : t ∉ cooling) :
    (r.restoreCooling cooling).1.kernel.maskOf t = r.kernel.maskOf t := by
  unfold restoreCooling
  split
  · cases Actuator.restore_effect linuxView r.kernel r.actuator cooling t with
    | untouched _ mask => exact mask
    | written asked => exact absurd asked h
    | failed asked => exact absurd asked h
  · rfl

/-- **The writes of an incremental window**: a thread that leaves the cohort is restored, a member is moved to one CPU or
given back the mask it had. -/
theorem mem_cohortWrites_cases {dirtyTids : OrdSet Tid} {input : ProposeInput} {w : Write} (h : r.Sound)
    (hkind : r.config.solver = .incrementalHotspot) (hw : w ∈ r.cohortWrites dirtyTids input) :
    (w.purpose = .restore ∧ w.tid ∈ r.activeCohort) ∨
    (w.purpose = .batch ∧ w.tid ∈ cohortOf (r.activeDemands input.threads input.edges) ∧
      ((∃ cpu, w.mask = [cpu]) ∨ r.kernel.maskOf w.tid = some w.mask)) := by
  unfold cohortWrites at hw
  dsimp only at hw
  rcases List.mem_append.1 hw with hw | hw
  · split at hw
    · obtain ⟨hpurpose, hmem⟩ := mem_restoreWrites hw
      exact Or.inl ⟨hpurpose, (mem_coolingThreads.1 hmem).1⟩
    · cases hw
  · split at hw
    · cases hw
    · split at hw
      · cases hw
      · split at hw
        · cases hw
        · rename_i p s hp
          split at hw
          · cases hw
          · have hsettled := ((h.cooled input).solver (by rw [(r.cooled_frame input).1]; exact hkind)).settled
            have hmasks : p.delta.tidToMask = ∅ := IncrementalSolver.propose_masks hsettled hp
            obtain ⟨hpurpose, hlive, hmask⟩ := mem_batchWrites hw
            refine Or.inr ⟨hpurpose, hlive, ?_⟩
            rcases hmask with hmask | hmask
            · exact Or.inl (Actuator.find?_deltaMasks hmasks hmask)
            · refine Or.inr ?_
              have hstays : w.tid ∉ r.coolingThreads (cohortOf (r.activeDemands input.threads input.edges)) :=
                fun hcool => (mem_coolingThreads.1 hcool).2 hlive
              rw [← restoreCooling_mask hstays]
              exact hmask

/-! ## The cohort between the windows -/

/-- The configuration stays, and nobody joins the cohort. -/
structure CohortFrame (r r' : Runtime) : Prop where
  config : r'.config = r.config
  shrinks : ∀ t ∈ r'.activeCohort, t ∈ r.activeCohort

theorem CohortFrame.of_eq {r r' : Runtime} (hc : r'.config = r.config) (ha : r'.activeCohort = r.activeCohort) :
    CohortFrame r r' := ⟨hc, fun t ht => by rw [ha] at ht; exact ht⟩

theorem pause_cohort {r r' : Runtime} (h : r.pause = .ok r') : CohortFrame r r' := by
  obtain ⟨-, rfl⟩ := pause_ok h
  exact ⟨rfl, fun t ht => absurd ht (OrdMap.notMem_empty t)⟩

theorem triggerFatal_cohort {r r' : Runtime} {message : String} (h : r.triggerFatal message = .ok r') : CohortFrame r r' := by
  obtain ⟨-, ⟨-, rfl⟩ | ⟨-, r₁, hr₁, rfl⟩⟩ := triggerFatal_ok h
  · exact .of_eq rfl rfl
  · have hframe := pause_cohort hr₁
    exact ⟨hframe.config, hframe.shrinks⟩

theorem handleBpfEvent_cohort (r : Runtime) (staticProfile : Bool) (event : BpfEvent) (startSymbol : String) :
    CohortFrame r (r.handleBpfEvent staticProfile event startSymbol) := by
  have hrelation : CohortFrame r (r.relate staticProfile event) := by
    rcases r.relate_cases staticProfile event with he | ⟨o, he⟩
    · rw [he]
      exact .of_eq rfl rfl
    · rw [he]
      exact .of_eq rfl rfl
  have hrenamed : CohortFrame r (r.threadRenamed event.tid event.comm) := by
    unfold threadRenamed
    split <;> exact .of_eq rfl rfl
  have hdeclared : CohortFrame r (r.applicationAffinity event.peerTid event.maskCpus) := by
    unfold applicationAffinity
    split
    · exact .of_eq rfl rfl
    · split <;> exact .of_eq rfl rfl
  unfold handleBpfEvent
  cases event.kind with
  | futex => exact hrelation
  | vfs => exact hrelation
  | taskFork => exact .of_eq rfl rfl
  | taskExec => exact .of_eq rfl rfl
  | taskExit => exact ⟨rfl, fun t ht => (OrdMap.mem_erase.1 ht).2⟩
  | taskRename => exact hrenamed
  | affinity => exact hdeclared

theorem applyPlacement_cohort (r : Runtime) (p : SolverProposal) (live : OrdSet Tid) (now : Nat) :
    (r.applyPlacement p live now).activeCohort = r.activeCohort := by
  unfold applyPlacement
  dsimp only
  split <;> rfl

/-- After an incremental window the cohort is that of the window, or the one before it. -/
theorem solveIncremental_cohort {r r' : Runtime} {dirtyTids : OrdSet Tid} {input : ProposeInput}
    (h : solveIncremental dirtyTids r input = .ok r') : r'.config = r.config ∧
      (r'.activeCohort = r.activeCohort ∨ r'.activeCohort = cohortOf (r.activeDemands input.threads input.edges)) := by
  have hcooled : ∀ cooling, (r.restoreCooling cooling).1.config = r.config ∧
      (r.restoreCooling cooling).1.activeCohort = r.activeCohort := by
    intro cooling
    unfold restoreCooling
    split <;> exact ⟨rfl, rfl⟩
  unfold solveIncremental at h
  dsimp only at h
  split at h
  · cases h
    exact ⟨(hcooled _).1, Or.inl (hcooled _).2⟩
  · split at h
    · cases h
      exact ⟨(hcooled _).1, Or.inr rfl⟩
    · split at h
      · cases h
        exact ⟨(hcooled _).1, Or.inr rfl⟩
      · unfold proposePlacement at h
        split at h
        · cases h
        · dsimp only at h
          split at h
          · cases h
            exact ⟨(hcooled _).1, Or.inr rfl⟩
          · split at h
            · cases h
              exact ⟨(hcooled _).1, Or.inr rfl⟩
            · cases h
              refine ⟨?_, Or.inr ?_⟩
              · rw [(applyPlacement_frame _ _ _ _).1]
                exact (hcooled _).1
              · rw [applyPlacement_cohort]
                rfl

end Runtime

namespace Supervisor

variable {s s' : Supervisor}

/-- **Only a window takes a thread into the cohort.** -/
theorem handle_cohort {e : Input} (hkind : s.config.solver = .incrementalHotspot) (h : s.handle e = .ok s') :
    s'.threadProfile = s.threadProfile ∧ s'.config = s.config ∧ ∀ t ∈ s'.activeCohort,
      t ∈ s.activeCohort ∨ ∃ now dirtyTids, e = .solve now dirtyTids ∧ s.due now = true ∧ t ∈ s.managed now := by
  have hstays : s'.threadProfile = s.threadProfile → Runtime.CohortFrame s.toRuntime s'.toRuntime →
      s'.threadProfile = s.threadProfile ∧ s'.config = s.config ∧ ∀ t ∈ s'.activeCohort,
        t ∈ s.activeCohort ∨ ∃ now dirtyTids, e = .solve now dirtyTids ∧ s.due now = true ∧ t ∈ s.managed now :=
    fun hp hf => ⟨hp, hf.config, fun t ht => Or.inl (hf.shrinks t ht)⟩
  cases e with
  | outside kernel =>
    cases h
    exact hstays rfl (.of_eq rfl rfl)
  | bpf event startSymbol =>
    cases h
    exact hstays rfl (Runtime.handleBpfEvent_cohort _ _ _ _)
  | retain relations =>
    cases h
    exact hstays rfl (.of_eq rfl rfl)
  | health valid windowReady lossRatio =>
    cases h
    exact hstays rfl (.of_eq rfl rfl)
  | fatal message =>
    obtain ⟨r, hr, rfl⟩ := triggerFatal_ok h
    exact hstays rfl (Runtime.triggerFatal_cohort hr)
  | pause =>
    obtain ⟨r, hr, rfl⟩ := pause_ok h
    exact hstays rfl (Runtime.pause_cohort hr)
  | resume =>
    cases h
    exact hstays rfl (.of_eq rfl rfl)
  | reconcile collected now =>
    obtain ⟨-, hf⟩ | ⟨c, -, -, stopped, last, rfl⟩ := reconcileAndSample_ok h
    · obtain ⟨since, -, ⟨-, r, hr, rfl⟩ | ⟨-, rfl⟩⟩ := collectorFailure_ok hf
      · exact hstays rfl (Runtime.pause_cohort hr)
      · exact hstays rfl (.of_eq rfl rfl)
    · have hframe := sampled_frame s c
      obtain ⟨kernel, actuator, hbound⟩ := bindProfile_eq (s.sampled c) (s.matchSamples c.samples)
      rw [hbound] at hstays ⊢
      exact hstays rfl (.of_eq hframe.config hframe.activeCohort)
  | solve now dirtyTids =>
    obtain ⟨-, ⟨-, rfl⟩ | ⟨-, -, rfl⟩⟩ | ⟨-, r, hr, rfl⟩ := maybeSolve_ok h
    · exact hstays rfl (.of_eq rfl rfl)
    · exact hstays rfl (.of_eq rfl rfl)
    · unfold Runtime.maybeSolve at hr
      split at hr
      · cases hr
        exact hstays rfl (.of_eq rfl rfl)
      · rename_i hdue
        split at hr
        · cases hr
        · by_cases hobserve : s.config.mode = .observe
          · simp only [hobserve, if_true] at hr
            cases hr
            exact hstays rfl (.of_eq rfl rfl)
          · simp only [hobserve, if_false, hkind] at hr
            split at hr
            · rename_i r₁ hr₁
              cases hr
              obtain ⟨hconfig, hcohort⟩ := Runtime.solveIncremental_cohort hr₁
              refine ⟨rfl, hconfig, fun t ht => ?_⟩
              have ht' : t ∈ r₁.activeCohort := ht
              rcases hcohort with hc | hc
              · rw [hc] at ht'
                exact Or.inl ht'
              · rw [hc] at ht'
                exact Or.inr ⟨now, dirtyTids, rfl, by simpa using hdue, ht'⟩
            · cases hr
  | shutdown =>
    cases h
    exact hstays rfl (.of_eq rfl rfl)

/-! ## Who writes what -/

/-- The write binds a thread that matches for the first time, inside what its rule allows, or gives it back the mask it
had. -/
def Binding (s : Supervisor) (profile : ThreadProfile) (c : Collected) (w : Write) : Prop :=
  ∃ x ∈ c.samples, x.identity.tid = w.tid ∧ x.identity ∉ s.books.assignments ∧ ∃ rule, profile.ruleFor x = some rule ∧
    ((∀ cpu ∈ w.mask, cpu ∈ rule.allowedCpus) ∨ s.kernel.maskOf w.tid = some w.mask)

/-- The write moves a thread of the window's cohort to one CPU, or gives it back the mask it had. -/
def Moving (s : Supervisor) (now : Nat) (w : Write) : Prop :=
  w.tid ∈ s.managed now ∧ ((∃ cpu, w.mask = [cpu]) ∨ s.kernel.maskOf w.tid = some w.mask)

/-- No window takes the thread into its cohort. -/
def Unmanaged (t : Tid) (s : Supervisor) : Input → Prop
  | .solve now _ => s.due now = true → t ∉ s.managed now
  | _ => True

/-- What the writes of a run depend on. -/
structure Profiled (profile : ThreadProfile) (s : Supervisor) : Prop where
  kind : s.config.solver = .incrementalHotspot
  profile : s.threadProfile = some profile
  sound : Runtime.Sound s.toRuntime

section Profiled

variable {profile : ThreadProfile} {envelope : Mask}

theorem Profiled.handle (h : s.Profiled profile) {e : Input} (hs : s.handle e = .ok s') : s'.Profiled profile := by
  obtain ⟨hp, hc, -⟩ := handle_cohort h.kind hs
  exact ⟨by rw [hc]; exact h.kind, hp.trans h.profile, sound_handle h.sound hs⟩

theorem Profiled.create {l : Launch} (hd : l.hardware.Discovered) (hkind : l.config.solver = .incrementalHotspot)
    (hprofile : l.threadProfile = some profile) (hs : create l = .ok s) : s.Profiled profile := by
  obtain ⟨hsolver, hp, -⟩ := create_starts hs
  exact ⟨hsolver.trans hkind, hp.trans hprofile, sound_create hd hs⟩

theorem mem_setIntersection_left {cpu : Int} : ∀ {l r : List Int}, cpu ∈ setIntersection l r → cpu ∈ l
  | [], _, h => h
  | a :: as, bs, h => by
    unfold setIntersection at h
    split at h
    · cases h
    · split at h
      · rcases List.mem_cons.1 h with rfl | h
        · exact List.mem_cons_self
        · exact List.mem_cons_of_mem a (mem_setIntersection_left h)
      · exact List.mem_cons_of_mem a (mem_setIntersection_left h)

/-- **The profile's batch.** -/
theorem mem_bindWrites (h : s.Profiled profile)
    (hloaded : ∀ rule ∈ profile.placements, validateRule rule envelope = .ok ()) {c : Collected} {w : Write}
    (hw : w ∈ (s.sampled c).bindWrites (s.matchSamples c.samples)) : s.Binding profile c w := by
  unfold bindWrites at hw
  split at hw
  · obtain ⟨-, hlive, hmask⟩ := Runtime.mem_batchWrites hw
    obtain ⟨target, htarget⟩ := OrdMap.mem_iff.1 (matchSamples_live.1 hlive)
    obtain ⟨x, hx, htid, hnew⟩ := matchSamples_masks.1 htarget
    have hfresh : x.identity ∉ s.books.assignments := by
      intro hassigned
      rw [newTarget_of_assigned hassigned] at hnew
      cases hnew
    rw [newTarget_eq hfresh] at hnew
    obtain ⟨rule, hrule, hcpus⟩ := Option.bind_eq_some_iff.1 hnew
    rw [newRule, h.profile, Option.bind_some] at hrule
    refine ⟨x, hx, htid, hfresh, rule, hrule, ?_⟩
    rcases hmask with hmask | hmask
    · left
      have hdelta : Actuator.deltaMasks { tidToMask := (s.matchSamples c.samples).masks } = (s.matchSamples c.samples).masks := rfl
      rw [hdelta, htarget, Option.some.injEq] at hmask
      split at hcpus
      · cases hcpus
      · cases hcpus
        intro cpu hcpu
        rw [← hmask] at hcpu
        exact cpus_allowed_of_valid (hloaded rule (List.mem_of_find?_eq_some hrule)) (mem_setIntersection_left hcpu)
    · right
      rw [← (sampled_frame s c).kernel]
      exact hmask
  · cases hw

/-- The writes of a solve window, of both purposes. -/
theorem mem_solveWrites_cases (h : s.Profiled profile) {now : Nat} {dirtyTids : OrdSet Tid} {w : Write}
    (hw : w ∈ s.writesOf (.solve now dirtyTids)) : s.due now = true ∧
      ((w.purpose = .restore ∧ w.tid ∈ s.activeCohort) ∨ (w.purpose = .batch ∧ s.Moving now w)) := by
  simp only [writesOf] at hw
  split at hw
  · cases hw
  · unfold Runtime.solveWrites at hw
    split at hw
    · cases hw
    · rename_i hgo
      have hdue : s.due now = true := by
        cases hd : s.due now with
        | true => rfl
        | false => simp [hd] at hgo
      rw [h.kind] at hw
      refine ⟨hdue, ?_⟩
      rcases Runtime.mem_cohortWrites_cases (h.sound.openWindow now) h.kind hw with hw | ⟨hb, hm, hmask⟩
      · exact Or.inl hw
      · exact Or.inr ⟨hb, hm, hmask⟩

theorem batch_of_profiled (h : s.Profiled profile)
    (hloaded : ∀ rule ∈ profile.placements, validateRule rule envelope = .ok ()) {e : Input} {w : Write}
    (hw : w ∈ s.writesOf e) (hb : w.purpose = .batch) :
    (∃ c now, e = .reconcile (some c) now ∧ s.Binding profile c w) ∨
      ∃ now dirtyTids, e = .solve now dirtyTids ∧ s.Moving now w := by
  have hrestore : w.purpose ≠ .restore := by
    rw [hb]
    decide
  have hfailure : ∀ now, w ∉ s.failureWrites now := by
    intro now hw
    unfold failureWrites at hw
    dsimp only at hw
    generalize (if s.collectorFailedSinceNs = 0 then now else s.collectorFailedSinceNs) = since at hw
    split at hw
    · exact hrestore (Runtime.mem_pauseWrites hw)
    · cases hw
  cases e with
  | fatal message =>
    simp only [writesOf, Runtime.fatalWrites] at hw
    split at hw
    · cases hw
    · split at hw
      · cases hw
      · exact absurd (Runtime.mem_pauseWrites hw) hrestore
  | pause => exact absurd (Runtime.mem_pauseWrites hw) hrestore
  | shutdown => exact absurd (Runtime.mem_writes hw).1 hrestore
  | reconcile collected now =>
    cases collected with
    | none => exact absurd hw (hfailure now)
    | some c =>
      simp only [writesOf] at hw
      split at hw
      · exact absurd hw (hfailure now)
      · exact Or.inl ⟨c, now, rfl, mem_bindWrites h hloaded hw⟩
  | solve now dirtyTids =>
    obtain ⟨-, ⟨hr, -⟩ | ⟨-, hm⟩⟩ := mem_solveWrites_cases h hw
    · exact absurd hr hrestore
    · exact Or.inr ⟨now, dirtyTids, rfl, hm⟩
  | outside kernel => cases hw
  | bpf event startSymbol => cases hw
  | retain relations => cases hw
  | health valid windowReady lossRatio => cases hw
  | resume => cases hw

/-- A thread no window has managed is outside the cohort. -/
theorem unmanaged_outside (h : s.Profiled profile) {t : Tid} (ht : t ∉ s.activeCohort) {run : List Input}
    (hobeys : Run.Obeys step (Unmanaged t) s run) (hexec : Run.exec step s run = some s') : t ∉ s'.activeCohort := by
  refine (hobeys.invariant (fun s : Supervisor => s.Profiled profile ∧ t ∉ s.activeCohort) (fun s e s' hi hok hs => ?_)
    ⟨h, ht⟩ hexec).2
  have hhandle := (step_handle hs).2
  refine ⟨hi.1.handle hhandle, fun hmem => ?_⟩
  obtain ⟨-, -, hcohort⟩ := handle_cohort hi.1.kind hhandle
  rcases hcohort t hmem with hmem | ⟨now, dirtyTids, rfl, hdue, hmanaged⟩
  · exact hi.2 hmem
  · exact hok hdue hmanaged

end Profiled

/-- **A dynamic profile under the incremental solver**: whatever happens, a batch write binds a thread that matches its
rule for the first time, to CPUs that the rule allows, or it is a move of a solve window, of a thread that the window
manages; and the windows write nothing of a thread that none of them has managed. -/
theorem batch_is_binding_or_move {l : Launch} {s₀ : Supervisor} {profile : ThreadProfile} {envelope : Mask}
    (hd : l.hardware.Discovered) (hkind : l.config.solver = .incrementalHotspot) (hprofile : l.threadProfile = some profile)
    (hloaded : ∀ rule ∈ profile.placements, validateRule rule envelope = .ok ()) (hstart : create l = .ok s₀)
    {run : List Input} (hexec : Run.exec step s₀ run = some s) (e : Input) :
    (∀ w ∈ s.writesOf e, w.purpose = .batch → (∃ c now, e = .reconcile (some c) now ∧ s.Binding profile c w) ∨
      ∃ now dirtyTids, e = .solve now dirtyTids ∧ s.Moving now w) ∧
    ∀ t, Run.Obeys step (Unmanaged t) s₀ (run ++ [e]) → ∀ now dirtyTids, e = .solve now dirtyTids →
      ∀ w ∈ s.writesOf e, w.tid ≠ t := by
  have hp₀ := Profiled.create hd hkind hprofile hstart
  have hp : s.Profiled profile :=
    Run.exec_keeps (Profiled profile) (fun s e s' h hs => h.handle (step_handle hs).2) hp₀ hexec
  refine ⟨fun w hw hb => batch_of_profiled hp hloaded hw hb, fun t hobeys now dirtyTids he w hw htid => ?_⟩
  obtain ⟨hbefore, hlast⟩ := hobeys.concat
  have hout : t ∉ s.activeCohort := by
    refine unmanaged_outside hp₀ ?_ hbefore hexec
    rw [(create_starts hstart).2.2.1]
    exact OrdMap.notMem_empty t
  subst he
  subst htid
  obtain ⟨hdue, ⟨-, hmem⟩ | ⟨-, hm⟩⟩ := mem_solveWrites_cases hp hw
  · exact hout hmem
  · exact hlast s hexec hdue hm.1

/-! ### A pool that its rule keeps on CPU 0 -/

theorem poolRule_single : ([[0]] : List Mask).length = 1 := rfl

def poolRule : ThreadProfileRule :=
  { id := "pool", criteria := { comm := some "w" }, allowedCpus := [0], affinities := [[0]], dynamic := false
    single := poolRule_single }

def poolProfile : ThreadProfile := { placements := [poolRule] }

/-- Two workers of one process on two CPUs, under the incremental solver. -/
def poolLaunch : Launch := { Watch.leaverLaunch .incrementalHotspot with threadProfile := some poolProfile }

def poolAt (seconds : Nat) : Input :=
  .reconcile (some
    { existing := OrdSet.ofList [9]
      samples := [Watch.workerAt 1 seconds, Watch.workerAt 2 seconds]
      distinct := Watch.workers_distinct seconds }) (seconds * 10 ^ 9)

/-- Both are bound when they are first sampled; the first window makes the node plan. -/
def poolRun : List Input := [.health true true 0, poolAt 1, poolAt 2, .solve (3 * 10 ^ 9) ∅]

/-- Whether the run of the pool leads to a state that meets `ok`. -/
def poolEnds (run : List Input) (ok : Supervisor → Bool) : Bool :=
  (create poolLaunch).toOption.any (fun s₀ => (Run.exec step s₀ run).any ok)

theorem exists_of_poolEnds {run : List Input} {ok : Supervisor → Bool} (h : poolEnds run ok = true) :
    ∃ s₀ s, create poolLaunch = .ok s₀ ∧ Run.exec step s₀ run = some s ∧ ok s = true := by
  obtain ⟨s₀, hs₀, h⟩ := (Option.any_eq_true _ _).1 h
  obtain ⟨s, hs, h⟩ := (Option.any_eq_true _ _).1 h
  exact ⟨s₀, s, toOption_eq_some hs₀, hs, h⟩

/-- The second window of the pool pins its threads. -/
theorem batch_is_binding_or_move_pool : ∃ s₀ s, create poolLaunch = .ok s₀ ∧ Run.exec step s₀ poolRun = some s ∧
    ∃ w ∈ s.writesOf (.solve (5 * 10 ^ 9) ∅), w.purpose = .batch ∧ s.Moving (5 * 10 ^ 9) w := by
  have hrun : poolEnds poolRun (fun s => (s.writesOf (.solve (5 * 10 ^ 9) ∅)).any (fun w => decide (w.purpose = .batch))) =
      true := by decide +kernel
  obtain ⟨s₀, s, hstart, hexec, hw⟩ := exists_of_poolEnds hrun
  obtain ⟨w, hmem, hb⟩ := List.any_eq_true.1 hw
  have hd : poolLaunch.hardware.Discovered := ⟨by decide, by decide⟩
  have hloaded : ∀ rule ∈ poolProfile.placements, validateRule rule [0, 1] = .ok () := by
    intro rule hrule
    rw [List.mem_singleton.1 hrule]
    decide
  refine ⟨s₀, s, hstart, hexec, w, hmem, of_decide_eq_true hb, ?_⟩
  rcases (batch_is_binding_or_move hd rfl rfl hloaded hstart hexec (.solve (5 * 10 ^ 9) ∅)).1 w hmem (of_decide_eq_true hb)
    with ⟨c, now, he, -⟩ | ⟨now, dirtyTids, he, hm⟩
  · cases he
  · cases he
    exact hm

/-- **The solver takes a thread out of what its rule allows**: the profile is dynamic, the rule is valid and not dynamic
itself, its thread was bound to CPU 0, and the window moves it to CPU 1. -/
theorem solver_leaves_allowed : ∃ s₀ s s', create poolLaunch = .ok s₀ ∧ s₀.config.mode = .active ∧
    s₀.config.dynamic = true ∧ s₀.threadProfile = some poolProfile ∧ poolProfile.dynamic.enabled = true ∧
    validateRule poolRule [0, 1] = .ok () ∧ poolRule.dynamic = false ∧ Run.exec step s₀ poolRun = some s ∧
    (s.books.assignments.find? ⟨9, 1, 10⟩).map (·.ruleId) = some poolRule.id ∧ s.kernel.maskOf 1 = some poolRule.cpus ∧
    (⟨.batch, false, 1, [1]⟩ : Write) ∈ s.writesOf (.solve (5 * 10 ^ 9) ∅) ∧ 1 ∉ poolRule.allowedCpus ∧
    s.step (.solve (5 * 10 ^ 9) ∅) = some s' ∧ s'.kernel.maskOf 1 = some [1] := by
  have hrun : poolEnds poolRun (fun s =>
      decide ((s.books.assignments.find? ⟨9, 1, 10⟩).map (·.ruleId) = some poolRule.id) &&
      decide (s.kernel.maskOf 1 = some poolRule.cpus) &&
      (s.writesOf (.solve (5 * 10 ^ 9) ∅)).contains ⟨.batch, false, 1, [1]⟩ &&
      (s.step (.solve (5 * 10 ^ 9) ∅)).any (fun s' => decide (s'.kernel.maskOf 1 = some [1]))) = true := by decide +kernel
  have hlaunch : (create poolLaunch).toOption.any (fun s₀ => decide (s₀.config.mode = .active) && s₀.config.dynamic) =
      true := by decide +kernel
  obtain ⟨s₀, s, hstart, hexec, h⟩ := exists_of_poolEnds hrun
  simp only [Bool.and_eq_true, decide_eq_true_eq] at h
  obtain ⟨⟨⟨hrule, hbound⟩, hwrite⟩, hmoved⟩ := h
  obtain ⟨s', hs', hmask⟩ := (Option.any_eq_true _ _).1 hmoved
  rw [hstart] at hlaunch
  have hactive : s₀.config.mode = .active ∧ s₀.config.dynamic = true := by simpa [Except.toOption] using hlaunch
  exact ⟨s₀, s, s', hstart, hactive.1, hactive.2, (create_starts hstart).2.1, rfl, by decide, rfl, hexec, hrule, hbound,
    by simpa using hwrite, by decide, hs', of_decide_eq_true hmask⟩

end Supervisor
end AffinityGraph
