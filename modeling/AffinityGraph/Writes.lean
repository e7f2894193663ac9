import AffinityGraph.Supervisor
/-!
# Writes — the list of `set` calls is the whole of what a call does to the kernel

Each call of the actuator under the log gives what it gives without, and the log replayed on the kernel it began with
leads to the kernel it ends with.  `handle_replays` says so for every input of the supervisor: what `writesOf` lists is
every change the supervisor makes to a thread.
-/
namespace AffinityGraph

namespace Actuator

variable {κ : Type} {b : AffinityBackend κ}

/-- The calls made again, in order. -/
def replay (b : AffinityBackend κ) (k : κ) (calls : List (Tid × Mask)) : κ :=
  calls.foldl (fun k c => (b.set k c.1 c.2).1) k

theorem replay_append (k : κ) (l l' : List (Tid × Mask)) : replay b k (l ++ l') = replay b (replay b k l) l' := by
  simp [replay]

/-- A logged call adds itself to the log and does what it does. -/
theorem logged_replays (k₀ : κ) (s : κ × List (Tid × Mask)) (t : Tid) (m : Mask) (h : s.1 = replay b k₀ s.2) :
    ((logged b).set s t m).1.1 = replay b k₀ ((logged b).set s t m).1.2 := by
  simp only [logged, replay_append, ← h]
  rfl

/-! ## The restores -/

theorem restore_logged (k : κ) (a : Actuator) (tids : OrdSet Tid) :
    (restore (logged b) (k, []) a tids).backend.1 = (restore b k a tids).backend := by
  unfold restore
  rw [foldl_restoreStep_logged tids.toList (OrdMap.nodup_keys tids)]

theorem restore_replays (k : κ) (a : Actuator) (tids : OrdSet Tid) :
    (restore b k a tids).backend = replay b k (restore (logged b) (k, []) a tids).backend.2 := by
  rw [← restore_logged]
  exact restore_keeps (logged_replays k) (k, []) a tids rfl

theorem foldl_restoreAllStep_unlogged : ∀ (l : List Tid) (s : κ × List (Tid × Mask)) (a : Actuator) (r : RestoreResult),
    (l.foldl (restoreAllStep (logged b)) ⟨s, a, r⟩).backend.1 = (l.foldl (restoreAllStep b) ⟨s.1, a, r⟩).backend
  | [], _, _, _ => rfl
  | _ :: l, _, a, _ => foldl_restoreAllStep_unlogged l _ a _

theorem restoreAll_replays (k : κ) (a : Actuator) :
    (restoreAll b k a).backend = replay b k (restoreAll (logged b) (k, []) a).backend.2 := by
  have hsame : (restoreAll (logged b) (k, []) a).backend.1 = (restoreAll b k a).backend :=
    foldl_restoreAllStep_unlogged a.actedTids.toList (k, []) a _
  rw [← hsame]
  exact restoreAll_keeps (logged_replays k) (k, []) a rfl

/-! ## The batch -/

/-- The locals of a batch without the log. -/
def unlogged (st : ApplyState (κ × List (Tid × Mask))) : ApplyState κ where
  backend := st.backend.1
  actuator := st.actuator
  result := st.result
  completed := st.completed
  previousMasks := st.previousMasks
  previouslyActed := st.previouslyActed
  stopped := st.stopped.map (fun F => ⟨F.tid, F.cpus, F.error, F.before.1⟩)

theorem writeMask_logged (s : κ × List (Tid × Mask)) (t : Tid) (cpus : Mask) :
    (writeMask (logged b) s t cpus).1.1 = (writeMask b s.1 t cpus).1 ∧
    (writeMask (logged b) s t cpus).2 = (writeMask b s.1 t cpus).2 := by
  unfold writeMask
  split <;> exact ⟨rfl, rfl⟩

theorem applyStep_unlogged (live : OrdSet Tid) (st : ApplyState (κ × List (Tid × Mask))) (item : Tid × Mask) :
    unlogged (applyStep (logged b) live st item) = applyStep b live (unlogged st) item := by
  obtain ⟨hw, he⟩ := writeMask_logged (b := b) st.backend item.1 item.2
  unfold applyStep
  cases hs : st.stopped with
  | some F => simp [unlogged, hs]
  | none =>
    by_cases hl : item.1 ∈ live
    · simp only [hs, hl, if_true, Option.isSome_none, Bool.false_eq_true, if_false, unlogged, Option.map_none, he]
      cases hr : (writeMask b st.backend.1 item.1 item.2).2 with
      | none => simp only [hw]; rfl
      | some e => cases e <;> simp only [hw] <;> rfl
    · simp [unlogged, hs, hl]

theorem foldl_applyStep_unlogged (live : OrdSet Tid) : ∀ (l : List (Tid × Mask))
    (st : ApplyState (κ × List (Tid × Mask))),
    unlogged (l.foldl (applyStep (logged b) live) st) = l.foldl (applyStep b live) (unlogged st)
  | [], _ => rfl
  | item :: l, st => by
    rw [List.foldl_cons, List.foldl_cons, foldl_applyStep_unlogged live l, applyStep_unlogged]

theorem rollBackStep_unlogged (st : ApplyState (κ × List (Tid × Mask))) (t : Tid) :
    unlogged (rollBackStep (logged b) st t) = rollBackStep b (unlogged st) t := by
  simp only [rollBackStep, logged, unlogged]
  cases (b.set st.backend.1 t (st.previousMasks.getD t [])).2 with
  | none => rfl
  | some e => cases e <;> rfl

theorem foldl_rollBackStep_unlogged : ∀ (l : List Tid) (st : ApplyState (κ × List (Tid × Mask))),
    unlogged (l.foldl (rollBackStep (logged b)) st) = l.foldl (rollBackStep b) (unlogged st)
  | [], _ => rfl
  | t :: l, st => by
    rw [List.foldl_cons, List.foldl_cons, foldl_rollBackStep_unlogged l, rollBackStep_unlogged]

theorem applyRun_unlogged (k : κ) (a : Actuator) (assignments : OrdMap Tid Mask) (live : OrdSet Tid) :
    unlogged (applyRun (logged b) (k, []) a assignments live) = applyRun b k a assignments live := by
  have hloop := foldl_applyStep_unlogged (b := b) live assignments.entries
    { backend := (k, []), actuator := a, result := { requested := assignments.size } }
  have hstart : unlogged ({ backend := (k, []), actuator := a, result := { requested := assignments.size } } :
      ApplyState (κ × List (Tid × Mask))) = { backend := k, actuator := a, result := { requested := assignments.size } } :=
    rfl
  unfold applyRun
  dsimp only
  rw [← hstart, ← hloop]
  -- the roll-back, or the end of a batch that went through
  generalize assignments.entries.foldl (applyStep (logged b) live)
    { backend := (k, []), actuator := a, result := { requested := assignments.size } } = st
  obtain ⟨backend, actuator, result, completed, previousMasks, previouslyActed, stopped⟩ := st
  cases stopped with
  | none => rfl
  | some F => exact foldl_rollBackStep_unlogged completed _

theorem apply_replays (k : κ) (a : Actuator) (delta : PlacementDelta) (live : OrdSet Tid) :
    (apply b k a delta live).1 = replay b k (apply (logged b) (k, []) a delta live).1.2 := by
  have hsame : (applyRun (logged b) (k, []) a (deltaMasks delta) live).backend.1 =
      (applyRun b k a (deltaMasks delta) live).backend :=
    congrArg ApplyState.backend (applyRun_unlogged k a (deltaMasks delta) live)
  show (applyRun b k a (deltaMasks delta) live).backend = _
  rw [← hsame]
  exact applyRun_keeps (logged_replays k) (k, []) a (deltaMasks delta) live rfl

end Actuator

/-! ## The windows -/

/-- The kernel after a list of writes. -/
def Kernel.after (k : Kernel) (ws : List Write) : Kernel := Actuator.replay linux k (ws.map (fun w => (w.tid, w.mask)))

/-- The same threads, and the same answers to come; who was sent `SIGTERM` aside. -/
def Kernel.Like (k k' : Kernel) : Prop := k'.threads = k.threads ∧ k'.answers = k.answers

theorem Kernel.Like.of_eq {k k' : Kernel} (h : k' = k) : k.Like k' := by
  rw [h]
  exact ⟨rfl, rfl⟩

namespace Runtime

variable {r r' : Runtime}

@[simp] theorem after_nil (k : Kernel) : k.after [] = k := rfl

theorem after_append (k : Kernel) (l l' : List Write) : k.after (l ++ l') = (k.after l).after l' := by
  simp [Kernel.after, Actuator.replay_append]

theorem after_writes (k : Kernel) (purpose : Purpose) (calls : List (Tid × Mask)) :
    k.after (r.writes purpose calls) = Actuator.replay linux k calls := by
  simp [Kernel.after, writes, Function.comp_def]

theorem after_restoreWrites (r : Runtime) (tids : OrdSet Tid) :
    r.kernel.after (r.restoreWrites tids) = (Actuator.restore linux r.kernel r.actuator tids).backend := by
  rw [restoreWrites, after_writes]
  exact (Actuator.restore_replays _ _ _).symm

theorem after_restoreAllWrites (r : Runtime) :
    r.kernel.after r.restoreAllWrites = (Actuator.restoreAll linux r.kernel r.actuator).backend := by
  rw [restoreAllWrites, after_writes]
  exact (Actuator.restoreAll_replays _ _).symm

theorem after_batchWrites (r : Runtime) (delta : PlacementDelta) (live : OrdSet Tid) :
    r.kernel.after (r.batchWrites delta live) = (Actuator.apply linux r.kernel r.actuator delta live).1 := by
  rw [batchWrites, after_writes]
  exact (Actuator.apply_replays _ _ _ _).symm

theorem commitProposal_kernel {p : NumaDomainProposal} {now : Nat} {tids : OrdSet Tid}
    (h : r.commitProposal p now tids = .ok r') : r'.kernel = r.kernel := by
  obtain ⟨s, rfl, -⟩ := commitProposal_ok h
  rfl

/-- **What the domain window writes is all it does to the kernel.** -/
theorem solveNumaDomains_replays {input : ProposeInput} (hheld : r.mutexHeld = true)
    (h : r.solveNumaDomains input = .ok r') : r'.kernel = r.kernel.after (r.domainWrites input) := by
  unfold solveNumaDomains at h
  unfold domainWrites
  split at h
  · rename_i hgate
    cases h
    rw [if_pos hgate, after_nil]
  · rename_i hgate
    rw [if_neg hgate]
    cases hp : r.domainSolver.propose input with
    | error e => rw [hp] at h; cases h
    | ok ps =>
      obtain ⟨p, s⟩ := ps
      rw [hp] at h
      dsimp only at h ⊢
      split at h
      · rename_i hvalid
        rw [if_pos hvalid]
        unfold solveInvalid at h
        dsimp only at h
        split at h
        · rename_i hreleases
          rw [if_pos hreleases.1, after_restoreWrites]
          split at h
          · rw [commitProposal_kernel h]
            rfl
          · rw [triggerFatal_held _ (by exact hheld)] at h
            cases h
        · rename_i hreleases
          rw [commitProposal_kernel h]
          split
          · rename_i hmode
            have hempty : p.releasedTids.isEmpty = true := by
              rw [← Bool.not_eq_false]
              exact fun hne => hreleases ⟨hmode, hne⟩
            rw [after_restoreWrites, restore_of_isEmpty hempty]
          · rfl
      · rename_i hvalid
        rw [if_neg hvalid]
        split at h
        · rename_i hready
          cases h
          rw [if_pos (by simp [hready]), after_nil]
          rfl
        · rename_i hready
          split at h
          · rename_i hstable
            cases h
            rw [if_pos (by simp [hstable]), after_nil]
            rfl
          · rename_i hstable
            split at h
            · rename_i hplan
              rw [commitProposal_kernel h, if_pos (by simp only [Bool.or_eq_true]; exact Or.inr (by simpa using hplan)),
                after_nil]
            · rename_i hplan
              have hplan' : r.config.mode ≠ .plan := hplan
              rw [if_neg (by
                simp only [Bool.or_eq_true, decide_eq_true_eq, not_or]
                exact ⟨⟨hready, hstable⟩, hplan'⟩), after_append, after_restoreWrites]
              unfold solveActive at h
              split at h
              · rename_i hempty
                have hnone := restore_of_isEmpty (k := r.kernel) (a := r.actuator) hempty
                have hkernel : (r.restoreTids p.releasedTids).kernel = r.kernel := by rw [restoreTids, hnone]
                have hactor : (r.restoreTids p.releasedTids).actuator = r.actuator := by rw [restoreTids, hnone]
                have hsucc : (r.restoreTids p.releasedTids).lastRestore.success = true := by rw [restoreTids, hnone]; rfl
                rw [if_pos hsucc, hnone, (applyProposal_ok rfl h).1, ← hkernel, after_batchWrites, hkernel, hactor]
                rfl
              · dsimp only at h
                split at h
                · rename_i hsucc
                  rw [if_pos (by exact hsucc), (applyProposal_ok rfl h).1]
                  exact (after_batchWrites (r.restoreTids p.releasedTids) p.delta _).symm
                · rw [triggerFatal_held _ (by exact hheld)] at h
                  cases h

theorem applyPlacement_kernel (r : Runtime) (p : SolverProposal) (live : OrdSet Tid) (now : Nat) :
    (r.applyPlacement p live now).kernel = (Actuator.apply linux r.kernel r.actuator p.delta live).1 := by
  unfold applyPlacement
  dsimp only
  split <;> rfl

theorem restoreCooling_kernel (r : Runtime) (cooling : OrdSet Tid) :
    (r.restoreCooling cooling).1.kernel =
      r.kernel.after (if r.config.mode = .active then r.restoreWrites cooling else []) := by
  unfold restoreCooling
  by_cases hmode : r.config.mode = .active
  · rw [if_pos hmode, after_restoreWrites]
    by_cases hempty : cooling.isEmpty = true
    · rw [if_neg (by simp [hempty]), restore_of_isEmpty hempty]
    · rw [if_pos ⟨by simpa using hempty, hmode⟩]
  · rw [if_neg hmode, if_neg (fun h => hmode h.2), after_nil]

theorem solveIncremental_replays {dirtyTids : OrdSet Tid} {input : ProposeInput}
    (h : solveIncremental dirtyTids r input = .ok r') : (r.kernel.after (r.cohortWrites dirtyTids input)).Like r'.kernel := by
  have hcooled := restoreCooling_kernel r (r.coolingThreads (cohortOf (r.activeDemands input.threads input.edges)))
  have hmode : (r.restoreCooling (r.coolingThreads (cohortOf (r.activeDemands input.threads input.edges)))).1.config.mode =
      r.config.mode := by
    unfold restoreCooling
    split <;> rfl
  unfold solveIncremental at h
  unfold cohortWrites
  dsimp only at h ⊢
  rw [after_append, ← hcooled]
  split at h
  · rename_i hfailed
    cases h
    rw [if_pos hfailed]
    exact ⟨rfl, rfl⟩
  · rename_i hfailed
    rw [if_neg hfailed]
    split at h
    · rename_i hhealth
      cases h
      rw [if_pos (by rw [Bool.or_eq_true]; exact Or.inl hhealth)]
      exact ⟨rfl, rfl⟩
    · rename_i hhealth
      split at h
      · rename_i hquiet
        cases h
        rw [if_pos (by rw [Bool.or_eq_true]; exact Or.inr hquiet)]
        exact ⟨rfl, rfl⟩
      · rename_i hquiet
        rw [if_neg (by rw [Bool.or_eq_true, not_or]; exact ⟨hhealth, hquiet⟩)]
        unfold proposePlacement at h
        split at h
        · cases h
        · rename_i p s hp
          rw [hp]
          dsimp only at h ⊢
          split at h
          · rename_i hready
            cases h
            rw [if_pos (by simp [hready])]
            exact ⟨rfl, rfl⟩
          · rename_i hready
            split at h
            · rename_i hplan
              have hplan' : r.config.mode = .plan := hmode.symm.trans hplan
              cases h
              rw [if_pos (by simp [hplan'])]
              exact ⟨rfl, rfl⟩
            · rename_i hplan
              have hplan' : r.config.mode ≠ .plan := fun h => hplan (hmode.trans h)
              rw [if_neg (by
                rw [Bool.or_eq_true, not_or, decide_eq_true_eq]
                exact ⟨hready, hplan'⟩)]
              cases h
              refine .of_eq ?_
              rw [applyPlacement_kernel]
              exact (after_batchWrites { (r.restoreCooling (r.coolingThreads
                (cohortOf (r.activeDemands input.threads input.edges)))).1.coolDown _ _ with selectorReady := true }
                p.delta _).symm

theorem maybeSolve_replays {now : Nat} {dirtyTids : OrdSet Tid}
    (h : r.maybeSolve (solveIncremental dirtyTids) now = .ok r') :
    (r.kernel.after (r.solveWrites now dirtyTids)).Like r'.kernel := by
  unfold maybeSolve at h
  unfold solveWrites
  split at h
  · rename_i hdue
    cases h
    rw [if_pos (by simp [hdue])]
    exact ⟨rfl, rfl⟩
  · rename_i hdue
    split at h
    · cases h
    · rename_i hheld
      by_cases hmode : r.config.mode = .observe
      · simp only [hmode, if_true] at h
        cases h
        rw [if_pos (by simp [hmode])]
        exact ⟨rfl, rfl⟩
      · rw [if_neg (by simp only [Bool.or_eq_true, decide_eq_true_eq, not_or]; exact ⟨⟨hdue, hheld⟩, hmode⟩)]
        simp only [hmode, if_false] at h
        cases hsolver : r.config.solver with
        | numaDomain =>
          simp only [hsolver] at h
          split at h
          · rename_i r₁ hr₁
            cases h
            have hkernel := solveNumaDomains_replays (openWindow_mutexHeld r now) hr₁
            exact .of_eq hkernel
          · cases h
        | incrementalHotspot =>
          simp only [hsolver] at h
          split at h
          · rename_i r₁ hr₁
            cases h
            exact solveIncremental_replays hr₁
          · cases h

theorem pause_replays (h : r.pause = .ok r') : r'.kernel = r.kernel.after r.pauseWrites := by
  obtain ⟨hfree, rfl⟩ := pause_ok h
  unfold pauseWrites
  rw [hfree]
  exact (after_restoreAllWrites { r with paused := true }).symm

theorem triggerFatal_replays {message : String} (h : r.triggerFatal message = .ok r') :
    (r.kernel.after r.fatalWrites).Like r'.kernel := by
  unfold fatalWrites
  obtain ⟨-, ⟨hfatal, rfl⟩ | ⟨hfirst, r₁, hr₁, rfl⟩⟩ := triggerFatal_ok h
  · rw [if_pos hfatal]
    exact ⟨rfl, rfl⟩
  · have hsame : pauseWrites { r with fatalError := message } = r.pauseWrites := rfl
    have hkernel : r₁.kernel = r.kernel.after r.pauseWrites := by
      rw [pause_replays hr₁, hsame]
    rw [if_neg (not_not.2 hfirst), ← hkernel]
    exact ⟨rfl, rfl⟩

end Runtime

namespace Supervisor

variable {s s' : Supervisor}

theorem pause_kernel (h : s.pause = .ok s') : s'.kernel = s.kernel.after s.pauseWrites := by
  obtain ⟨r, hr, rfl⟩ := pause_ok h
  exact Runtime.pause_replays hr

theorem collectorFailure_kernel {now : Nat} (h : s.collectorFailure now = .ok s') :
    s'.kernel = s.kernel.after (s.failureWrites now) := by
  unfold failureWrites
  dsimp only
  obtain ⟨since, hsince, ⟨hlong, r, hr, rfl⟩ | ⟨hshort, rfl⟩⟩ := collectorFailure_ok h
  · rw [← hsince, if_pos hlong]
    exact Runtime.pause_replays hr
  · rw [← hsince, if_neg hshort]
    rfl

theorem bindProfile_kernel (s : Supervisor) (m : Matching) : (s.bindProfile m).kernel = s.kernel.after (s.bindWrites m) := by
  unfold bindProfile bindWrites
  split
  · exact (Runtime.after_batchWrites s.toRuntime _ _).symm
  · rfl

/-- **Nothing changes a thread but the writes listed**: an input that returns leaves the kernel's threads as `writesOf`
leaves them. -/
theorem handle_replays {e : Input} (h : s.handle e = .ok s') (hinside : ∀ k, e ≠ .outside k) :
    (s.kernel.after (s.writesOf e)).Like s'.kernel := by
  cases e with
  | outside k => exact absurd rfl (hinside k)
  | bpf event startSymbol =>
    cases h
    exact .of_eq (Runtime.handleBpfEvent_frame s.toRuntime _ event startSymbol).kernel
  | retain relations =>
    cases h
    exact ⟨rfl, rfl⟩
  | health valid windowReady lossRatio =>
    cases h
    exact ⟨rfl, rfl⟩
  | fatal message =>
    obtain ⟨r, hr, rfl⟩ := triggerFatal_ok h
    have hfree : s.mutexHeld = false := (Runtime.triggerFatal_ok hr).1
    simp only [writesOf, hfree, Bool.false_eq_true, if_false]
    exact Runtime.triggerFatal_replays hr
  | pause => exact .of_eq (pause_kernel h)
  | resume =>
    cases h
    exact ⟨rfl, rfl⟩
  | reconcile collected now =>
    simp only [writesOf]
    obtain ⟨hempty, hf⟩ | ⟨c, rfl, hsome, stopped, last, rfl⟩ := reconcileAndSample_ok h
    · cases collected with
      | none => exact .of_eq (collectorFailure_kernel hf)
      | some c =>
        rw [Option.all_some] at hempty
        dsimp only
        rw [if_pos hempty]
        exact .of_eq (collectorFailure_kernel hf)
    · dsimp only
      rw [if_neg (by simp [hsome]), bindProfile_kernel, (sampled_frame s c).kernel]
      exact ⟨rfl, rfl⟩
  | solve now dirtyTids =>
    simp only [writesOf]
    obtain ⟨hstatic, ⟨-, rfl⟩ | ⟨-, -, rfl⟩⟩ | ⟨hstatic, r, hr, rfl⟩ := maybeSolve_ok h
    · rw [if_pos hstatic]
      exact ⟨rfl, rfl⟩
    · rw [if_pos hstatic]
      exact ⟨rfl, rfl⟩
    · rw [if_neg (by simp [hstatic])]
      exact Runtime.maybeSolve_replays hr
  | shutdown =>
    cases h
    exact .of_eq (Runtime.after_restoreAllWrites s.toRuntime).symm

end Supervisor
end AffinityGraph
