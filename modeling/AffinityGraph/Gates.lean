import AffinityGraph.ProfileMatch
import AffinityGraph.Writes
/-!
# Gates — who may write: the mode and the pause

Two laws over whole runs.  In `Observe` and `Plan` nothing is ever written: no batch is made, so nothing is marked, so
there is nothing to restore.  While paused nothing but restores is to be written; the solve windows ask for the flag, the
batch of the thread profile does not, and `paused_writes_restore_iff` says for every run what that costs.
-/
namespace AffinityGraph

/-! ## Observe and Plan -/

namespace Runtime

variable {r r' : Runtime}

/-- The policy has written to no thread. -/
def Unacted (r : Runtime) : Prop := ∀ t, t ∉ r.actuator.actedTids

theorem Unacted.restoreAllWrites (h : r.Unacted) : r.restoreAllWrites = [] := by
  have hcalls : (Actuator.restoreAll (Actuator.logged linux) (r.kernel, []) r.actuator).backend.2 = [] := by
    refine List.eq_nil_iff_forall_not_mem.2 (fun c hc => ?_)
    obtain ⟨t, m⟩ := c
    exact h t ((Actuator.restoreAll_calls r.kernel r.actuator).1 hc).1
  simp [Runtime.restoreAllWrites, hcalls, writes]

theorem Unacted.pauseWrites (h : r.Unacted) : r.pauseWrites = [] := by
  unfold Runtime.pauseWrites
  split
  · rfl
  · have hpaused : Unacted { r with paused := true } := h
    exact hpaused.restoreAllWrites

/-- All a domain window can do in `Plan`. -/
structure PlanFrame (r r' : Runtime) : Prop where
  actuator : r'.actuator = r.actuator
  config : r'.config = r.config
  hardware : r'.hardware = r.hardware
  graph : r'.graph = r.graph

theorem commitProposal_frame {p : NumaDomainProposal} {now : Nat} {tids : OrdSet Tid}
    (h : r.commitProposal p now tids = .ok r') : PlanFrame r r' := by
  obtain ⟨s, rfl, -⟩ := commitProposal_ok h
  exact ⟨rfl, rfl, rfl, rfl⟩

/-- In `Plan` a domain window commits to the solver and to nothing else. -/
theorem solveNumaDomains_plan {input : ProposeInput} (hmode : r.config.mode = .plan)
    (h : r.solveNumaDomains input = .ok r') : PlanFrame r r' := by
  unfold solveNumaDomains at h
  split at h
  · cases h
    exact ⟨rfl, rfl, rfl, rfl⟩
  · split at h
    · cases h
    · dsimp only at h
      split at h
      · unfold solveInvalid at h
        rw [if_neg (fun hc => by simp [hmode] at hc)] at h
        obtain ⟨ha, hc, hh, hg⟩ := commitProposal_frame h
        exact ⟨ha, hc, hh, hg⟩
      · split at h
        · cases h
          exact ⟨rfl, rfl, rfl, rfl⟩
        · split at h
          · cases h
            exact ⟨rfl, rfl, rfl, rfl⟩
          · obtain ⟨ha, hc, hh, hg⟩ := commitProposal_frame h
            exact ⟨ha, hc, hh, hg⟩

theorem restoreCooling_plan (hmode : r.config.mode ≠ .active) (cooling : OrdSet Tid) :
    r.restoreCooling cooling = (r, {}) := by
  unfold restoreCooling
  rw [if_neg (fun h => hmode h.2)]

/-- In `Plan` so does an incremental one. -/
theorem solveIncremental_plan {dirtyTids : OrdSet Tid} {input : ProposeInput} (hmode : r.config.mode = .plan)
    (h : solveIncremental dirtyTids r input = .ok r') : r'.actuator = r.actuator ∧ r'.config = r.config := by
  have hcooled := restoreCooling_plan (r := r) (by rw [hmode]; decide)
  unfold solveIncremental at h
  dsimp only at h
  rw [hcooled] at h
  dsimp only at h
  split at h
  · cases h
    exact ⟨rfl, rfl⟩
  · split at h
    · cases h
      exact ⟨rfl, rfl⟩
    · split at h
      · cases h
        exact ⟨rfl, rfl⟩
      · unfold proposePlacement at h
        split at h
        · cases h
        · dsimp only at h
          split at h
          · cases h
            exact ⟨rfl, rfl⟩
          · rw [if_pos (by exact hmode)] at h
            cases h
            exact ⟨rfl, rfl⟩

/-- Outside `Active` a turn of the solver touches neither the actuator nor the configuration. -/
theorem maybeSolve_idle {now : Nat} {dirtyTids : OrdSet Tid} (hmode : r.config.mode ≠ .active)
    (h : r.maybeSolve (solveIncremental dirtyTids) now = .ok r') : r'.actuator = r.actuator ∧ r'.config = r.config := by
  unfold maybeSolve at h
  split at h
  · cases h
    exact ⟨rfl, rfl⟩
  · split at h
    · cases h
    · by_cases hobserve : r.config.mode = .observe
      · simp only [hobserve, if_true] at h
        cases h
        exact ⟨rfl, rfl⟩
      · have hplan : (r.openWindow now).config.mode = .plan := by
          rw [openWindow_config]
          cases hm : r.config.mode with
          | observe => exact absurd hm hobserve
          | plan => rfl
          | active => exact absurd hm hmode
        simp only [hobserve, if_false] at h
        cases hsolver : r.config.solver with
        | numaDomain =>
          simp only [hsolver] at h
          split at h
          · rename_i r₁ hr₁
            have hframe := solveNumaDomains_plan hplan hr₁
            cases h
            exact ⟨hframe.actuator, hframe.config⟩
          · cases h
        | incrementalHotspot =>
          simp only [hsolver] at h
          split at h
          · rename_i r₁ hr₁
            have hframe := solveIncremental_plan hplan hr₁
            cases h
            exact hframe
          · cases h

theorem domainWrites_plan {input : ProposeInput} (hmode : r.config.mode = .plan) : r.domainWrites input = [] := by
  unfold domainWrites
  split
  · rfl
  · split
    · rfl
    · split
      · rw [if_neg (by rw [hmode]; decide)]
      · rw [if_pos (by simp [hmode])]

theorem cohortWrites_plan {dirtyTids : OrdSet Tid} {input : ProposeInput} (hmode : r.config.mode = .plan) :
    r.cohortWrites dirtyTids input = [] := by
  unfold cohortWrites
  dsimp only
  rw [if_neg (by rw [hmode]; decide), List.nil_append]
  split
  · rfl
  · split
    · rfl
    · split
      · rfl
      · rw [if_pos (by simp [hmode])]

theorem solveWrites_idle {now : Nat} {dirtyTids : OrdSet Tid} (hmode : r.config.mode ≠ .active) :
    r.solveWrites now dirtyTids = [] := by
  unfold solveWrites
  split
  · rfl
  · rename_i hgo
    have hplan : (r.openWindow now).config.mode = .plan := by
      rw [openWindow_config]
      cases hm : r.config.mode with
      | observe => simp [hm] at hgo
      | plan => rfl
      | active => exact absurd hm hmode
    split
    · exact domainWrites_plan hplan
    · exact cohortWrites_plan hplan

end Runtime

namespace Supervisor

variable {s s' : Supervisor}

open AffinityGraph.Runtime (Unacted)

/-- A mode that only looks, and a supervisor that has not acted. -/
structure Idle (s : Supervisor) : Prop where
  mode : s.config.mode ≠ .active
  unacted : Unacted s.toRuntime

theorem Idle.writesOf (h : s.Idle) (e : Input) : s.writesOf e = [] := by
  have hfailure : ∀ now, s.failureWrites now = [] := by
    intro now
    unfold failureWrites
    dsimp only
    generalize (if s.collectorFailedSinceNs = 0 then now else s.collectorFailedSinceNs) = since
    split
    · exact h.unacted.pauseWrites
    · rfl
  cases e with
  | fatal message =>
    simp only [Supervisor.writesOf, Runtime.fatalWrites]
    split
    · rfl
    · split
      · rfl
      · exact h.unacted.pauseWrites
  | pause => exact h.unacted.pauseWrites
  | reconcile collected now =>
    simp only [Supervisor.writesOf]
    cases collected with
    | none => exact hfailure now
    | some c =>
      dsimp only
      split
      · exact hfailure now
      · unfold bindWrites
        rw [if_neg]
        intro hbind
        have hactive := hbind.2
        rw [(sampled_frame s c).config] at hactive
        exact h.mode hactive
  | solve now dirtyTids =>
    simp only [Supervisor.writesOf]
    split
    · rfl
    · exact Runtime.solveWrites_idle h.mode
  | shutdown => exact h.unacted.restoreAllWrites
  | outside kernel => rfl
  | bpf event startSymbol => rfl
  | retain relations => rfl
  | health valid windowReady lossRatio => rfl
  | resume => rfl

theorem Idle.paused (h : s.Idle) {r : Runtime} (hr : s.toRuntime.pause = .ok r) :
    r.config.mode ≠ .active ∧ Unacted r := by
  obtain ⟨-, rfl⟩ := Runtime.pause_ok hr
  exact ⟨h.mode, fun t => OrdMap.notMem_empty t⟩

theorem Idle.collectorFailure (h : s.Idle) {now : Nat} (hs : s.collectorFailure now = .ok s') : s'.Idle := by
  obtain ⟨since, -, ⟨-, r, hr, rfl⟩ | ⟨-, rfl⟩⟩ := collectorFailure_ok hs
  · exact ⟨(h.paused hr).1, (h.paused hr).2⟩
  · exact ⟨h.mode, h.unacted⟩

/-- **Every input keeps it so.** -/
theorem Idle.handle (h : s.Idle) {e : Input} (hs : s.handle e = .ok s') : s'.Idle := by
  cases e with
  | outside kernel =>
    cases hs
    exact ⟨h.mode, h.unacted⟩
  | bpf event startSymbol =>
    cases hs
    have hframe := Runtime.handleBpfEvent_frame s.toRuntime s.staticProfileEffective event startSymbol
    refine ⟨?_, fun t ht => h.unacted t ?_⟩
    · show (s.toRuntime.handleBpfEvent _ event startSymbol).config.mode ≠ .active
      rw [hframe.config]
      exact h.mode
    · rw [← hframe.acted]
      exact ht
  | retain relations =>
    cases hs
    exact ⟨h.mode, h.unacted⟩
  | health valid windowReady lossRatio =>
    cases hs
    exact ⟨h.mode, h.unacted⟩
  | fatal message =>
    obtain ⟨r, hr, rfl⟩ := triggerFatal_ok hs
    obtain ⟨-, ⟨-, rfl⟩ | ⟨-, r₁, hr₁, rfl⟩⟩ := Runtime.triggerFatal_ok hr
    · exact h
    · obtain ⟨-, rfl⟩ := Runtime.pause_ok hr₁
      exact ⟨h.mode, fun t => OrdMap.notMem_empty t⟩
  | pause =>
    obtain ⟨r, hr, rfl⟩ := pause_ok hs
    exact ⟨(h.paused hr).1, (h.paused hr).2⟩
  | resume =>
    cases hs
    exact ⟨h.mode, h.unacted⟩
  | reconcile collected now =>
    obtain ⟨-, hf⟩ | ⟨c, -, -, stopped, last, rfl⟩ := reconcileAndSample_ok hs
    · exact h.collectorFailure hf
    · have hframe := sampled_frame s c
      have hmode : (s.sampled c).config.mode ≠ .active := by
        rw [hframe.config]
        exact h.mode
      have hbind : (s.sampled c).bindProfile (s.matchSamples c.samples) = s.sampled c := by
        unfold bindProfile
        rw [if_neg (fun hc => hmode hc.2)]
      rw [hbind]
      refine ⟨hmode, fun t ht => h.unacted t ?_⟩
      rw [← hframe.acted]
      exact ht
  | solve now dirtyTids =>
    obtain ⟨-, ⟨-, rfl⟩ | ⟨-, -, rfl⟩⟩ | ⟨-, r, hr, rfl⟩ := maybeSolve_ok hs
    · exact h
    · exact ⟨h.mode, h.unacted⟩
    · obtain ⟨hactuator, hconfig⟩ := Runtime.maybeSolve_idle h.mode hr
      refine ⟨?_, fun t ht => h.unacted t ?_⟩
      · show r.config.mode ≠ .active
        rw [hconfig]
        exact h.mode
      · rw [← hactuator]
        exact ht
  | shutdown =>
    cases hs
    exact ⟨h.mode, fun t => OrdMap.notMem_empty t⟩

theorem step_handle {e : Input} (h : s.step e = some s') : s.ended = false ∧ s.handle e = .ok s' := by
  unfold step at h
  split at h
  · cases h
  · rename_i hended
    exact ⟨by simpa using hended, toOption_eq_some h⟩

theorem Idle.trace : ∀ (run : List Input) {s : Supervisor}, s.Idle → s.trace run = []
  | [], s, _ => rfl
  | e :: run, s, h => by
    unfold Supervisor.trace
    split
    · rfl
    · rw [h.writesOf e, List.nil_append]
      split
      · rename_i s' hs'
        exact Idle.trace run (h.handle (step_handle hs').2)
      · rfl

theorem create_unacted {l : Launch} (h : create l = .ok s) : Unacted s.toRuntime := by
  unfold create at h
  dsimp only at h
  generalize (if (l.collectorDegraded || (decide (l.config.solver = .numaDomain) && !l.bpfReader)) = true
    then { l.config with mode := .observe } else l.config) = config at h
  split at h
  · cases h
  · cases h
    exact fun t => OrdMap.notMem_empty t

/-- **Observe and Plan never write**: whatever happens to a supervisor that was started in one of them, it makes no
`set` call and marks no thread. -/
theorem idle_run_writes_nothing {l : Launch} {s₀ : Supervisor} (hstart : create l = .ok s₀)
    (hmode : s₀.config.mode = .observe ∨ s₀.config.mode = .plan) (run : List Input) :
    s₀.trace run = [] ∧ ∀ s, Run.exec step s₀ run = some s → ∀ t, t ∉ s.actuator.actedTids := by
  have hidle : s₀.Idle := ⟨by rcases hmode with h | h <;> rw [h] <;> decide, create_unacted hstart⟩
  refine ⟨hidle.trace run, fun s hs => ?_⟩
  exact (Run.exec_keeps Idle (fun s e s' hi he => hi.handle (step_handle he).2) hidle hs).unacted

/-- A rule that puts the threads named `w` on CPU 0. -/
def workerRule : ThreadProfileRule :=
  { id := "workers", criteria := { comm := some "w" }, allowedCpus := [0], affinities := [[0]] }

/-- Process 7 is one thread named `w` that may run on CPUs 0 and 1, under a static profile. -/
def workerLaunch (mode : Mode) : Launch where
  config := { mode := mode, solver := .numaDomain }
  hardware := { cpus := [⟨0, 0, true⟩, ⟨1, 0, true⟩] }
  rootPid := 7
  kernel := { threads := OrdMap.ofList [(7, ⟨7, 1, OrdSet.ofList [0, 1]⟩)] }
  horizonSeconds := 60
  libm := ⟨id, id⟩
  threadProfile := some { dynamic := { enabled := false }, placements := [workerRule] }

/-- The collector finds the one thread. -/
def workerCollected : Collected where
  existing := OrdSet.ofList [7]
  samples := [{ identity := ⟨7, 7, 1⟩, comm := "w", allowedCpus := [0, 1] }]

/-- The thread matches its rule, and the supervisor ends. -/
theorem idle_run_writes_nothing_matched : ∃ s₀, create (workerLaunch .plan) = .ok s₀ ∧
    (s₀.matchSamples workerCollected.samples).masks.isEmpty = false ∧
    s₀.trace [.reconcile (some workerCollected) 1, .solve (20 * 10 ^ 9) ∅, .pause, .shutdown] = [] := by
  have hstart : (create (workerLaunch .plan)).toOption.any (fun s => decide (s.config.mode = .plan) &&
      !(s.matchSamples workerCollected.samples).masks.isEmpty) = true := by decide +kernel
  obtain ⟨s₀, hs₀, h⟩ := (Option.any_eq_true _ _).1 hstart
  rw [Bool.and_eq_true, Bool.not_eq_true'] at h
  have hcreate := toOption_eq_some hs₀
  exact ⟨s₀, hcreate, h.2, (idle_run_writes_nothing hcreate (Or.inr (of_decide_eq_true h.1)) _).1⟩

/-! ## The pause -/

/-- No thread that is sampled while the supervisor is paused and active is a new match with CPUs to bind. -/
def QuietWhilePaused (s : Supervisor) : Input → Prop
  | .reconcile (some c) _ => s.ended = false → s.paused = true → s.config.mode = .active →
      ∀ x ∈ c.samples, s.newTarget x = none
  | _ => True

end Supervisor

namespace Runtime

variable {r : Runtime}

theorem mem_writes {purpose : Purpose} {calls : List (Tid × Mask)} {w : Write} (h : w ∈ r.writes purpose calls) :
    w.purpose = purpose ∧ w.paused = r.paused := by
  obtain ⟨c, -, rfl⟩ := List.mem_map.1 h
  exact ⟨rfl, rfl⟩

theorem mem_pauseWrites {w : Write} (h : w ∈ r.pauseWrites) : w.purpose = .restore := by
  unfold pauseWrites at h
  split at h
  · cases h
  · exact (mem_writes h).1

theorem mem_domainWrites {input : ProposeInput} {w : Write} (h : w ∈ r.domainWrites input) : w.paused = r.paused := by
  unfold domainWrites at h
  split at h
  · cases h
  · split at h
    · cases h
    · split at h
      · split at h
        · exact (mem_writes h).2
        · cases h
      · split at h
        · cases h
        · dsimp only at h
          rcases List.mem_append.1 h with h | h
          · exact (mem_writes h).2
          · split at h
            · exact (mem_writes h).2
            · cases h

theorem mem_cohortWrites {dirtyTids : OrdSet Tid} {input : ProposeInput} {w : Write}
    (h : w ∈ r.cohortWrites dirtyTids input) : w.paused = r.paused := by
  have hcooled : (r.restoreCooling (r.coolingThreads (cohortOf (r.activeDemands input.threads input.edges)))).1.paused =
      r.paused := by
    unfold restoreCooling
    split <;> rfl
  unfold cohortWrites at h
  dsimp only at h
  rcases List.mem_append.1 h with h | h
  · split at h
    · exact (mem_writes h).2
    · cases h
  · split at h
    · cases h
    · split at h
      · cases h
      · split at h
        · cases h
        · split at h
          · cases h
          · exact (mem_writes h).2.trans hcooled

/-- A window is solved only while the supervisor is not paused. -/
theorem mem_solveWrites {now : Nat} {dirtyTids : OrdSet Tid} {w : Write} (h : w ∈ r.solveWrites now dirtyTids) :
    w.paused = false := by
  unfold solveWrites at h
  split at h
  · cases h
  · rename_i hgo
    have hrunning : r.paused = false := by
      cases hp : r.paused with
      | false => rfl
      | true => simp [due, hp] at hgo
    split at h
    · exact (mem_domainWrites h).trans hrunning
    · exact (mem_cohortWrites h).trans hrunning

end Runtime

namespace Actuator

variable {κ : Type} {b : AffinityBackend κ}

/-- **A batch with a live thread to bind makes a call.** -/
theorem applyRun_logs (k : κ) (a : Actuator) {masks : OrdMap Tid Mask} {live : OrdSet Tid}
    (hlive : ∀ t ∈ masks, t ∈ live) (hmask : ∀ t m, masks.find? t = some m → m ≠ []) (hsome : masks.isEmpty = false) :
    (applyRun (logged b) (k, []) a masks live).backend.2 ≠ [] := by
  have hset : ∀ (s : κ × List (Tid × Mask)) t m, s.2 ≠ [] → ((logged b).set s t m).1.2 ≠ [] := by
    intro s t m _
    simp [logged]
  cases he : masks.entries with
  | nil => simp [OrdMap.isEmpty, he] at hsome
  | cons item rest =>
    have hitem : masks.find? item.1 = some item.2 := OrdMap.mem_entries.1 (by rw [he]; exact List.mem_cons_self)
    have hfirst : (applyStep (logged b) live { backend := (k, []), actuator := a, result := { requested := masks.size } }
        item).backend.2 ≠ [] := by
      have hwrite : (writeMask (logged b) (k, []) item.1 item.2).1.2 ≠ [] := by
        unfold writeMask
        rw [if_neg (hmask _ _ hitem)]
        simp [logged]
      rcases applyStep_cases (b := logged b) live
          { backend := (k, []), actuator := a, result := { requested := masks.size } } item.1 item.2
        with ⟨hs, -⟩ | ⟨-, hn, -⟩ | ⟨-, -, st', hb, -, -, -, hst, -⟩
      · cases hs
      · exact absurd (hlive _ (OrdMap.mem_of_find hitem)) hn
      · rw [hst, hb]
        exact hwrite
    have hloop := Loop.foldl_keeps (fun st : ApplyState (κ × List (Tid × Mask)) => st.backend.2 ≠ [])
      (applyStep_keeps hset live) rest hfirst
    unfold applyRun
    dsimp only
    rw [he, List.foldl_cons]
    split
    · exact Loop.foldl_keeps (fun st : ApplyState (κ × List (Tid × Mask)) => st.backend.2 ≠ [])
        (rollBackStep_keeps hset) _ hloop
    · exact hloop

end Actuator

namespace Supervisor

variable {s : Supervisor}

/-- **One input**: what it writes while paused is a restore, unless it binds a new match of the profile. -/
theorem writesOf_quiet_iff (hended : s.ended = false) (e : Input) :
    (∀ w ∈ s.writesOf e, w.paused = true → w.purpose = .restore) ↔ s.QuietWhilePaused e := by
  have hfailure : ∀ now, ∀ w ∈ s.failureWrites now, w.purpose = .restore := by
    intro now w hw
    unfold failureWrites at hw
    dsimp only at hw
    generalize (if s.collectorFailedSinceNs = 0 then now else s.collectorFailedSinceNs) = since at hw
    split at hw
    · exact Runtime.mem_pauseWrites hw
    · cases hw
  cases e with
  | fatal message =>
    refine iff_of_true (fun w hw _ => ?_) trivial
    simp only [writesOf, Runtime.fatalWrites] at hw
    split at hw
    · cases hw
    · split at hw
      · cases hw
      · exact Runtime.mem_pauseWrites hw
  | pause => exact iff_of_true (fun w hw _ => Runtime.mem_pauseWrites hw) trivial
  | solve now dirtyTids =>
    refine iff_of_true (fun w hw hp => ?_) trivial
    simp only [writesOf] at hw
    split at hw
    · cases hw
    · rw [Runtime.mem_solveWrites hw] at hp
      cases hp
  | shutdown => exact iff_of_true (fun w hw _ => (Runtime.mem_writes hw).1) trivial
  | outside kernel => exact iff_of_true (fun w hw => by cases hw) trivial
  | bpf event startSymbol => exact iff_of_true (fun w hw => by cases hw) trivial
  | retain relations => exact iff_of_true (fun w hw => by cases hw) trivial
  | health valid windowReady lossRatio => exact iff_of_true (fun w hw => by cases hw) trivial
  | resume => exact iff_of_true (fun w hw => by cases hw) trivial
  | reconcile collected now =>
    cases collected with
    | none => exact iff_of_true (fun w hw _ => hfailure now w hw) trivial
    | some c =>
      have hpaused := (sampled_frame s c).paused
      simp only [writesOf, QuietWhilePaused, hended, forall_const]
      by_cases hempty : c.samples.isEmpty = true
      · rw [if_pos hempty]
        refine iff_of_true (fun w hw _ => hfailure now w hw) (fun _ _ x hx => ?_)
        rw [List.isEmpty_iff.1 hempty] at hx
        cases hx
      · rw [if_neg hempty, ← matchSamples_isEmpty]
        unfold bindWrites
        rw [(sampled_frame s c).config]
        constructor
        · intro h hp hmode
          by_contra hmatch
          have hsome : (s.matchSamples c.samples).masks.isEmpty = false := by simpa using hmatch
          rw [if_pos ⟨hsome, hmode⟩] at h
          have hlog := Actuator.applyRun_logs (b := linux) (s.sampled c).kernel (s.sampled c).actuator
            (fun t ht => matchSamples_live.2 ht) (fun t m hm => by
              obtain ⟨x, -, -, hx⟩ := matchSamples_masks.1 hm
              exact newTarget_ne_nil hx) hsome
          obtain ⟨call, hcall⟩ := List.exists_mem_of_ne_nil _ hlog
          have hw : (⟨.batch, (s.sampled c).paused, call.1, call.2⟩ : Write) ∈
              (s.sampled c).batchWrites { tidToMask := (s.matchSamples c.samples).masks }
                (s.matchSamples c.samples).live := List.mem_map.2 ⟨call, hcall, rfl⟩
          have hrestore := h _ hw (hpaused.trans hp)
          cases hrestore
        · intro h w hw hp
          split at hw
          · rename_i hbind
            rw [(Runtime.mem_writes hw).2, hpaused] at hp
            rw [h hp hbind.2] at hbind
            cases hbind.1
          · cases hw

/-- **The pause holds exactly as long as the profile is quiet**: in a run nothing but restores is written while paused if
and only if no sampling of it, made while paused in active mode, finds a new match with CPUs to bind. -/
theorem paused_writes_restore_iff : ∀ (run : List Input) (s : Supervisor),
    (∀ w ∈ s.trace run, w.paused = true → w.purpose = .restore) ↔ Run.Obeys step QuietWhilePaused s run
  | [], s => iff_of_true (fun w hw => by cases hw) trivial
  | e :: run, s => by
    cases hended : s.ended with
    | true =>
      have hquiet : s.QuietWhilePaused e := by
        unfold QuietWhilePaused
        split
        · intro h
          rw [hended] at h
          cases h
        · trivial
      have hstop : s.step e = none := by rw [step, hended]; rfl
      have htrace : s.trace (e :: run) = [] := by rw [trace, hended]; rfl
      rw [htrace]
      refine iff_of_true (fun w hw => by cases hw) ⟨hquiet, fun s' hs' => ?_⟩
      rw [hstop] at hs'
      cases hs'
    | false =>
      have htrace : s.trace (e :: run) = s.writesOf e ++ (s.step e).elim [] (fun s' => trace s' run) := by
        rw [trace, hended, if_neg Bool.false_ne_true]
        cases s.step e with
        | none => rfl
        | some s' => rfl
      rw [htrace, Run.Obeys, ← writesOf_quiet_iff hended e]
      simp only [List.mem_append]
      cases hs : s.step e with
      | none => simp
      | some s' =>
        have ih := paused_writes_restore_iff run s'
        simp only [Option.mem_def, Option.some.injEq, forall_eq']
        rw [← ih]
        constructor
        · exact fun h => ⟨fun w hw => h w (Or.inl hw), fun w hw => h w (Or.inr hw)⟩
        · rintro ⟨h₁, h₂⟩ w (hw | hw)
          · exact h₁ w hw
          · exact h₂ w hw

/-- The supervisor is paused, and then the thread named `w` is first sampled. -/
def pausedMatch : List Input := [.pause, .reconcile (some workerCollected) 1]

/-- **A new match is bound while paused.** -/
theorem paused_match_is_bound : ∃ s₀, create (workerLaunch .active) = .ok s₀ ∧ s₀.config.mode = .active ∧
    ¬ ∀ w ∈ s₀.trace pausedMatch, w.paused = true → w.purpose = .restore := by
  have hstart : (create (workerLaunch .active)).toOption.any (fun s => decide (s.config.mode = .active) &&
      (s.trace pausedMatch).any (fun w => w.paused && decide (w.purpose = .batch))) = true := by decide +kernel
  obtain ⟨s₀, hs₀, h⟩ := (Option.any_eq_true _ _).1 hstart
  rw [Bool.and_eq_true, List.any_eq_true] at h
  obtain ⟨hmode, w, hw, hbad⟩ := h
  rw [Bool.and_eq_true] at hbad
  refine ⟨s₀, toOption_eq_some hs₀, of_decide_eq_true hmode, fun hall => ?_⟩
  have hrestore := hall w hw hbad.1
  rw [of_decide_eq_true hbad.2] at hrestore
  cases hrestore

end Supervisor
end AffinityGraph
