import AffinityGraph.AppMasks
import AffinityGraph.ClosedLoop
/-!
# DomainMasks — the masks a committed window leaves on the members of its domains

What a thread may use is sampled, and what is sampled is what the policy wrote: a member's target is its domain's mask cut
down to the kernel mask of this turn.  `member_mask_iff` says for every committing window of every run when a member ends
with its domain's CPUs within its application mask: its kernel mask has all of those CPUs already, and, where the solver
takes the target for placed, no others.  So a mask of the policy can be narrowed and never widened
(`committed_expansion_keeps_mask`).
-/
namespace AffinityGraph

namespace Runtime

variable {r r' : Runtime} {input : ProposeInput} {now : Nat}

/-- The window ends in `commit` of a valid proposal: nothing failed, and there was something to do. -/
structure Commits (r : Runtime) (input : ProposeInput) : Prop where
  gate : r.bpfGatePassed = true
  ready : (r.proposal input).ready = true
  changes : ¬ ((r.proposal input).actions = [] ∧ (r.proposal input).releasedTids.isEmpty = true ∧
    (r.proposal input).plannedMasks = r.domainSolver.placement)
  success : (r.batch input).result.success = true
  somebody : (r.proposal input).actions = [] ∨ (r.batch input).result.committedTids.isEmpty = false

instance Commits.decidable (r : Runtime) (input : ProposeInput) : Decidable (r.Commits input) :=
  decidable_of_iff (r.bpfGatePassed = true ∧ (r.proposal input).ready = true ∧
      ¬ ((r.proposal input).actions = [] ∧ (r.proposal input).releasedTids.isEmpty = true ∧
        (r.proposal input).plannedMasks = r.domainSolver.placement) ∧
      (r.batch input).result.success = true ∧
      ((r.proposal input).actions = [] ∨ (r.batch input).result.committedTids.isEmpty = false))
    ⟨fun ⟨gate, ready, changes, success, somebody⟩ => ⟨gate, ready, changes, success, somebody⟩,
      fun h => ⟨h.gate, h.ready, h.changes, h.success, h.somebody⟩⟩

/-- What such a window leaves. -/
theorem Commits.solved (hc : r.Commits input) (hheld : r.mutexHeld = true) (hmode : r.config.mode ≠ .plan)
    (h : r.solveNumaDomains input = .ok r') : r'.kernel = (r.batch input).backend ∧
      r'.domainSolver.domains = (r.proposal input).domains ∧ SolveFrame r r' := by
  have hframe := (solveNumaDomains_ok hheld hmode h).1
  rcases solveNumaDomains_valid hheld hmode hc.gate (valid_of_ready hc.ready) h
    with ⟨-, -, -, -, hwait | ⟨-, hstable⟩⟩ | ⟨-, happlied⟩
  · exact absurd (hwait.symm.trans hc.ready) (by simp)
  · exact absurd hstable hc.changes
  · obtain ⟨hkernel, hdom, -⟩ := happlied hc.success hc.somebody
    exact ⟨hkernel, hdom, hframe⟩

end Runtime

namespace World

/-- The domain solver's supervisor, in active mode, has just started. -/
structure Launched (w : World) : Prop where
  initial : Initial w
  mode : w.runtime.config.mode = .active
  solver : w.runtime.config.solver = .numaDomain
  domains : w.runtime.domainSolver.domains = []

theorem Launched.loopInv {w : World} (h : Launched w) : LoopInv w := by
  refine ⟨h.mode, h.solver, ?_, ⟨?_, ?_⟩⟩
  · intro t hist hf
    rw [h.initial.graph] at hf
    cases hf
  · rw [h.domains]
    exact WellSplit.nil
  · rw [h.domains]
    simp

/-- The turn's window is due and commits; `r` is the runtime that has just sampled. -/
structure Commits (w : World) (probe : Tid → ThreadSample) (now : Nat) (r : Runtime) : Prop where
  sampled : w.sampled probe = .ok r
  due : r.due now = true
  window : (r.openWindow now).Commits (r.windowInput now).1

section Turn

variable {solveIncremental : Runtime → ProposeInput → Outcome Runtime} {w w' : World} {probe : Tid → ThreadSample}
  {now : Nat} {r : Runtime}

theorem Commits.turn (hc : w.Commits probe now r) (hinv : LoopInv w) (h : w.turn solveIncremental probe now = some w') :
    w'.history = w.history ∧ w'.kernel = ((r.openWindow now).batch (r.windowInput now).1).backend ∧
    w'.runtime.domainSolver.domains = (r.domainSolver.proposalOf (r.windowInput now).1).domains ∧
    Runtime.SolveFrame (r.openWindow now) w'.runtime := by
  obtain ⟨r₁, hr₁, hrest⟩ := Option.bind_eq_some_iff.1 h
  obtain ⟨r', hr', rfl⟩ := Option.map_eq_some_iff.1 hrest
  have hsame : r₁ = r := Except.ok.inj ((toOption_eq_some hr₁).symm.trans hc.sampled)
  subst hsame
  have hs := sampled_spec hc.sampled
  have hmode : r₁.config.mode = .active := by rw [hs.config]; exact hinv.mode
  have hsolver : r₁.config.solver = .numaDomain := by rw [hs.config]; exact hinv.solver
  have hsolve := toOption_eq_some hr'
  unfold Runtime.maybeSolve at hsolve
  rw [hc.due] at hsolve
  simp only [Bool.not_true, Bool.false_eq_true, if_false, hmode, hsolver, reduceCtorEq] at hsolve
  split at hsolve
  · cases hsolve
  · split at hsolve
    · rename_i r₂ hr₂
      have hplan : (r₁.openWindow now).config.mode ≠ .plan := by
        rw [Runtime.openWindow_config, hmode]
        simp
      obtain ⟨hkernel, hdomains, hframe⟩ := hc.window.solved (r₁.openWindow_mutexHeld now) hplan hr₂
      have hr := Except.ok.inj hsolve
      rw [← hr]
      exact ⟨rfl, hkernel, hdomains, hframe.unlock⟩
    · cases hsolve

theorem sorted_maskForNodes (hardware : HardwareGraph) (nodes : List Int) :
    (maskForNodes hardware nodes).Pairwise (· < ·) := OrdMap.sorted_keys _

/-- **What a committed window leaves on a member**, against its domain's mask cut down to any other mask `m`. -/
theorem mask_eq_iff {D k k' m : Mask} {placement allowed : OrdMap Tid Mask} {t : Tid} (hD : D.Pairwise (· < ·))
    (hk : k.Pairwise (· < ·)) (hallowed : allowed.find? t = some k)
    (h : NumaDomainSolver.need placement allowed t (intersectMasks D k) = .action ∧ k' = intersectMasks D k ∨
      NumaDomainSolver.need placement allowed t (intersectMasks D k) ≠ .action ∧ k' = k) :
    k' = intersectMasks D m ↔ intersectMasks D k = intersectMasks D m ∧
      (placement.find? t = some (intersectMasks D k) → ∀ x ∈ k, x ∈ D) := by
  unfold NumaDomainSolver.need at h
  by_cases hplaced : placement.find? t = some (intersectMasks D k)
  · -- the solver takes the target for placed, and the mask stays
    rw [if_pos hplaced] at h
    rcases h with ⟨hno, -⟩ | ⟨-, rfl⟩
    · cases hno
    · rw [eq_intersectMasks_iff hD hk]
      exact ⟨fun ⟨heq, hsub⟩ => ⟨heq, fun _ => hsub⟩, fun ⟨heq, hsub⟩ => ⟨heq, hsub hplaced⟩⟩
  · rw [if_neg hplaced] at h
    have htarget : k' = intersectMasks D k := by
      rcases h with ⟨-, heq⟩ | ⟨hneed, rfl⟩
      · exact heq
      · by_cases hhas : placement.find? t = none ∧ allowed.getD t [] = intersectMasks D k'
        · rw [OrdMap.getD, hallowed] at hhas
          exact hhas.2
        · rw [if_neg hhas] at hneed
          exact absurd rfl hneed
    rw [htarget]
    exact ⟨fun heq => ⟨heq, fun hp => absurd hp hplaced⟩, fun h => h.1⟩

/-- **When a member ends with its domain's mask.**  At every committing window of every run, a live member of a valid domain
has the online CPUs of the domain's nodes within its application mask afterwards if and only if its kernel mask before the
window has all of those CPUs, and has no others where the solver takes the target for placed. -/
theorem member_mask_iff {w₀ : World} {run : List Tick} (h0 : Launched w₀)
    (hrun : Run.exec (tick solveIncremental) w₀ run = some w) (hc : w.Commits probe now r)
    (hturn : w.turn solveIncremental probe now = some w') {d : NumaDomain} (hd : d ∈ w'.runtime.domainSolver.domains)
    (hvalid : d.valid = true) {t : Tid} (ht : t ∈ d.tids) {th : KThread} (hlive : w'.kernel.threads.find? t = some th)
    (htarget : th.tgid ∈ w'.runtime.targetTgids) {i : Incarnation} (hi : w'.history.find? t = some i) :
    ∃ k, r.kernel.maskOf t = some k ∧
      (th.mask.toList = intersectMasks (maskForNodes w'.runtime.hardware d.targetNodes) i.appMask ↔
        intersectMasks (maskForNodes w'.runtime.hardware d.targetNodes) k =
          intersectMasks (maskForNodes w'.runtime.hardware d.targetNodes) i.appMask ∧
        (r.domainSolver.placement.find? t = some (intersectMasks (maskForNodes w'.runtime.hardware d.targetNodes) k) →
          ∀ x ∈ k, x ∈ maskForNodes w'.runtime.hardware d.targetNodes)) := by
  have hinv : LoopInv w := Run.exec_keeps LoopInv (fun _ _ _ hw hstep => hw.tick hstep) h0.loopInv hrun
  have hs := sampled_spec hc.sampled
  obtain ⟨-, hkernel, hdomains, hframe⟩ := hc.turn hinv hturn
  -- the member was live, and sampled, before the window
  obtain ⟨th₀, hlive₀, htgid, -⟩ := hframe.tasks t th hlive
  have hkernel₀ : w.kernel.threads.find? t = some th₀ := by rw [← hs.kernel]; exact hlive₀
  have htarget₀ : th₀.tgid ∈ w.runtime.targetTgids := by
    rw [hframe.targets, Runtime.openWindow_targetTgids, hs.targets, htgid] at htarget
    exact mem_existing htarget
  have hstanding : NumaDomainSolver.Standing (r.windowInput now).1.hardware r.domainSolver := by
    rw [Runtime.windowInput_hardware]
    refine ⟨?_, ?_⟩
    · rw [hs.domains]
      exact hinv.standing.split
    · rw [hs.domains, hs.hardware]
      exact hinv.standing.mask
  have hthreads : (r.windowInput now).1.threads = r.graph.computeDemands := Runtime.windowInput_threads hs.demandCache
  have hkeyed := hs.wellKeyed hinv.keyed
  have hnodup : ((r.windowInput now).1.threads.map (·.identity.tid)).Nodup := by
    rw [hthreads]
    exact GraphWindow.nodup_computeDemands hkeyed
  rw [hdomains] at hd
  have hin : t ∈ r.graph.threads := by
    obtain ⟨x, hx, hxt, -⟩ := (NumaDomainSolver.proposalOf_seats hstanding.mask d hd).members t ht
    rw [hthreads] at hx
    exact (GraphWindow.mem_computeDemands hkeyed).1 (List.mem_map.2 ⟨x, hx, hxt⟩)
  have hallowed : (r.windowInput now).1.allowedMasks.find? t = some th₀.mask.toList :=
    hs.allowed hinv.keyed hkernel₀ htarget₀ hin
  have hhardware : w'.runtime.hardware = (r.windowInput now).1.hardware := hframe.hardware
  rw [hhardware]
  refine ⟨th₀.mask.toList, by rw [hs.kernel, Kernel.maskOf, hkernel₀]; rfl, ?_⟩
  -- what the window plans for it, and where the batch leaves it
  have hplan := NumaDomainSolver.plannedMasks_of_member hstanding hnodup (Runtime.valid_of_ready hc.window.ready) hd hvalid ht
  rw [NumaDomainSolver.targetFor, hallowed] at hplan
  have hmask : ((r.openWindow now).batch (r.windowInput now).1).backend.maskOf t = some th.mask.toList := by
    rw [← hkernel, Kernel.maskOf, hlive]
    rfl
  have hcase := mask_of_planned hc.window.ready hc.window.success hplan hmask
  refine mask_eq_iff (sorted_maskForNodes _ _) (OrdMap.sorted_keys _) hallowed (hcase.imp (fun h => ⟨h.1, h.2.1⟩) (fun h => ⟨h.1, ?_⟩))
  have hbefore : r.kernel.maskOf t = some th.mask.toList := h.2
  rw [hs.kernel, Kernel.maskOf, hkernel₀] at hbefore
  exact (Option.some.inj hbefore).symm

end Turn

/-! ### A family that outgrows its node -/

/-- Process 9 with its leader and two workers on two nodes of one CPU; nothing has to be confirmed. -/
def familyWorld : World where
  runtime :=
    { config :=
        { mode := .active
          solver := .numaDomain
          domainOptions :=
            { familyMinimumDemand := 1 / 2, familyMinimumInternalRelation := 0, familyMinimumSelfContainment := 0
              familyMinimumRelativeInternal := 0, familyStabilityConfirmations := 1, planConfirmations := 1
              expandRatio := 4 / 5, expandConfirmations := 1 } }
      hardware := { cpus := [⟨0, 0, true⟩, ⟨1, 1, true⟩] }
      rootPid := 9
      kernel := { threads := OrdMap.ofList [(1, ⟨9, 10, OrdSet.ofList [0, 1]⟩), (2, ⟨9, 10, OrdSet.ofList [0, 1]⟩),
        (9, ⟨9, 10, OrdSet.ofList [0, 1]⟩)] }
      graph := { horizonSeconds := 60, libm := ⟨id, id⟩ }
      targetTgids := OrdSet.ofList [9] }
  history := OrdMap.ofList [(1, { inherited := [0, 1] }), (2, { inherited := [0, 1] }), (9, { inherited := [0, 1] })]
  used := OrdSet.ofList [1, 2, 9]

theorem familyWorld_launched : Launched familyWorld where
  initial :=
    { actuator := rfl
      lifecycle := rfl
      pending := rfl
      graph := rfl
      threads := by
        intro t th h
        have hmem : (t, th) ∈ [(1, (⟨9, 10, OrdSet.ofList [0, 1]⟩ : KThread)), (2, ⟨9, 10, OrdSet.ofList [0, 1]⟩),
            (9, ⟨9, 10, OrdSet.ofList [0, 1]⟩)] := OrdMap.mem_entries.2 h
        have hthree : (t, th) = (1, ⟨9, 10, OrdSet.ofList [0, 1]⟩) ∨ (t, th) = (2, ⟨9, 10, OrdSet.ofList [0, 1]⟩) ∨
            (t, th) = (9, ⟨9, 10, OrdSet.ofList [0, 1]⟩) := by simpa using hmem
        rcases hthree with h1 | h1 | h1
        · cases h1
          exact ⟨by decide, rfl⟩
        · cases h1
          exact ⟨by decide, rfl⟩
        · cases h1
          exact ⟨by decide, rfl⟩ }
  mode := rfl
  solver := rfl
  domains := rfl

/-- The workers have used so many tenths of a second; the leader has used nothing. -/
def workersAt (seconds tenths : Nat) (t : Tid) : ThreadSample where
  identity := ⟨9, t, 10⟩
  timestampNs := seconds * 10 ^ 9
  runtimeNs := if t = 9 then 0 else tenths * 10 ^ 8
  recentCpu := 0
  comm := if t = 9 then "main" else "w"

/-- No window of these runs takes the other branch. -/
def noCohort : Runtime → ProposeInput → Outcome Runtime := fun r _ => .ok r

/-- Two workers at two fifths of a CPU each are put on node 0; then the leader forks a third. -/
def grownFamily : List Tick :=
  [.turn (workersAt 1 0) (10 ^ 9), .turn (workersAt 2 4) (2 * 10 ^ 9), .outside (.fork 9 3 9 11)]

/-- Whether the run is followed by a window that commits and leaves what meets `ok`. -/
def commitsIn (run : List Tick) (probe : Tid → ThreadSample) (now : Nat) (ok : Runtime → World → Bool) : Bool :=
  (Run.exec (tick noCohort) familyWorld run).any (fun w => (w.sampled probe).toOption.any (fun r =>
    r.due now && decide ((r.openWindow now).Commits (r.windowInput now).1) &&
      (w.turn noCohort probe now).any (ok r)))

theorem exists_of_commitsIn {run : List Tick} {probe : Tid → ThreadSample} {now : Nat} {ok : Runtime → World → Bool}
    (h : commitsIn run probe now ok = true) : ∃ w r w', Run.exec (tick noCohort) familyWorld run = some w ∧
      w.Commits probe now r ∧ w.turn noCohort probe now = some w' ∧ ok r w' = true := by
  obtain ⟨w, hw, h⟩ := (Option.any_eq_true _ _).1 h
  obtain ⟨r, hr, h⟩ := (Option.any_eq_true _ _).1 h
  simp only [Bool.and_eq_true, decide_eq_true_eq] at h
  obtain ⟨⟨hdue, hcommits⟩, h⟩ := h
  obtain ⟨w', hw', h⟩ := (Option.any_eq_true _ _).1 h
  exact ⟨w, r, w', hw, ⟨toOption_eq_some hr, hdue, hcommits⟩, hw', h⟩

/-- A member of a valid domain of the world, with its mask, its domain's mask and its application mask. -/
def memberView (w : World) (t : Tid) : Option (Mask × Mask × Mask) :=
  match w.runtime.domainSolver.domains.find? (fun d => d.valid && d.tids.contains t), w.kernel.threads.find? t,
      w.history.find? t with
  | some d, some th, some i =>
    if th.tgid ∈ w.runtime.targetTgids
    then some (th.mask.toList, maskForNodes w.runtime.hardware d.targetNodes, i.appMask) else none
  | _, _, _ => none

theorem memberView_some {w : World} {t : Tid} {k D m : Mask} (h : w.memberView t = some (k, D, m)) :
    ∃ d th i, d ∈ w.runtime.domainSolver.domains ∧ d.valid = true ∧ t ∈ d.tids ∧ w.kernel.threads.find? t = some th ∧
      th.tgid ∈ w.runtime.targetTgids ∧ w.history.find? t = some i ∧ th.mask.toList = k ∧
      maskForNodes w.runtime.hardware d.targetNodes = D ∧ i.appMask = m := by
  unfold memberView at h
  split at h
  · rename_i d th i hd hth hi
    split at h
    · rename_i htarget
      have hpred := List.find?_some hd
      simp only [Bool.and_eq_true, List.contains_iff_mem] at hpred
      simp only [Option.some.injEq, Prod.mk.injEq] at h
      exact ⟨d, th, i, List.mem_of_find?_eq_some hd, hpred.1, hpred.2, hth, htarget, hi, h.1, h.2.1, h.2.2⟩
    · cases h
  · cases h

/-- The first window puts worker 1 on its domain's node, within its application mask. -/
theorem member_mask_iff_first : ∃ w r w', Run.exec (tick noCohort) familyWorld [.turn (workersAt 1 0) (10 ^ 9)] = some w ∧
    w.Commits (workersAt 2 4) (2 * 10 ^ 9) r ∧ w.turn noCohort (workersAt 2 4) (2 * 10 ^ 9) = some w' ∧
    r.kernel.maskOf 1 = some [0, 1] ∧ w'.memberView 1 = some ([0], [0], [0, 1]) ∧
    ∃ k, r.kernel.maskOf 1 = some k ∧ ([0] = intersectMasks [0] [0, 1] ↔ intersectMasks [0] k = intersectMasks [0] [0, 1] ∧
      (r.domainSolver.placement.find? 1 = some (intersectMasks [0] k) → ∀ x ∈ k, x ∈ [0])) := by
  have hends : commitsIn [.turn (workersAt 1 0) (10 ^ 9)] (workersAt 2 4) (2 * 10 ^ 9) (fun r w' =>
      decide (r.kernel.maskOf 1 = some [0, 1]) && decide (w'.memberView 1 = some ([0], [0], [0, 1]))) = true := by
    decide +kernel
  obtain ⟨w, r, w', hrun, hc, hturn, hok⟩ := exists_of_commitsIn hends
  simp only [Bool.and_eq_true, decide_eq_true_eq] at hok
  obtain ⟨d, th, i, hd, hvalid, ht, hlive, htarget, hi, hk, hD, hm⟩ := memberView_some hok.2
  have hiff := member_mask_iff familyWorld_launched hrun hc hturn hd hvalid ht hlive htarget hi
  rw [hk, hD, hm] at hiff
  exact ⟨w, r, w', hrun, hc, hturn, hok.1, hok.2, hiff⟩

/-- **A committed expansion does not widen the masks**: once the workers need more than node 0 gives, a window commits both
nodes, and worker 1 stays on CPU 0. -/
theorem committed_expansion_keeps_mask : ∃ w r w', Launched familyWorld ∧
    Run.exec (tick noCohort) familyWorld grownFamily = some w ∧ w.Commits (workersAt 3 14) (3 * 10 ^ 9) r ∧
    w.turn noCohort (workersAt 3 14) (3 * 10 ^ 9) = some w' ∧
    ∃ d th i, d ∈ w'.runtime.domainSolver.domains ∧ d.valid = true ∧ 1 ∈ d.tids ∧
      w'.kernel.threads.find? 1 = some th ∧ th.tgid ∈ w'.runtime.targetTgids ∧ w'.history.find? 1 = some i ∧
      th.mask.toList = [0] ∧ intersectMasks (maskForNodes w'.runtime.hardware d.targetNodes) i.appMask = [0, 1] := by
  have hends : commitsIn grownFamily (workersAt 3 14) (3 * 10 ^ 9) (fun _ w' =>
      decide (w'.memberView 1 = some ([0], [0, 1], [0, 1]))) = true := by decide +kernel
  obtain ⟨w, r, w', hrun, hc, hturn, hok⟩ := exists_of_commitsIn hends
  obtain ⟨d, th, i, hd, hvalid, ht, hlive, htarget, hi, hk, hD, hm⟩ := memberView_some (of_decide_eq_true hok)
  refine ⟨w, r, w', familyWorld_launched, hrun, hc, hturn, d, th, i, hd, hvalid, ht, hlive, htarget, hi, hk, ?_⟩
  rw [hD, hm]
  decide

end World
end AffinityGraph
