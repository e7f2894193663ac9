import AffinityGraph.WindowInv
/-!
# Departed — threads that have exited, and the proposals of later windows

An exit reaches the lifecycle table and the solvers, through `thread_exited` or through the sweep.  It does not reach the
window of samples, and that is where a solve window takes its threads from.  `Watch` carries, beside the supervisor, the
identities whose exit has been processed.  Once their samples have left the window no proposal names them and no domain
counts them (`Watch.departed_not_proposed`); until then both can happen (`Watch.departed_is_proposed`).
-/
namespace AffinityGraph

/-! ## What a solve window proposes -/

/-- A proposal of either solver; that of the domain solver with the window it was made for. -/
inductive WindowProposal where
  | domains (input : ProposeInput) (proposal : NumaDomainProposal)
  | placement (proposal : SolverProposal)

namespace Runtime

/-- The proposal of `solve_numa_domains`. -/
def domainProposal (r : Runtime) (input : ProposeInput) : Option WindowProposal :=
  if !r.bpfGatePassed then none else (r.domainSolver.propose input).toOption.map (fun x => .domains input x.1)

/-- The proposal of the incremental branch. -/
def cohortProposal (dirtyTids : OrdSet Tid) (r : Runtime) (input : ProposeInput) : Option WindowProposal :=
  let demands := r.activeDemands input.threads input.edges
  if !(r.restoreCooling (r.coolingThreads (cohortOf demands))).2.success then none
  else if !(r.cooled input).bpfHealthy || demands.isEmpty then none
  else ((r.cooled input).solver.propose (r.cohortInput input dirtyTids)).toOption.map (fun x => .placement x.1)

def windowProposal (r : Runtime) (now : Nat) (dirtyTids : OrdSet Tid) : Option WindowProposal :=
  if !r.due now || r.mutexHeld || decide (r.config.mode = .observe) then none
  else match r.config.solver with
    | .numaDomain => (r.openWindow now).domainProposal (r.windowInput now).1
    | .incrementalHotspot => (r.openWindow now).cohortProposal dirtyTids (r.windowInput now).1

end Runtime

/-- The proposal of a `maybe_solve`, when it makes one. -/
def Supervisor.proposes (s : Supervisor) (now : Nat) (dirtyTids : OrdSet Tid) : Option WindowProposal :=
  if s.staticProfileEffective then none else s.windowProposal now dirtyTids

/-- The proposal acts on none of these identities, and every domain's demand is the sum over threads that are none of
them. -/
def WindowProposal.Avoids (gone : List ThreadIdentity) : WindowProposal → Prop
  | .domains input p => (∀ a ∈ p.actions, a.identity ∉ gone) ∧
      ∀ d ∈ p.domains, d.demand = ((NumaDomainSolver.membersOf (NumaDomainSolver.byFamily input.threads) d.families).map
          (·.demand)).sum ∧
        ∀ th ∈ NumaDomainSolver.membersOf (NumaDomainSolver.byFamily input.threads) d.families, th.identity ∉ gone
  | .placement p => ∀ a ∈ p.actions, a.identity ∉ gone

/-- **A window proposes for the threads of its samples.** -/
theorem Runtime.Sound.proposal_avoids {r : Runtime} (h : r.Sound) {gone : List ThreadIdentity}
    (hgone : ∀ i ∈ gone, i ∉ r.graph.identities) {now : Nat} {dirtyTids : OrdSet Tid} {p : WindowProposal}
    (hp : r.windowProposal now dirtyTids = some p) : p.Avoids gone := by
  have hwindow : ∀ th ∈ (r.windowInput now).1.threads, th.identity ∉ gone := fun th hth hin =>
    hgone _ hin (h.windowInput_identity hth)
  unfold Runtime.windowProposal at hp
  split at hp
  · cases hp
  · split at hp
    · unfold Runtime.domainProposal at hp
      split at hp
      · cases hp
      · obtain ⟨⟨q, s⟩, hq, rfl⟩ := Option.map_eq_some_iff.1 hp
        obtain ⟨-, rfl, -⟩ := NumaDomainSolver.propose_ok (toOption_eq_some hq)
        refine ⟨fun a ha => ?_, fun d hd => ⟨NumaDomainSolver.proposalOf_counts hd, fun th hth => ?_⟩⟩
        · obtain ⟨th, hth, hid⟩ := NumaDomainSolver.action_identity ha
          rw [← hid]
          exact hwindow th hth
        · exact hwindow th (NumaDomainSolver.mem_membersOf.1 hth).1
    · rename_i hkind
      unfold Runtime.cohortProposal at hp
      dsimp only at hp
      split at hp
      · cases hp
      · split at hp
        · cases hp
        · obtain ⟨⟨q, s⟩, hq, rfl⟩ := Option.map_eq_some_iff.1 hp
          have hsound := (h.openWindow now).cooled (r.windowInput now).1
          have hrest := hsound.solver (by rw [(Runtime.cooled_frame _ _).1]; exact hkind)
          have hsub := (r.openWindow now).activeDemands_sublist (r.windowInput now).1.threads (r.windowInput now).1.edges
          have hnodup := (h.windowInput_nodup now).sublist (hsub.map (·.identity.tid))
          intro a ha
          obtain ⟨⟨th, hth, hid⟩, -⟩ := IncrementalSolver.propose_identities hsound.discovered
            (hrest.reached.kept hsound.discovered) hrest.settled hnodup (toOption_eq_some hq) ha
          rw [← hid]
          exact hwindow th (hsub.subset hth)

/-! ## Exits -/

/-- The supervisor, and the identities whose exit it has processed. -/
structure Watch where
  supervisor : Supervisor
  exited : List ThreadIdentity := []

/-- An exit event is told with the identity of the thread; the supervisor reads the TID of it. -/
inductive WatchEvent where
  | exit (identity : ThreadIdentity)
  | input (input : Input)

namespace Watch

def inputOf : WatchEvent → Input
  | .exit identity => .bpf { kind := .taskExit, tgid := identity.tgid, tid := identity.tid } ""
  | .input input => input

/-- What the supervisor knows a TID as: by its record, and by its last sample. -/
def knownAs (r : Runtime) (tid : Tid) : List ThreadIdentity :=
  ((r.lifecycle.find? tid).map (fun record => ⟨record.tgid, tid, record.procStarttime⟩)).toList ++
    ((r.graph.threads.find? tid).bind (fun h => h.getLast?.map (·.identity))).toList

/-- The identities whose exit an event has the supervisor process: the one that the event tells of, or those of the
records that the sweep drops. -/
def exitsOf (s : Supervisor) : WatchEvent → List ThreadIdentity
  | .exit identity => [identity]
  | .input (.reconcile (some c) _) =>
    if c.samples.isEmpty then [] else
    let r := c.samples.foldl Runtime.sampleThread { s.toRuntime with targetTgids := c.existing }
    (r.lifecycle.keys.filter (fun t => !(c.samples.map (·.identity.tid)).contains t)).flatMap (knownAs r)
  | .input _ => []

def step (w : Watch) (e : WatchEvent) : Option Watch :=
  (w.supervisor.step (inputOf e)).map (fun s => ⟨s, w.exited ++ exitsOf w.supervisor e⟩)

/-- A solve window is opened only when every exited identity has left the samples. -/
def Cleared (w : Watch) : WatchEvent → Prop
  | .input (.solve _ _) => ∀ i ∈ w.exited, i ∉ w.supervisor.graph.identities
  | _ => True

instance Cleared.decidable (w : Watch) : ∀ e, Decidable (w.Cleared e)
  | .exit _ => isTrue trivial
  | .input (.solve _ _) => List.decidableBAll (fun i => i ∉ w.supervisor.graph.identities) w.exited
  | .input (.outside _) => isTrue trivial
  | .input (.bpf _ _) => isTrue trivial
  | .input (.retain _) => isTrue trivial
  | .input (.health _ _ _) => isTrue trivial
  | .input (.fatal _) => isTrue trivial
  | .input .pause => isTrue trivial
  | .input .resume => isTrue trivial
  | .input (.reconcile _ _) => isTrue trivial
  | .input .shutdown => isTrue trivial

theorem sound_exec {w w' : Watch} {run : List WatchEvent} (h : Runtime.Sound w.supervisor.toRuntime)
    (hrun : Run.exec step w run = some w') : Runtime.Sound w'.supervisor.toRuntime := by
  refine Run.exec_keeps (fun w : Watch => Runtime.Sound w.supervisor.toRuntime) (fun w e w' hw hstep => ?_) h hrun
  obtain ⟨s, hs, rfl⟩ := Option.map_eq_some_iff.1 hstep
  exact Supervisor.sound_handle hw (Supervisor.step_handle hs).2

/-- **A thread that has exited is not proposed for, and not counted**, in any window of any run whose windows are opened
when the samples of the exited threads have left the graph. -/
theorem departed_not_proposed {l : Launch} {s₀ : Supervisor} (hd : l.hardware.Discovered)
    (hstart : Supervisor.create l = .ok s₀) {run : List WatchEvent} {now : Nat} {dirtyTids : OrdSet Tid}
    (hcleared : Run.Obeys step Cleared ⟨s₀, []⟩ (run ++ [.input (.solve now dirtyTids)])) {w : Watch}
    (hrun : Run.exec step ⟨s₀, []⟩ run = some w) {p : WindowProposal}
    (hp : w.supervisor.proposes now dirtyTids = some p) : p.Avoids w.exited := by
  have hsound := sound_exec (Supervisor.sound_create hd hstart) hrun
  have hgone : ∀ i ∈ w.exited, i ∉ w.supervisor.graph.identities := hcleared.concat.2 w hrun
  unfold Supervisor.proposes at hp
  split at hp
  · cases hp
  · exact hsound.proposal_avoids hgone hp

/-! ### One thread of two leaves -/

/-- Two workers of process 9; nothing has to be confirmed, and a family needs a quarter of a CPU. -/
def leaverLaunch (kind : SolverKind) : Launch where
  config :=
    { mode := .active
      solver := kind
      minimumConfidence := 0
      domainOptions :=
        { familyMinimumDemand := 1 / 4, familyMinimumInternalRelation := 0, familyMinimumSelfContainment := 0
          familyMinimumRelativeInternal := 0, familyStabilityConfirmations := 1, planConfirmations := 1 } }
  hardware := { cpus := [⟨0, 0, true⟩, ⟨1, 1, true⟩] }
  rootPid := 9
  kernel := { threads := OrdMap.ofList [(1, ⟨9, 10, OrdSet.ofList [0, 1]⟩), (2, ⟨9, 10, OrdSet.ofList [0, 1]⟩)] }
  horizonSeconds := 60
  libm := ⟨id, id⟩

/-- A worker that has used two fifths of the time so far. -/
def workerAt (tid : Tid) (seconds : Nat) : ThreadSample where
  identity := ⟨9, tid, 10⟩
  timestampNs := seconds * 10 ^ 9
  runtimeNs := seconds * (4 * 10 ^ 8)
  recentCpu := 1
  comm := "w"
  allowedCpus := [0, 1]

theorem workers_distinct (seconds : Nat) :
    ([workerAt 1 seconds, workerAt 2 seconds].map (·.identity.tid)).Nodup := by simp [workerAt]

def bothAt (seconds : Nat) : WatchEvent :=
  .input (.reconcile (some
    { existing := OrdSet.ofList [9]
      samples := [workerAt 1 seconds, workerAt 2 seconds]
      distinct := workers_distinct seconds }) (seconds * 10 ^ 9))

def secondAt (seconds : Nat) : WatchEvent :=
  .input (.reconcile (some
    { existing := OrdSet.ofList [9]
      samples := [workerAt 2 seconds]
      distinct := by simp }) (seconds * 10 ^ 9))

/-- Both are sampled twice, then the first exits, and its exit is processed. -/
def leaves : List WatchEvent :=
  [.input (.health true true 0), bothAt 1, bothAt 2,
    .input (.outside { threads := OrdMap.ofList [(2, ⟨9, 10, OrdSet.ofList [0, 1]⟩)] }), .exit ⟨9, 1, 10⟩]

/-- The proposal acts on the identity, and a domain counts it. -/
def Names (i : ThreadIdentity) : WindowProposal → Bool
  | .domains input p => p.actions.any (fun a => decide (a.identity = i)) &&
      p.domains.any (fun d => (NumaDomainSolver.membersOf (NumaDomainSolver.byFamily input.threads) d.families).any
        (fun th => decide (th.identity = i)))
  | .placement p => p.actions.any (fun a => decide (a.identity = i))

theorem not_avoids_of_names {i : ThreadIdentity} {p : WindowProposal} {gone : List ThreadIdentity} (hi : i ∈ gone)
    (h : Names i p = true) : ¬ p.Avoids gone := by
  intro havoids
  cases p with
  | domains input q =>
    rw [Names, Bool.and_eq_true, List.any_eq_true] at h
    obtain ⟨⟨a, ha, hid⟩, -⟩ := h
    have hid' : a.identity = i := of_decide_eq_true hid
    exact havoids.1 a ha (by rw [hid']; exact hi)
  | placement q =>
    rw [Names, List.any_eq_true] at h
    obtain ⟨a, ha, hid⟩ := h
    have hid' : a.identity = i := of_decide_eq_true hid
    exact havoids a ha (by rw [hid']; exact hi)

/-- Whether the run ends in a window with a proposal that meets `ok`. -/
def endsIn (kind : SolverKind) (run : List WatchEvent) (now : Nat) (ok : Watch → WindowProposal → Bool) : Bool :=
  (Supervisor.create (leaverLaunch kind)).toOption.any (fun s₀ => (Run.exec step ⟨s₀, []⟩ run).any (fun w =>
    (w.supervisor.proposes now ∅).any (ok w)))

theorem exists_of_endsIn {kind : SolverKind} {run : List WatchEvent} {now : Nat} {ok : Watch → WindowProposal → Bool}
    (h : endsIn kind run now ok = true) : ∃ s₀ w p, Supervisor.create (leaverLaunch kind) = .ok s₀ ∧
      Run.exec step ⟨s₀, []⟩ run = some w ∧ w.supervisor.proposes now ∅ = some p ∧ ok w p = true := by
  obtain ⟨s₀, hs₀, h⟩ := (Option.any_eq_true _ _).1 h
  obtain ⟨w, hw, h⟩ := (Option.any_eq_true _ _).1 h
  obtain ⟨p, hp, h⟩ := (Option.any_eq_true _ _).1 h
  exact ⟨s₀, w, p, toOption_eq_some hs₀, hw, hp, h⟩

/-- A minute later the samples of the first worker are gone, and the window proposes for the second alone. -/
theorem departed_not_proposed_second : ∃ s₀ w p, Supervisor.create (leaverLaunch .numaDomain) = .ok s₀ ∧
    Run.exec step ⟨s₀, []⟩ (leaves ++ [secondAt 63, secondAt 64]) = some w ∧ ⟨9, 1, 10⟩ ∈ w.exited ∧
    w.supervisor.proposes (64 * 10 ^ 9) ∅ = some p ∧ Names ⟨9, 2, 10⟩ p = true ∧ p.Avoids w.exited := by
  have hends : endsIn .numaDomain (leaves ++ [secondAt 63, secondAt 64]) (64 * 10 ^ 9) (fun w p =>
      decide (⟨9, 1, 10⟩ ∈ w.exited) && Names ⟨9, 2, 10⟩ p) = true := by decide +kernel
  have hobeys : (Supervisor.create (leaverLaunch .numaDomain)).toOption.all (fun s₀ => decide (Run.Obeys step Cleared ⟨s₀, []⟩
      (leaves ++ [secondAt 63, secondAt 64] ++ [.input (.solve (64 * 10 ^ 9) ∅)]))) = true := by decide +kernel
  obtain ⟨s₀, w, p, hcreate, hrun, hp, hok⟩ := exists_of_endsIn hends
  rw [Bool.and_eq_true] at hok
  rw [hcreate] at hobeys
  have hd : (leaverLaunch .numaDomain).hardware.Discovered := ⟨by decide, by decide⟩
  exact ⟨s₀, w, p, hcreate, hrun, of_decide_eq_true hok.1, hp, hok.2,
    departed_not_proposed hd hcreate (of_decide_eq_true hobeys) hrun hp⟩

/-- The exit of the first worker is processed, the second is sampled again, and a window passes; the next one still
proposes for the first. -/
def ProposedAfterExit (kind : SolverKind) : Prop :=
  ∃ s₀ w p, Supervisor.create (leaverLaunch kind) = .ok s₀ ∧
    Run.exec step ⟨s₀, []⟩ (leaves ++ [secondAt 3, .input (.solve (3 * 10 ^ 9) ∅)]) = some w ∧
    w.supervisor.proposes (5 * 10 ^ 9) ∅ = some p ∧ ⟨9, 1, 10⟩ ∈ w.exited ∧ Names ⟨9, 1, 10⟩ p = true ∧
    ¬ p.Avoids w.exited

theorem proposedAfterExit_of_ends {kind : SolverKind}
    (h : endsIn kind (leaves ++ [secondAt 3, .input (.solve (3 * 10 ^ 9) ∅)]) (5 * 10 ^ 9) (fun w p =>
      decide (⟨9, 1, 10⟩ ∈ w.exited) && Names ⟨9, 1, 10⟩ p) = true) : ProposedAfterExit kind := by
  obtain ⟨s₀, w, p, hcreate, hrun, hp, hok⟩ := exists_of_endsIn h
  rw [Bool.and_eq_true] at hok
  have hexited : ⟨9, 1, 10⟩ ∈ w.exited := of_decide_eq_true hok.1
  exact ⟨s₀, w, p, hcreate, hrun, hp, hexited, hok.2, not_avoids_of_names hexited hok.2⟩

/-- **A thread that has exited is proposed for**, by either solver, and the domain solver counts its demand. -/
theorem departed_is_proposed : ProposedAfterExit .numaDomain ∧ ProposedAfterExit .incrementalHotspot :=
  ⟨proposedAfterExit_of_ends (by decide +kernel), proposedAfterExit_of_ends (by decide +kernel)⟩

end Watch
end AffinityGraph
