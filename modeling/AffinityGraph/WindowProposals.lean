import AffinityGraph.Departed
/-!
# WindowProposals — the incremental solver under the supervisor

What is proved of the incremental solver is proved of the states its own protocol reaches.  Every run of the supervisor keeps
that protocol: a window asks for a proposal only when the last one is settled, commits exactly the actions whose threads it has
not removed since, and gives every thread once (`Runtime.Sound`).  So each proposal of each window is well formed.
-/
namespace AffinityGraph

/-- The state the solver of a window proposes from. -/
theorem Runtime.Sound.cohort_resting {r : Runtime} (h : r.Sound) (hkind : r.config.solver = .incrementalHotspot) (now : Nat) :
    IncrementalSolver.Resting r.hardware ((r.openWindow now).cooled (r.windowInput now).1).solver := by
  obtain ⟨hconfig, hhardware⟩ := (r.openWindow now).cooled_frame (r.windowInput now).1
  have hrest := ((h.openWindow now).cooled (r.windowInput now).1).solver (by rw [hconfig]; exact hkind)
  rw [hhardware] at hrest
  exact hrest

/-- **A window's proposal is the solver's answer at rest, and well formed.** -/
theorem Runtime.Sound.placement_wellFormed {r : Runtime} (h : r.Sound) {now : Nat} {dirtyTids : OrdSet Tid}
    {p : SolverProposal} (hp : r.windowProposal now dirtyTids = some (.placement p)) :
    r.config.solver = .incrementalHotspot ∧
    ∃ s, ((r.openWindow now).cooled (r.windowInput now).1).solver.propose
        ((r.openWindow now).cohortInput (r.windowInput now).1 dirtyTids) = .ok (p, s) ∧
      IncrementalSolver.WellFormed r.hardware r.incrementalOptions s p := by
  unfold Runtime.windowProposal at hp
  split at hp
  · cases hp
  · split at hp
    · unfold Runtime.domainProposal at hp
      split at hp
      · cases hp
      · obtain ⟨x, -, hx⟩ := Option.map_eq_some_iff.1 hp
        cases hx
    · rename_i hkind
      unfold Runtime.cohortProposal at hp
      dsimp only at hp
      split at hp
      · cases hp
      · split at hp
        · cases hp
        · obtain ⟨⟨q, s⟩, hq, hqp⟩ := Option.map_eq_some_iff.1 hp
          cases hqp
          have hpropose := toOption_eq_some hq
          obtain ⟨hconfig, hhardware⟩ := (r.openWindow now).cooled_frame (r.windowInput now).1
          have hrest := h.cohort_resting hkind now
          have hform := hrest.reached.proposal_wellFormed h.discovered hhardware hrest.settled hpropose
          have hoptions : ((r.openWindow now).cohortInput (r.windowInput now).1 dirtyTids).options = r.incrementalOptions := by
            show ((r.openWindow now).cooled (r.windowInput now).1).incrementalOptions = _
            unfold Runtime.incrementalOptions
            rw [hconfig]
            rfl
          rw [hoptions] at hform
          exact ⟨hkind, s, hpropose, hform⟩

namespace Supervisor

open IncrementalSolver (Resting WellFormed)

variable {l : Launch} {s₀ s : Supervisor} {run : List Input}

/-- **Under the supervisor the incremental solver keeps to its protocol**, and every proposal it makes for a window is well
formed. -/
theorem window_proposals_wellFormed (hd : l.hardware.Discovered) (hstart : create l = .ok s₀)
    (hrun : Run.exec step s₀ run = some s) :
    (s.config.solver = .incrementalHotspot → Resting s.hardware s.solver) ∧
    ∀ now dirtyTids p, s.proposes now dirtyTids = some (.placement p) →
      ∃ t, ((s.openWindow now).cooled (s.windowInput now).1).solver.propose
          ((s.openWindow now).cohortInput (s.windowInput now).1 dirtyTids) = .ok (p, t) ∧
        WellFormed s.hardware s.incrementalOptions t p := by
  have hsound : Runtime.Sound s.toRuntime :=
    Run.exec_keeps (fun s : Supervisor => Runtime.Sound s.toRuntime) (fun s e s' h hs => sound_handle h (step_handle hs).2)
      (sound_create hd hstart) hrun
  refine ⟨hsound.solver, fun now dirtyTids p hp => ?_⟩
  unfold proposes at hp
  split at hp
  · cases hp
  · exact (hsound.placement_wellFormed hp).2

/-- Two workers are sampled three times, with a window after the second. -/
def pinsWorkers : List Input :=
  [.health true true 0, Watch.inputOf (Watch.bothAt 1), Watch.inputOf (Watch.bothAt 2), .solve (2 * 10 ^ 9) ∅,
    Watch.inputOf (Watch.bothAt 3)]

/-- The next window pins the second worker, and leaves the first where it was found. -/
theorem window_proposals_wellFormed_workers : ∃ s₀ s p, create (Watch.leaverLaunch .incrementalHotspot) = .ok s₀ ∧
    Run.exec step s₀ pinsWorkers = some s ∧ Resting s.hardware s.solver ∧
    s.proposes (4 * 10 ^ 9) ∅ = some (.placement p) ∧
    p.actions.map (fun a => (a.identity.tid, a.fromCpu, a.targetCpu)) = [(2, 1, 0), (1, 1, 1)] ∧
    ∃ t, WellFormed s.hardware s.incrementalOptions t p := by
  have hends : (create (Watch.leaverLaunch .incrementalHotspot)).toOption.any (fun s₀ =>
      (Run.exec step s₀ pinsWorkers).any (fun s => decide (s.config.solver = .incrementalHotspot) &&
        (s.proposes (4 * 10 ^ 9) ∅).any (fun p => match p with
          | .placement p =>
            decide (p.actions.map (fun a => (a.identity.tid, a.fromCpu, a.targetCpu)) = [(2, 1, 0), (1, 1, 1)])
          | .domains _ _ => false))) = true := by decide +kernel
  obtain ⟨s₀, hs₀, hends⟩ := (Option.any_eq_true _ _).1 hends
  obtain ⟨s, hrun, hends⟩ := (Option.any_eq_true _ _).1 hends
  rw [Bool.and_eq_true] at hends
  obtain ⟨hkind, hends⟩ := hends
  obtain ⟨p, hp, hactions⟩ := (Option.any_eq_true _ _).1 hends
  have hd : (Watch.leaverLaunch .incrementalHotspot).hardware.Discovered := ⟨by decide, by decide⟩
  obtain ⟨hrest, hform⟩ := window_proposals_wellFormed hd (toOption_eq_some hs₀) hrun
  cases p with
  | domains input p => cases hactions
  | placement p =>
    obtain ⟨t, -, ht⟩ := hform _ _ _ hp
    exact ⟨s₀, s, p, toOption_eq_some hs₀, hrun, hrest (of_decide_eq_true hkind), hp, of_decide_eq_true hactions, t, ht⟩

end Supervisor
end AffinityGraph
