import AffinityGraph.Cooldown
/-!
# ExactGains — the gain of a move is what it takes off the cost

`incident_cost` goes through the edges of one thread, so a swap counts the edge between its two threads at both of them,
before and after; with symmetric latencies the two counts are the same and cancel.  Nothing is asked of the hardware but
that, and of the solver only what every run keeps: each thread is on record under its own TID.
-/
namespace AffinityGraph
namespace IncrementalSolver

section Gains

variable {s s' : IncrementalSolver} {input : IncrementalInput} {p : SolverProposal}

theorem Named.identityOf_tid (h : Named s) {t : Tid} (ht : t ∈ s.threads) : (identityOf s t).tid = t := by
  obtain ⟨i, hi⟩ := OrdMap.mem_iff.1 (h.known t ht)
  have hid : identityOf s t = i := by
    unfold identityOf
    rw [OrdMap.getD, hi]
    rfl
  rw [hid]
  exact h.keyed t i hi

theorem named_step (h : Named s) {call : Call} (hstep : step s call = some s') : Named s' := by
  cases call with
  | propose input =>
    obtain ⟨⟨p, t⟩, hp, rfl⟩ := Option.map_eq_some_iff.1 hstep
    rcases propose_moves h (toOption_eq_some hp) with ⟨-, rfl⟩ | ⟨-, hnamed, -⟩
    · exact h
    · exact hnamed
  | commit nowNs tids =>
    obtain ⟨p, hout, rfl⟩ := Option.map_eq_some_iff.1 hstep
    obtain ⟨hthreads, hids⟩ := identities_commit hout nowNs tids
    exact ⟨by rw [hthreads, hids]; exact h.known, by rw [hids]; exact h.keyed⟩
  | discard =>
    obtain ⟨p, hout, rfl⟩ := Option.map_eq_some_iff.1 hstep
    have hnone : s.discard p = { s with outstanding := none } := by
      unfold IncrementalSolver.discard
      rw [if_pos (by rw [hout]; rfl)]
    rw [hnone]
    exact ⟨h.known, h.keyed⟩
  | removeThread tid =>
    cases hstep
    exact h.removeThread tid
  | reset =>
    cases hstep
    exact ⟨fun t ht => absurd ht (OrdMap.notMem_empty t), fun t i hi => by cases hi⟩

theorem named_run {shadow : Bool} {calls : List Call} (h : Run.exec step { shadow := shadow } calls = some s) : Named s :=
  Run.exec_keeps Named (fun _ _ _ hs hstep => named_step hs hstep)
    ⟨fun t ht => absurd ht (OrdMap.notMem_empty t), fun t i hi => by cases hi⟩ h

/-- The solver's own placement is the one its choices are scored on. -/
theorem undisturbed_self (s : IncrementalSolver) (E : List RelationEdge) (x : Potential) : Undisturbed s E s.placement x :=
  ⟨fun _ _ => rfl, fun _ _ _ _ _ => rfl⟩

/-- **Every gain is exact**: with symmetric latencies each choice of an optimizing window, a move or a swap, taken alone,
takes its gain off the latency of the hotspot edges. -/
theorem gains_exact {shadow : Bool} {calls : List Call} (hrun : Run.exec step { shadow := shadow } calls = some s)
    (hsym : ∀ a b, input.hardware.latency a b = input.hardware.latency b a) (hnone : s.outstanding = none)
    (hr : propose s input = .ok (p, s')) (hphase : p.phase = .optimizing) :
    ∀ x ∈ choices (intake s input).1 input (intake s input).2.migrationBudget,
      x.gain = hotspotCost input.hardware (s'.edges.entries.map Prod.snd) s'.placement -
        hotspotCost input.hardware (s'.edges.entries.map Prod.snd) (applyActions s'.placement x.actions) := by
  intro x hx
  have hnamed := intake_named (named_run hrun) input
  have hgain := potential_gain hsym (fun e he => ends_ne_of_mem_edges he) (fun t ht => hnamed.identityOf_tid ht) hx
    (undisturbed_self _ _ x)
  obtain hout | ⟨-, -, hphases⟩ := propose_cases hr
  · rw [hnone] at hout
    cases hout.1
  rcases hphases with ⟨-, rfl, -⟩ | ⟨-, hr⟩ | ⟨-, hr⟩ | ⟨-, hr⟩
  · cases hphase
  · exact absurd hphase (nodePlanning_phase hr)
  · rw [(initialPinning_header hr).1] at hphase
    cases hphase
  · have hsame := optimize_same (intake s input).1 input (intake s input).2
    rw [hr] at hsame
    dsimp only at hsame
    rw [hsame]
    linarith

/-- In the chain of three threads, threads 1 and 2, which share an edge, gain 56 by a swap. -/
theorem gains_exact_chain : ∃ s p s' x, Run.exec step {} (chainRun 1) = some s ∧
    propose s (chain 1 chainEdges) = .ok (p, s') ∧
    x ∈ choices (intake s (chain 1 chainEdges)).1 (chain 1 chainEdges) (intake s (chain 1 chainEdges)).2.migrationBudget ∧
    x.actions.map (fun a => (a.identity.tid, a.fromCpu, a.targetCpu)) = [(2, 1, 0), (1, 0, 1)] ∧ x.gain = 56 ∧
    x.gain = hotspotCost threeNodes (s'.edges.entries.map Prod.snd) s'.placement -
      hotspotCost threeNodes (s'.edges.entries.map Prod.snd) (applyActions s'.placement x.actions) := by
  have hsome : (Run.exec step {} (chainRun 1)).any (fun s => s.outstanding.isNone &&
      (match propose s (chain 1 chainEdges) with
        | .ok r => decide (r.1.phase = .optimizing)
        | .error _ => false) &&
      (choices (intake s (chain 1 chainEdges)).1 (chain 1 chainEdges) (intake s (chain 1 chainEdges)).2.migrationBudget).any
        (fun x => decide (x.actions.map (fun a => (a.identity.tid, a.fromCpu, a.targetCpu)) = [(2, 1, 0), (1, 0, 1)] ∧
          x.gain = 56))) = true := by decide +kernel
  obtain ⟨s, hexec, hs⟩ := (Option.any_eq_true _ _).1 hsome
  rw [Bool.and_eq_true, Bool.and_eq_true] at hs
  obtain ⟨⟨hnone, hr⟩, hswap⟩ := hs
  obtain ⟨x, hx, hmoves⟩ := List.any_eq_true.1 hswap
  obtain ⟨hactions, hgain⟩ := of_decide_eq_true hmoves
  cases hp : propose s (chain 1 chainEdges) with
  | error e =>
    rw [hp] at hr
    cases hr
  | ok r =>
    rw [hp] at hr
    exact ⟨s, r.1, r.2, x, hexec, hp, hx, hactions, hgain, gains_exact hexec threeNodes_latency_symm
      (Option.isNone_iff_eq_none.1 hnone) hp (of_decide_eq_true hr) x hx⟩

end Gains

end IncrementalSolver
end AffinityGraph
