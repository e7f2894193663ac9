import AffinityGraph.NodeStreaks
/-!
# DwellEvidence — what keeps a domain in its dwell

A committed domain is carried over while its evidence is recent.  The evidence is written in two places: by a call that has a
valid candidate with all of its families, and by the commit that brings it in.  A commit of a domain that is already there
writes nothing, so a domain that is only ever carried over runs out of its dwell (`Traced.held_has_evidence`).
-/
namespace AffinityGraph

open NumaDomainSolver

/-- The call had a valid candidate with all these families. -/
def Call.Saw (families : List String) (c : Call) : Prop :=
  ∃ k ∈ (candidateStage c.solver c.input).domains, k.valid = true ∧ ∀ f ∈ families, f ∈ k.families

/-- The id of a domain tells its families, over all that these calls proposed. -/
def Identified (calls : List Call) : Prop :=
  ∀ c ∈ calls, ∀ c' ∈ calls, ∀ d ∈ c.proposal.domains, ∀ d' ∈ c'.proposal.domains, d.id = d'.id → d.families = d'.families

instance (calls : List Call) : Decidable (Identified calls) :=
  inferInstanceAs (Decidable (∀ c ∈ calls, ∀ c' ∈ calls, ∀ d ∈ c.proposal.domains, ∀ d' ∈ c'.proposal.domains,
    d.id = d'.id → d.families = d'.families))

theorem Identified.mono {calls calls' : List Call} (h : Identified calls') (hsub : ∀ c ∈ calls, c ∈ calls') :
    Identified calls :=
  fun c hc c' hc' => h c (hsub c hc) c' (hsub c' hc')

namespace NumaDomainSolver

/-- **Where a time of the evidence comes from in a call.** -/
theorem find?_refreshEvidence {candidates : List NumaDomain} {nowNs : Nat} {x : String} {e : Nat} :
    ∀ (domains : List NumaDomain) (evidence : OrdMap String Nat),
      (refreshEvidence domains candidates nowNs evidence).find? x = some e → evidence.find? x = some e ∨
        (e = nowNs ∧ ∃ d ∈ domains, d.id = x ∧ ∃ k ∈ candidates, k.valid = true ∧ ∀ f ∈ d.families, f ∈ k.families)
  | [], _, h => Or.inl h
  | d :: domains, evidence, h => by
    unfold refreshEvidence at h
    rw [List.foldl_cons] at h
    rcases find?_refreshEvidence domains _ h with h | ⟨he, c, hc, hrest⟩
    · split at h
      · rename_i hany
        rw [OrdMap.find?_insert] at h
        split at h
        · rename_i hid
          obtain ⟨k, hk, hcover⟩ := List.any_eq_true.1 hany
          rw [Bool.and_eq_true] at hcover
          refine Or.inr ⟨(Option.some.inj h).symm, d, List.mem_cons_self, hid, k, hk, hcover.1, fun f hf => ?_⟩
          simpa using List.all_eq_true.1 hcover.2 f hf
        · exact Or.inl h
      · exact Or.inl h
    · exact Or.inr ⟨he, c, List.mem_cons_of_mem _ hc, hrest⟩

section Commit

variable {previous : List String} {nowNs : Nat} {x : String}

theorem find?_commitDomain (s : NumaDomainSolver) (d : NumaDomain) :
    (commitDomain previous nowNs s d).lastConfirmedDomainEvidenceNs.find? x =
      if d.id = x ∧ x ∉ previous then some nowNs else s.lastConfirmedDomainEvidenceNs.find? x := by
  unfold commitDomain
  dsimp only
  by_cases hprev : d.id ∈ previous
  · rw [if_pos (by simpa using hprev), if_neg]
    rintro ⟨rfl, hx⟩
    exact hx hprev
  · rw [if_neg (by simpa using hprev), OrdMap.find?_insert]
    by_cases hid : d.id = x
    · subst hid
      rw [if_pos rfl, if_pos ⟨rfl, hprev⟩]
    · rw [if_neg hid, if_neg (fun h => hid h.1)]

/-- The same for a commit: a domain that was there keeps its time. -/
theorem find?_commitDomains_old (hx : x ∈ previous) (domains : List NumaDomain) (s : NumaDomainSolver) :
    (domains.foldl (commitDomain previous nowNs) s).lastConfirmedDomainEvidenceNs.find? x =
      s.lastConfirmedDomainEvidenceNs.find? x := by
  refine Loop.foldl_keeps (fun t : NumaDomainSolver => t.lastConfirmedDomainEvidenceNs.find? x =
    s.lastConfirmedDomainEvidenceNs.find? x) (fun t d ht => ?_) domains rfl
  rw [find?_commitDomain, if_neg (fun h => h.2 hx)]
  exact ht

/-- One that was not there has the time of the commit. -/
theorem find?_commitDomains_new (hx : x ∉ previous) : ∀ (domains : List NumaDomain) (s : NumaDomainSolver),
    x ∈ domains.map (·.id) →
      (domains.foldl (commitDomain previous nowNs) s).lastConfirmedDomainEvidenceNs.find? x = some nowNs
  | d :: domains, s, hmem => by
    rw [List.foldl_cons]
    by_cases hid : d.id = x
    · refine Loop.foldl_keeps (fun t : NumaDomainSolver => t.lastConfirmedDomainEvidenceNs.find? x = some nowNs)
        (fun t c ht => ?_) domains ?_
      · rw [find?_commitDomain, ht]
        split <;> rfl
      · rw [find?_commitDomain, if_pos ⟨hid, hx⟩]
    · rw [List.map_cons, List.mem_cons] at hmem
      exact find?_commitDomains_new hx domains _ (hmem.resolve_left (Ne.symm hid))

theorem evidence_commit {s s' : NumaDomainSolver} {p : NumaDomainProposal} {tids : OrdSet Tid}
    (h : commit s p nowNs tids = .ok s') : s'.lastConfirmedDomainEvidenceNs =
      (p.domains.foldl (commitDomain (s.domains.map (·.id)) nowNs)
        { s with placement := commitPlacement s.placement p tids }).lastConfirmedDomainEvidenceNs := by
  unfold commit at h
  split at h
  · cases h
    rfl
  · cases h

end Commit

/-- The lifecycle of the nodes never decides to carry a domain over. -/
theorem decideNodes_decision (input : ProposeInput) (s : NumaDomainSolver) (id : String) (demand : ℚ)
    (required previous : List Int) (e h : Int) :
    (decideNodes input s id demand required previous e h).2.1 ≠ .heldDomainDwell := by
  rw [decideNodes_eq]
  rcases decided_cases input required previous _ _ _ _ with ⟨heq, -⟩ | ⟨heq, -⟩ | ⟨decision, hmem, heq⟩
  · rw [heq]
    exact fun hdec => by cases hdec
  · rw [heq]
    exact fun hdec => by cases hdec
  · rw [heq]
    rintro rfl
    simp at hmem

/-- Neither does the loop over the candidates. -/
theorem candidateStage_decision {s : NumaDomainSolver} {input : ProposeInput} :
    ∀ d ∈ (candidateStage s input).domains, d.nodeDecision ≠ .heldDomainDwell := by
  refine Loop.foldl_keeps (fun st : CandidateState => ∀ d ∈ st.domains, d.nodeDecision ≠ .heldDomainDwell)
    (fun st component h d hd => ?_) _ (fun d hd => by cases hd)
  obtain ⟨d₀, demand, required, previous, hdomains, -, -, hyes, hno⟩ := addCandidate_lifecycle st component
  rw [hdomains] at hd
  rcases List.mem_append.1 hd with hd | hd
  · exact h d hd
  · rw [List.mem_singleton.1 hd]
    cases hf : (evaluate input s (byFamily input.threads) (relationStage input).cross st component).follows with
    | true =>
      rw [(hyes hf).1]
      exact decideNodes_decision _ _ _ _ _ _ _ _
    | false =>
      rcases (hno hf).1 with hdec | hdec <;> rw [hdec] <;> exact fun hdec => by cases hdec

end NumaDomainSolver

namespace Traced

variable {w w' : Traced} {e : SolverEvent}

/-- The times of the past, the newest first. -/
def times (w : Traced) : List Nat :=
  w.past.filterMap (fun x => match x.2 with
    | .propose input => some input.nowNs
    | .commit nowNs _ => some nowNs
    | .discard | .removeThread _ | .reset => none)

/-- A commit at this time brought the domain in: the solver had none with its id. -/
def Entered (w : Traced) (d : NumaDomain) (time : Nat) : Prop :=
  ∃ s tids, (s, SolverEvent.commit time tids) ∈ w.past ∧ (∀ c ∈ s.domains, c.id ≠ d.id) ∧
    ∃ p, s.outstanding = some p ∧ ∃ d' ∈ p.domains, d'.id = d.id ∧ d'.families = d.families

/-- What is behind a time of the evidence for a domain. -/
def Behind (w : Traced) (d : NumaDomain) (time : Nat) : Prop :=
  (∃ c ∈ w.calls, c.input.nowNs = time ∧ c.Saw d.families) ∨ w.Entered d time

theorem mem_calls {c : Call} : c ∈ w.calls ↔ (c.solver, SolverEvent.propose c.input) ∈ w.past := by
  unfold calls
  rw [List.mem_filterMap]
  constructor
  · rintro ⟨⟨s, e⟩, hin, he⟩
    cases e with
    | propose input =>
      cases he
      exact hin
    | commit nowNs tids => cases he
    | discard => cases he
    | removeThread tid => cases he
    | reset => cases he
  · exact fun hin => ⟨_, hin, rfl⟩

theorem Behind.mem_times {d : NumaDomain} {time : Nat} (h : w.Behind d time) : time ∈ w.times := by
  unfold times
  rw [List.mem_filterMap]
  rcases h with ⟨c, hc, htime, -⟩ | ⟨s, tids, hin, -⟩
  · exact ⟨_, mem_calls.1 hc, congrArg some htime⟩
  · exact ⟨_, hin, rfl⟩

/-- A longer past has all that was behind a time before. -/
theorem Behind.mono {d d' : NumaDomain} {time : Nat} (h : w.Behind d time) (hpast : ∀ x ∈ w.past, x ∈ w'.past)
    (hid : d'.id = d.id) (hfamilies : d'.families = d.families) : w'.Behind d' time := by
  rcases h with ⟨c, hc, htime, hsaw⟩ | ⟨s, tids, hin, habsent, p, hp, x, hx, hxid, hxf⟩
  · exact Or.inl ⟨c, mem_calls.2 (hpast _ (mem_calls.1 hc)), htime, hfamilies ▸ hsaw⟩
  · refine Or.inr ⟨s, tids, hpast _ hin, fun k hk => ?_, p, hp, x, hx, hxid.trans hid.symm, hxf.trans hfamilies.symm⟩
    rw [hid]
    exact habsent k hk

/-- The proposals come from the calls, and every time of the evidence has something behind it. -/
structure Evidenced (w : Traced) : Prop where
  outstanding : ∀ p, w.solver.outstanding = some p → ∃ c ∈ w.calls, p = c.proposal
  origin : ∀ d ∈ w.solver.domains, ∃ c ∈ w.calls, d ∈ c.proposal.domains
  behind : ∀ d ∈ w.solver.domains, ∀ time, w.solver.lastConfirmedDomainEvidenceNs.find? d.id = some time → w.Behind d time

/-- Two committed domains with one id, or a committed and an outstanding one, have the same families. -/
theorem Evidenced.families_eq (h : w.Evidenced) (hid : Identified w.calls) {d d' : NumaDomain} (hd : d ∈ w.solver.domains)
    (hd' : d' ∈ w.solver.domains ∨ ∃ p, w.solver.outstanding = some p ∧ d' ∈ p.domains) (he : d.id = d'.id) :
    d.families = d'.families := by
  obtain ⟨c, hc, hdc⟩ := h.origin d hd
  rcases hd' with hd' | ⟨p, hp, hd'⟩
  · obtain ⟨c', hc', hdc'⟩ := h.origin d' hd'
    exact hid c hc c' hc' d hdc d' hdc' he
  · obtain ⟨c', hc', rfl⟩ := h.outstanding p hp
    exact hid c hc c' hc' d hdc d' hd' he

theorem Evidenced.start : Evidenced {} := by
  refine ⟨fun q hq => ?_, fun d hd => ?_, fun d hd => ?_⟩
  · cases hq
  · cases hd
  · cases hd

/-- **What one event does to the evidence.** -/
theorem Evidenced.step (h : w.Evidenced) (hid : Identified w.calls) (hstep : w.step e = some w') : w'.Evidenced := by
  obtain ⟨s, hs, rfl⟩ := Option.map_eq_some_iff.1 hstep
  cases e with
  | propose input =>
    obtain ⟨⟨p, t⟩, hp, rfl⟩ := Option.map_eq_some_iff.1 hs
    obtain ⟨-, -, rfl⟩ := propose_ok (toOption_eq_some hp)
    have hcalls : ∀ c ∈ w.calls, c ∈ (⟨w.solver, input⟩ : Call) :: w.calls := fun c hc => List.mem_cons_of_mem _ hc
    refine ⟨fun q hq => ?_, fun d hd => ?_, fun d hd time htime => ?_⟩
    · exact ⟨⟨w.solver, input⟩, List.mem_cons_self, (Option.some.inj hq).symm⟩
    · obtain ⟨c, hc, hdc⟩ := h.origin d hd
      exact ⟨c, hcalls c hc, hdc⟩
    · rcases find?_refreshEvidence _ _ htime with hold | ⟨rfl, c, hc, hcid, k, hk, hvalid, hcover⟩
      · exact (h.behind d hd time hold).mono (fun x hx => List.mem_cons_of_mem _ hx) rfl rfl
      · refine Or.inl ⟨⟨w.solver, input⟩, List.mem_cons_self, rfl, k, hk, hvalid, ?_⟩
        rw [← h.families_eq hid hc (Or.inl hd) hcid]
        exact hcover
  | commit nowNs tids =>
    obtain ⟨p, hp, hcommit⟩ := Option.bind_eq_some_iff.1 hs
    obtain ⟨-, hdomains, hout, -⟩ := commit_ok (toOption_eq_some hcommit)
    obtain ⟨call, hcall, hpc⟩ := h.outstanding p hp
    refine ⟨fun q hq => ?_, fun d hd => ?_, fun d hd time htime => ?_⟩
    · rw [show s.outstanding = none from hout] at hq
      cases hq
    · rw [show s.domains = p.domains from hdomains] at hd
      exact ⟨call, hcall, hpc ▸ hd⟩
    · rw [show s.domains = p.domains from hdomains] at hd
      have hev := evidence_commit (toOption_eq_some hcommit)
      rw [show s.lastConfirmedDomainEvidenceNs = _ from hev] at htime
      by_cases hprev : d.id ∈ w.solver.domains.map (·.id)
      · obtain ⟨c, hc, hcid⟩ := List.mem_map.1 hprev
        rw [find?_commitDomains_old hprev, ← hcid] at htime
        exact (h.behind c hc time htime).mono (fun x hx => List.mem_cons_of_mem _ hx) hcid.symm
          (h.families_eq hid hc (Or.inr ⟨p, hp, hd⟩) hcid).symm
      · rw [find?_commitDomains_new hprev _ _ (List.mem_map_of_mem hd)] at htime
        cases htime
        refine Or.inr ⟨w.solver, tids, List.mem_cons_self, fun c hc hcid => ?_, p, hp, d, hd, rfl, rfl⟩
        exact hprev (List.mem_map.2 ⟨c, hc, hcid⟩)
  | discard =>
    obtain ⟨p, hp, rfl⟩ := Option.map_eq_some_iff.1 hs
    have hdomains : (NumaDomainSolver.discard w.solver p).domains = w.solver.domains :=
      read_discard (·.domains) (fun _ => rfl) w.solver p
    have hev : (NumaDomainSolver.discard w.solver p).lastConfirmedDomainEvidenceNs = w.solver.lastConfirmedDomainEvidenceNs :=
      read_discard (·.lastConfirmedDomainEvidenceNs) (fun _ => rfl) w.solver p
    refine ⟨fun q hq => ?_, fun d hd => h.origin d (hdomains ▸ hd), fun d hd time htime => ?_⟩
    · have hnone : (NumaDomainSolver.discard w.solver p).outstanding = none := by
        unfold NumaDomainSolver.discard
        rw [hp]
        simp
      rw [show _ = none from hnone] at hq
      cases hq
    · exact (h.behind d (hdomains ▸ hd) time (hev ▸ htime)).mono (fun x hx => List.mem_cons_of_mem _ hx) rfl rfl
  | removeThread tid =>
    cases hs
    refine ⟨fun q hq => h.outstanding q hq, fun d hd => h.origin d hd, fun d hd time htime => ?_⟩
    exact (h.behind d hd time htime).mono (fun x hx => List.mem_cons_of_mem _ hx) rfl rfl
  | reset =>
    cases hs
    exact Evidenced.start

theorem calls_step (hstep : w.step e = some w') (he : e ≠ .reset) : ∀ c ∈ w.calls, c ∈ w'.calls := by
  intro c hc
  obtain ⟨s, -, rfl⟩ := Option.map_eq_some_iff.1 hstep
  rw [mem_calls] at hc ⊢
  cases e with
  | reset => exact absurd rfl he
  | propose input => exact List.mem_cons_of_mem _ hc
  | commit nowNs tids => exact List.mem_cons_of_mem _ hc
  | discard => exact List.mem_cons_of_mem _ hc
  | removeThread tid => exact List.mem_cons_of_mem _ hc

/-- Every state of a run has what its evidence stands for in its past. -/
theorem evidenced_of_run {run : List SolverEvent} (hrun : Run.exec step {} run = some w) (hid : Identified w.calls) :
    w.Evidenced := by
  have hkeep : Identified w.calls → w.Evidenced := by
    refine Run.exec_keeps (fun w : Traced => Identified w.calls → w.Evidenced) (fun w e w' h hstep hid => ?_)
      (fun _ => Evidenced.start) hrun
    by_cases he : e = .reset
    · subst he
      cases hstep
      exact Evidenced.start
    · have hbefore := hid.mono (calls_step hstep he)
      exact (h hbefore).step hbefore hstep
  exact hkeep hid

/-- **A dwell does not renew itself.**  Over non-decreasing times and ids that tell the families: a domain that is carried
over by its dwell was, less than the dwell ago, in a valid candidate of a call with all of its families, or brought in by a
commit. -/
theorem held_has_evidence {run : List SolverEvent} (hrun : Run.exec step {} run = some w) {input : ProposeInput}
    (hid : Identified w.calls) (htimes : (input.nowNs :: w.times).Pairwise (· ≥ ·)) (hnow : input.nowNs < 2 ^ 64)
    {p : NumaDomainProposal} {s' : NumaDomainSolver} (hp : propose w.solver input = .ok (p, s')) {d : NumaDomain}
    (hd : d ∈ p.domains) (hheld : d.nodeDecision = .heldDomainDwell) :
    ∃ time ≤ input.nowNs, input.nowNs - time < input.options.minimumDwellNs ∧
      ((∃ c ∈ (⟨w.solver, input⟩ : Call) :: w.calls, c.input.nowNs = time ∧ c.Saw d.families) ∨ w.Entered d time) := by
  obtain ⟨-, rfl, -⟩ := propose_ok hp
  obtain ⟨x, hx, he⟩ := exists_held (fun d => (d.nodeDecision, d.id, d.families)) (fun _ _ _ _ => rfl) hd
  simp only [Prod.mk.injEq] at he
  obtain ⟨hdec, hdid, hfamilies⟩ := he
  rcases mem_heldStage_cases hx with hx | ⟨c, hc, hdwell, rfl⟩
  · exact absurd (hdec.symm.trans hheld) (candidateStage_decision x hx)
  · have h := evidenced_of_run hrun hid
    unfold inDwell at hdwell
    cases hfind : (evidenceStage w.solver input).find? c.id with
    | none =>
      rw [hfind] at hdwell
      cases hdwell
    | some time =>
      rw [hfind, decide_eq_true_eq] at hdwell
      rcases find?_refreshEvidence _ _ hfind with hold | ⟨rfl, c', hc', hcid, k, hk, hvalid, hcover⟩
      · have hbehind := h.behind c hc time hold
        have hle : time ≤ input.nowNs := List.rel_of_pairwise_cons htimes hbehind.mem_times
        rw [subU64_of_le hle hnow] at hdwell
        refine ⟨time, hle, hdwell, ?_⟩
        rcases hbehind.mono (fun x hx => hx) hdid hfamilies with ⟨call, hcall, hrest⟩ | hentered
        · exact Or.inl ⟨call, List.mem_cons_of_mem _ hcall, hrest⟩
        · exact Or.inr hentered
      · rw [subU64_of_le (Nat.le_refl _) hnow] at hdwell
        refine ⟨input.nowNs, Nat.le_refl _, hdwell, Or.inl ⟨⟨w.solver, input⟩, List.mem_cons_self, rfl, k, hk, hvalid, ?_⟩⟩
        rw [hfamilies]
        show ∀ f ∈ c.families, f ∈ k.families
        rw [← h.families_eq hid hc' (Or.inl hc) hcid]
        exact hcover

/-- The family is placed, and in the next window has next to no demand. -/
theorem held_has_evidence_once : ∃ w p s', Run.exec step {} placedOnce = some w ∧
    propose w.solver (growing (twoThreads (1 / 2))) = .ok (p, s') ∧ ∃ d ∈ p.domains, d.nodeDecision = .heldDomainDwell ∧
      ∃ time ≤ 1000, 1000 - time < 300000000000 ∧
        ((∃ c ∈ (⟨w.solver, growing (twoThreads (1 / 2))⟩ : Call) :: w.calls, c.input.nowNs = time ∧ c.Saw d.families) ∨
          w.Entered d time) := by
  have h : (Run.exec step {} placedOnce).any (fun w =>
      decide (Identified w.calls ∧ (1000 :: w.times).Pairwise (· ≥ ·)) &&
      (propose w.solver (growing (twoThreads (1 / 2)))).toOption.any (fun x =>
        decide (∃ d ∈ x.1.domains, d.nodeDecision = .heldDomainDwell))) = true := by decide +kernel
  obtain ⟨w, hw, h⟩ := (Option.any_eq_true _ _).1 h
  obtain ⟨hok, h⟩ := Bool.and_eq_true_iff.1 h
  obtain ⟨⟨p, s'⟩, hp, h⟩ := (Option.any_eq_true _ _).1 h
  obtain ⟨d, hd, hdec⟩ := of_decide_eq_true h
  obtain ⟨hid, htimes⟩ := of_decide_eq_true hok
  have hp' := toOption_eq_some hp
  exact ⟨w, p, s', hw, hp', d, hd, hdec, held_has_evidence hw hid htimes (by decide) hp' hd hdec⟩

end Traced
end AffinityGraph
