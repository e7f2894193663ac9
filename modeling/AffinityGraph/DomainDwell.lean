import AffinityGraph.DomainRuns
import Mathlib.Data.List.Induction
/-!
# DomainDwell — which domains survive the dwell, and what that does to the plan

The dwell loop goes through the committed domains in order and edits the list it tests against.  `mem_heldStage` says
what is left without the loop: a candidate is in the plan unless a committed domain straddles it, a committed domain is
carried over unless a candidate that covers it is still there at its turn.  Two laws follow.

* `propose_keeps_dwelling_iff`: inside the dwell every live family of a committed domain stays planned, except for a
  domain whose covering candidate a *later* committed domain evicts.
* `propose_valid_iff`: `valid` says that every planned domain is valid, except when an invalid committed domain is
  carried into a plan that is otherwise fine, or when every invalid candidate was evicted.
-/
namespace AffinityGraph
namespace NumaDomainSolver

/-! ## The dwell loop without the loop -/

section Loop

variable (options : NumaDomainOptions) (nowNs : Nat) (evidence : OrdMap String Nat)
  (families : OrdMap String (List ThreadDemand))

/-- A committed domain the loop looks at: inside its dwell, with a live thread. -/
def Dwelling (d : NumaDomain) : Prop :=
  inDwell options nowNs evidence d.id = true ∧ membersOf families d.families ≠ []

/-- A dwelling domain that has some of the candidate's families and some others. -/
def Straddles (candidate d : NumaDomain) : Prop :=
  Dwelling options nowNs evidence families d ∧ (∃ f ∈ candidate.families, f ∈ d.families) ∧
  ¬ ∀ f ∈ d.families, f ∈ candidate.families

/-- At its turn, after the domains of `pre`, no candidate that covers `d` is left. -/
def HeldAfter (cands pre : List NumaDomain) (d : NumaDomain) : Prop :=
  Dwelling options nowNs evidence families d ∧
  ∀ c ∈ cands, (∀ f ∈ d.families, f ∈ c.families) → ∃ h ∈ pre, Straddles options nowNs evidence families c h

/-- The committed domain `d` of `l` is carried over. -/
def CarriedOver (cands l : List NumaDomain) (d : NumaDomain) : Prop :=
  ∃ pre post, l = pre ++ d :: post ∧ HeldAfter options nowNs evidence families cands pre d

theorem carriedOver_concat {cands l : List NumaDomain} {d x : NumaDomain} :
    CarriedOver options nowNs evidence families cands (l ++ [d]) x ↔
      CarriedOver options nowNs evidence families cands l x ∨
        (x = d ∧ HeldAfter options nowNs evidence families cands l d) := by
  constructor
  · intro ⟨pre, post, hl, hh⟩
    rcases List.eq_nil_or_concat post with rfl | ⟨post', y, rfl⟩
    · obtain ⟨rfl, hx⟩ := List.append_inj' hl rfl
      cases hx
      exact Or.inr ⟨rfl, hh⟩
    · rw [List.concat_eq_append, ← List.cons_append, ← List.append_assoc] at hl
      obtain ⟨rfl, -⟩ := List.append_inj' hl rfl
      exact Or.inl ⟨pre, post', rfl, hh⟩
  · intro h
    rcases h with ⟨pre, post, rfl, hh⟩ | ⟨rfl, hh⟩
    · exact ⟨pre, post ++ [d], by simp, hh⟩
    · exact ⟨l, [], rfl, hh⟩

theorem CarriedOver.mem {cands l : List NumaDomain} {d : NumaDomain}
    (h : CarriedOver options nowNs evidence families cands l d) : d ∈ l := by
  obtain ⟨pre, post, rfl, -⟩ := h
  simp

/-- What the loop's list holds after the domains of `l`. -/
def PlannedAfter (cands l : List NumaDomain) (d : NumaDomain) : Prop :=
  (d ∈ cands ∧ ∀ h ∈ l, ¬ Straddles options nowNs evidence families d h) ∨
  ∃ c, CarriedOver options nowNs evidence families cands l c ∧ d = holdDomain options families c

/-- More threads than a domain may have. -/
def Overfull (d : NumaDomain) : Prop :=
  options.maximumThreadsPerDomain < (holdDomain options families d).tids.length

variable {options nowNs evidence families}

theorem foldl_holdStep {cands : List NumaDomain} (hc : WellSplit cands) (st₀ : Held) (hst : st₀.domains = cands)
    {l : List NumaDomain} (hl : WellSplit l) :
    (∀ d, d ∈ (l.foldl (holdStep options nowNs evidence families) st₀).domains ↔
      PlannedAfter options nowNs evidence families cands l d) ∧
    ((l.foldl (holdStep options nowNs evidence families) st₀).valid = true ↔
      st₀.valid = true ∧
        ∀ d, CarriedOver options nowNs evidence families cands l d → ¬ Overfull options families d) := by
  -- the domains are taken from the end, so that the hypothesis speaks of the list before the last turn
  induction l using List.reverseRecOn with
  | nil =>
    refine ⟨fun d => ?_, ?_⟩
    · rw [List.foldl_nil, hst]
      refine ⟨fun h => Or.inl ⟨h, fun _ hm => absurd hm List.not_mem_nil⟩, fun h => ?_⟩
      rcases h with ⟨h, -⟩ | ⟨c, ⟨pre, post, hn, -⟩, -⟩
      · exact h
      · cases pre <;> cases hn
    · rw [List.foldl_nil]
      refine ⟨fun h => ⟨h, fun d ⟨pre, post, hn, _⟩ => ?_⟩, fun h => h.1⟩
      cases pre <;> cases hn
  | append_singleton l d ih =>
    have hl' : WellSplit l := ⟨(List.pairwise_append.1 hl.disjoint).1,
      fun x hx => hl.nonempty x (List.mem_append_left _ hx)⟩
    have hapart : ∀ x ∈ l, ∀ f ∈ x.families, f ∉ d.families := fun x hx =>
      (List.pairwise_append.1 hl.disjoint).2.2 x hx d (List.mem_singleton.2 rfl)
    have hd : d.families ≠ [] := hl.nonempty d (by simp)
    obtain ⟨ihm, ihv⟩ := ih hl'
    rw [List.foldl_append, List.foldl_cons, List.foldl_nil]
    generalize l.foldl (holdStep options nowNs evidence families) st₀ = st at ihm ihv ⊢
    rcases holdStep_cases options nowNs evidence families st d with ⟨he, hwhy⟩ | ⟨hdw, hmem, hnot, he, hv⟩
    · -- the domain is passed over: nothing straddles because of it, and it is not carried over
      have hnone : (∀ x ∈ cands, (∀ h ∈ l, ¬ Straddles options nowNs evidence families x h) →
            ¬ Straddles options nowNs evidence families x d) ∧
          ¬ HeldAfter options nowNs evidence families cands l d := by
        rcases hwhy with hdw | hmem | ⟨c, hcm, hcov⟩
        · refine ⟨fun x _ _ hs => ?_, fun hh => ?_⟩
          · exact absurd hs.1.1 (by rw [hdw]; decide)
          · exact absurd hh.1.1 (by rw [hdw]; decide)
        · exact ⟨fun x _ _ hs => hs.1.2 hmem, fun hh => hh.1.2 hmem⟩
        · rcases (ihm c).1 hcm with ⟨hcc, hsurv⟩ | ⟨c', hco, rfl⟩
          · refine ⟨fun x hx hxs hs => ?_, fun hh => ?_⟩
            · obtain ⟨-, ⟨f, hfx, hfd⟩, hnc⟩ := hs
              have : x = c := hc.eq_of_shared hx hcc hfx (hcov f hfd)
              exact hnc (this ▸ hcov)
            · obtain ⟨h, hh', hs⟩ := hh.2 c hcc hcov
              exact hsurv h hh' hs
          · obtain ⟨f, hf⟩ := List.exists_mem_of_ne_nil _ hd
            exact absurd hf (hapart c' hco.mem f (hcov f hf))
      rw [he]
      refine ⟨fun x => ?_, ?_⟩
      · rw [ihm x]
        unfold PlannedAfter
        simp only [carriedOver_concat, List.mem_append, List.mem_singleton]
        constructor
        · intro h
          rcases h with ⟨hx, hs⟩ | ⟨c, hco, hx⟩
          · refine Or.inl ⟨hx, fun h hh => ?_⟩
            rcases hh with hh | rfl
            · exact hs h hh
            · exact hnone.1 x hx hs
          · exact Or.inr ⟨c, Or.inl hco, hx⟩
        · intro h
          rcases h with ⟨hx, hs⟩ | ⟨c, hco | ⟨-, hh⟩, hx⟩
          · exact Or.inl ⟨hx, fun h hh => hs h (Or.inl hh)⟩
          · exact Or.inr ⟨c, hco, hx⟩
          · exact absurd hh hnone.2
      · rw [ihv]
        refine and_congr_right (fun _ => forall_congr' (fun x => ?_))
        rw [carriedOver_concat]
        refine ⟨fun h hx => ?_, fun h hx => h (Or.inl hx)⟩
        rcases hx with hx | ⟨-, hh⟩
        · exact h hx
        · exact absurd hh hnone.2
    · have hheld : HeldAfter options nowNs evidence families cands l d := by
        refine ⟨⟨hdw, hmem⟩, fun c hcm hcov => ?_⟩
        by_contra hno
        have hin : c ∈ st.domains := (ihm c).2 (Or.inl ⟨hcm, fun h hh hs => hno ⟨h, hh, hs⟩⟩)
        exact hnot c hin hcov
      refine ⟨fun x => ?_, ?_⟩
      · rw [he, List.mem_append, List.mem_singleton, List.mem_filter, ihm x]
        unfold PlannedAfter
        simp only [carriedOver_concat, List.mem_append, List.mem_singleton]
        constructor
        · intro h
          rcases h with ⟨⟨hx, hs⟩ | ⟨c, hco, hx⟩, hov⟩ | rfl
          · refine Or.inl ⟨hx, fun h hh hst => ?_⟩
            rcases hh with hh | rfl
            · exact hs h hh hst
            · have : overlaps h.families x.families = true := overlaps_iff.2 hst.2.1
              rw [this] at hov
              cases hov
          · exact Or.inr ⟨c, Or.inl hco, hx⟩
          · exact Or.inr ⟨d, Or.inr ⟨rfl, hheld⟩, rfl⟩
        · intro h
          rcases h with ⟨hx, hs⟩ | ⟨c, hco | ⟨rfl, -⟩, rfl⟩
          · have hsl : ∀ h ∈ l, ¬ Straddles options nowNs evidence families x h := fun h hh => hs h (Or.inl hh)
            refine Or.inl ⟨Or.inl ⟨hx, hsl⟩, ?_⟩
            cases hov : overlaps d.families x.families with
            | false => rfl
            | true =>
              exfalso
              refine hs d (Or.inr rfl) ⟨⟨hdw, hmem⟩, overlaps_iff.1 hov, fun hcov => ?_⟩
              exact hnot x ((ihm x).2 (Or.inl ⟨hx, hsl⟩)) hcov
          · refine Or.inl ⟨Or.inr ⟨c, hco, rfl⟩, ?_⟩
            cases hov : overlaps d.families (holdDomain options families c).families with
            | false => rfl
            | true =>
              obtain ⟨f, hfc, hfd⟩ := overlaps_iff.1 hov
              exact absurd hfd (hapart c hco.mem f hfc)
          · exact Or.inr rfl
      · rw [hv, Bool.and_eq_true, ihv]
        have hov : (!decide (options.maximumThreadsPerDomain < (holdDomain options families d).tids.length)) = true ↔
            ¬ Overfull options families d := by
          unfold Overfull
          simp
        rw [hov, and_assoc]
        refine and_congr_right (fun _ => ⟨fun ⟨h1, h2⟩ x hx => ?_, fun h => ⟨fun x hx => ?_, ?_⟩⟩)
        · rcases (carriedOver_concat ..).1 hx with hx | ⟨rfl, -⟩
          · exact h1 x hx
          · exact h2
        · exact h x ((carriedOver_concat ..).2 (Or.inl hx))
        · exact h d ((carriedOver_concat ..).2 (Or.inr ⟨rfl, hheld⟩))

end Loop

/-! ## One window -/

/-- `Straddles`, `CarriedOver` and `Overfull` as one call reads them. -/
def StraddlesIn (s : NumaDomainSolver) (input : ProposeInput) : NumaDomain → NumaDomain → Prop :=
  Straddles input.options input.nowNs (evidenceStage s input) (byFamily input.threads)

def CarriedIn (s : NumaDomainSolver) (input : ProposeInput) : NumaDomain → Prop :=
  CarriedOver input.options input.nowNs (evidenceStage s input) (byFamily input.threads)
    (candidateStage s input).domains s.domains

def OverfullIn (input : ProposeInput) : NumaDomain → Prop := Overfull input.options (byFamily input.threads)

def PlannedIn (s : NumaDomainSolver) (input : ProposeInput) (d : NumaDomain) : Prop :=
  (d ∈ (candidateStage s input).domains ∧ ∀ h ∈ s.domains, ¬ StraddlesIn s input d h) ∨
  ∃ c, CarriedIn s input c ∧ d = holdDomain input.options (byFamily input.threads) c

/-- The dwell loop at one window, from `foldl_holdStep`. -/
theorem heldStage_spec {s : NumaDomainSolver} (hs : WellSplit s.domains) (input : ProposeInput) :
    (∀ d, d ∈ (heldStage s input).domains ↔ PlannedIn s input d) ∧
    ((heldStage s input).valid = true ↔ (candidateStage s input).valid = true ∧
      ∀ d, CarriedIn s input d → ¬ OverfullIn input d) := by
  unfold heldStage PlannedIn StraddlesIn CarriedIn OverfullIn
  have hsplit := candidateStage_wellSplit s input
  generalize candidateStage s input = cands at hsplit ⊢
  exact foldl_holdStep hsplit ⟨cands.domains, cands.valid, cands.invalidReason⟩ rfl hs

theorem mem_heldStage {s : NumaDomainSolver} (hs : WellSplit s.domains) (input : ProposeInput) (d : NumaDomain) :
    d ∈ (heldStage s input).domains ↔ PlannedIn s input d := (heldStage_spec hs input).1 d

theorem addCandidate_valid (input : ProposeInput) (s : NumaDomainSolver) (families : OrdMap String (List ThreadDemand))
    (cross : OrdMap FamilyPair ℚ) (comps : List (List String)) (st : CandidateState)
    (h : st.valid = true ↔ ∀ d ∈ st.domains, d.valid = true) :
    (comps.foldl (addCandidate input s families cross) st).valid = true ↔
      ∀ d ∈ (comps.foldl (addCandidate input s families cross) st).domains, d.valid = true := by
  induction comps generalizing st with
  | nil => exact h
  | cons c comps ih =>
    rw [List.foldl_cons]
    refine ih _ ?_
    simp only [addCandidate, Bool.and_eq_true, List.mem_append, List.mem_singleton]
    rw [h]
    constructor
    · rintro ⟨h1, h2⟩ d (hd | rfl)
      · exact h1 d hd
      · exact h2
    · exact fun hall => ⟨fun d hd => hall d (Or.inl hd), hall _ (Or.inr rfl)⟩

theorem candidateStage_valid (s : NumaDomainSolver) (input : ProposeInput) :
    (candidateStage s input).valid = true ↔ ∀ d ∈ (candidateStage s input).domains, d.valid = true := by
  unfold candidateStage candidates
  exact addCandidate_valid input s _ _ _ _ (iff_of_true rfl (fun _ h => absurd h List.not_mem_nil))

theorem heldStage_valid {s : NumaDomainSolver} (hs : WellSplit s.domains) (input : ProposeInput) :
    (heldStage s input).valid = true ↔ (∀ d ∈ (candidateStage s input).domains, d.valid = true) ∧
      ∀ d, CarriedIn s input d → ¬ OverfullIn input d := by
  rw [← candidateStage_valid]
  exact (heldStage_spec hs input).2

/-! ## The families of a dwelling domain -/

/-- **Inside the dwell no live family is dropped**: what a call should do for the committed domains. -/
def KeepsDwelling (s : NumaDomainSolver) (input : ProposeInput) (p : NumaDomainProposal) (s' : NumaDomainSolver) : Prop :=
  ∀ d ∈ s.domains, d.valid = true → membersOf (byFamily input.threads) d.families ≠ [] →
    inDwell input.options input.nowNs s'.lastConfirmedDomainEvidenceNs d.id = true →
    ∀ f ∈ d.families, (byFamily input.threads).getD f [] ≠ [] → ∃ x ∈ p.domains, f ∈ x.families

/-- **The dwell, exactly.**  In a reachable state every live family of a valid dwelling domain stays planned if and only
if no candidate that covers such a domain is first straddled by a committed domain behind it. -/
theorem propose_keeps_dwelling_iff (s s' : NumaDomainSolver) (hs : Reachable s) (input : ProposeInput)
    (p : NumaDomainProposal) (hp : propose s input = .ok (p, s')) :
    KeepsDwelling s input p s' ↔
      ∀ pre d post, s.domains = pre ++ d :: post → d.valid = true →
        Dwelling input.options input.nowNs (evidenceStage s input) (byFamily input.threads) d →
        ∀ c ∈ (candidateStage s input).domains, (∀ f ∈ d.families, f ∈ c.families) →
          (∃ h ∈ pre, StraddlesIn s input c h) ∨ ∀ h ∈ post, ¬ StraddlesIn s input c h := by
  have hsplit := hs.wellSplit
  have hcands := candidateStage_wellSplit s input
  obtain ⟨-, rfl, rfl⟩ := propose_ok hp
  unfold KeepsDwelling
  constructor
  · intro hkeep pre d post hl hv hdw c hc hcov
    by_contra hno
    rw [not_or] at hno
    obtain ⟨hpre, hpost⟩ := hno
    -- a live family of `d`, and the planned domain that has it
    obtain ⟨f, hfd, hlive⟩ : ∃ f ∈ d.families, (byFamily input.threads).getD f [] ≠ [] := by
      by_contra hall
      refine hdw.2 (List.flatMap_eq_nil_iff.2 (fun f hf => ?_))
      by_contra hne
      exact hall ⟨f, hf, hne⟩
    obtain ⟨x, hx, hfx⟩ := mem_proposal_families.1
      (hkeep d (by rw [hl]; simp) hv hdw.2 hdw.1 f hfd hlive)
    rcases (mem_heldStage hsplit input x).1 hx with ⟨hxc, hxs⟩ | ⟨e, ⟨pre', post', hl', hheld⟩, rfl⟩
    · have : x = c := hcands.eq_of_shared hxc hc hfx (hcov f hfd)
      subst this
      exact hpost (fun h hh => hxs h (by rw [hl]; simp [hh]))
    · obtain ⟨rfl, rfl⟩ := hsplit.split_unique hl hl' hfd hfx
      obtain ⟨h, hh, hstr⟩ := hheld.2 c hc hcov
      exact hpre ⟨h, hh, hstr⟩
  · intro hcond d hd hv hm hdw f hf _
    obtain ⟨pre, post, hl⟩ := List.append_of_mem hd
    refine mem_proposal_families.2 ?_
    by_cases hheld : HeldAfter input.options input.nowNs (evidenceStage s input) (byFamily input.threads)
        (candidateStage s input).domains pre d
    · exact ⟨_, (mem_heldStage hsplit input _).2 (Or.inr ⟨d, ⟨pre, post, hl, hheld⟩, rfl⟩), hf⟩
    · obtain ⟨c, hc, hcov, hpre⟩ : ∃ c ∈ (candidateStage s input).domains, (∀ f ∈ d.families, f ∈ c.families) ∧
          ∀ h ∈ pre, ¬ StraddlesIn s input c h := by
        by_contra hall
        refine hheld ⟨⟨hdw, hm⟩, fun c hc hcov => ?_⟩
        by_contra hno
        exact hall ⟨c, hc, hcov, fun h hh hst => hno ⟨h, hh, hst⟩⟩
      have hpost := (hcond pre d post hl hv ⟨hdw, hm⟩ c hc hcov).resolve_left (fun ⟨h, hh, hst⟩ => hpre h hh hst)
      refine ⟨c, (mem_heldStage hsplit input c).2 (Or.inl ⟨hc, fun h hh hst => ?_⟩), hcov f hf⟩
      rw [hl] at hh
      rcases List.mem_append.1 hh with hh | hh
      · exact hpre h hh hst
      · rcases List.mem_cons.1 hh with rfl | hh
        · exact hst.2.2 hcov
        · exact hpost h hh hst

/-! A window in which a later domain evicts the candidate that covers an earlier one: families `a`, `b`, `c` of two threads
each, committed as `a` and `b+c`; then the evidence for `c` is gone and `a`, `b` qualify for a merge. -/

def dwellHardware : HardwareGraph where
  cpus := [⟨0, 0, true⟩, ⟨1, 0, true⟩, ⟨2, 1, true⟩, ⟨3, 1, true⟩, ⟨4, 1, true⟩, ⟨5, 1, true⟩]

def dwellOptions : NumaDomainOptions :=
  { familyStabilityConfirmations := 1, domainStabilityConfirmations := 1, planConfirmations := 1 }

def dwellThread (tid : Tid) (family : String) (cpu : Int) : ThreadDemand := ⟨⟨1, tid, 1⟩, family, 1 / 2, 1, cpu⟩

def dwellEdge (fromTid toTid : Tid) : RelationEdge := { fromTid := fromTid, toTid := toTid, score := 1 }

def threeFamilies (edges : List RelationEdge) (nowNs : Nat) : ProposeInput where
  hardware := dwellHardware
  threads := [dwellThread 1 "a" 0, dwellThread 2 "a" 0, dwellThread 3 "b" 2, dwellThread 4 "b" 2,
    dwellThread 5 "c" 2, dwellThread 6 "c" 2]
  edges := edges
  options := dwellOptions
  nowNs := nowNs

def pairCommitted : List SolverEvent :=
  [.propose (threeFamilies [dwellEdge 1 2, dwellEdge 3 4, dwellEdge 5 6, dwellEdge 3 5] 1000), .commit 1000 ∅]

def mergeWindow : ProposeInput := threeFamilies [dwellEdge 1 2, dwellEdge 3 4, dwellEdge 1 3] 2000

/-- Run the calls, then one more window, and look at what it was given and what it gave. -/
def afterRun (es : List SolverEvent) (input : ProposeInput)
    (test : NumaDomainSolver → NumaDomainProposal → NumaDomainSolver → Bool) : Bool :=
  match Run.exec solverStep {} es with
  | none => false
  | some s => match propose s input with
    | .error _ => false
    | .ok (p, s') => test s p s'

theorem afterRun_spec {es : List SolverEvent} {input : ProposeInput}
    {test : NumaDomainSolver → NumaDomainProposal → NumaDomainSolver → Bool} (h : afterRun es input test = true) :
    ∃ s p s', Reachable s ∧ propose s input = .ok (p, s') ∧ test s p s' = true := by
  unfold afterRun at h
  cases hr : Run.exec solverStep {} es with
  | none => rw [hr] at h; cases h
  | some s =>
    rw [hr] at h
    simp only at h
    cases hp : propose s input with
    | error e => rw [hp] at h; cases h
    | ok r =>
      rw [hp] at h
      exact ⟨s, r.1, r.2, ⟨es, hr⟩, hp, h⟩

theorem propose_keeps_dwelling_iff_merge :
    ∃ s p s', Reachable s ∧ propose s mergeWindow = .ok (p, s') ∧ s.domains.length = 2 ∧
      (KeepsDwelling s mergeWindow p s' ↔
        ∀ pre d post, s.domains = pre ++ d :: post → d.valid = true →
          Dwelling mergeWindow.options mergeWindow.nowNs (evidenceStage s mergeWindow) (byFamily mergeWindow.threads) d →
          ∀ c ∈ (candidateStage s mergeWindow).domains, (∀ f ∈ d.families, f ∈ c.families) →
            (∃ h ∈ pre, StraddlesIn s mergeWindow c h) ∨ ∀ h ∈ post, ¬ StraddlesIn s mergeWindow c h) := by
  have h : afterRun pairCommitted mergeWindow (fun s _ _ => decide (s.domains.length = 2)) = true := by decide +kernel
  obtain ⟨s, p, s', hs, hp, ht⟩ := afterRun_spec h
  exact ⟨s, p, s', hs, hp, of_decide_eq_true ht, propose_keeps_dwelling_iff s s' hs mergeWindow p hp⟩

/-- **A dwelling family is dropped**: one second after `a` and `b+c` were committed, the window plans `b+c` alone, and
the two live threads of `a` are released. -/
theorem propose_drops_dwelling_family :
    ∃ s p s', Reachable s ∧ propose s mergeWindow = .ok (p, s') ∧ ¬ KeepsDwelling s mergeWindow p s' := by
  have h : afterRun pairCommitted mergeWindow (fun s p s' => decide (
      ∃ d ∈ s.domains, d.valid = true ∧ membersOf (byFamily mergeWindow.threads) d.families ≠ [] ∧
        inDwell mergeWindow.options mergeWindow.nowNs s'.lastConfirmedDomainEvidenceNs d.id = true ∧
        "a" ∈ d.families ∧ (byFamily mergeWindow.threads).getD "a" [] ≠ [] ∧ ∀ x ∈ p.domains, "a" ∉ x.families)) = true
    := by decide +kernel
  obtain ⟨s, p, s', hs, hp, ht⟩ := afterRun_spec h
  obtain ⟨d, hd, hv, hm, hdw, ha, hlive, hnone⟩ := of_decide_eq_true ht
  refine ⟨s, p, s', hs, hp, fun hkeep => ?_⟩
  obtain ⟨x, hx, hax⟩ := hkeep d hd hv hm hdw "a" ha hlive
  exact hnone x hx hax

/-! ## Whether `valid` says so -/

theorem planTids_eq_none {tidMap : OrdMap Tid ThreadDemand} {allowedMasks : OrdMap Tid Mask} {targetMask : Mask} :
    ∀ {tids : List Tid} {masks : OrdMap Tid Mask}, planTids tidMap allowedMasks targetMask tids masks = none ↔
      ∃ t ∈ tids, t ∈ tidMap ∧ targetFor allowedMasks targetMask t = []
  | [], masks => by simp [planTids]
  | t :: tids, masks => by
    unfold planTids
    by_cases ht : t ∈ tidMap
    · rw [if_pos ht]
      by_cases he : targetFor allowedMasks targetMask t = []
      · simp [he, ht]
      · simp only [List.isEmpty_iff, he, if_false, planTids_eq_none, List.mem_cons, exists_eq_or_imp, ht, true_and,
          false_or]
    · rw [if_neg ht, planTids_eq_none]
      simp [ht]

/-- An empty mask is met exactly when some thread of a valid domain has none, and it is then told by a domain. -/
theorem planDomains_invalid (tidMap : OrdMap Tid ThreadDemand) (allowedMasks : OrdMap Tid Mask) :
    ∀ (ds : List NumaDomain) (masks : OrdMap Tid Mask),
      ((planDomains tidMap allowedMasks ds masks).invalid = none ↔ ∀ d ∈ ds, d.valid = true →
        ∀ t ∈ d.tids, t ∈ tidMap → targetFor allowedMasks d.targetMask t ≠ []) ∧
      ((planDomains tidMap allowedMasks ds masks).invalid = none →
        (planDomains tidMap allowedMasks ds masks).domains = ds) ∧
      ((planDomains tidMap allowedMasks ds masks).invalid ≠ none →
        ∃ d ∈ (planDomains tidMap allowedMasks ds masks).domains, d.valid = false)
  | [], masks => ⟨iff_of_true rfl (fun _ h => absurd h List.not_mem_nil), fun _ => rfl, fun h => absurd rfl h⟩
  | d :: ds, masks => by
    have hforall : (∀ x ∈ d :: ds, x.valid = true → ∀ t ∈ x.tids, t ∈ tidMap → targetFor allowedMasks x.targetMask t ≠ [])
        ↔ (d.valid = true → ∀ t ∈ d.tids, t ∈ tidMap → targetFor allowedMasks d.targetMask t ≠ []) ∧
          ∀ x ∈ ds, x.valid = true → ∀ t ∈ x.tids, t ∈ tidMap → targetFor allowedMasks x.targetMask t ≠ [] :=
      List.forall_mem_cons
    rw [hforall]
    unfold planDomains
    cases hv : d.valid with
    | false =>
      obtain ⟨h1, h2, h3⟩ := planDomains_invalid tidMap allowedMasks ds masks
      simp only [Bool.not_false, if_true]
      refine ⟨h1.trans (by simp), fun h => by rw [h2 h], fun h => ?_⟩
      exact ⟨d, List.mem_cons_self, hv⟩
    | true =>
      simp only [Bool.not_true, Bool.false_eq_true, if_false]
      cases hp : planTids tidMap allowedMasks d.targetMask d.tids masks with
      | none =>
        obtain ⟨t, ht, htm, he⟩ := planTids_eq_none.1 hp
        refine ⟨iff_of_false (by simp) (fun h => h.1 trivial t ht htm he), fun h => by simp at h, fun _ => ?_⟩
        exact ⟨_, List.mem_cons_self, rfl⟩
      | some masks' =>
        obtain ⟨h1, h2, h3⟩ := planDomains_invalid tidMap allowedMasks ds masks'
        have hd : ∀ t ∈ d.tids, t ∈ tidMap → targetFor allowedMasks d.targetMask t ≠ [] := by
          intro t ht htm he
          have hnone : planTids tidMap allowedMasks d.targetMask d.tids masks = none :=
            planTids_eq_none.2 ⟨t, ht, htm, he⟩
          rw [hp] at hnone
          cases hnone
        simp only
        refine ⟨h1.trans ⟨fun h => ⟨fun _ => hd, h⟩, fun h => h.2⟩, fun h => by rw [h2 h], fun h => ?_⟩
        obtain ⟨x, hx, hxv⟩ := h3 h
        exact ⟨x, List.mem_cons_of_mem _ hx, hxv⟩

/-- No thread of a valid planned domain is left without a CPU. -/
def MasksFit (s : NumaDomainSolver) (input : ProposeInput) : Prop :=
  ∀ d, PlannedIn s input d → d.valid = true → ∀ t ∈ d.tids, t ∈ byTid input.threads →
    targetFor input.allowedMasks d.targetMask t ≠ []

/-- An invalid committed domain is carried into a plan in which nothing else is wrong. -/
def CarriesInvalid (s : NumaDomainSolver) (input : ProposeInput) : Prop :=
  (∀ c ∈ (candidateStage s input).domains, c.valid = true) ∧ (∀ d, CarriedIn s input d → ¬ OverfullIn input d) ∧
  (∃ d, CarriedIn s input d ∧ d.valid = false) ∧ MasksFit s input

/-- Some candidate is invalid, every such one is evicted, and what evicts them is fine. -/
def EvictsInvalid (s : NumaDomainSolver) (input : ProposeInput) : Prop :=
  (∃ c ∈ (candidateStage s input).domains, c.valid = false) ∧
  (∀ c ∈ (candidateStage s input).domains, c.valid = false → ∃ h ∈ s.domains, StraddlesIn s input c h) ∧
  ∀ d, CarriedIn s input d → d.valid = true ∧ ¬ OverfullIn input d

theorem exists_proposal_invalid {s : NumaDomainSolver} {input : ProposeInput} :
    (∃ d ∈ (proposalOf s input).domains, d.valid = false) ↔
      ∃ d ∈ (planStage s input).1.domains, d.valid = false := by
  have hmap : (proposalOf s input).domains =
      (planStage s input).1.domains.map (fun d => { d with confirmation := planConfirmation s input }) := rfl
  rw [hmap]
  simp only [List.mem_map, exists_exists_and_eq_and]

/-- What the final plan makes of the held domains. -/
theorem planStage_cases (s : NumaDomainSolver) (input : ProposeInput) (hs : WellSplit s.domains) :
    ((heldStage s input).valid = true ∧ MasksFit s input ∧ (planStage s input).1.valid = true ∧
      ((∃ d ∈ (planStage s input).1.domains, d.valid = false) ↔ ∃ d, PlannedIn s input d ∧ d.valid = false)) ∨
    ((heldStage s input).valid = true ∧ ¬ MasksFit s input ∧ (planStage s input).1.valid = false ∧
      ∃ d ∈ (planStage s input).1.domains, d.valid = false) ∨
    ((heldStage s input).valid = false ∧ (planStage s input).1.valid = false ∧
      ((∃ d ∈ (planStage s input).1.domains, d.valid = false) ↔ ∃ d, PlannedIn s input d ∧ d.valid = false)) := by
  have hmem : ∀ d, d ∈ (heldStage s input).domains.insertionSort (fun a b => a.id ≤ b.id) ↔ PlannedIn s input d :=
    fun d => (List.mem_insertionSort _).trans (mem_heldStage hs input d)
  have hfit := planDomains_invalid (byTid input.threads) input.allowedMasks
    ((heldStage s input).domains.insertionSort (fun a b => a.id ≤ b.id)) ∅
  have hexists : (∃ d ∈ (heldStage s input).domains.insertionSort (fun a b => a.id ≤ b.id), d.valid = false) ↔
      ∃ d, PlannedIn s input d ∧ d.valid = false := by
    simp only [hmem]
  have hfits : (∀ d ∈ (heldStage s input).domains.insertionSort (fun a b => a.id ≤ b.id), d.valid = true →
      ∀ t ∈ d.tids, t ∈ byTid input.threads → targetFor input.allowedMasks d.targetMask t ≠ []) ↔ MasksFit s input := by
    unfold MasksFit
    simp only [hmem]
  unfold planStage finalPlan
  obtain ⟨h1, h2, h3⟩ := hfit
  rw [hfits] at h1
  cases hv : (heldStage s input).valid with
  | false =>
    simp only [Bool.false_eq_true, if_false]
    exact Or.inr (Or.inr ⟨trivial, trivial, hexists⟩)
  | true =>
    simp only [if_true]
    by_cases hm : MasksFit s input
    · have hn := h1.2 hm
      rw [h2 hn, hn]
      exact Or.inl ⟨trivial, hm, rfl, hexists⟩
    · have hn : (planDomains (byTid input.threads) input.allowedMasks
          ((heldStage s input).domains.insertionSort (fun a b => a.id ≤ b.id)) ∅).invalid ≠ none := fun h => hm (h1.1 h)
      refine Or.inr (Or.inl ⟨trivial, hm, ?_, h3 hn⟩)
      rw [Option.isNone_eq_false_iff]
      exact Option.ne_none_iff_isSome.1 hn

/-- A planned domain is invalid when it is an invalid candidate, or a carried one that was invalid or has grown too large. -/
theorem exists_planned_invalid {s : NumaDomainSolver} {input : ProposeInput} :
    (∃ d, PlannedIn s input d ∧ d.valid = false) ↔
      (∃ c ∈ (candidateStage s input).domains, c.valid = false ∧ ∀ h ∈ s.domains, ¬ StraddlesIn s input c h) ∨
      ∃ d, CarriedIn s input d ∧ (d.valid = false ∨ OverfullIn input d) := by
  have hheld : ∀ d, (holdDomain input.options (byFamily input.threads) d).valid = false ↔
      d.valid = false ∨ OverfullIn input d := by
    intro d
    show (d.valid && !decide (input.options.maximumThreadsPerDomain <
      (holdDomain input.options (byFamily input.threads) d).tids.length)) = false ↔ _
    rw [Bool.and_eq_false_iff]
    refine or_congr Iff.rfl ?_
    rw [Bool.not_eq_false', decide_eq_true_eq]
    rfl
  constructor
  · intro ⟨d, hd, hv⟩
    rcases hd with ⟨hc, hs⟩ | ⟨c, hco, rfl⟩
    · exact Or.inl ⟨d, hc, hv, hs⟩
    · exact Or.inr ⟨c, hco, (hheld c).1 hv⟩
  · intro h
    rcases h with ⟨c, hc, hv, hs⟩ | ⟨c, hco, hv⟩
    · exact ⟨c, Or.inl ⟨hc, hs⟩, hv⟩
    · exact ⟨_, Or.inr ⟨c, hco, rfl⟩, (hheld c).2 hv⟩

/-- **What `valid` says, exactly.**  In a reachable state the proposal is valid if and only if all its domains are, except
when an invalid domain is carried into an otherwise sound plan, or when all invalid candidates were evicted. -/
theorem propose_valid_iff (s s' : NumaDomainSolver) (hs : Reachable s) (input : ProposeInput)
    (p : NumaDomainProposal) (hp : propose s input = .ok (p, s')) :
    (p.valid = true ↔ ∀ d ∈ p.domains, d.valid = true) ↔ ¬ CarriesInvalid s input ∧ ¬ EvictsInvalid s input := by
  obtain ⟨-, rfl, rfl⟩ := propose_ok hp
  have hsplit := hs.wellSplit
  have hvalid : (proposalOf s input).valid = (planStage s input).1.valid := rfl
  have hall : (∀ d ∈ (proposalOf s input).domains, d.valid = true) ↔
      ¬ ∃ d ∈ (planStage s input).1.domains, d.valid = false := by
    rw [← exists_proposal_invalid]
    refine ⟨fun h ⟨d, hd, hv⟩ => ?_, fun h d hd => ?_⟩
    · rw [h d hd] at hv; cases hv
    · by_contra hv
      exact h ⟨d, hd, by simpa using hv⟩
  have hheld := heldStage_valid hsplit input
  rw [hvalid, hall]
  rcases planStage_cases s input hsplit with ⟨hv, hm, hpv, hd⟩ | ⟨hv, hm, hpv, hd⟩ | ⟨hv, hpv, hd⟩
  · obtain ⟨hc, ho⟩ := hheld.1 hv
    rw [hpv, hd, exists_planned_invalid]
    refine ⟨fun h => ⟨fun ⟨_, _, ⟨d, hco, hdv⟩, _⟩ => ?_, fun ⟨⟨c, hcm, hcv⟩, _⟩ => ?_⟩, fun h => ?_⟩
    · exact h.1 rfl (Or.inr ⟨d, hco, Or.inl hdv⟩)
    · rw [hc c hcm] at hcv; cases hcv
    · refine iff_of_true rfl (fun hbad => ?_)
      rcases hbad with ⟨c, hcm, hcv, -⟩ | ⟨d, hco, hdv | hof⟩
      · rw [hc c hcm] at hcv; cases hcv
      · exact h.1 ⟨hc, ho, ⟨d, hco, hdv⟩, hm⟩
      · exact ho d hco hof
  · obtain ⟨hc, -⟩ := hheld.1 hv
    rw [hpv]
    refine iff_of_true (iff_of_false (by decide) (fun h => h hd)) ⟨fun h => hm h.2.2.2, fun ⟨⟨c, hcm, hcv⟩, _⟩ => ?_⟩
    rw [hc c hcm] at hcv; cases hcv
  · have hbroken : ¬ ((∀ c ∈ (candidateStage s input).domains, c.valid = true) ∧
        ∀ d, CarriedIn s input d → ¬ OverfullIn input d) := by
      rw [← hheld, hv]; decide
    rw [hpv, hd, exists_planned_invalid]
    have hnc : ¬ CarriesInvalid s input := fun h => hbroken ⟨h.1, h.2.1⟩
    refine ⟨fun h => ⟨hnc, fun ⟨_, hev, hco⟩ => ?_⟩, fun h => iff_of_false (by decide) (fun hno => ?_)⟩
    · refine absurd (h.2 (fun hbad => ?_)) (by decide)
      rcases hbad with ⟨c, hcm, hcv, hcs⟩ | ⟨d, hd', hdv | hof⟩
      · obtain ⟨x, hx, hst⟩ := hev c hcm hcv
        exact hcs x hx hst
      · rw [(hco d hd').1] at hdv; cases hdv
      · exact (hco d hd').2 hof
    · -- nothing planned is invalid, so the fault is an evicted candidate's
      rw [not_or] at hno
      have hco : ∀ d, CarriedIn s input d → d.valid = true ∧ ¬ OverfullIn input d := fun d hd' =>
        ⟨by by_contra hdv; exact hno.2 ⟨d, hd', Or.inl (by simpa using hdv)⟩, fun hof => hno.2 ⟨d, hd', Or.inr hof⟩⟩
      have hex : ∃ c ∈ (candidateStage s input).domains, c.valid = false := by
        by_contra hne
        refine hbroken ⟨fun c hcm => ?_, fun d hd' => (hco d hd').2⟩
        by_contra hcv
        exact hne ⟨c, hcm, by simpa using hcv⟩
      refine h.2 ⟨hex, fun c hcm hcv => ?_, hco⟩
      by_contra hns
      exact hno.1 ⟨c, hcm, hcv, fun x hx hst => hns ⟨x, hx, hst⟩⟩

/-! Two windows that go wrong.  `a+b` is committed on node 1; then only `a` is evident, it alone would fit node 0, which
its threads' masks no longer have, and the candidate is evicted by `a+b` all the same.  And a domain committed while its
threads had no CPU of its node is carried on once no evidence is left. -/

def twoFamilies (cpu : Int) (edges : List RelationEdge) (masks : OrdMap Tid Mask) (nowNs : Nat) : ProposeInput where
  hardware := dwellHardware
  threads := [dwellThread 1 "a" cpu, dwellThread 2 "a" cpu, dwellThread 3 "b" cpu, dwellThread 4 "b" cpu]
  edges := edges
  allowedMasks := masks
  options := dwellOptions
  nowNs := nowNs

def unionCommitted : List SolverEvent :=
  [.propose (twoFamilies 0 [dwellEdge 1 2, dwellEdge 3 4, dwellEdge 1 3] ∅ 1000), .commit 1000 ∅]

def evictingWindow : ProposeInput := twoFamilies 2 [dwellEdge 1 2]
  (OrdMap.ofList [(1, [2, 3, 4, 5]), (2, [2, 3, 4, 5]), (3, [2, 3, 4, 5]), (4, [2, 3, 4, 5])]) 2000

def invalidCommitted : List SolverEvent :=
  [.propose (twoFamilies 0 [dwellEdge 1 2] (OrdMap.ofList [(1, [9])]) 1000), .commit 1000 ∅]

def quietWindow : ProposeInput := twoFamilies 0 [] ∅ 2000

theorem propose_valid_iff_union :
    ∃ s p s', Reachable s ∧ propose s evictingWindow = .ok (p, s') ∧ s.domains.length = 1 ∧
      ((p.valid = true ↔ ∀ d ∈ p.domains, d.valid = true) ↔
        ¬ CarriesInvalid s evictingWindow ∧ ¬ EvictsInvalid s evictingWindow) := by
  have h : afterRun unionCommitted evictingWindow (fun s _ _ => decide (s.domains.length = 1)) = true := by decide +kernel
  obtain ⟨s, p, s', hs, hp, ht⟩ := afterRun_spec h
  exact ⟨s, p, s', hs, hp, of_decide_eq_true ht, propose_valid_iff s s' hs evictingWindow p hp⟩

/-- **`valid` misreports both ways**: false over a plan of valid domains, and true over a plan with an invalid one. -/
theorem propose_valid_misreports :
    (∃ s p s', Reachable s ∧ propose s evictingWindow = .ok (p, s') ∧
      p.valid = false ∧ ∀ d ∈ p.domains, d.valid = true) ∧
    (∃ s p s', Reachable s ∧ propose s quietWindow = .ok (p, s') ∧
      p.valid = true ∧ ∃ d ∈ p.domains, d.valid = false) := by
  have h₁ : afterRun unionCommitted evictingWindow (fun _ p _ => decide (
      p.valid = false ∧ ∀ d ∈ p.domains, d.valid = true)) = true := by decide +kernel
  have h₂ : afterRun invalidCommitted quietWindow (fun _ p _ => decide (
      p.valid = true ∧ ∃ d ∈ p.domains, d.valid = false)) = true := by decide +kernel
  obtain ⟨s₁, p₁, t₁, hs₁, hp₁, ht₁⟩ := afterRun_spec h₁
  obtain ⟨s₂, p₂, t₂, hs₂, hp₂, ht₂⟩ := afterRun_spec h₂
  exact ⟨⟨s₁, p₁, t₁, hs₁, hp₁, of_decide_eq_true ht₁⟩, ⟨s₂, p₂, t₂, hs₂, hp₂, of_decide_eq_true ht₂⟩⟩

end NumaDomainSolver
end AffinityGraph
