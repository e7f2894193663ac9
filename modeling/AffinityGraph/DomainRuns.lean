import AffinityGraph.DomainSolver
import AffinityGraph.Run
import Mathlib.Data.List.Pairwise
/-!
# DomainRuns — the solver's reachable states, and why its domains never share a family

The candidates of one window split the anchors, a held domain evicts what it overlaps, and the final plan only reorders
and marks: so the domains of every proposal are pairwise disjoint and non-empty (`proposalOf_wellSplit`), and with them
the committed domains of every reachable state (`Reachable.wellSplit`).
-/
namespace AffinityGraph

/-! ## Domains that share no family -/

structure WellSplit (l : List NumaDomain) : Prop where
  disjoint : l.Pairwise (fun a b => ∀ f ∈ a.families, f ∉ b.families)
  nonempty : ∀ d ∈ l, d.families ≠ []

namespace WellSplit

theorem nil : WellSplit [] := ⟨List.Pairwise.nil, fun _ h => absurd h List.not_mem_nil⟩

/-- Only the families count. -/
theorem of_families {l l' : List NumaDomain} (he : l'.map (·.families) = l.map (·.families)) (h : WellSplit l) :
    WellSplit l' := by
  refine ⟨?_, fun d hd => ?_⟩
  · have h1 := h.disjoint
    rw [← List.pairwise_map (f := fun d : NumaDomain => d.families) (R := fun a b => ∀ f ∈ a, f ∉ b)] at h1 ⊢
    rw [he]; exact h1
  · have hm : d.families ∈ l.map (·.families) := he ▸ List.mem_map_of_mem hd
    obtain ⟨x, hx, hxf⟩ := List.mem_map.1 hm
    rw [← hxf]; exact h.nonempty x hx

theorem perm {l l' : List NumaDomain} (hp : l.Perm l') (h : WellSplit l) : WellSplit l' := by
  refine ⟨?_, fun d hd => h.nonempty d (hp.mem_iff.2 hd)⟩
  refine (hp.pairwise_iff ?_).1 h.disjoint
  intro a b hab f hb ha
  exact hab f ha hb

theorem eq_of_shared {l : List NumaDomain} (h : WellSplit l) {a b : NumaDomain} (ha : a ∈ l) (hb : b ∈ l) {f : String}
    (hfa : f ∈ a.families) (hfb : f ∈ b.families) : a = b := by
  by_contra hne
  have hsymm : Std.Symm (fun a b : NumaDomain => ∀ f ∈ a.families, f ∉ b.families) :=
    ⟨fun _ _ hab f hb ha => hab f ha hb⟩
  exact h.disjoint.forall ha hb hne f hfa hfb

/-- A domain of a well split list has one place in it. -/
theorem split_unique {l pre pre' post post' : List NumaDomain} {d d' : NumaDomain} {f : String}
    (h : WellSplit l) (hl : l = pre ++ d :: post) (hl' : l = pre' ++ d' :: post') (hf : f ∈ d.families)
    (hf' : f ∈ d'.families) : pre = pre' ∧ d = d' := by
  have hdd : d = d' := h.eq_of_shared (by rw [hl]; simp) (by rw [hl']; simp) hf hf'
  subst hdd
  have hnot : ∀ {a b : List NumaDomain}, l = a ++ d :: b → d ∉ a ∧ d ∉ b := by
    intro a b hab
    have hpw := h.disjoint
    rw [hab] at hpw
    obtain ⟨-, h2, h3⟩ := List.pairwise_append.1 hpw
    exact ⟨fun hm => h3 d hm d List.mem_cons_self f hf hf,
      fun hm => List.rel_of_pairwise_cons h2 hm f hf hf⟩
  have heq := hl.symm.trans hl'
  rcases List.append_eq_append_iff.1 heq with ⟨as, h1, h2⟩ | ⟨as, h1, h2⟩
  · cases as with
    | nil => exact ⟨by simpa using h1.symm, rfl⟩
    | cons a as =>
      rw [List.cons_append, List.cons.injEq] at h2
      exact absurd (by rw [h1, h2.1]; simp) (hnot hl').1
  · cases as with
    | nil => exact ⟨by simpa using h1, rfl⟩
    | cons a as =>
      rw [List.cons_append, List.cons.injEq] at h2
      exact absurd (by rw [h1, h2.1]; simp) (hnot hl).1

end WellSplit

namespace NumaDomainSolver

/-! ## The candidates split the anchors -/

/-- Components filled from distinct names: each has a name, has it once, and shares none. -/
structure ComponentSplit (done : List String) (m : OrdMap String (List String)) : Prop where
  filled : ∀ r l, m.find? r = some l → l ≠ [] ∧ l.Nodup ∧ ∀ n ∈ l, n ∈ done
  apart : ∀ r r' l l', r ≠ r' → m.find? r = some l → m.find? r' = some l' → ∀ n ∈ l, n ∉ l'

theorem addToComponent_split {st : OrdMap String (List String) × OrdMap String String} {done : List String}
    {name : String} (hname : name ∉ done) (h : ComponentSplit done st.1) :
    ComponentSplit (name :: done) (addToComponent st name).1 := by
  generalize hk : (root (st.2.size + 1) st.2 name).1 = k
  have hst : (addToComponent st name).1 = st.1.update k [] (· ++ [name]) := by rw [← hk]; rfl
  rw [hst]
  unfold OrdMap.update
  have hcase : ∀ r l, (st.1.insert k (st.1.getD k [] ++ [name])).find? r = some l →
      (r = k ∧ l = st.1.getD k [] ++ [name]) ∨ (r ≠ k ∧ st.1.find? r = some l) := by
    intro r l h
    rw [OrdMap.find?_insert] at h
    by_cases hr : k = r
    · rw [if_pos hr] at h
      exact Or.inl ⟨hr.symm, (Option.some.inj h).symm⟩
    · rw [if_neg hr] at h
      exact Or.inr ⟨Ne.symm hr, h⟩
  have hold : (st.1.getD k []).Nodup ∧ ∀ n ∈ st.1.getD k [], n ∈ done := by
    unfold OrdMap.getD
    cases hf : st.1.find? k with
    | none => simp
    | some l => exact (h.filled k l hf).2
  refine ⟨fun r l hfind => ?_, fun r r' l l' hne hfind hfind' n hn hn' => ?_⟩
  · rcases hcase r l hfind with ⟨-, rfl⟩ | ⟨-, hfind⟩
    · refine ⟨by simp, ?_, fun n hn => ?_⟩
      · refine List.nodup_append'.2 ⟨hold.1, List.nodup_singleton _, fun n hn hn' => ?_⟩
        exact hname (List.mem_singleton.1 hn' ▸ hold.2 n hn)
      · rcases List.mem_append.1 hn with hn | hn
        · exact List.mem_cons_of_mem _ (hold.2 n hn)
        · rw [List.mem_singleton] at hn
          exact hn ▸ List.mem_cons_self
    · obtain ⟨h1, h2, h3⟩ := h.filled r l hfind
      exact ⟨h1, h2, fun n hn => List.mem_cons_of_mem _ (h3 n hn)⟩
  · -- the new name is in neither old component, and the old ones were apart
    have hapart : ∀ r'' l'', r'' ≠ k → st.1.find? r'' = some l'' → ∀ x ∈ st.1.getD k [] ++ [name], x ∉ l'' := by
      intro r'' l'' hr hf x hx hx'
      rcases List.mem_append.1 hx with hx | hx
      · unfold OrdMap.getD at hx
        cases hfk : st.1.find? k with
        | none => rw [hfk] at hx; exact absurd hx List.not_mem_nil
        | some lk => rw [hfk] at hx; exact h.apart k r'' lk l'' (Ne.symm hr) hfk hf x hx hx'
      · rw [List.mem_singleton] at hx
        exact hname (hx ▸ (h.filled r'' l'' hf).2.2 x hx')
    rcases hcase r l hfind with ⟨hr, rfl⟩ | ⟨hr, hfind⟩
    · rcases hcase r' l' hfind' with ⟨hr', -⟩ | ⟨hr', hfind'⟩
      · exact hne (hr.trans hr'.symm)
      · exact hapart r' l' hr' hfind' n hn hn'
    · rcases hcase r' l' hfind' with ⟨-, rfl⟩ | ⟨-, hfind'⟩
      · exact hapart r l hr hfind n hn' hn
      · exact h.apart r r' l l' hne hfind hfind' n hn hn'

theorem foldl_addToComponent_split : ∀ (names done : List String)
    (st : OrdMap String (List String) × OrdMap String String), (names ++ done).Nodup → ComponentSplit done st.1 →
    ∃ done', ComponentSplit done' (names.foldl addToComponent st).1
  | [], done, st, _, h => ⟨done, h⟩
  | name :: names, done, st, hn, h => by
    rw [List.cons_append, List.nodup_cons] at hn
    have hname : name ∉ done := fun h => hn.1 (List.mem_append_right _ h)
    refine foldl_addToComponent_split names (name :: done) (addToComponent st name) ?_ (addToComponent_split hname h)
    have hp : (names ++ name :: done).Perm (name :: (names ++ done)) := List.perm_middle
    rw [hp.nodup_iff, List.nodup_cons]
    exact hn

theorem components_split {anchors : List String} (hn : anchors.Nodup) (seeds : List FamilyPair) :
    ∃ done, ComponentSplit done (components anchors seeds) := by
  refine foldl_addToComponent_split anchors [] _ ?_ ⟨fun r l h => ?_, fun r r' l l' _ h => ?_⟩
  · rw [List.append_nil]; exact hn
  · rw [OrdMap.find?_empty] at h; cases h
  · rw [OrdMap.find?_empty] at h; cases h

theorem nodup_anchorNames (metrics : OrdMap String FamilyMetric) : (anchorNames metrics).Nodup := by
  unfold anchorNames
  exact (metrics.nodup_keys).sublist (List.filter_sublist.map Prod.fst)

theorem addCandidate_families (input : ProposeInput) (s : NumaDomainSolver) (families : OrdMap String (List ThreadDemand))
    (cross : OrdMap FamilyPair ℚ) : ∀ (comps : List (List String)) (st : CandidateState),
    ((comps.foldl (addCandidate input s families cross) st).domains.map (·.families)) =
      st.domains.map (·.families) ++ comps.map (·.insertionSort (· ≤ ·))
  | [], st => by simp
  | c :: comps, st => by
    rw [List.foldl_cons, addCandidate_families input s families cross comps]
    simp [addCandidate]

theorem candidateStage_families (s : NumaDomainSolver) (input : ProposeInput) :
    (candidateStage s input).domains.map (·.families) =
      (components (anchorNames (pairStage s input).metrics) (pairStage s input).confirmedSeeds).entries.map
        (fun e => e.2.insertionSort (· ≤ ·)) := by
  unfold candidateStage candidates
  rw [addCandidate_families]
  simp [Function.comp_def]

/-- **The candidates of a window** are disjoint and non-empty. -/
theorem candidateStage_wellSplit (s : NumaDomainSolver) (input : ProposeInput) :
    WellSplit (candidateStage s input).domains := by
  have hf := candidateStage_families s input
  obtain ⟨done, hsplit⟩ := components_split (nodup_anchorNames (pairStage s input).metrics)
    (pairStage s input).confirmedSeeds
  generalize components (anchorNames (pairStage s input).metrics) (pairStage s input).confirmedSeeds = comps at hf hsplit
  refine ⟨?_, fun d hd => ?_⟩
  · rw [← List.pairwise_map (f := fun d : NumaDomain => d.families) (R := fun a b => ∀ f ∈ a, f ∉ b), hf,
      List.pairwise_map]
    refine comps.sorted.imp_of_mem (fun {a b} ha hb hlt f hfa hfb => ?_)
    exact hsplit.apart a.1 b.1 a.2 b.2 (ne_of_lt hlt) (OrdMap.mem_entries.1 ha) (OrdMap.mem_entries.1 hb) f
      ((List.mem_insertionSort _).1 hfa) ((List.mem_insertionSort _).1 hfb)
  · have hm : d.families ∈ comps.entries.map (fun e => e.2.insertionSort (· ≤ ·)) := hf ▸ List.mem_map_of_mem hd
    obtain ⟨e, he, hef⟩ := List.mem_map.1 hm
    rw [← hef]
    intro hnil
    have hlen := List.length_insertionSort (· ≤ ·) e.2
    rw [hnil] at hlen
    exact (hsplit.filled e.1 e.2 (OrdMap.mem_entries.1 he)).1 (List.length_eq_zero_iff.1 hlen.symm)

/-! ## Holding keeps them apart -/

theorem coveredBy_iff {a b : List String} : coveredBy a b = true ↔ ∀ f ∈ a, f ∈ b := by
  unfold coveredBy
  simp

theorem overlaps_iff {a b : List String} : overlaps a b = true ↔ ∃ f, f ∈ b ∧ f ∈ a := by
  unfold overlaps
  simp

/-- **Everything the dwell loop's body can do.** -/
theorem holdStep_cases (options : NumaDomainOptions) (nowNs : Nat) (evidence : OrdMap String Nat)
    (families : OrdMap String (List ThreadDemand)) (st : Held) (d : NumaDomain) :
    (holdStep options nowNs evidence families st d = st ∧
      (inDwell options nowNs evidence d.id = false ∨ membersOf families d.families = [] ∨
        ∃ c ∈ st.domains, ∀ f ∈ d.families, f ∈ c.families)) ∨
    (inDwell options nowNs evidence d.id = true ∧ membersOf families d.families ≠ [] ∧
      (∀ c ∈ st.domains, ¬ ∀ f ∈ d.families, f ∈ c.families) ∧
      (holdStep options nowNs evidence families st d).domains =
        st.domains.filter (fun c => !overlaps d.families c.families) ++ [holdDomain options families d] ∧
      (holdStep options nowNs evidence families st d).valid =
        (st.valid && !decide (options.maximumThreadsPerDomain < (holdDomain options families d).tids.length))) := by
  unfold holdStep
  cases hd : inDwell options nowNs evidence d.id with
  | false => exact Or.inl ⟨rfl, Or.inl rfl⟩
  | true =>
    simp only [Bool.not_true, Bool.false_eq_true, if_false]
    by_cases hc : st.domains.any (fun c => coveredBy d.families c.families) = true
    · obtain ⟨c, hcm, hcc⟩ := List.any_eq_true.1 hc
      rw [if_pos hc]
      exact Or.inl ⟨rfl, Or.inr (Or.inr ⟨c, hcm, coveredBy_iff.1 hcc⟩)⟩
    · rw [if_neg hc]
      have hno : ∀ c ∈ st.domains, ¬ ∀ f ∈ d.families, f ∈ c.families := fun c hcm hcov =>
        hc (List.any_eq_true.2 ⟨c, hcm, coveredBy_iff.2 hcov⟩)
      by_cases hm : (membersOf families d.families).isEmpty = true
      · rw [if_pos hm]
        exact Or.inl ⟨rfl, Or.inr (Or.inl (List.isEmpty_iff.1 hm))⟩
      · rw [if_neg hm]
        exact Or.inr ⟨trivial, fun h => hm (List.isEmpty_iff.2 h), hno, rfl, rfl⟩

theorem holdStep_wellSplit (options : NumaDomainOptions) (nowNs : Nat) (evidence : OrdMap String Nat)
    (families : OrdMap String (List ThreadDemand)) {st : Held} {d : NumaDomain} (hd : d.families ≠ [])
    (h : WellSplit st.domains) : WellSplit (holdStep options nowNs evidence families st d).domains := by
  rcases holdStep_cases options nowNs evidence families st d with ⟨he, -⟩ | ⟨-, -, -, he, -⟩
  · rw [he]; exact h
  · rw [he]
    refine ⟨List.pairwise_append.2 ⟨h.disjoint.sublist List.filter_sublist, List.pairwise_singleton _ _, ?_⟩, ?_⟩
    · intro a ha b hb f hfa hfb
      rw [List.mem_singleton] at hb
      have hov := (List.mem_filter.1 ha).2
      rw [hb] at hfb
      have : overlaps d.families a.families = true := overlaps_iff.2 ⟨f, hfa, hfb⟩
      rw [this] at hov
      cases hov
    · intro c hc
      rcases List.mem_append.1 hc with hc | hc
      · exact h.nonempty c (List.mem_of_mem_filter hc)
      · rw [List.mem_singleton] at hc
        rw [hc]; exact hd

theorem heldStage_wellSplit {s : NumaDomainSolver} (hs : ∀ d ∈ s.domains, d.families ≠ []) (input : ProposeInput) :
    WellSplit (heldStage s input).domains := by
  have hrun : ∀ (l : List NumaDomain) (st : Held), (∀ d ∈ l, d.families ≠ []) → WellSplit st.domains →
      WellSplit (l.foldl (holdStep input.options input.nowNs (evidenceStage s input) (byFamily input.threads)) st).domains
    := by
    intro l
    induction l with
    | nil => exact fun st _ h => h
    | cons d l ih =>
      intro st hl h
      exact ih _ (fun x hx => hl x (List.mem_cons_of_mem _ hx))
        (holdStep_wellSplit _ _ _ _ (hl d List.mem_cons_self) h)
  exact hrun s.domains _ hs (candidateStage_wellSplit s input)

/-! ## The final plan only reorders and marks -/

section Marks

variable {β : Type} (g : NumaDomain → β) (hg : ∀ d v r c,
  g { d with valid := v, invalidReason := r, confirmation := c } = g d)

include hg

theorem planDomains_map (tidMap : OrdMap Tid ThreadDemand) (allowedMasks : OrdMap Tid Mask) :
    ∀ (ds : List NumaDomain) (masks : OrdMap Tid Mask),
      (planDomains tidMap allowedMasks ds masks).domains.map g = ds.map g
  | [], _ => rfl
  | d :: ds, masks => by
    unfold planDomains
    split
    · simp only [List.map_cons, planDomains_map tidMap allowedMasks ds]
    · split
      · rw [List.map_cons, List.map_cons]
        exact congrArg (· :: ds.map g) (hg d _ _ d.confirmation)
      · simp only [List.map_cons, planDomains_map tidMap allowedMasks ds]

/-- **The final domains are the held ones**, sorted by id, up to the marks the plan sets. -/
theorem proposalOf_map (s : NumaDomainSolver) (input : ProposeInput) : (proposalOf s input).domains.map g =
    ((heldStage s input).domains.insertionSort (fun a b => a.id ≤ b.id)).map g := by
  have hplan : (planStage s input).1.domains.map g =
      ((heldStage s input).domains.insertionSort (fun a b => a.id ≤ b.id)).map g := by
    unfold planStage finalPlan
    split
    · exact planDomains_map g hg _ _ _ _
    · rfl
  rw [← hplan]
  show ((planStage s input).1.domains.map _).map _ = _
  rw [List.map_map]
  exact List.map_congr_left (fun d _ => hg d d.valid d.invalidReason _)

theorem exists_held {s : NumaDomainSolver} {input : ProposeInput} {d : NumaDomain}
    (hd : d ∈ (proposalOf s input).domains) : ∃ c ∈ (heldStage s input).domains, g d = g c := by
  have hmem : g d ∈ ((heldStage s input).domains.insertionSort (fun a b => a.id ≤ b.id)).map g :=
    proposalOf_map g hg s input ▸ List.mem_map_of_mem hd
  obtain ⟨c, hc, he⟩ := List.mem_map.1 hmem
  exact ⟨c, (List.mem_insertionSort _).1 hc, he.symm⟩

end Marks

theorem proposalOf_wellSplit {s : NumaDomainSolver} (hs : ∀ d ∈ s.domains, d.families ≠ []) (input : ProposeInput) :
    WellSplit (proposalOf s input).domains :=
  ((heldStage_wellSplit hs input).perm (List.perm_insertionSort _ _).symm).of_families
    (proposalOf_map _ (fun _ _ _ _ => rfl) s input)

/-- A family is in the proposal exactly when a held domain has it. -/
theorem mem_proposal_families {s : NumaDomainSolver} {input : ProposeInput} {f : String} :
    (∃ d ∈ (proposalOf s input).domains, f ∈ d.families) ↔ ∃ d ∈ (heldStage s input).domains, f ∈ d.families := by
  have hmap : ∀ l : List NumaDomain, (∃ d ∈ l, f ∈ d.families) ↔ ∃ fs ∈ l.map (·.families), f ∈ fs := by
    intro l
    simp
  rw [hmap, proposalOf_map _ (fun _ _ _ _ => rfl), ← hmap]
  constructor
  · intro ⟨d, hd, hf⟩
    exact ⟨d, (List.mem_insertionSort _).1 hd, hf⟩
  · intro ⟨d, hd, hf⟩
    exact ⟨d, (List.mem_insertionSort _).2 hd, hf⟩

/-! ## Reachable states -/

inductive SolverEvent where
  | propose (input : ProposeInput)
  | commit (nowNs : Nat) (committedTids : OrdSet Tid)
  | discard
  | removeThread (tid : Tid)
  | reset

/-- One call.  Only the outstanding proposal is ever committed or discarded. -/
def solverStep (s : NumaDomainSolver) : SolverEvent → Option NumaDomainSolver
  | .propose input => (propose s input).toOption.map Prod.snd
  | .commit nowNs tids => s.outstanding.bind (fun p => (commit s p nowNs tids).toOption)
  | .discard => s.outstanding.map (discard s)
  | .removeThread tid => some (removeThread s tid)
  | .reset => some (reset s)

/-- The states some run of calls from a new solver leads to. -/
def Reachable (s : NumaDomainSolver) : Prop := ∃ es, Run.exec solverStep {} es = some s

theorem propose_ok {s s' : NumaDomainSolver} {input : ProposeInput} {p : NumaDomainProposal}
    (h : propose s input = .ok (p, s')) : s.outstanding = none ∧ p = proposalOf s input ∧ s' = proposed s input := by
  unfold propose at h
  cases ho : s.outstanding with
  | some q => rw [ho] at h; cases h
  | none =>
    rw [ho] at h
    simp only [Option.isSome_none, Bool.false_eq_true, if_false, Except.ok.injEq, Prod.mk.injEq] at h
    exact ⟨rfl, h.1.symm, h.2.symm⟩

/-- A commit, unpacked: only these fields change. -/
theorem commit_ok {s s' : NumaDomainSolver} {p : NumaDomainProposal} {nowNs : Nat} {tids : OrdSet Tid}
    (h : commit s p nowNs tids = .ok s') :
    s.outstanding.map (·.id) = some p.id ∧ s'.domains = p.domains ∧ s'.outstanding = none ∧
    s'.placement = commitPlacement s.placement p tids := by
  have hfold : ∀ (l : List NumaDomain) (s₀ : NumaDomainSolver),
      (l.foldl (commitDomain (s.domains.map (·.id)) nowNs) s₀).placement = s₀.placement := by
    intro l
    induction l with
    | nil => exact fun _ => rfl
    | cons d l ih => exact fun s₀ => ih _
  unfold commit at h
  by_cases ho : s.outstanding.map (·.id) = some p.id
  · rw [if_pos ho] at h
    cases h
    exact ⟨ho, rfl, rfl, hfold p.domains _⟩
  · rw [if_neg ho] at h; cases h

/-- A call of `propose` is with an input that meets `ok`. -/
def OnInputs (ok : ProposeInput → Prop) (_ : NumaDomainSolver) (e : SolverEvent) : Prop := ∀ input, e = .propose input → ok input

/-- What every proposal of a run keeps of the committed domains holds of the committed and the proposed ones. -/
theorem domains_keep_on {P : List NumaDomain → Prop} {ok : ProposeInput → Prop} (hnil : P [])
    (hpropose : ∀ s input, ok input → P s.domains → P (proposalOf s input).domains) {es : List SolverEvent}
    {s : NumaDomainSolver} (hobeys : Run.Obeys solverStep (OnInputs ok) {} es) (he : Run.exec solverStep {} es = some s) :
    P s.domains ∧ ∀ p, s.outstanding = some p → P p.domains := by
  refine hobeys.invariant (fun s => P s.domains ∧ ∀ p, s.outstanding = some p → P p.domains)
    ?_ ⟨hnil, fun p hp => by cases hp⟩ he
  intro s e s' ⟨hd, ho⟩ hok hstep
  cases e with
  | propose input =>
    simp only [solverStep] at hstep
    cases hp : propose s input with
    | error e => rw [hp] at hstep; cases hstep
    | ok r =>
      obtain ⟨p, t⟩ := r
      rw [hp] at hstep
      cases hstep
      obtain ⟨-, -, rfl⟩ := propose_ok hp
      refine ⟨hd, fun q hq => ?_⟩
      cases hq
      exact hpropose s input (hok input rfl) hd
  | commit nowNs tids =>
    unfold solverStep at hstep
    obtain ⟨p, hp, hc⟩ := Option.bind_eq_some_iff.1 hstep
    cases hok : commit s p nowNs tids with
    | error e => rw [hok] at hc; cases hc
    | ok t =>
      rw [hok] at hc
      cases hc
      obtain ⟨-, hdom, hout, -⟩ := commit_ok hok
      rw [hdom, hout]
      exact ⟨ho p hp, fun q hq => by cases hq⟩
  | discard =>
    unfold solverStep at hstep
    obtain ⟨p, hp, hc⟩ := Option.map_eq_some_iff.1 hstep
    rw [← hc]
    unfold discard
    split
    · exact ⟨hd, fun q hq => by cases hq⟩
    · exact ⟨hd, ho⟩
  | removeThread tid =>
    cases hstep
    exact ⟨hd, ho⟩
  | reset =>
    cases hstep
    exact ⟨hnil, fun p hp => by cases hp⟩

/-- What every proposal keeps of the committed domains holds in every reachable state. -/
theorem Reachable.domains_keep {P : List NumaDomain → Prop} (hnil : P [])
    (hpropose : ∀ s input, P s.domains → P (proposalOf s input).domains) {s : NumaDomainSolver} (h : Reachable s) :
    P s.domains := by
  obtain ⟨es, he⟩ := h
  have hall : ∀ s e, OnInputs (fun _ => True) s e := fun _ _ _ _ => trivial
  exact (domains_keep_on hnil (fun s input _ => hpropose s input) (Run.Obeys.of_forall hall es {}) he).1

theorem Reachable.wellSplit {s : NumaDomainSolver} (h : Reachable s) : WellSplit s.domains :=
  h.domains_keep WellSplit.nil (fun _ input hs => proposalOf_wellSplit hs.nonempty input)

end NumaDomainSolver

end AffinityGraph
