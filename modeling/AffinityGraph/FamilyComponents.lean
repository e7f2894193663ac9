import AffinityGraph.PendingMerges
/-!
# FamilyComponents — what the union-find of a call computes

`root` is recursive and writes the map it reads.  Here its recursion is a relation of its own, so that it ends can be said
without the fuel: it does on every map that `root` and `unite` can make of the parents.  The components of a call are then
the connected components of the anchors under the confirmed seeds (`family_components`).
-/
namespace AffinityGraph
namespace NumaDomainSolver

open Forest

/-- A call of `root` that returns: the name, its root, and the parents before and after.  No name is looked up that the map
does not have. -/
inductive Finds : OrdMap String String → String → String → OrdMap String String → Prop
  | here {p : OrdMap String String} {x : String} (h : p.find? x = some x) : Finds p x x p
  | up {p p' : OrdMap String String} {x u r : String} (h : p.find? x = some u) (hne : u ≠ x) (rest : Finds p u r p') :
      Finds p x r (p'.insert x r)

theorem finds_root : ∀ (fuel : Nat) {p : OrdMap String String} {x : String}, Ordered p → x ∈ p → rank p x < fuel →
    Finds p x (root fuel p x).1 (root fuel p x).2
  | fuel + 1, p, x, hp, hx, hfuel => by
    obtain ⟨u, hu⟩ := OrdMap.mem_iff.1 hx
    have hup : p.getD x "" = u := by
      unfold OrdMap.getD
      rw [hu]
      rfl
    unfold root
    dsimp only
    rw [hup]
    by_cases hux : u = x
    · subst hux
      rw [if_pos rfl]
      exact .here hu
    · rw [if_neg hux]
      have hrank := lt_of_lt_of_le (hp.rank_lt hu hux) (Nat.lt_succ_iff.1 hfuel)
      exact .up hu hux (finds_root fuel hp (hp x u hu).2 hrank)

/-- What calls of `root` and `unite` make of the parents. -/
inductive ParentMap (anchors : List String) (seeds : List FamilyPair) : OrdMap String String → Prop
  | start : ParentMap anchors seeds (startParents anchors)
  | root {p p' : OrdMap String String} {x r : String} (h : ParentMap anchors seeds p) (hx : x ∈ anchors)
      (hfinds : Finds p x r p') : ParentMap anchors seeds p'
  | unite {p : OrdMap String String} {seed : FamilyPair} (h : ParentMap anchors seeds p) (hseed : seed ∈ seeds) :
      ParentMap anchors seeds (unite p seed)

theorem Finds.spec {p p' : OrdMap String String} {x r : String} (h : Finds p x r p') (hp : Ordered p) :
    Leads p x r ∧ Same p p' := by
  induction h with
  | here hx => exact ⟨.here hx, Same.refl hp⟩
  | up hu hne _ ih =>
    obtain ⟨hleads, hsame⟩ := ih
    have hx := Leads.up hu hne hleads
    exact ⟨hx, hsame.trans (hsame.ordered.compress (hsame.leads.2 hx))⟩

theorem ParentMap.pointers {anchors : List String} {seeds : List FamilyPair} {p : OrdMap String String}
    (hends : ∀ f g, Seeded seeds f g → f ∈ anchors ∧ g ∈ anchors) (h : ParentMap anchors seeds p) : Pointers anchors p := by
  induction h with
  | start => exact pointers_start anchors
  | root _ _ hfinds ih => exact ih.same (hfinds.spec ih.ordered).2
  | @unite p seed _ hseed ih =>
    obtain ⟨hl, hr⟩ := hends (ofLex seed).1 (ofLex seed).2 hseed
    exact (unite_spec ih hl hr).1

/-- The anchors, ascending. -/
theorem anchorNames_sorted (metrics : OrdMap String FamilyMetric) : (anchorNames metrics).Pairwise (· < ·) := by
  unfold anchorNames
  exact metrics.sorted_keys.sublist (List.filter_sublist.map Prod.fst)

/-- Every anchor is in a component. -/
theorem exists_component {anchors : List String} {seeds : List FamilyPair}
    (hends : ∀ f g, Seeded seeds f g → f ∈ anchors ∧ g ∈ anchors) {x : String} (hx : x ∈ anchors) :
    ∃ r l, (components anchors seeds).find? r = some l ∧ x ∈ l := by
  have hmem : x ∈ (components anchors seeds).getD (rootOf (seeds.foldl unite (startParents anchors)) x) [] := by
    rw [getD_components hends, List.mem_filter]
    exact ⟨hx, decide_eq_true rfl⟩
  unfold OrdMap.getD at hmem
  cases hf : (components anchors seeds).find? (rootOf (seeds.foldl unite (startParents anchors)) x) with
  | none =>
    rw [hf] at hmem
    cases hmem
  | some l =>
    rw [hf] at hmem
    exact ⟨_, l, hf, hmem⟩

theorem component_sublist {anchors : List String} {seeds : List FamilyPair}
    (hends : ∀ f g, Seeded seeds f g → f ∈ anchors ∧ g ∈ anchors) {r : String} {l : List String}
    (h : (components anchors seeds).find? r = some l) : l.Sublist anchors := by
  have hl : (components anchors seeds).getD r [] = l := by
    unfold OrdMap.getD
    rw [h]
    rfl
  rw [← hl, getD_components hends]
  exact List.filter_sublist

/-- A candidate has exactly the families of one component, and every component is a candidate. -/
theorem candidate_of_component {s : NumaDomainSolver} {input : ProposeInput} {r : String} {l : List String}
    (h : (components (anchorNames (pairStage s input).metrics) (pairStage s input).confirmedSeeds).find? r = some l) :
    ∃ d ∈ (candidateStage s input).domains, ∀ f, f ∈ d.families ↔ f ∈ l := by
  have hmem : l.insertionSort (· ≤ ·) ∈ (candidateStage s input).domains.map (·.families) := by
    rw [candidateStage_families]
    exact List.mem_map.2 ⟨(r, l), OrdMap.mem_entries.2 h, rfl⟩
  obtain ⟨d, hd, hfamilies⟩ := List.mem_map.1 hmem
  refine ⟨d, hd, fun f => ?_⟩
  rw [hfamilies]
  exact List.mem_insertionSort _

/-- The vertices of a call. -/
def anchorsOf (s : NumaDomainSolver) (input : ProposeInput) : List String := anchorNames (pairStage s input).metrics

/-- The edges of a call. -/
def seedsOf (s : NumaDomainSolver) (input : ProposeInput) : List FamilyPair := (pairStage s input).confirmedSeeds

/-- **Family components.**  The ends of a confirmed seed are anchors; `root` returns on every map the parents can become;
each component is a class of the anchors under chains of confirmed seeds, ascending, and every anchor is in exactly one; so
two families share a candidate exactly when they are anchors that such a chain joins. -/
theorem family_components (s : NumaDomainSolver) (input : ProposeInput) :
    (∀ f g, Seeded (seedsOf s input) f g → f ∈ anchorsOf s input ∧ g ∈ anchorsOf s input) ∧
    (∀ p, ParentMap (anchorsOf s input) (seedsOf s input) p → ∀ x ∈ anchorsOf s input,
      ∃ r p', Finds p x r p' ∧ root (p.size + 1) p x = (r, p')) ∧
    (∀ r l, (components (anchorsOf s input) (seedsOf s input)).find? r = some l → l ≠ [] ∧ l.Pairwise (· < ·) ∧
      ∀ x ∈ l, ∀ y, y ∈ l ↔ y ∈ anchorsOf s input ∧ Relation.EqvGen (Seeded (seedsOf s input)) x y) ∧
    (∀ x ∈ anchorsOf s input, ∃! r, ∃ l, (components (anchorsOf s input) (seedsOf s input)).find? r = some l ∧ x ∈ l) ∧
    ∀ f g, (∃ d ∈ (candidateStage s input).domains, f ∈ d.families ∧ g ∈ d.families) ↔
      f ∈ anchorsOf s input ∧ g ∈ anchorsOf s input ∧ Relation.EqvGen (Seeded (seedsOf s input)) f g := by
  unfold anchorsOf seedsOf
  have hends := fun f g (h : Seeded (pairStage s input).confirmedSeeds f g) => (seed_ends h).1
  obtain ⟨done, hsplit⟩ := components_split (nodup_anchorNames (pairStage s input).metrics)
    (pairStage s input).confirmedSeeds
  refine ⟨hends, fun p hp x hx => ?_, fun r l h => ?_, fun x hx => ?_, fun f g => ?_⟩
  · have hpointers := hp.pointers hends
    exact ⟨_, _, finds_root _ hpointers.ordered ((hpointers.keys x).2 hx) (Nat.lt_succ_of_le (rank_le_size p x)), rfl⟩
  · exact ⟨(hsplit.filled r l h).1, (anchorNames_sorted _).sublist (component_sublist hends h),
      fun x hx y => mem_components_iff hends h hx⟩
  · obtain ⟨r, l, h, hxl⟩ := exists_component hends hx
    refine ⟨r, ⟨l, h, hxl⟩, ?_⟩
    rintro r' ⟨l', h', hxl'⟩
    by_contra hne
    exact hsplit.apart r' r l' l hne h' h x hxl' hxl
  · constructor
    · rintro ⟨d, hd, hf, hg⟩
      obtain ⟨r, l, h, hmem⟩ := component_of_candidate hd
      rw [hmem] at hf hg
      obtain ⟨hga, hchain⟩ := (mem_components_iff hends h hf).1 hg
      exact ⟨(component_sublist hends h).subset hf, hga, hchain⟩
    · rintro ⟨hf, hg, hchain⟩
      obtain ⟨r, l, h, hfl⟩ := exists_component hends hf
      obtain ⟨d, hd, hmem⟩ := candidate_of_component h
      exact ⟨d, hd, (hmem f).2 hfl, (hmem g).2 ((mem_components_iff hends h hfl).2 ⟨hg, hchain⟩)⟩

end NumaDomainSolver
end AffinityGraph
