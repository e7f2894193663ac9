import AffinityGraph.DomainTrace
import AffinityGraph.Forest
/-!
# Components — the families that confirmed pairs join

The loops over the seeds and the anchors keep the parent pointers a forest over the anchors: `root` finds the root of a name
and only shortens pointers, `unite` links one root to another.  So the components are the classes of the confirmed seeds
over the anchors (`mem_components_iff`).
-/
namespace AffinityGraph
namespace NumaDomainSolver

open Forest

/-! ## root and unite -/

/-- **`root` finds the root** and keeps the parts, whenever it has more fuel than there are keys before the name. -/
theorem root_spec : ∀ (fuel : Nat) {p : OrdMap String String} {x : String}, Ordered p → x ∈ p → rank p x < fuel →
    Leads p x (root fuel p x).1 ∧ Same p (root fuel p x).2
  | fuel + 1, p, x, hp, hx, hfuel => by
    obtain ⟨u, hu⟩ := OrdMap.mem_iff.1 hx
    have hup : p.getD x "" = u := by
      unfold OrdMap.getD
      rw [hu]
      rfl
    unfold root
    dsimp only
    rw [hup]
    by_cases hux : u = x
    · subst hux
      rw [if_pos rfl]
      exact ⟨.here hu, Same.refl hp⟩
    · rw [if_neg hux]
      obtain ⟨hleads, hsame⟩ := root_spec fuel hp (hp x u hu).2
        (lt_of_lt_of_le (hp.rank_lt hu hux) (Nat.lt_succ_iff.1 hfuel))
      have hroot : Leads p x (root fuel p u).1 := .up hu hux hleads
      exact ⟨hroot, hsame.trans (hsame.ordered.compress (hsame.leads.2 hroot))⟩

/-- The size of the map is enough fuel. -/
theorem root_size {p : OrdMap String String} {x : String} (hp : Ordered p) (hx : x ∈ p) :
    Leads p x (root (p.size + 1) p x).1 ∧ Same p (root (p.size + 1) p x).2 :=
  root_spec _ hp hx (Nat.lt_succ_of_le (rank_le_size p x))

/-- What a state of the pointers is: a forest over these names. -/
structure Pointers (anchors : List String) (p : OrdMap String String) : Prop where
  ordered : Ordered p
  keys : ∀ x, x ∈ p ↔ x ∈ anchors

theorem Pointers.same {anchors : List String} {p p' : OrdMap String String} (h : Pointers anchors p) (hs : Same p p') :
    Pointers anchors p' := ⟨hs.ordered, fun x => (hs.mem h.ordered).trans (h.keys x)⟩

theorem Pointers.self {anchors : List String} {p : OrdMap String String} {x : String} (h : Pointers anchors p)
    (hx : x ∈ anchors) : Joined p x x := by
  obtain ⟨r, hr⟩ := h.ordered.exists_leads ((h.keys x).2 hx)
  exact ⟨r, hr, hr⟩

/-- What `unite` does to the parts: it joins those of the pair, and no others. -/
theorem unite_spec {anchors : List String} {p : OrdMap String String} (h : Pointers anchors p) {l m : String}
    (hl : l ∈ anchors) (hm : m ∈ anchors) : Pointers anchors (unite p (toLex (l, m))) ∧
      ∀ x y, Joined (unite p (toLex (l, m))) x y ↔
        Joined p x y ∨ Joined p x l ∧ Joined p m y ∨ Joined p x m ∧ Joined p l y := by
  obtain ⟨hla, hsame₁⟩ := root_size h.ordered ((h.keys l).2 hl)
  rcases hroot₁ : root (p.size + 1) p l with ⟨a, p₁⟩
  rw [hroot₁] at hla hsame₁
  dsimp only at hla hsame₁
  have h₁ := h.same hsame₁
  have hfuel : rank p₁ m < p.size + 1 := by
    rw [hsame₁.rank_eq h.ordered]
    exact Nat.lt_succ_of_le (rank_le_size p m)
  obtain ⟨hmb, hsame₂⟩ := root_spec _ h₁.ordered ((h₁.keys m).2 hm) hfuel
  rcases hroot₂ : root (p.size + 1) p₁ m with ⟨b, q⟩
  rw [hroot₂] at hmb hsame₂
  dsimp only at hmb hsame₂
  rw [hsame₁.leads] at hmb
  have hsame : Same p q := hsame₁.trans hsame₂
  have h₂ := h.same hsame
  have hunite : unite p (toLex (l, m)) = if a ≠ b then q.insert (max a b) (min a b) else q := by
    unfold unite
    simp only [ofLex_toLex, hroot₁, hroot₂]
  rw [hunite]
  have hparts : ∀ {x y}, Joined q x y ↔ Joined p x y :=
    fun {x y} => exists_congr (fun r => and_congr hsame.leads hsame.leads)
  have hjoinl : ∀ x, Joined p x l ↔ Leads p x a := by
    intro x
    constructor
    · rintro ⟨r, hx, hr⟩
      rw [hla.unique hr]
      exact hx
    · exact fun hx => ⟨a, hx, hla⟩
  have hjoinm : ∀ x, Joined p x m ↔ Leads p x b := by
    intro x
    constructor
    · rintro ⟨r, hx, hr⟩
      rw [hmb.unique hr]
      exact hx
    · exact fun hx => ⟨b, hx, hmb⟩
  have hsymm : ∀ {x y}, Joined p x y ↔ Joined p y x := ⟨Forest.Joined.symm, Forest.Joined.symm⟩
  by_cases hab : a = b
  · subst hab
    rw [if_neg (by simp)]
    refine ⟨h₂, fun x y => ?_⟩
    rw [hparts, hsymm (x := m), hsymm (x := l), hjoinl, hjoinl, hjoinm, hjoinm, or_self]
    refine (or_iff_left_of_imp ?_).symm
    rintro ⟨hx, hy⟩
    exact ⟨a, hx, hy⟩
  · rw [if_pos hab]
    have ha : q.find? a = some a := (hsame.leads.2 hla).root
    have hb : q.find? b = some b := (hsame.leads.2 hmb).root
    have hmin : q.find? (min a b) = some (min a b) := by
      rcases min_choice a b with hc | hc <;> rw [hc] <;> assumption
    have hmax : q.find? (max a b) = some (max a b) := by
      rcases max_choice a b with hc | hc <;> rw [hc] <;> assumption
    have hlt : min a b < max a b := by
      rcases lt_or_gt_of_ne hab with hlt | hlt
      · rw [min_eq_left hlt.le, max_eq_right hlt.le]
        exact hlt
      · rw [min_eq_right hlt.le, max_eq_left hlt.le]
        exact hlt
    refine ⟨⟨h₂.ordered.insert_root hmin hlt, fun x => ?_⟩, fun x y => ?_⟩
    · rw [OrdMap.mem_insert, h₂.keys]
      refine or_iff_right_of_imp (fun hx => ?_)
      subst hx
      exact (h₂.keys _).1 (OrdMap.mem_of_find hmax)
    · rw [h₂.ordered.joined_link hmin hmax hlt, hparts, hsame.leads, hsame.leads, hsame.leads, hsame.leads,
        hsymm (x := m), hsymm (x := l), hjoinl, hjoinl, hjoinm, hjoinm]
      rcases lt_or_gt_of_ne hab with hlt | hlt
      · rw [min_eq_left hlt.le, max_eq_right hlt.le]
      · rw [min_eq_right hlt.le, max_eq_left hlt.le, or_comm (b := Leads p x b ∧ Leads p y a)]

/-! ## The classes of the seeds -/

/-- `parent` before the first seed: every anchor is its own root. -/
def startParents (anchors : List String) : OrdMap String String := OrdMap.ofList (anchors.map (fun n => (n, n)))

theorem find?_startParents {anchors : List String} {x u : String} :
    (startParents anchors).find? x = some u ↔ x ∈ anchors ∧ u = x := by
  unfold startParents OrdMap.ofList
  constructor
  · intro h
    rcases OrdMap.find?_foldl_insert Prod.fst Prod.snd _ _ h with ⟨e, he, hk, hv⟩ | h
    · obtain ⟨n, hn, rfl⟩ := List.mem_map.1 he
      cases hk
      cases hv
      exact ⟨hn, rfl⟩
    · cases h
  · rintro ⟨hx, rfl⟩
    have hin := OrdMap.mem_foldl_insert Prod.fst Prod.snd _ OrdMap.empty (List.mem_map_of_mem (f := fun n => (n, n)) hx)
    obtain ⟨v, hv⟩ := OrdMap.mem_iff.1 hin
    rcases OrdMap.find?_foldl_insert Prod.fst Prod.snd _ _ hv with ⟨e, he, hk, hval⟩ | h
    · obtain ⟨n, -, rfl⟩ := List.mem_map.1 he
      dsimp only at hk hval hv
      rw [← hval, hk] at hv
      exact hv
    · cases h

theorem pointers_start (anchors : List String) : Pointers anchors (startParents anchors) := by
  have hkeys : ∀ x, x ∈ startParents anchors ↔ x ∈ anchors := by
    intro x
    rw [OrdMap.mem_iff]
    constructor
    · rintro ⟨u, hu⟩
      exact (find?_startParents.1 hu).1
    · exact fun hx => ⟨x, find?_startParents.2 ⟨hx, rfl⟩⟩
  refine ⟨fun x u hu => ?_, hkeys⟩
  obtain ⟨hx, rfl⟩ := find?_startParents.1 hu
  exact ⟨le_rfl, (hkeys u).2 hx⟩

/-- A confirmed seed joins the two families. -/
def Seeded (seeds : List FamilyPair) (f g : String) : Prop := toLex (f, g) ∈ seeds

/-- The parts before the first seed are single anchors. -/
theorem classes_start (anchors : List String) : Classes (startParents anchors) (Seeded []) := by
  have heq : ∀ {x r}, Leads (startParents anchors) x r → r = x := by
    intro x r h
    cases h with
    | here _ => rfl
    | up hu hne _ => exact absurd (find?_startParents.1 hu).2 hne
  intro x y
  constructor
  · intro h
    refine Or.inl ?_
    induction h with
    | rel x y h => cases h
    | refl x => rfl
    | symm x y _ ih => exact ih.symm
    | trans x y z _ _ ih ih' => exact ih.trans ih'
  · rintro (rfl | ⟨r, hx, hy⟩)
    · exact .refl _
    · rw [← heq hx, ← heq hy]
      exact .refl _

/-- **The parts after the seeds** are the classes of the equivalence they generate. -/
theorem foldl_unite {anchors : List String} {seeds : List FamilyPair}
    (hends : ∀ f g, Seeded seeds f g → f ∈ anchors ∧ g ∈ anchors) :
    Pointers anchors (seeds.foldl unite (startParents anchors)) ∧
      Classes (seeds.foldl unite (startParents anchors)) (Seeded seeds) := by
  refine Loop.foldl_so_far (fun done p => (∀ seed ∈ done, seed ∈ seeds) → Pointers anchors p ∧ Classes p (Seeded done))
    (fun done p seed ih hsub => ?_) seeds [] (fun _ => ⟨pointers_start anchors, classes_start anchors⟩) (fun _ h => h)
  obtain ⟨hp, hc⟩ := ih (fun x hx => hsub x (List.mem_append_left _ hx))
  obtain ⟨hl, hm⟩ := hends (ofLex seed).1 (ofLex seed).2 (hsub seed (List.mem_append_right _ (List.mem_singleton.2 rfl)))
  obtain ⟨hp', hjoin⟩ := unite_spec hp hl hm
  refine ⟨hp', ?_⟩
  have hclasses := hc.link hjoin (hp.self hl) (hp.self hm)
  have hrel : (fun x y => Seeded done x y ∨ x = (ofLex seed).1 ∧ y = (ofLex seed).2) = Seeded (done ++ [seed]) := by
    funext x y
    unfold Seeded
    rw [List.mem_append, List.mem_singleton]
    refine propext (or_congr Iff.rfl ⟨fun h => ?_, fun h => ?_⟩)
    · rw [h.1, h.2]
      rfl
    · rw [← h]
      exact ⟨rfl, rfl⟩
  rw [hrel] at hclasses
  exact hclasses

/-! ## The components -/

/-- The root of a name. -/
def rootOf (p : OrdMap String String) (x : String) : String := (root (p.size + 1) p x).1

theorem Pointers.leads_rootOf {anchors : List String} {p : OrdMap String String} {x : String} (h : Pointers anchors p)
    (hx : x ∈ anchors) : Leads p x (rootOf p x) := (root_size h.ordered ((h.keys x).2 hx)).1

theorem Pointers.joined_iff {anchors : List String} {p : OrdMap String String} {x y : String} (h : Pointers anchors p)
    (hx : x ∈ anchors) (hy : y ∈ anchors) : Joined p x y ↔ rootOf p x = rootOf p y := by
  constructor
  · rintro ⟨r, hxr, hyr⟩
    rw [(h.leads_rootOf hx).unique hxr, (h.leads_rootOf hy).unique hyr]
  · intro heq
    exact ⟨rootOf p x, h.leads_rootOf hx, heq ▸ h.leads_rootOf hy⟩

/-- The anchors of `done` are on the lists of their roots. -/
structure Grouped (p : OrdMap String String) (done : List String)
    (st : OrdMap String (List String) × OrdMap String String) : Prop where
  same : Same p st.2
  listed : ∀ r, st.1.getD r [] = done.filter (fun x => decide (rootOf p x = r))

theorem Grouped.add {anchors : List String} {p : OrdMap String String} (hp : Pointers anchors p) {done : List String}
    {st : OrdMap String (List String) × OrdMap String String} (h : Grouped p done st) {name : String}
    (hname : name ∈ anchors) : Grouped p (done ++ [name]) (addToComponent st name) := by
  have hst := hp.same h.same
  obtain ⟨hleads, hsame⟩ := root_size hst.ordered ((hst.keys name).2 hname)
  have hroot : (root (st.2.size + 1) st.2 name).1 = rootOf p name :=
    (h.same.leads.1 hleads).unique (hp.leads_rootOf hname)
  refine ⟨h.same.trans hsame, fun r => ?_⟩
  show (st.1.update (root (st.2.size + 1) st.2 name).1 [] (· ++ [name])).getD r [] = _
  unfold OrdMap.update
  rw [hroot, OrdMap.getD_insert, List.filter_append]
  by_cases hr : rootOf p name = r
  · subst hr
    rw [if_pos rfl, h.listed]
    simp
  · rw [if_neg hr, h.listed]
    simp [hr]

/-- **The components**: each root has the anchors that lead to it, in their order. -/
theorem getD_components {anchors : List String} {seeds : List FamilyPair}
    (hends : ∀ f g, Seeded seeds f g → f ∈ anchors ∧ g ∈ anchors) (r : String) :
    (components anchors seeds).getD r [] =
      anchors.filter (fun x => decide (rootOf (seeds.foldl unite (startParents anchors)) x = r)) := by
  obtain ⟨hp, -⟩ := foldl_unite hends
  have hgroup : Grouped (seeds.foldl unite (startParents anchors)) anchors
      (anchors.foldl addToComponent (∅, seeds.foldl unite (startParents anchors))) := by
    refine Loop.foldl_so_far (fun done st => (∀ x ∈ done, x ∈ anchors) →
      Grouped (seeds.foldl unite (startParents anchors)) done st) (fun done st name ih hsub => ?_) anchors []
      (fun _ => ⟨Same.refl hp.ordered, fun r => rfl⟩) (fun _ h => h)
    exact (ih (fun x hx => hsub x (List.mem_append_left _ hx))).add hp
      (hsub name (List.mem_append_right _ (List.mem_singleton.2 rfl)))
  exact hgroup.listed r

/-- **Two anchors are in one component exactly when a chain of seeds joins them.** -/
theorem mem_components_iff {anchors : List String} {seeds : List FamilyPair}
    (hends : ∀ f g, Seeded seeds f g → f ∈ anchors ∧ g ∈ anchors) {r : String} {l : List String}
    (h : (components anchors seeds).find? r = some l) {x y : String} (hx : x ∈ l) :
    y ∈ l ↔ y ∈ anchors ∧ Relation.EqvGen (Seeded seeds) x y := by
  obtain ⟨hp, hc⟩ := foldl_unite hends
  have hl : l = (components anchors seeds).getD r [] := by
    unfold OrdMap.getD
    rw [h]
    rfl
  rw [hl, getD_components hends, List.mem_filter, decide_eq_true_eq] at hx ⊢
  obtain ⟨hxa, rfl⟩ := hx
  refine and_congr_right (fun hy => ?_)
  rw [hc x y, hp.joined_iff hxa hy]
  constructor
  · exact fun heq => Or.inr heq.symm
  · rintro (rfl | heq)
    · rfl
    · exact heq.symm

end NumaDomainSolver
end AffinityGraph
