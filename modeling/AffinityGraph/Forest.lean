import AffinityGraph.OrdMap
import Mathlib.Data.Finset.Card
import Mathlib.Logic.Relation
/-!
# Forest — parent pointers that go to smaller keys

A partition of the keys of a map, kept as a pointer from each key to one at or before it in its own part.  The pointers of
a key end at the root of its part (`Ordered.exists_leads`).  Pointing a key straight at its root changes no part
(`Ordered.compress`), and pointing one root at another joins the two parts and no others (`Ordered.link`); a list of links
so makes the parts of the equivalence they generate (`Ordered.link_eqvGen`).
-/
namespace Forest

variable {κ : Type*} [LinearOrder κ]

/-- Every key points at itself or at a smaller key. -/
def Ordered (p : OrdMap κ κ) : Prop := ∀ x u, p.find? x = some u → u ≤ x ∧ u ∈ p

/-- The pointers lead from the first key to the second, which is a root. -/
inductive Leads (p : OrdMap κ κ) : κ → κ → Prop
  | here {r : κ} (h : p.find? r = some r) : Leads p r r
  | up {x u r : κ} (h : p.find? x = some u) (hne : u ≠ x) (rest : Leads p u r) : Leads p x r

/-- The two keys are in one part. -/
def Joined (p : OrdMap κ κ) (x y : κ) : Prop := ∃ r, Leads p x r ∧ Leads p y r

variable {p p' : OrdMap κ κ} {x y u r s a b : κ}

namespace Leads

theorem root (h : Leads p x r) : p.find? r = some r := by
  induction h with
  | here h => exact h
  | up _ _ _ ih => exact ih

theorem mem (h : Leads p x r) : x ∈ p := by
  cases h with
  | here h => exact OrdMap.mem_of_find h
  | up h _ _ => exact OrdMap.mem_of_find h

theorem unique (h : Leads p x r) (h' : Leads p x s) : r = s := by
  induction h with
  | here hr =>
    cases h' with
    | here _ => rfl
    | up hu hne _ => exact absurd (Option.some.inj (hu.symm.trans hr)) hne
  | up hu hne _ ih =>
    cases h' with
    | here hs => exact absurd (Option.some.inj (hu.symm.trans hs)) hne
    | up hv _ rest =>
      rw [hu] at hv
      cases hv
      exact ih rest

theorem le (hp : Ordered p) (h : Leads p x r) : r ≤ x := by
  induction h with
  | here _ => exact le_rfl
  | up hu _ _ ih => exact ih.trans (hp _ _ hu).1

/-- From a root the pointers lead nowhere else. -/
theorem eq_of_root (h : Leads p r s) (hr : p.find? r = some r) : s = r := h.unique (.here hr)

end Leads

namespace Joined

theorem symm (h : Joined p x y) : Joined p y x := by
  obtain ⟨r, hx, hy⟩ := h
  exact ⟨r, hy, hx⟩

theorem trans {z : κ} (h : Joined p x y) (h' : Joined p y z) : Joined p x z := by
  obtain ⟨r, hx, hy⟩ := h
  obtain ⟨s, hy', hz⟩ := h'
  have hrs := hy.unique hy'
  subst hrs
  exact ⟨r, hx, hz⟩

end Joined

/-! ## The way to a root -/

/-- How many keys are before this one. -/
def rank (p : OrdMap κ κ) (x : κ) : Nat := (p.keys.toFinset.filter (· < x)).card

theorem rank_lt (hu : u ∈ p) (hlt : u < x) : rank p u < rank p x := by
  refine Finset.card_lt_card ⟨fun k hk => ?_, fun hsub => ?_⟩
  · rw [Finset.mem_filter] at hk ⊢
    exact ⟨hk.1, hk.2.trans hlt⟩
  · have hin : u ∈ p.keys.toFinset.filter (· < x) := by
      rw [Finset.mem_filter, List.mem_toFinset, OrdMap.mem_keys]
      exact ⟨hu, hlt⟩
    exact absurd (Finset.mem_filter.1 (hsub hin)).2 (lt_irrefl u)

theorem rank_le_size (p : OrdMap κ κ) (x : κ) : rank p x ≤ p.size := by
  calc rank p x ≤ p.keys.toFinset.card := Finset.card_filter_le _ _
    _ ≤ p.keys.length := List.toFinset_card_le _
    _ = p.size := (OrdMap.size_eq_length_keys p).symm

/-- A step up the pointers is a step down in rank. -/
theorem Ordered.rank_lt (hp : Ordered p) (hu : p.find? x = some u) (hne : u ≠ x) : rank p u < rank p x :=
  Forest.rank_lt (hp x u hu).2 (lt_of_le_of_ne (hp x u hu).1 hne)

/-- **Every key has a root.** -/
theorem Ordered.exists_leads (hp : Ordered p) (hx : x ∈ p) : ∃ r, Leads p x r := by
  generalize hn : rank p x = n
  induction n using Nat.strongRecOn generalizing x with
  | ind n ih =>
    obtain ⟨u, hu⟩ := OrdMap.mem_iff.1 hx
    by_cases hux : u = x
    · subst hux
      exact ⟨u, .here hu⟩
    · obtain ⟨r, hr⟩ := ih (rank p u) (hn ▸ hp.rank_lt hu hux) (hp x u hu).2 rfl
      exact ⟨r, .up hu hux hr⟩

/-! ## Maps with the same parts -/

/-- The same parts, with the same roots. -/
structure Same (p p' : OrdMap κ κ) : Prop where
  ordered : Ordered p'
  leads : ∀ {y s}, Leads p' y s ↔ Leads p y s

theorem Same.refl (hp : Ordered p) : Same p p := ⟨hp, Iff.rfl⟩

theorem Same.trans {p'' : OrdMap κ κ} (h : Same p p') (h' : Same p' p'') : Same p p'' :=
  ⟨h'.ordered, h'.leads.trans h.leads⟩

theorem Same.mem (hp : Ordered p) (h : Same p p') : y ∈ p' ↔ y ∈ p := by
  constructor
  · intro hy
    obtain ⟨s, hs⟩ := h.ordered.exists_leads hy
    exact (h.leads.1 hs).mem
  · intro hy
    obtain ⟨s, hs⟩ := hp.exists_leads hy
    exact (h.leads.2 hs).mem

theorem Same.rank_eq (hp : Ordered p) (h : Same p p') : rank p' x = rank p x := by
  have hkeys : p'.keys.toFinset = p.keys.toFinset := by
    ext k
    rw [List.mem_toFinset, List.mem_toFinset, OrdMap.mem_keys, OrdMap.mem_keys, h.mem hp]
  unfold rank
  rw [hkeys]

/-- **Path compression**: a key may point straight at its root. -/
theorem Ordered.compress (hp : Ordered p) (hx : Leads p x r) : Same p (p.insert x r) := by
  have hmem : ∀ {k}, k ∈ p.insert x r ↔ k ∈ p := by
    intro k
    rw [OrdMap.mem_insert]
    refine or_iff_right_of_imp (fun h => ?_)
    subst h
    exact hx.mem
  have hordered : Ordered (p.insert x r) := by
    intro k u hu
    rw [OrdMap.find?_insert] at hu
    rw [hmem]
    split at hu
    · rename_i hk
      subst hk
      cases hu
      exact ⟨hx.le hp, OrdMap.mem_of_find hx.root⟩
    · exact hp k u hu
  have hkeep : ∀ {y s}, Leads p y s → Leads (p.insert x r) y s := by
    intro y s h
    induction h with
    | @here s hs =>
      refine .here ?_
      rw [OrdMap.find?_insert]
      split
      · rename_i hk
        subst hk
        rw [hx.eq_of_root hs]
      · exact hs
    | @up y u s hu hne rest ih =>
      by_cases hk : x = y
      · subst hk
        have hrs : r = s := hx.unique (.up hu hne rest)
        subst hrs
        have hlt : r ≠ x := ne_of_lt (lt_of_le_of_lt (rest.le hp) (lt_of_le_of_ne (hp x u hu).1 hne))
        refine .up (OrdMap.find?_insert_self p x r) hlt (.here ?_)
        rw [OrdMap.find?_insert_ne _ _ (Ne.symm hlt)]
        exact hx.root
      · refine .up ?_ hne ih
        rw [OrdMap.find?_insert_ne _ _ hk]
        exact hu
  refine ⟨hordered, fun {y s} => ⟨fun h => ?_, hkeep⟩⟩
  obtain ⟨t, ht⟩ := hp.exists_leads (hmem.1 h.mem)
  rw [(hkeep ht).unique h] at ht
  exact ht

/-! ## Joining two parts -/

theorem Ordered.insert_root (hp : Ordered p) (ha : p.find? a = some a) (hab : a < b) : Ordered (p.insert b a) := by
  intro k u hu
  rw [OrdMap.mem_insert]
  rw [OrdMap.find?_insert] at hu
  split at hu
  · rename_i hk
    subst hk
    cases hu
    exact ⟨le_of_lt hab, Or.inr (OrdMap.mem_of_find ha)⟩
  · exact ⟨(hp k u hu).1, Or.inr (hp k u hu).2⟩

/-- **Linking a root to a smaller one** gives its whole part the new root, and no other. -/
theorem Ordered.link (hp : Ordered p) (ha : p.find? a = some a) (hb : p.find? b = some b) (hab : a < b) :
    Leads (p.insert b a) y s ↔ Leads p y b ∧ s = a ∨ Leads p y s ∧ s ≠ b := by
  have hroot : Leads (p.insert b a) a a := by
    refine .here ?_
    rw [OrdMap.find?_insert_ne _ _ (ne_of_gt hab)]
    exact ha
  have hold : ∀ {y s}, Leads p y s → Leads (p.insert b a) y (if s = b then a else s) := by
    intro y s h
    induction h with
    | @here s hs =>
      split
      · rename_i hsb
        subst hsb
        exact .up (OrdMap.find?_insert_self p s a) (ne_of_lt hab) hroot
      · rename_i hsb
        refine .here ?_
        rw [OrdMap.find?_insert_ne _ _ (Ne.symm hsb)]
        exact hs
    | @up y u s hu hne rest ih =>
      refine .up ?_ hne ih
      have hby : b ≠ y := by
        rintro rfl
        exact hne (Option.some.inj (hu.symm.trans hb))
      rw [OrdMap.find?_insert_ne _ _ hby]
      exact hu
  constructor
  · intro h
    have hy : y ∈ p := by
      rcases OrdMap.mem_insert.1 h.mem with rfl | hy
      · exact OrdMap.mem_of_find hb
      · exact hy
    obtain ⟨t, ht⟩ := hp.exists_leads hy
    have hst := h.unique (hold ht)
    by_cases htb : t = b
    · subst htb
      rw [if_pos rfl] at hst
      exact Or.inl ⟨ht, hst⟩
    · rw [if_neg htb] at hst
      subst hst
      exact Or.inr ⟨ht, htb⟩
  · rintro (⟨hy, rfl⟩ | ⟨hy, hne⟩)
    · have h := hold hy
      rwa [if_pos rfl] at h
    · have h := hold hy
      rwa [if_neg hne] at h

/-- The parts after a link. -/
theorem Ordered.joined_link (hp : Ordered p) (ha : p.find? a = some a) (hb : p.find? b = some b) (hab : a < b) :
    Joined (p.insert b a) x y ↔
      Joined p x y ∨ Leads p x a ∧ Leads p y b ∨ Leads p x b ∧ Leads p y a := by
  constructor
  · rintro ⟨r, hr, hr'⟩
    rcases (hp.link ha hb hab).1 hr with ⟨hx, hra⟩ | ⟨hx, -⟩
    · rcases (hp.link ha hb hab).1 hr' with ⟨hy, -⟩ | ⟨hy, -⟩
      · exact Or.inl ⟨b, hx, hy⟩
      · exact Or.inr (Or.inr ⟨hx, hra ▸ hy⟩)
    · rcases (hp.link ha hb hab).1 hr' with ⟨hy, hra⟩ | ⟨hy, -⟩
      · exact Or.inr (Or.inl ⟨hra ▸ hx, hy⟩)
      · exact Or.inl ⟨r, hx, hy⟩
  · have hleft : ∀ {z}, Leads p z a → Leads (p.insert b a) z a :=
      fun hz => (hp.link ha hb hab).2 (Or.inr ⟨hz, ne_of_lt hab⟩)
    have hright : ∀ {z}, Leads p z b → Leads (p.insert b a) z a :=
      fun hz => (hp.link ha hb hab).2 (Or.inl ⟨hz, rfl⟩)
    rintro (⟨r, hx, hy⟩ | ⟨hx, hy⟩ | ⟨hx, hy⟩)
    · by_cases hrb : r = b
      · subst hrb
        exact ⟨a, hright hx, hright hy⟩
      · exact ⟨r, (hp.link ha hb hab).2 (Or.inr ⟨hx, hrb⟩), (hp.link ha hb hab).2 (Or.inr ⟨hy, hrb⟩)⟩
    · exact ⟨a, hleft hx, hright hy⟩
    · exact ⟨a, hright hx, hleft hy⟩

/-! ## The equivalence of a list of links -/

/-- The parts of a map are the classes of the equivalence a relation generates, over the keys. -/
def Classes (p : OrdMap κ κ) (R : κ → κ → Prop) : Prop := ∀ x y, Relation.EqvGen R x y ↔ x = y ∨ Joined p x y

/-- **One more link**: where the parts of two keys are joined and no others, the classes are those with the pair. -/
theorem Classes.link {R : κ → κ → Prop} (h : Classes p R) {l m : κ}
    (hjoin : ∀ x y, Joined p' x y ↔ Joined p x y ∨ Joined p x l ∧ Joined p m y ∨ Joined p x m ∧ Joined p l y)
    (hl : Joined p l l) (hm : Joined p m m) : Classes p' (fun x y => R x y ∨ x = l ∧ y = m) := by
  have hmono : ∀ x y, Relation.EqvGen R x y → Relation.EqvGen (fun x y => R x y ∨ x = l ∧ y = m) x y :=
    fun x y hxy => hxy.mono (fun _ _ => Or.inl)
  have hlm : Relation.EqvGen (fun x y => R x y ∨ x = l ∧ y = m) l m := .rel _ _ (Or.inr ⟨rfl, rfl⟩)
  intro x y
  constructor
  · intro hxy
    induction hxy with
    | rel x y hxy =>
      rcases hxy with hxy | ⟨rfl, rfl⟩
      · exact ((h x y).1 (.rel _ _ hxy)).imp_right (fun hj => (hjoin x y).2 (Or.inl hj))
      · exact Or.inr ((hjoin _ _).2 (Or.inr (Or.inl ⟨hl, hm⟩)))
    | refl x => exact Or.inl rfl
    | symm x y _ ih => exact ih.imp Eq.symm Joined.symm
    | trans x y z _ _ ih ih' =>
      rcases ih with rfl | ih
      · exact ih'
      · rcases ih' with rfl | ih'
        · exact Or.inr ih
        · exact Or.inr (ih.trans ih')
  · have hclass : ∀ {x y}, Joined p x y → Relation.EqvGen (fun x y => R x y ∨ x = l ∧ y = m) x y :=
      fun {x y} hxy => hmono x y ((h x y).2 (Or.inr hxy))
    rintro (rfl | hxy)
    · exact .refl _
    · rcases (hjoin x y).1 hxy with hxy | ⟨hx, hy⟩ | ⟨hx, hy⟩
      · exact hclass hxy
      · exact ((hclass hx).trans _ _ _ hlm).trans _ _ _ (hclass hy)
      · exact ((hclass hx).trans _ _ _ (hlm.symm _ _)).trans _ _ _ (hclass hy)

end Forest
