import Mathlib.Data.List.Sort
/-!
# Ranking — lists sorted by a key, and their first elements

A list with distinct keys is sorted strictly (`sort_strict`), a strictly sorted list is known by its elements
(`eq_of_strict`), and an element is among the first `k` of it exactly when fewer than `k` have a smaller key (`mem_take_sort`).
-/
namespace AffinityGraph
namespace Ranking

variable {α β : Type*} [LinearOrder β] {f : α → β} {r : α → α → Prop} [DecidableRel r]

/-- With distinct keys the sorted order is strict. -/
theorem sort_strict (hr : ∀ a b, r a b ↔ f a ≤ f b) {l : List α} (hl : (l.map f).Nodup) :
    (l.insertionSort r).Pairwise (fun a b => f a < f b) := by
  have : Std.Total r := ⟨fun a b => by rw [hr, hr]; exact le_total _ _⟩
  have : IsTrans α r := ⟨fun a b c hab hbc => (hr a c).2 (le_trans ((hr a b).1 hab) ((hr b c).1 hbc))⟩
  have hsorted := List.pairwise_insertionSort r l
  have hkeys : ((l.insertionSort r).map f).Nodup := ((List.perm_insertionSort r l).map f).nodup_iff.2 hl
  refine hsorted.imp₂ (fun a b hab hne => ?_) (List.pairwise_map.1 hkeys)
  exact lt_of_le_of_ne ((hr a b).1 hab) hne

/-- Two strictly sorted lists with the same elements are one list. -/
theorem eq_of_strict {l l' : List α} (hl : l.Pairwise (fun a b => f a < f b)) (hl' : l'.Pairwise (fun a b => f a < f b))
    (hmem : ∀ x, x ∈ l ↔ x ∈ l') : l = l' := by
  have hnodup : ∀ {m : List α}, m.Pairwise (fun a b => f a < f b) → m.Nodup := fun h =>
    h.imp (fun hab heq => absurd (congrArg f heq) (ne_of_lt hab))
  have hperm : l.Perm l' := (List.perm_ext_iff_of_nodup (hnodup hl) (hnodup hl')).2 hmem
  exact hperm.eq_of_pairwise (fun a b _ _ hab hba => absurd hab (not_lt_of_gt hba)) hl hl'

/-- In a strictly sorted list, what is before an element is what has a smaller key. -/
theorem filter_lt_of_strict {pre post : List α} {x : α} (h : (pre ++ x :: post).Pairwise (fun a b => f a < f b)) :
    (pre ++ x :: post).filter (fun y => decide (f y < f x)) = pre := by
  obtain ⟨-, hpost, hacross⟩ := List.pairwise_append.1 h
  have hpre : ∀ y ∈ pre, decide (f y < f x) = true := fun y hy => by
    simpa using hacross y hy x List.mem_cons_self
  have hrest : ∀ y ∈ x :: post, ¬ decide (f y < f x) = true := by
    intro y hy
    rcases List.mem_cons.1 hy with rfl | hy
    · simp
    · simpa using le_of_lt ((List.pairwise_cons.1 hpost).1 y hy)
  rw [List.filter_append, List.filter_eq_self.2 hpre, List.filter_eq_nil_iff.2 hrest, List.append_nil]

/-- **Being among the first `k`.**  Fewer than `k` elements have a smaller key. -/
theorem mem_take_sort (hr : ∀ a b, r a b ↔ f a ≤ f b) {l : List α} (hl : (l.map f).Nodup) {x : α} (hx : x ∈ l) (k : Nat) :
    x ∈ (l.insertionSort r).take k ↔ (l.filter (fun y => decide (f y < f x))).length < k := by
  have hstrict := sort_strict hr hl
  obtain ⟨pre, post, hsplit⟩ := List.append_of_mem ((List.mem_insertionSort r).2 hx)
  have hbefore : (l.filter (fun y => decide (f y < f x))).length = pre.length := by
    rw [← ((List.perm_insertionSort r l).filter _).length_eq, hsplit]
    rw [hsplit] at hstrict
    rw [filter_lt_of_strict hstrict]
  rw [hbefore, hsplit]
  rw [hsplit] at hstrict
  constructor
  · intro hmem
    by_contra hk
    rw [List.take_append_of_le_length (not_lt.1 hk)] at hmem
    have := (List.pairwise_append.1 hstrict).2.2 x (List.mem_of_mem_take hmem) x List.mem_cons_self
    exact lt_irrefl _ this
  · intro hk
    rw [List.take_append, List.mem_append]
    right
    obtain ⟨n, hn⟩ : ∃ n, k - pre.length = n + 1 := ⟨k - pre.length - 1, by omega⟩
    rw [hn, List.take_succ_cons]
    exact List.mem_cons_self

/-! ## The best of a list -/

section Pick

variable {α : Type*} {pick : Option α → α → Option α}

/-- A loop that keeps the best so far has one as soon as it has seen an element, and has seen the one it has. -/
theorem foldl_pick (hnone : ∀ x, pick none x = some x) (hsome : ∀ b x, pick (some b) x = some b ∨ pick (some b) x = some x) :
    ∀ (l : List α) (b : α), ∃ x ∈ b :: l, l.foldl pick (some b) = some x
  | [], b => ⟨b, List.mem_cons_self, rfl⟩
  | y :: l, b => by
    rw [List.foldl_cons]
    rcases hsome b y with h | h
    · obtain ⟨x, hx, he⟩ := foldl_pick hnone hsome l b
      rw [h, he]
      refine ⟨x, ?_, rfl⟩
      rcases List.mem_cons.1 hx with rfl | hx
      · exact List.mem_cons_self
      · exact List.mem_cons_of_mem _ (List.mem_cons_of_mem _ hx)
    · obtain ⟨x, hx, he⟩ := foldl_pick hnone hsome l y
      rw [h, he]
      exact ⟨x, List.mem_cons_of_mem _ hx, rfl⟩

theorem mem_of_pick (hnone : ∀ x, pick none x = some x) (hsome : ∀ b x, pick (some b) x = some b ∨ pick (some b) x = some x)
    {l : List α} {x : α} (h : l.foldl pick none = some x) : x ∈ l := by
  cases l with
  | nil => cases h
  | cons y l =>
    rw [List.foldl_cons, hnone] at h
    obtain ⟨z, hz, he⟩ := foldl_pick hnone hsome l y
    rw [he] at h
    cases h
    exact hz

theorem nil_of_pick (hnone : ∀ x, pick none x = some x) (hsome : ∀ b x, pick (some b) x = some b ∨ pick (some b) x = some x)
    {l : List α} (h : l.foldl pick none = none) : l = [] := by
  cases l with
  | nil => rfl
  | cons y l =>
    rw [List.foldl_cons, hnone] at h
    obtain ⟨z, -, he⟩ := foldl_pick hnone hsome l y
    rw [he] at h
    cases h

end Pick

end Ranking
end AffinityGraph
