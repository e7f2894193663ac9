import Mathlib.Data.Int.Order.Basic
import Mathlib.Data.List.Basic
import Mathlib.Tactic.Common
/-!
# Ranges — a set of integers as its maximal runs

A `Range` is the integers from its first to its last.  A list of ranges is `Maximal` when none is empty and each ends before
the next begins with at least one integer between them; no two such lists cover the same integers (`Maximal.unique`), and the
runs of a list in order are one (`maximal_runs`, `covers_runs`).
-/
namespace Ranges

abbrev Range := Int × Int

def Has (r : Range) (x : Int) : Prop := r.1 ≤ x ∧ x ≤ r.2

/-- Some range has it. -/
def Covers (rs : List Range) (x : Int) : Prop := ∃ r ∈ rs, Has r x

theorem not_covers_nil (x : Int) : ¬ Covers [] x := by
  rintro ⟨r, hr, -⟩
  cases hr

theorem covers_cons {r : Range} {rs : List Range} {x : Int} : Covers (r :: rs) x ↔ Has r x ∨ Covers rs x := by
  unfold Covers
  simp only [List.mem_cons, exists_eq_or_imp]

/-- No range is empty, and no two touch. -/
structure Maximal (rs : List Range) : Prop where
  filled : ∀ r ∈ rs, r.1 ≤ r.2
  apart : rs.Pairwise (fun a b => a.2 + 1 < b.1)

variable {rs rs' : List Range} {r r' : Range}

theorem Maximal.tail (h : Maximal (r :: rs)) : Maximal rs :=
  ⟨fun a ha => h.filled a (List.mem_cons_of_mem _ ha), h.apart.of_cons⟩

/-- What the later ranges cover is beyond the first and the integer after it. -/
theorem Maximal.beyond (h : Maximal (r :: rs)) {x : Int} (hx : Covers rs x) : r.2 + 1 < x := by
  obtain ⟨a, ha, hax⟩ := hx
  have hapart := List.rel_of_pairwise_cons h.apart ha
  exact lt_of_lt_of_le hapart hax.1

theorem Maximal.first_le (h : Maximal (r :: rs)) {x : Int} (hx : Covers (r :: rs) x) : r.1 ≤ x := by
  have hfilled := h.filled r List.mem_cons_self
  rcases covers_cons.1 hx with hx | hx
  · exact hx.1
  · have hbeyond := h.beyond hx
    omega

/-- Two lists that cover the same: the first range of one begins and ends no later than that of the other. -/
theorem Maximal.head_le (h : Maximal (r :: rs)) (h' : Maximal (r' :: rs'))
    (hsame : ∀ x, Covers (r :: rs) x ↔ Covers (r' :: rs') x) : r.1 ≤ r'.1 ∧ (r.1 = r'.1 → r.2 ≤ r'.2) := by
  have hfilled' := h'.filled r' List.mem_cons_self
  have hfirst : r.1 ≤ r'.1 := h.first_le ((hsame r'.1).2 (covers_cons.2 (Or.inl ⟨le_refl _, hfilled'⟩)))
  refine ⟨hfirst, fun heq => ?_⟩
  by_contra hlong
  -- the integer after `r'` is in `r`, and nothing of `r' :: rs'` has it
  have hnext : Covers (r :: rs) (r'.2 + 1) := covers_cons.2 (Or.inl ⟨by omega, by omega⟩)
  rcases covers_cons.1 ((hsame _).1 hnext) with hin | hin
  · exact absurd hin.2 (by omega)
  · exact absurd (h'.beyond hin) (by omega)

/-- **Maximal runs are unique.** -/
theorem Maximal.unique : ∀ {rs rs' : List Range}, Maximal rs → Maximal rs' → (∀ x, Covers rs x ↔ Covers rs' x) → rs = rs'
  | [], [], _, _, _ => rfl
  | [], r' :: rs', _, h', hsame =>
    absurd ((hsame r'.1).2 (covers_cons.2 (Or.inl ⟨le_refl _, h'.filled r' List.mem_cons_self⟩))) (not_covers_nil _)
  | r :: rs, [], h, _, hsame =>
    absurd ((hsame r.1).1 (covers_cons.2 (Or.inl ⟨le_refl _, h.filled r List.mem_cons_self⟩))) (not_covers_nil _)
  | r :: rs, r' :: rs', h, h', hsame => by
    have hle := h.head_le h' hsame
    have hge := h'.head_le h (fun x => (hsame x).symm)
    have hfirst : r.1 = r'.1 := le_antisymm hle.1 hge.1
    have hlast : r.2 = r'.2 := le_antisymm (hle.2 hfirst) (hge.2 hfirst.symm)
    have hhead : r = r' := Prod.ext hfirst hlast
    subst hhead
    have htail : ∀ x, Covers rs x ↔ Covers rs' x := by
      intro x
      have hx := hsame x
      rw [covers_cons, covers_cons] at hx
      constructor
      · intro hin
        exact (hx.1 (Or.inr hin)).resolve_left (fun hr => absurd hr.2 (by have := h.beyond hin; omega))
      · intro hin
        exact (hx.2 (Or.inr hin)).resolve_left (fun hr => absurd hr.2 (by have := h'.beyond hin; omega))
    rw [h.tail.unique h'.tail htail]

/-! ## The runs of a list -/

/-- The run that began at `lo` and has come to `hi`, and those after it. -/
def runsFrom (lo hi : Int) : List Int → List Range
  | [] => [(lo, hi)]
  | x :: l => if x = hi + 1 then runsFrom lo x l else (lo, hi) :: runsFrom x x l

def runs : List Int → List Range
  | [] => []
  | x :: l => runsFrom x x l

theorem covers_runsFrom (x : Int) : ∀ (l : List Int) (lo hi : Int), lo ≤ hi →
    (Covers (runsFrom lo hi l) x ↔ Has (lo, hi) x ∨ x ∈ l)
  | [], lo, hi, _ => by simp [runsFrom, Covers]
  | y :: l, lo, hi, hle => by
    unfold runsFrom
    by_cases hy : y = hi + 1
    · rw [if_pos hy, covers_runsFrom x l lo y (by omega), List.mem_cons]
      unfold Has
      dsimp only
      constructor
      · rintro (⟨h₁, h₂⟩ | h)
        · by_cases hxy : x = y
          · exact Or.inr (Or.inl hxy)
          · exact Or.inl ⟨h₁, by omega⟩
        · exact Or.inr (Or.inr h)
      · rintro (⟨h₁, h₂⟩ | h | h)
        · exact Or.inl ⟨h₁, by omega⟩
        · exact Or.inl ⟨by omega, by omega⟩
        · exact Or.inr h
    · have hone : Has (y, y) x ↔ x = y := by
        unfold Has
        omega
      rw [if_neg hy, covers_cons, covers_runsFrom x l y y (le_refl y), hone, List.mem_cons]

/-- A run begins where it began, or later. -/
theorem first_runsFrom : ∀ (l : List Int) (lo hi : Int), lo ≤ hi → l.Pairwise (· < ·) → (∀ x ∈ l, hi < x) →
    ∀ r ∈ runsFrom lo hi l, lo ≤ r.1
  | [], lo, hi, _, _, _, r, hr => by
    rw [List.mem_singleton.1 hr]
  | y :: l, lo, hi, hle, hl, hbelow, r, hr => by
    have hy := hbelow y List.mem_cons_self
    have hrest : ∀ x ∈ l, y < x := fun x hx => List.rel_of_pairwise_cons hl hx
    unfold runsFrom at hr
    split at hr
    · exact first_runsFrom l lo y (by omega) hl.of_cons hrest r hr
    · rcases List.mem_cons.1 hr with rfl | hr
      · exact le_refl lo
      · have hfirst := first_runsFrom l y y (le_refl y) hl.of_cons hrest r hr
        omega

theorem maximal_runsFrom : ∀ (l : List Int) (lo hi : Int), lo ≤ hi → l.Pairwise (· < ·) → (∀ x ∈ l, hi < x) →
    Maximal (runsFrom lo hi l)
  | [], lo, hi, hle, _, _ => by
    refine ⟨fun r hr => ?_, List.pairwise_singleton _ _⟩
    rw [List.mem_singleton.1 hr]
    exact hle
  | y :: l, lo, hi, hle, hl, hbelow => by
    have hy := hbelow y List.mem_cons_self
    have hrest : ∀ x ∈ l, y < x := fun x hx => List.rel_of_pairwise_cons hl hx
    unfold runsFrom
    split
    · exact maximal_runsFrom l lo y (by omega) hl.of_cons hrest
    · rename_i hne
      have hnext := maximal_runsFrom l y y (le_refl y) hl.of_cons hrest
      refine ⟨fun r hr => ?_, List.pairwise_cons.2 ⟨fun r hr => ?_, hnext.apart⟩⟩
      · rcases List.mem_cons.1 hr with rfl | hr
        · exact hle
        · exact hnext.filled r hr
      · have hfirst := first_runsFrom l y y (le_refl y) hl.of_cons hrest r hr
        dsimp only
        omega

/-- **The runs of an ascending list cover it.** -/
theorem covers_runs (l : List Int) (x : Int) : Covers (runs l) x ↔ x ∈ l := by
  cases l with
  | nil => exact iff_of_false (not_covers_nil x) List.not_mem_nil
  | cons y l =>
    have hone : Has (y, y) x ↔ x = y := by
      unfold Has
      omega
    rw [runs, covers_runsFrom x l y y (le_refl y), hone, List.mem_cons]

/-- **They are maximal.** -/
theorem maximal_runs {l : List Int} (hl : l.Pairwise (· < ·)) : Maximal (runs l) := by
  cases l with
  | nil => exact ⟨fun r hr => absurd hr List.not_mem_nil, List.Pairwise.nil⟩
  | cons y l => exact maximal_runsFrom l y y (le_refl y) hl.of_cons (fun x hx => List.rel_of_pairwise_cons hl hx)

/-- The integers of a range in order. -/
def elements (r : Range) : List Int := (List.range (r.2 - r.1 + 1).toNat).map (fun n : Nat => r.1 + (n : Int))

theorem mem_elements {r : Range} {x : Int} : x ∈ elements r ↔ Has r x := by
  unfold elements Has
  rw [List.mem_map]
  constructor
  · rintro ⟨n, hn, rfl⟩
    rw [List.mem_range] at hn
    omega
  · rintro ⟨h₁, h₂⟩
    exact ⟨(x - r.1).toNat, List.mem_range.2 (by omega), by omega⟩

end Ranges
