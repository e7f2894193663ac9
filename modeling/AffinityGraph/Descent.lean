import AffinityGraph.Greedy
import Mathlib.Data.Finset.Card
/-!
# Descent — passes whose every change lowers a measure

A turn either does nothing or raises the flag of its pass and lowers the measure.  Then the passes never raise it
(`refine_le`); and when the measure has only so many values, as many passes end in a state in which no turn does anything
(`refine_stable`).
-/
namespace Descent

open Greedy (refine)

variable {σ ι : Type} {α : Type*} [LinearOrder α]

/-- A turn does nothing, or raises the flag and lowers the measure. -/
def Lowers (Inv : σ → Prop) (measure : σ → α) (turn : σ × Bool → ι → σ × Bool) (x : ι) : Prop :=
  ∀ s : σ × Bool, Inv s.1 → turn s x = s ∨
    (turn s x).2 = true ∧ Inv (turn s x).1 ∧ measure (turn s x).1 < measure s.1

variable {Inv : σ → Prop} {measure : σ → α} {turn : σ × Bool → ι → σ × Bool}

/-- Some turns did nothing, or they lowered the measure. -/
theorem foldl_cases : ∀ {l : List ι} {s : σ × Bool}, (∀ x ∈ l, Lowers Inv measure turn x) → Inv s.1 →
    (l.foldl turn s = s ∧ ∀ x ∈ l, turn s x = s) ∨
      (l.foldl turn s).2 = true ∧ Inv (l.foldl turn s).1 ∧ measure (l.foldl turn s).1 < measure s.1
  | [], s, _, _ => Or.inl ⟨rfl, fun _ hx => absurd hx List.not_mem_nil⟩
  | x :: l, s, hl, hs => by
    have hrest : ∀ y ∈ l, Lowers Inv measure turn y := fun y hy => hl y (List.mem_cons_of_mem _ hy)
    rw [List.foldl_cons]
    rcases hl x List.mem_cons_self s hs with hsame | ⟨hflag, hinv, hlow⟩
    · rw [hsame]
      rcases foldl_cases hrest hs with ⟨hall, hturns⟩ | hlow
      · refine Or.inl ⟨hall, fun y hy => ?_⟩
        rcases List.mem_cons.1 hy with rfl | hy
        · exact hsame
        · exact hturns y hy
      · exact Or.inr hlow
    · right
      rcases foldl_cases hrest hinv with ⟨hall, -⟩ | ⟨hflag', hinv', hlow'⟩
      · rw [hall]
        exact ⟨hflag, hinv, hlow⟩
      · exact ⟨hflag', hinv', hlow'.trans hlow⟩

/-- The turns of a list, one after the other, as a pass. -/
def pass (turn : σ × Bool → ι → σ × Bool) (l : List ι) (s : σ) : σ × Bool := l.foldl turn (s, false)

section Passes

variable {l : List ι} (hl : ∀ x ∈ l, Lowers Inv measure turn x)

include hl

theorem pass_cases {s : σ} (hs : Inv s) : (pass turn l s = (s, false) ∧ ∀ x ∈ l, turn (s, false) x = (s, false)) ∨
    (pass turn l s).2 = true ∧ Inv (pass turn l s).1 ∧ measure (pass turn l s).1 < measure s :=
  foldl_cases (s := (s, false)) hl hs

theorem refine_keeps : ∀ {n : Nat} {s : σ}, Inv s → Inv (refine (pass turn l) n s)
  | 0, _, hs => hs
  | n + 1, s, hs => by
    rw [refine]
    rcases pass_cases hl hs with ⟨hsame, -⟩ | ⟨hflag, hinv, -⟩
    · rw [hsame, if_neg Bool.false_ne_true]
      exact hs
    · rw [if_pos hflag]
      exact refine_keeps hinv

/-- **The passes never raise the measure.** -/
theorem refine_le : ∀ {n : Nat} {s : σ}, Inv s → measure (refine (pass turn l) n s) ≤ measure s
  | 0, _, _ => le_refl _
  | n + 1, s, hs => by
    rw [refine]
    rcases pass_cases hl hs with ⟨hsame, -⟩ | ⟨hflag, hinv, hlow⟩
    · rw [hsame, if_neg Bool.false_ne_true]
    · rw [if_pos hflag]
      exact (refine_le hinv).trans hlow.le

/-- The passes change something as long as the measure goes down. -/
theorem refine_stable_of_rank {V : Finset α} (hV : ∀ s, Inv s → measure s ∈ V) : ∀ {n : Nat} {s : σ}, Inv s →
    (V.filter (· < measure s)).card < n →
    ∀ x ∈ l, turn (refine (pass turn l) n s, false) x = (refine (pass turn l) n s, false)
  | 0, _, _, hrank => absurd hrank (Nat.not_lt_zero _)
  | n + 1, s, hs, hrank => by
    rw [refine]
    rcases pass_cases hl hs with ⟨hsame, hturns⟩ | ⟨hflag, hinv, hlow⟩
    · rw [hsame, if_neg Bool.false_ne_true]
      exact hturns
    · rw [if_pos hflag]
      refine refine_stable_of_rank hV hinv (lt_of_lt_of_le (Finset.card_lt_card ?_) (Nat.le_of_lt_succ hrank))
      refine Finset.ssubset_iff_of_subset (fun v hv => ?_) |>.2 ⟨measure (pass turn l s).1, ?_, ?_⟩
      · obtain ⟨hmem, hlt⟩ := Finset.mem_filter.1 hv
        exact Finset.mem_filter.2 ⟨hmem, hlt.trans hlow⟩
      · exact Finset.mem_filter.2 ⟨hV _ hinv, hlow⟩
      · exact fun hmem => lt_irrefl _ (Finset.mem_filter.1 hmem).2

/-- **With a pass for every value of the measure, the last state is one no turn changes.** -/
theorem refine_stable {V : Finset α} (hV : ∀ s, Inv s → measure s ∈ V) {n : Nat} {s : σ} (hs : Inv s) (hn : V.card ≤ n) :
    ∀ x ∈ l, turn (refine (pass turn l) n s, false) x = (refine (pass turn l) n s, false) := by
  refine refine_stable_of_rank hl hV hs (lt_of_lt_of_le (Finset.card_lt_card ?_) hn)
  refine Finset.ssubset_iff_of_subset (Finset.filter_subset _ _) |>.2 ⟨measure s, hV s hs, ?_⟩
  exact fun hmem => lt_irrefl _ (Finset.mem_filter.1 hmem).2

end Passes

end Descent
