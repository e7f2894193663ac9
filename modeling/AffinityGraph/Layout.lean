import Mathlib.Data.Rat.Defs
import Mathlib.Algebra.Order.Ring.Rat
import Mathlib.Algebra.BigOperators.Group.List.Basic
import Mathlib.Tactic.Ring
import Mathlib.Tactic.Linarith
/-!
# Layout — what the edges of a graph cost where its vertices sit

`seat` says where each vertex is, `d` what a pair of places costs and `w` what an edge weighs.  Moving one vertex, or two
vertices into each other's places, changes the cost by what changes at the edges of those vertices.
-/
namespace Layout

variable {ε : Type*} {α : Type*} {ν : Type*} [DecidableEq α]

/-- The other end of an edge. -/
def far (src dst : ε → α) (e : ε) (u : α) : α := if src e = u then dst e else src e

section

variable (src dst : ε → α) (w : ε → ℚ) (d : ν → ν → ℚ)

/-- The cost of a layout. -/
def cost (E : List ε) (seat : α → ν) : ℚ := (E.map (fun e => w e * d (seat (src e)) (seat (dst e)))).sum

/-- The part of it at one vertex. -/
def incident (E : List ε) (seat : α → ν) (u : α) : ℚ :=
  ((E.filter (fun e => decide (src e = u ∨ dst e = u))).map (fun e => w e * d (seat u) (seat (far src dst e u)))).sum

end

variable {src dst : ε → α} {w : ε → ℚ} {d : ν → ν → ℚ} {E : List ε} {seat seat' : α → ν} {u v : α}

omit [DecidableEq α] in
theorem cost_cons (e : ε) (E : List ε) (seat : α → ν) :
    cost src dst w d (e :: E) seat = w e * d (seat (src e)) (seat (dst e)) + cost src dst w d E seat := rfl

theorem incident_cons (e : ε) (E : List ε) (seat : α → ν) (u : α) :
    incident src dst w d (e :: E) seat u =
      (if src e = u ∨ dst e = u then w e * d (seat u) (seat (far src dst e u)) else 0) + incident src dst w d E seat u := by
  unfold incident
  rw [List.filter_cons]
  by_cases h : src e = u ∨ dst e = u
  · rw [if_pos (decide_eq_true h), if_pos h]
    rfl
  · rw [if_neg (by simpa using h), if_neg h, zero_add]

/-- The cost of one edge at a vertex of it. -/
theorem edge_at (hd : ∀ a b, d a b = d b a) {e : ε} (he : src e = u ∨ dst e = u) (seat : α → ν) :
    d (seat (src e)) (seat (dst e)) = d (seat u) (seat (far src dst e u)) := by
  unfold far
  by_cases hs : src e = u
  · rw [if_pos hs, hs]
  · rw [if_neg hs, he.resolve_left hs, hd]

/-- **One vertex moves.** -/
theorem cost_moved (hd : ∀ a b, d a b = d b a) : ∀ {E : List ε}, (∀ t, t ≠ u → seat' t = seat t) →
    cost src dst w d E seat' = cost src dst w d E seat + (incident src dst w d E seat' u - incident src dst w d E seat u)
  | [], _ => by simp [cost, incident]
  | e :: E, h => by
    have ih := cost_moved hd (E := E) h
    rw [cost_cons, cost_cons, incident_cons, incident_cons, ih]
    by_cases he : src e = u ∨ dst e = u
    · rw [if_pos he, if_pos he, edge_at hd he, edge_at hd he]
      ring
    · rw [not_or] at he
      rw [if_neg (by tauto), if_neg (by tauto), h _ he.1, h _ he.2]
      ring

/-- **Two vertices change places**; an edge between them costs what it did. -/
theorem cost_swapped (hd : ∀ a b, d a b = d b a) (huv : u ≠ v) (hu : seat' u = seat v) (hv : seat' v = seat u) :
    ∀ {E : List ε}, (∀ t, t ≠ u → t ≠ v → seat' t = seat t) →
    cost src dst w d E seat' = cost src dst w d E seat +
      (incident src dst w d E seat' u + incident src dst w d E seat' v -
        (incident src dst w d E seat u + incident src dst w d E seat v))
  | [], _ => by simp [cost, incident]
  | e :: E, h => by
    have ih := cost_swapped hd huv hu hv (E := E) h
    rw [cost_cons, cost_cons, incident_cons, incident_cons, incident_cons, incident_cons, ih]
    by_cases heu : src e = u ∨ dst e = u
    · by_cases hev : src e = v ∨ dst e = v
      · rw [if_pos heu, if_pos heu, if_pos hev, if_pos hev]
        -- the edge between the two: each end sits where the other sat
        have hends : (src e = u ∧ dst e = v) ∨ (src e = v ∧ dst e = u) := by
          rcases heu with h1 | h1
          · rcases hev with h2 | h2
            · exact absurd (h1.symm.trans h2) huv
            · exact Or.inl ⟨h1, h2⟩
          · rcases hev with h2 | h2
            · exact Or.inr ⟨h2, h1⟩
            · exact absurd (h1.symm.trans h2) huv
        rw [← edge_at hd heu, ← edge_at hd heu, ← edge_at hd hev, ← edge_at hd hev]
        have hsame : d (seat' (src e)) (seat' (dst e)) = d (seat (src e)) (seat (dst e)) := by
          rcases hends with ⟨h1, h2⟩ | ⟨h1, h2⟩
          · rw [h1, h2, hu, hv, hd]
          · rw [h1, h2, hu, hv, hd]
        rw [hsame]
        ring
      · rw [if_pos heu, if_pos heu, if_neg hev, if_neg hev, ← edge_at hd heu, ← edge_at hd heu]
        ring
    · by_cases hev : src e = v ∨ dst e = v
      · rw [if_neg heu, if_neg heu, if_pos hev, if_pos hev, ← edge_at hd hev, ← edge_at hd hev]
        ring
      · rw [not_or] at heu hev
        rw [if_neg (by tauto), if_neg (by tauto), if_neg (by tauto), if_neg (by tauto), h _ heu.1 hev.1, h _ heu.2 hev.2]
        ring

end Layout
