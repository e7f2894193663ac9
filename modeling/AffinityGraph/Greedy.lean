import Mathlib.Data.List.Induction
import Mathlib.Data.Prod.Lex
import Mathlib.Order.Basic
/-!
# Greedy — the least of some places, and passes until nothing changes

Some places are full.  The least place is full exactly when a full one outranks all that are not (`full_least_iff`), so a
loop that always takes the least keeps to the open places as long as no full one outranks them.  What every step of such a
loop keeps, given the condition read at the state before it, the loop keeps (`foldl_turns`, `refine_passes`).
-/
namespace Greedy

/-! ## The least place -/

section Least

variable {ι α : Type} [LinearOrder α]

/-- The place with the least objective; the first stays among equals. -/
def least (objective : ι → α) (first : ι) (places : List ι) : ι :=
  places.foldl (fun best x => if objective x < objective best then x else best) first

/-- A full place is better than every open one, and there is an open one. -/
def Outranked (objective : ι → α) (full : ι → Prop) (places : List ι) : Prop :=
  (∃ y ∈ places, ¬ full y) ∧ ∃ x ∈ places, full x ∧ ∀ y ∈ places, ¬ full y → objective x < objective y

variable {objective : ι → α} {full : ι → Prop} {first : ι}

instance [DecidablePred full] (places : List ι) : Decidable (Outranked objective full places) :=
  inferInstanceAs (Decidable ((∃ y ∈ places, ¬ full y) ∧ ∃ x ∈ places, full x ∧ ∀ y ∈ places, ¬ full y → objective x < objective y))

theorem least_mem : ∀ (places : List ι) (first : ι), least objective first places ∈ first :: places
  | [], first => List.mem_cons_self
  | x :: places, first => by
    have hrest := least_mem places (if objective x < objective first then x else first)
    unfold least at hrest ⊢
    rw [List.foldl_cons]
    rcases List.mem_cons.1 hrest with h | h
    · rw [h]
      split
      · exact List.mem_cons_of_mem _ List.mem_cons_self
      · exact List.mem_cons_self
    · exact List.mem_cons_of_mem _ (List.mem_cons_of_mem _ h)

theorem least_le : ∀ (places : List ι) (first : ι), ∀ y ∈ first :: places,
    objective (least objective first places) ≤ objective y
  | [], first, y, hy => by
    rw [List.mem_singleton.1 hy]
    exact le_refl _
  | x :: places, first, y, hy => by
    have hrest := least_le places (if objective x < objective first then x else first)
    unfold least at hrest ⊢
    rw [List.foldl_cons]
    have hkept := hrest _ List.mem_cons_self
    have hboth : objective (if objective x < objective first then x else first) ≤ objective first ∧
        objective (if objective x < objective first then x else first) ≤ objective x := by
      split
      · rename_i hlt
        exact ⟨le_of_lt hlt, le_refl _⟩
      · rename_i hle
        exact ⟨le_refl _, not_lt.1 hle⟩
    rcases List.mem_cons.1 hy with rfl | hy
    · exact hkept.trans hboth.1
    · rcases List.mem_cons.1 hy with rfl | hy
      · exact hkept.trans hboth.2
      · exact hrest y (List.mem_cons_of_mem _ hy)

/-- When it is one of the places, the first adds none. -/
theorem least_mem_of_mem {places : List ι} (h : first ∈ places) : least objective first places ∈ places := by
  have hseen : least objective first places ∈ first :: places := least_mem places first
  rcases List.mem_cons.1 hseen with he | hm
  · rw [he]
    exact h
  · exact hm

/-- **The least place is full exactly when the open ones are outranked.** -/
theorem full_least_iff (hinj : ∀ x y, objective x = objective y → x = y) {places : List ι} (hfirst : first ∈ places)
    (hopen : ∃ y ∈ places, ¬ full y) : full (least objective first places) ↔ Outranked objective full places := by
  have hle : ∀ y ∈ places, objective (least objective first places) ≤ objective y :=
    fun y hy => least_le places first y (List.mem_cons_of_mem _ hy)
  constructor
  · refine fun hfull => ⟨hopen, _, least_mem_of_mem hfirst, hfull, fun y hy hnot => ?_⟩
    refine lt_of_le_of_ne (hle y hy) (fun he => hnot ?_)
    rw [← hinj _ _ he]
    exact hfull
  · rintro ⟨-, x, hx, -, hbeats⟩
    by_contra hnot
    exact absurd (hle x hx) (not_le.2 (hbeats _ (least_mem_of_mem hfirst) hnot))

end Least

/-! ## Loops -/

section Loops

variable {σ ι : Type}

/-- A condition on every step of a loop, read at the state before it. -/
def Along (body : σ → ι → σ) (ok : σ → ι → Prop) : List ι → σ → Prop
  | [], _ => True
  | x :: l, s => ok s x ∧ Along body ok l (body s x)

/-- Passes until one changes nothing, at most so many. -/
def refine (pass : σ → σ × Bool) : Nat → σ → σ
  | 0, s => s
  | n + 1, s => if (pass s).2 = true then refine pass n (pass s).1 else (pass s).1

/-- A condition on every pass, read at the state before it. -/
def Passes (pass : σ → σ × Bool) (ok : σ → Prop) : Nat → σ → Prop
  | 0, _ => True
  | n + 1, s => ok s ∧ ((pass s).2 = true → Passes pass ok n (pass s).1)

variable {body : σ → ι → σ} {ok : σ → ι → Prop} {pass : σ → σ × Bool} {good : σ → Prop}

instance Along.decidable [∀ s x, Decidable (ok s x)] : ∀ (l : List ι) (s : σ), Decidable (Along body ok l s)
  | [], _ => isTrue trivial
  | x :: l, s =>
    have : Decidable (Along body ok l (body s x)) := Along.decidable l (body s x)
    inferInstanceAs (Decidable (ok s x ∧ Along body ok l (body s x)))

instance Passes.decidable [∀ s, Decidable (good s)] : ∀ (n : Nat) (s : σ), Decidable (Passes pass good n s)
  | 0, _ => isTrue trivial
  | n + 1, s =>
    have : Decidable (Passes pass good n (pass s).1) := Passes.decidable n (pass s).1
    inferInstanceAs (Decidable (good s ∧ ((pass s).2 = true → Passes pass good n (pass s).1)))

theorem along_iff : ∀ {l : List ι} {s : σ}, Along body ok l s ↔
    ∀ pre x post, l = pre ++ x :: post → ok (pre.foldl body s) x
  | [], s => iff_of_true trivial (fun pre x post h => by simp at h)
  | y :: l, s => by
    unfold Along
    rw [along_iff]
    constructor
    · rintro ⟨hfirst, hrest⟩ pre x post hsplit
      cases pre with
      | nil =>
        obtain ⟨rfl, -⟩ := List.cons.inj hsplit
        exact hfirst
      | cons z pre =>
        obtain ⟨rfl, htail⟩ := List.cons.inj hsplit
        exact hrest pre x post htail
    · intro h
      exact ⟨h [] y l rfl, fun pre x post hsplit => h (y :: pre) x post (congrArg (y :: ·) hsplit)⟩

/-- **What every turn keeps, with the items so far, the loop keeps.** -/
theorem foldl_turns (Inv : List ι → σ → Prop) {l : List ι} {s : σ} (hstart : Inv [] s)
    (hturn : ∀ pre x post, l = pre ++ x :: post → Inv pre (pre.foldl body s) → Inv (pre ++ [x]) (body (pre.foldl body s) x)) :
    Inv l (l.foldl body s) := by
  have hprefix : ∀ pre post : List ι, l = pre ++ post → Inv pre (pre.foldl body s) := by
    intro pre
    induction pre using List.reverseRecOn with
    | nil => exact fun _ _ => hstart
    | append_singleton pre x ih =>
      intro post hsplit
      rw [List.append_assoc, List.singleton_append] at hsplit
      rw [List.foldl_append, List.foldl_cons, List.foldl_nil]
      exact hturn pre x post hsplit (ih _ hsplit)
  exact hprefix l [] (List.append_nil l).symm

/-- **What every pass keeps, the passes keep.** -/
theorem refine_passes (Inv : σ → Prop) (hpass : ∀ s, Inv s → good s → Inv (pass s).1) :
    ∀ {n : Nat} {s : σ}, Passes pass good n s → Inv s → Inv (refine pass n s)
  | 0, s, _, hs => hs
  | n + 1, s, h, hs => by
    rw [refine]
    split
    · rename_i hchanged
      exact refine_passes Inv hpass (h.2 hchanged) (hpass s hs h.1)
    · exact hpass s hs h.1

end Loops

end Greedy
