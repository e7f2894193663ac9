import Mathlib.Algebra.BigOperators.Group.Finset.Basic
import Mathlib.Algebra.BigOperators.Group.Finset.Piecewise
import Mathlib.Algebra.Order.BigOperators.Group.Finset
import Mathlib.Algebra.Order.Ring.Int
import Mathlib.Data.Nat.Cast.Basic
import Mathlib.Tactic.Abel
/-!
# Seating — what the parts of a finite set weigh while its elements move

`seat` says which part each element of `T` is in and `w` what it weighs.  `weight` is the weight of one part: `seated`
puts a new element in, `moved` takes one from a part to another, and the parts together weigh what `T` weighs
(`sum_weight`).  `exists_donor` is the pigeonhole a repair by single moves rests on.
-/
namespace Seating

variable {α : Type*} {ν : Type*} {M : Type*} [DecidableEq α] [DecidableEq ν]

section Weight

variable [AddCommGroup M]

/-- The weight of part `n`. -/
def weight (T : Finset α) (seat : α → ν) (w : α → M) (n : ν) : M := ∑ t ∈ T, if seat t = n then w t else 0

omit [DecidableEq α] in
theorem weight_congr {T : Finset α} {seat seat' : α → ν} (w : α → M) (h : ∀ t ∈ T, seat' t = seat t) (n : ν) :
    weight T seat' w n = weight T seat w n :=
  Finset.sum_congr rfl (fun t ht => by rw [h t ht])

theorem weight_seated {T : Finset α} {seat seat' : α → ν} {t : α} (w : α → M) (ht : t ∉ T)
    (h : ∀ u ∈ T, seat' u = seat u) (n : ν) :
    weight (insert t T) seat' w n = weight T seat w n + if seat' t = n then w t else 0 := by
  rw [weight, Finset.sum_insert ht, add_comm]
  congr 1
  exact weight_congr w h n

theorem weight_moved {T : Finset α} {seat seat' : α → ν} {t : α} (w : α → M) (ht : t ∈ T)
    (h : ∀ u ∈ T, u ≠ t → seat' u = seat u) (n : ν) :
    weight T seat' w n =
      weight T seat w n - (if seat t = n then w t else 0) + if seat' t = n then w t else 0 := by
  have hrest : ∑ u ∈ T.erase t, (if seat' u = n then w u else 0) = ∑ u ∈ T.erase t, if seat u = n then w u else 0 :=
    Finset.sum_congr rfl (fun u hu => by rw [h u (Finset.mem_of_mem_erase hu) (Finset.ne_of_mem_erase hu)])
  rw [weight, weight, ← Finset.add_sum_erase T _ ht, ← Finset.add_sum_erase T (fun u => if seat u = n then w u else 0) ht,
    hrest]
  abel

omit [DecidableEq α] in
/-- A sum whose terms change at two places. -/
theorem sum_moved {P : Finset ν} {f g : ν → M} {a b : ν} (ha : a ∈ P) (hb : b ∈ P) (hab : a ≠ b)
    (h : ∀ x ∈ P, x ≠ a → x ≠ b → g x = f x) :
    ∑ x ∈ P, g x = ∑ x ∈ P, f x - (f a + f b) + (g a + g b) := by
  have hb' : b ∈ P.erase a := Finset.mem_erase.2 ⟨Ne.symm hab, hb⟩
  have hrest : ∑ x ∈ (P.erase a).erase b, g x = ∑ x ∈ (P.erase a).erase b, f x := by
    refine Finset.sum_congr rfl (fun x hx => ?_)
    obtain ⟨hxb, hx⟩ := Finset.mem_erase.1 hx
    exact h x (Finset.mem_of_mem_erase hx) (Finset.ne_of_mem_erase hx) hxb
  rw [← Finset.add_sum_erase P g ha, ← Finset.add_sum_erase P f ha, ← Finset.add_sum_erase _ g hb',
    ← Finset.add_sum_erase _ f hb', hrest]
  abel

omit [DecidableEq α] in
/-- **The parts weigh what the whole weighs.** -/
theorem sum_weight {T : Finset α} {P : Finset ν} {seat : α → ν} (w : α → M) (h : ∀ t ∈ T, seat t ∈ P) :
    ∑ n ∈ P, weight T seat w n = ∑ t ∈ T, w t := by
  unfold weight
  rw [Finset.sum_comm]
  refine Finset.sum_congr rfl (fun t ht => ?_)
  rw [Finset.sum_ite_eq, if_pos (h t ht)]

omit [DecidableEq α] in
theorem weight_eq_sum_filter (T : Finset α) (seat : α → ν) (w : α → M) (n : ν) :
    weight T seat w n = ∑ t ∈ T.filter (fun t => seat t = n), w t :=
  (Finset.sum_filter _ _).symm

end Weight

omit [DecidableEq α] in
theorem weight_one_eq_card (T : Finset α) (seat : α → ν) (n : ν) :
    weight T seat (fun _ => (1 : Int)) n = (T.filter (fun t => seat t = n)).card := by
  rw [weight_eq_sum_filter, Finset.sum_const, nsmul_eq_mul, mul_one]

/-- **When one part is below its quota, another is above**: the quotas ask for no more than there is. -/
theorem exists_donor {P : Finset ν} {quota have_ : ν → Int} {n : ν} (hn : n ∈ P)
    (hsum : ∑ m ∈ P, quota m ≤ ∑ m ∈ P, have_ m) (hlt : have_ n < quota n) :
    ∃ m ∈ P, m ≠ n ∧ quota m < have_ m := by
  by_contra hall
  have hle : ∀ m ∈ P, have_ m ≤ quota m := by
    intro m hm
    by_cases hmn : m = n
    · rw [hmn]
      exact hlt.le
    · by_contra hgt
      exact hall ⟨m, hm, hmn, lt_of_not_ge hgt⟩
  have := Finset.sum_lt_sum hle ⟨n, hn, hlt⟩
  omega

end Seating
