import Mathlib.Data.List.Basic
/-!
# Streak — how long something has held without a break

Over a history with its newest entry first.  A counter that goes up by one where an entry is good and back to zero where it
is not shows the streak, and a streak of `n` is `n` good entries in a row.
-/
namespace AffinityGraph

/-- The good entries in a row, the newest first. -/
def streak {α : Type*} (good : α → Bool) : List α → Nat
  | [] => 0
  | a :: l => if good a then streak good l + 1 else 0

/-- Each of the last `n` entries meets `P`, and there are that many. -/
def Lasting {α : Type*} (n : Nat) (P : α → Prop) (l : List α) : Prop := n ≤ l.length ∧ ∀ a ∈ l.take n, P a

instance {α : Type*} (n : Nat) (P : α → Prop) [DecidablePred P] (l : List α) : Decidable (Lasting n P l) :=
  inferInstanceAs (Decidable (n ≤ l.length ∧ ∀ a ∈ l.take n, P a))

namespace Streak

variable {α : Type*} {good : α → Bool} {P Q : α → Prop}

theorem lasting_zero (l : List α) : Lasting 0 P l := ⟨Nat.zero_le _, fun a ha => by simp at ha⟩

theorem lasting_cons {n : Nat} {a : α} {l : List α} : Lasting (n + 1) P (a :: l) ↔ P a ∧ Lasting n P l := by
  unfold Lasting
  rw [List.take_succ_cons, List.forall_mem_cons, List.length_cons, Nat.succ_le_succ_iff]
  exact ⟨fun ⟨hlen, ha, hl⟩ => ⟨ha, hlen, hl⟩, fun ⟨ha, hlen, hl⟩ => ⟨hlen, ha, hl⟩⟩

theorem Lasting.imp {n : Nat} {l : List α} (h : Lasting n P l) (hpq : ∀ a, P a → Q a) : Lasting n Q l :=
  ⟨h.1, fun a ha => hpq a (h.2 a ha)⟩

/-- **A streak is so many good entries in a row.** -/
theorem le_streak_iff : ∀ {n : Nat} {l : List α}, n ≤ streak good l ↔ Lasting n (fun a => good a = true) l
  | 0, l => iff_of_true (Nat.zero_le _) (lasting_zero l)
  | n + 1, [] => by simp [streak, Lasting]
  | n + 1, a :: l => by
    rw [lasting_cons, streak]
    cases ha : good a with
    | false => simp
    | true =>
      rw [if_pos rfl, Nat.succ_le_succ_iff, le_streak_iff]
      simp

end Streak
end AffinityGraph
