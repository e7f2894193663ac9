import Mathlib.Tactic.Common
/-!
# Decimal — numbers written one after the other

A number is written with digits and a sign.  Followed by a character that is neither, it ends there, so what a text says
before its first separator is one number and what it says after it is the rest.
-/
namespace Decimal

/-- The characters numbers are written with. -/
def Numeral (c : Char) : Prop := c.isDigit = true ∨ c = '-'

instance (c : Char) : Decidable (Numeral c) := inferInstanceAs (Decidable (_ ∨ _))

theorem numeral_nat {n : Nat} {c : Char} (h : c ∈ (toString n).toList) : Numeral c := by
  rw [show toString n = n.repr from rfl, Nat.toList_repr] at h
  exact Or.inl (Nat.isDigit_of_mem_toDigits (by decide) (by decide) h)

theorem nat_toList_inj {m n : Nat} (h : (toString m).toList = (toString n).toList) : m = n := by
  have hread : ∀ n : Nat, Nat.ofDigitChars 10 (toString n).toList 0 = n := by
    intro n
    rw [show toString n = n.repr from rfl, Nat.toList_repr, Nat.ofDigitChars_ten_toDigits]
  rw [← hread m, ← hread n, h]

theorem negSucc_toList (n : Nat) : (toString (Int.negSucc n)).toList = '-' :: (toString (n + 1)).toList := by
  show ("-" ++ toString (n + 1)).toList = _
  rw [String.toList_append]
  rfl

theorem minus_notMem_nat (n : Nat) : '-' ∉ (toString n).toList := by
  intro h
  rw [show toString n = n.repr from rfl, Nat.toList_repr] at h
  exact absurd (Nat.isDigit_of_mem_toDigits (by decide) (by decide) h) (by decide)

theorem int_toList_inj : ∀ {m n : Int}, (toString m).toList = (toString n).toList → m = n
  | .ofNat m, .ofNat n, h => congrArg Int.ofNat (nat_toList_inj h)
  | .ofNat m, .negSucc n, h => by
    rw [negSucc_toList] at h
    have hm : '-' ∈ (toString (Int.ofNat m)).toList := by
      rw [h]
      exact List.mem_cons_self
    exact absurd hm (minus_notMem_nat m)
  | .negSucc m, .ofNat n, h => by
    rw [negSucc_toList] at h
    have hn : '-' ∈ (toString (Int.ofNat n)).toList := by
      rw [← h]
      exact List.mem_cons_self
    exact absurd hn (minus_notMem_nat n)
  | .negSucc m, .negSucc n, h => by
    rw [negSucc_toList, negSucc_toList] at h
    have hsucc := nat_toList_inj (List.cons.inj h).2
    rw [Nat.succ.inj hsucc]

theorem numeral_int : ∀ {z : Int} {c : Char}, c ∈ (toString z).toList → Numeral c
  | .ofNat n, _, h => numeral_nat (n := n) h
  | .negSucc n, c, h => by
    rw [negSucc_toList, List.mem_cons] at h
    rcases h with rfl | h
    · exact Or.inr rfl
    · exact numeral_nat h

/-- **A number ends at its separator.** -/
theorem split_inj {sep : Char} (hsep : ¬ Numeral sep) : ∀ {l l' r r' : List Char}, (∀ c ∈ l, Numeral c) →
    (∀ c ∈ l', Numeral c) → l ++ sep :: r = l' ++ sep :: r' → l = l' ∧ r = r'
  | [], [], _, _, _, _, h => ⟨rfl, (List.cons.inj h).2⟩
  | [], c :: l', _, _, _, hl', h => absurd (hl' c List.mem_cons_self) ((List.cons.inj h).1 ▸ hsep)
  | c :: l, [], _, _, hl, _, h => absurd (hl c List.mem_cons_self) ((List.cons.inj h).1 ▸ hsep)
  | c :: l, c' :: l', r, r', hl, hl', h => by
    rw [List.cons_append, List.cons_append] at h
    obtain ⟨rfl, hrest⟩ := List.cons.inj h
    obtain ⟨rfl, hr⟩ := split_inj hsep (fun c hc => hl c (List.mem_cons_of_mem _ hc))
      (fun c hc => hl' c (List.mem_cons_of_mem _ hc)) hrest
    exact ⟨rfl, hr⟩

theorem nat_inj {sep : Char} (hsep : ¬ Numeral sep) {m n : Nat} {r r' : List Char}
    (h : (toString m).toList ++ sep :: r = (toString n).toList ++ sep :: r') : m = n ∧ r = r' := by
  obtain ⟨hl, hr⟩ := split_inj hsep (fun _ hc => numeral_nat hc) (fun _ hc => numeral_nat hc) h
  exact ⟨nat_toList_inj hl, hr⟩

theorem int_inj {sep : Char} (hsep : ¬ Numeral sep) {m n : Int} {r r' : List Char}
    (h : (toString m).toList ++ sep :: r = (toString n).toList ++ sep :: r') : m = n ∧ r = r' := by
  obtain ⟨hl, hr⟩ := split_inj hsep (fun _ hc => numeral_int hc) (fun _ hc => numeral_int hc) h
  exact ⟨int_toList_inj hl, hr⟩

end Decimal
