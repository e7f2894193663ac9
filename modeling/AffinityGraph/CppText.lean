import Mathlib.Algebra.Order.Ring.Int
import Mathlib.Data.List.TakeWhile
import Mathlib.Data.Rat.Init
import Mathlib.Tactic.Common
/-!
# CppText — texts as the C++ library reads them

`lines` is `std::getline` until it fails: the text cut at its separators, where nothing after the last one is no part
(`splitOn_eq`).  `stoi` takes what looks like a number from the front of a text; `Reads` says what that is (`stoi_eq_ok`).
-/
namespace CppText

abbrev Text := List Char

/-- `std::isspace` of the C locale. -/
def isSpace (c : Char) : Bool := c = ' ' || (9 ≤ c.toNat && c.toNat ≤ 13)

/-! ## Lines -/

/-- The parts a loop over `std::getline` gets, with the one that has been begun. -/
def linesFrom (sep : Char) (part : Text) : Text → List Text
  | [] => if part = [] then [] else [part]
  | c :: t => if c = sep then part :: linesFrom sep [] t else linesFrom sep (part ++ [c]) t

def lines (sep : Char) (t : Text) : List Text := linesFrom sep [] t

section Lines

variable {sep : Char}

/-- Nothing, or nothing after a separator: what a cut has one part more for than the loop. -/
def Ended (sep : Char) (t : Text) : Prop := t = [] ∨ t.getLast? = some sep

instance (t : Text) : Decidable (Ended sep t) := inferInstanceAs (Decidable (_ ∨ _))

theorem ended_append {s t : Text} : Ended sep (s ++ sep :: t) ↔ Ended sep t := by
  unfold Ended
  rw [List.getLast?_append, List.getLast?_cons]
  cases t with
  | nil => simp
  | cons c t =>
    have hlast := List.getLast?_eq_some_getLast (List.cons_ne_nil c t)
    simp [hlast]

theorem splitOn_linesFrom : ∀ (t part : Text), sep ∉ part →
    (part ++ t).splitOn sep = linesFrom sep part t ++ if Ended sep (part ++ t) then [[]] else []
  | [], part, hpart => by
    rw [List.append_nil, List.splitOn_eq_singleton hpart, linesFrom]
    by_cases hnil : part = []
    · subst hnil
      rfl
    · have hopen : ¬ Ended sep part := by
        rintro (h | h)
        · exact hnil h
        · exact hpart (List.mem_of_getLast? h)
      rw [if_neg hnil, if_neg hopen, List.append_nil]
  | c :: t, part, hpart => by
    rw [linesFrom]
    by_cases hc : c = sep
    · have hrest := splitOn_linesFrom t [] List.not_mem_nil
      rw [List.nil_append] at hrest
      rw [if_pos hc, hc, List.splitOn_append_cons_self_of_not_mem hpart, hrest, List.cons_append]
      simp only [ended_append]
    · have hnext : sep ∉ part ++ [c] := by
        rw [List.mem_append, List.mem_singleton]
        rintro (h | h)
        · exact hpart h
        · exact hc h.symm
      have hrest := splitOn_linesFrom t (part ++ [c]) hnext
      rw [List.append_assoc, List.singleton_append] at hrest
      rw [if_neg hc, hrest]

/-- **The loop gets the parts of the text**, but for an empty one at the end. -/
theorem splitOn_eq (t : Text) : t.splitOn sep = lines sep t ++ if Ended sep t then [[]] else [] :=
  splitOn_linesFrom t [] List.not_mem_nil

theorem intercalate_lines {t : Text} (h : ¬ Ended sep t) : [sep].intercalate (lines sep t) = t := by
  have hsplit : [sep].intercalate (t.splitOn sep) = t := List.intercalate_splitOn sep
  rwa [splitOn_eq, if_neg h, List.append_nil] at hsplit

theorem lines_intercalate {parts : List Text} (hsep : ∀ p ∈ parts, sep ∉ p) (hfull : ∀ p ∈ parts, p ≠ [])
    (hne : parts ≠ []) : lines sep ([sep].intercalate parts) = parts ∧ ¬ Ended sep ([sep].intercalate parts) := by
  have hsplit := List.splitOn_intercalate sep hsep hne
  rw [splitOn_eq] at hsplit
  by_cases hended : Ended sep ([sep].intercalate parts)
  · rw [if_pos hended] at hsplit
    have hin : [] ∈ parts := by
      rw [← hsplit]
      simp
    exact absurd rfl (hfull [] hin)
  · rw [if_neg hended, List.append_nil] at hsplit
    exact ⟨hsplit, hended⟩

theorem lines_ne_nil {t : Text} (h : t ≠ []) : lines sep t ≠ [] := by
  intro hnil
  have hsplit : t.splitOn sep = lines sep t ++ if Ended sep t then [[]] else [] := splitOn_eq t
  have hjoin : [sep].intercalate (t.splitOn sep) = t := List.intercalate_splitOn sep
  rw [hsplit, hnil, List.nil_append] at hjoin
  split at hjoin
  · exact h (hjoin.symm.trans rfl)
  · exact h (hjoin.symm.trans rfl)

end Lines

/-! ## Numbers -/

/-- At least one digit, and nothing else. -/
def Digits (t : Text) : Prop := t ≠ [] ∧ ∀ c ∈ t, c.isDigit = true

instance (t : Text) : Decidable (Digits t) :=
  decidable_of_iff (t ≠ [] ∧ t.all Char.isDigit = true) (and_congr_right (fun _ => List.all_eq_true))

/-- The number that digits are. -/
def value (t : Text) : Nat := Nat.ofDigitChars 10 t 0

/-- A sign, if there is one, and what follows. -/
def signed : Text → Int × Text
  | '-' :: t => (-1, t)
  | '+' :: t => (1, t)
  | t => (1, t)

/-- The number at the front of a text: white space, a sign and as many digits as follow. -/
def number (t : Text) : Option Int :=
  let (sign, rest) := signed (t.dropWhile isSpace)
  let digits := rest.takeWhile Char.isDigit
  if digits = [] then none else some (sign * (value digits : Int))

/-- `std::stoi`: it throws without digits, and when an `int` cannot hold the number. -/
def stoi (t : Text) : Except String Int :=
  match number t with
  | none => .error "stoi"
  | some n => if -2 ^ 31 ≤ n ∧ n < 2 ^ 31 then .ok n else .error "stoi"

/-- A text begins with a number: white space, a sign, and digits that end where the next character is none. -/
def Reads (t : Text) (n : Int) : Prop :=
  ∃ spaces sign digits rest, t = spaces ++ (sign ++ (digits ++ rest)) ∧ (∀ c ∈ spaces, isSpace c = true) ∧
    Digits digits ∧ (∀ c ∈ rest.head?, c.isDigit = false) ∧
    ((sign = [] ∨ sign = ['+']) ∧ n = value digits ∨ sign = ['-'] ∧ n = -(value digits : Int))

theorem not_isSpace_of_isDigit {c : Char} (h : c.isDigit = true) : isSpace c = false := by
  have hrange : 48 ≤ c.toNat ∧ c.toNat ≤ 57 := by
    unfold Char.isDigit at h
    simp only [Bool.and_eq_true, decide_eq_true_eq] at h
    exact ⟨h.1, h.2⟩
  have hne : c ≠ ' ' := by
    rintro rfl
    exact absurd hrange.1 (by decide)
  unfold isSpace
  simp only [Bool.or_eq_false_iff, Bool.and_eq_false_iff, decide_eq_false_iff_not]
  exact ⟨hne, Or.inr (by omega)⟩

theorem Digits.reads {t : Text} (h : Digits t) : Reads t (value t) :=
  ⟨[], [], t, [], by simp, by simp, h, by simp, Or.inl ⟨Or.inl rfl, rfl⟩⟩

theorem Digits.notMem {t : Text} (h : Digits t) {c : Char} (hc : c.isDigit = false) : c ∉ t := by
  intro hin
  rw [h.2 c hin] at hc
  cases hc

theorem takeWhile_digits {ds rest : Text} (hds : ∀ c ∈ ds, c.isDigit = true) (hrest : ∀ c ∈ rest.head?, c.isDigit = false) :
    (ds ++ rest).takeWhile Char.isDigit = ds := by
  rw [List.takeWhile_append_of_pos hds]
  cases rest with
  | nil => simp
  | cons c rest =>
    have hc := hrest c (by simp)
    rw [List.takeWhile_cons, hc]
    simp

theorem dropWhile_spaces {spaces t : Text} (hs : ∀ c ∈ spaces, isSpace c = true) (ht : ∀ c ∈ t.head?, isSpace c = false) :
    (spaces ++ t).dropWhile isSpace = t := by
  rw [List.dropWhile_append_of_pos hs]
  cases t with
  | nil => rfl
  | cons c t =>
    have hc := ht c (by simp)
    rw [List.dropWhile_cons, hc]
    simp

/-- **What a text begins with** is found. -/
theorem number_eq_some {t : Text} {n : Int} : number t = some n ↔ Reads t n := by
  constructor
  · intro h
    have hsplit : t = t.takeWhile isSpace ++ t.dropWhile isSpace := (List.takeWhile_append_dropWhile).symm
    have hspaces : ∀ c ∈ t.takeWhile isSpace, isSpace c = true := fun c hc => List.mem_takeWhile_imp hc
    unfold number at h
    generalize t.dropWhile isSpace = body at h hsplit
    obtain ⟨sign, rest, hbody⟩ : ∃ sign rest, signed body = (sign, rest) := ⟨_, _, rfl⟩
    rw [hbody] at h
    dsimp only at h
    split at h
    · cases h
    rename_i hdigits
    cases h
    have hrest : rest = rest.takeWhile Char.isDigit ++ rest.dropWhile Char.isDigit :=
      (List.takeWhile_append_dropWhile).symm
    have hds : Digits (rest.takeWhile Char.isDigit) := ⟨hdigits, fun c hc => List.mem_takeWhile_imp hc⟩
    have hstop : ∀ c ∈ (rest.dropWhile Char.isDigit).head?, c.isDigit = false := by
      intro c hc
      have hnot := List.head?_dropWhile_not Char.isDigit rest
      rw [Option.mem_def.1 hc] at hnot
      exact hnot
    unfold signed at hbody
    split at hbody
    · cases hbody
      exact ⟨_, ['-'], _, _, by rw [← hrest]; exact hsplit, hspaces, hds, hstop, Or.inr ⟨rfl, by omega⟩⟩
    · cases hbody
      exact ⟨_, ['+'], _, _, by rw [← hrest]; exact hsplit, hspaces, hds, hstop, Or.inl ⟨Or.inr rfl, by omega⟩⟩
    · cases hbody
      exact ⟨_, [], _, _, by rw [← hrest]; exact hsplit, hspaces, hds, hstop, Or.inl ⟨Or.inl rfl, by omega⟩⟩
  · rintro ⟨spaces, sign, digits, rest, rfl, hspaces, hds, hstop, hsign⟩
    obtain ⟨d, ds, rfl⟩ := List.exists_cons_of_ne_nil hds.1
    have hd : d.isDigit = true := hds.2 d List.mem_cons_self
    have hfront : ∀ c ∈ (sign ++ (d :: ds ++ rest)).head?, isSpace c = false := by
      rcases hsign with ⟨rfl | rfl, -⟩ | ⟨rfl, -⟩
      · simpa using not_isSpace_of_isDigit hd
      · simp [isSpace]
      · simp [isSpace]
    have hsigned : ∃ s : Int, signed (sign ++ (d :: ds ++ rest)) = (s, d :: ds ++ rest) ∧ n = s * (value (d :: ds) : Int) := by
      rcases hsign with ⟨rfl | rfl, rfl⟩ | ⟨rfl, rfl⟩
      · refine ⟨1, ?_, (one_mul _).symm⟩
        rw [List.nil_append, List.cons_append, signed]
        · rintro r h
          cases h
          exact absurd hd (by decide)
        · rintro r h
          cases h
          exact absurd hd (by decide)
      · exact ⟨1, rfl, (one_mul _).symm⟩
      · exact ⟨-1, rfl, (neg_one_mul _).symm⟩
    obtain ⟨s, hs, rfl⟩ := hsigned
    unfold number
    rw [dropWhile_spaces hspaces hfront, hs]
    dsimp only
    rw [takeWhile_digits hds.2 hstop, if_neg (List.cons_ne_nil d ds)]

/-- A text begins with one number at most. -/
theorem Reads.unique {t : Text} {m n : Int} (hm : Reads t m) (hn : Reads t n) : m = n :=
  Option.some.inj ((number_eq_some.2 hm).symm.trans (number_eq_some.2 hn))

/-- **What `stoi` returns** is that number, when an `int` can hold it. -/
theorem stoi_eq_ok {t : Text} {n : Int} : stoi t = .ok n ↔ Reads t n ∧ -2 ^ 31 ≤ n ∧ n < 2 ^ 31 := by
  unfold stoi
  rw [← number_eq_some]
  cases number t with
  | none => simp
  | some m =>
    dsimp only
    rw [Option.some.injEq]
    split
    · rename_i hrange
      rw [Except.ok.injEq]
      exact ⟨fun h => ⟨h, h ▸ hrange⟩, And.left⟩
    · rename_i hrange
      refine iff_of_false (fun h => by cases h) ?_
      rintro ⟨rfl, h⟩
      exact hrange h

theorem Reads.ne_nil {t : Text} {n : Int} (h : Reads t n) : t ≠ [] := by
  rintro rfl
  obtain ⟨spaces, sign, digits, rest, heq, -, hd, -⟩ := h
  have hempty := congrArg List.length heq
  simp only [List.length_append, List.length_nil] at hempty
  exact hd.1 (List.eq_nil_of_length_eq_zero (by omega))

/-! ## Writing -/

/-- `out << n`. -/
def shown (n : Int) : Text := (toString n).toList

theorem shown_ofNat (n : Nat) : shown (n : Int) = Nat.toDigits 10 n := Nat.toList_repr

theorem digits_shown {n : Int} (h : 0 ≤ n) : Digits (shown n) ∧ (value (shown n) : Int) = n := by
  obtain ⟨k, rfl⟩ := Int.eq_ofNat_of_zero_le h
  rw [shown_ofNat]
  refine ⟨⟨Nat.toDigits_ne_nil, fun c hc => Nat.isDigit_of_mem_toDigits (by decide) (by decide) hc⟩, ?_⟩
  rw [value, Nat.ofDigitChars_ten_toDigits]

/-! ## Doubles -/

/-- What a text can be read as by `std::stod`; the finite values are exact. -/
inductive Double where
  | finite (q : ℚ)
  | posInf
  | negInf
  | nan
  deriving DecidableEq

namespace Double

/-- `<`, which no comparison with a NaN meets. -/
def lt : Double → Double → Bool
  | nan, _ | _, nan => false
  | negInf, negInf => false
  | negInf, _ => true
  | _, negInf => false
  | posInf, _ => false
  | finite _, posInf => true
  | finite a, finite b => decide (a < b)

/-- `<=`, likewise. -/
def le : Double → Double → Bool
  | nan, _ | _, nan => false
  | negInf, _ => true
  | _, negInf => false
  | _, posInf => true
  | posInf, finite _ => false
  | finite a, finite b => decide (a ≤ b)

end Double

/-! ## Steps that can throw -/

section Throwing

variable {ε α β σ ι : Type}

/-- **What a step hands on.** -/
theorem bind_eq_ok {x : Except ε α} {f : α → Except ε β} {b : β} : (x >>= f) = .ok b ↔ ∃ a, x = .ok a ∧ f a = .ok b := by
  cases x with
  | error e => exact iff_of_false (fun h => by cases h) (fun ⟨_, h, _⟩ => by cases h)
  | ok a => exact ⟨fun h => ⟨a, rfl, h⟩, fun ⟨_, rfl, h⟩ => h⟩

/-- What every turn keeps, a loop that ends well has kept. -/
theorem foldlM_keeps {f : σ → ι → Except ε σ} (Inv : σ → Prop) (h : ∀ s i s', Inv s → f s i = .ok s' → Inv s') :
    ∀ {l : List ι} {s s' : σ}, Inv s → l.foldlM f s = .ok s' → Inv s'
  | [], s, s', hs, hl => by
    cases hl
    exact hs
  | i :: l, s, s', hs, hl => by
    rw [List.foldlM_cons] at hl
    obtain ⟨t, ht, hrest⟩ := bind_eq_ok.1 hl
    exact foldlM_keeps Inv h (h s i t hs ht) hrest

end Throwing

end CppText
