import AffinityGraph.Decimal
import AffinityGraph.Streams
import Mathlib.Data.Rat.Defs
/-!
# Json — documents and the texts that say them

A document is a tree, and `Value.print` its text without any white space.  A string keeps how it is written: `Str.text` is
what stands between its quotes, `Str.meaning` what it says.  A number is a sign, digits, and digits behind a point, if any.
-/
namespace Json

open CppText (Text Digits shown value)

/-! ## Strings -/

/-- A character that a string may have as it is. -/
def Plain (c : Char) : Prop := c ≠ '"' ∧ c ≠ '\\' ∧ 0x20 ≤ c.toNat

instance (c : Char) : Decidable (Plain c) := inferInstanceAs (Decidable (_ ∧ _))

/-- A part of a string, which says one character. -/
inductive Piece where
  | plain (c : Char) (h : Plain c)
  | quote | backslash | newline

def Piece.text : Piece → Text
  | plain c _ => [c]
  | quote => ['\\', '"']
  | backslash => ['\\', '\\']
  | newline => ['\\', 'n']

def Piece.char : Piece → Char
  | plain c _ => c
  | quote => '"'
  | backslash => '\\'
  | newline => '\n'

abbrev Str := List Piece

def Str.text (s : Str) : Text := s.flatMap Piece.text

/-- What a string says. -/
def Str.meaning (s : Str) : Text := s.map Piece.char

/-- A text as a string that says it; what no string can have as it is, is left out. -/
def Str.ofText (t : Text) : Str := t.flatMap (fun c => if h : Plain c then [.plain c h] else [])

/-! ## Numbers -/

structure Number where
  negative : Bool
  whole : Nat
  /-- the digits behind the point; there is no point where there are none -/
  fraction : Text
  digits : ∀ c ∈ fraction, c.isDigit = true

namespace Number

def text (n : Number) : Text :=
  (if n.negative = true then ['-'] else []) ++
    (Nat.toDigits 10 n.whole ++ if n.fraction = [] then [] else '.' :: n.fraction)

/-- The number that the text says. -/
def val (n : Number) : ℚ :=
  (if n.negative = true then -1 else 1) * ((n.whole : ℚ) + (value n.fraction : ℚ) / 10 ^ n.fraction.length)

def ofInt (z : Int) : Number where
  negative := decide (z < 0)
  whole := z.natAbs
  fraction := []
  digits := fun _ hc => absurd hc List.not_mem_nil

end Number

/-! ## Documents -/

inductive Value where
  | null
  | bool (b : Bool)
  | number (n : Number)
  | string (s : Str)
  | array (items : List Value)
  | object (members : List (Str × Value))

abbrev Member := Str × Value

/-- A string between its quotes. -/
def quoted (s : Str) : Text := '"' :: (s.text ++ ['"'])

mutual

/-- The text of a document. -/
def Value.print : Value → Text
  | .null => "null".toList
  | .bool b => if b = true then "true".toList else "false".toList
  | .number n => n.text
  | .string s => quoted s
  | .array items => '[' :: (printItems [] items ++ [']'])
  | .object members => '\x7b' :: (printMembers [] members ++ ['\x7d'])

/-- Some items, each but the first after a comma. -/
def printItems (sep : Text) : List Value → Text
  | [] => []
  | v :: items => sep ++ (v.print ++ printItems [','] items)

def printMembers (sep : Text) : List (Str × Value) → Text
  | [] => []
  | (key, v) :: members => sep ++ (quoted key ++ ':' :: (v.print ++ printMembers [','] members))

end

/-- The members of an object that have a name. -/
def named (members : List Member) (key : String) : List Value :=
  (members.filter (fun m => decide (m.1.meaning = key.toList))).map Prod.snd

/-! ## What strings say -/

section Strings

variable {t : Text}

theorem ofText_cons {c : Char} (h : Plain c) : Str.ofText (c :: t) = .plain c h :: Str.ofText t := by
  unfold Str.ofText
  rw [List.flatMap_cons, dif_pos h, List.singleton_append]

theorem meaning_ofText (h : ∀ c ∈ t, Plain c) : (Str.ofText t).meaning = t := by
  induction t with
  | nil => rfl
  | cons c t ih =>
    have hrest := ih (fun d hd => h d (List.mem_cons_of_mem c hd))
    unfold Str.meaning at hrest ⊢
    rw [ofText_cons (h c List.mem_cons_self), List.map_cons, hrest]
    rfl

end Strings

/-! ## What numbers say -/

theorem digits_toDigits (n : Nat) : Digits (Nat.toDigits 10 n) :=
  ⟨Nat.toDigits_ne_nil, fun _ hc => Nat.isDigit_of_mem_toDigits (by decide) (by decide) hc⟩

/-! ## The parts of a text -/

section Printing

end Printing

/-! ## No line ends inside a document -/

section Control

/-- A text without control characters. -/
def Printable (t : Text) : Prop := ∀ c ∈ t, 0x20 ≤ c.toNat

theorem Printable.append {t u : Text} (h : Printable t) (h' : Printable u) : Printable (t ++ u) :=
  List.forall_mem_append.2 ⟨h, h'⟩

theorem Printable.cons {c : Char} {t : Text} (hc : 0x20 ≤ c.toNat) (h : Printable t) : Printable (c :: t) :=
  List.forall_mem_cons.2 ⟨hc, h⟩

theorem Printable.nil : Printable [] := fun _ hc => absurd hc List.not_mem_nil

theorem toNat_digit {c : Char} (h : c.isDigit = true) : 0x20 ≤ c.toNat := by
  unfold Char.isDigit at h
  simp only [Bool.and_eq_true, decide_eq_true_eq] at h
  have h48 : 48 ≤ c.toNat := h.1
  omega

theorem Piece.printable (p : Piece) : Printable p.text := by
  cases p with
  | plain c h => exact .cons h.2.2 .nil
  | quote => exact (by decide : ∀ c ∈ ['\\', '"'], 0x20 ≤ c.toNat)
  | backslash => exact (by decide : ∀ c ∈ ['\\', '\\'], 0x20 ≤ c.toNat)
  | newline => exact (by decide : ∀ c ∈ ['\\', 'n'], 0x20 ≤ c.toNat)

theorem printable_quoted (s : Str) : Printable (quoted s) := by
  refine .cons (by decide) (.append (fun c hc => ?_) (.cons (by decide) .nil))
  obtain ⟨p, -, hp⟩ := List.mem_flatMap.1 hc
  exact p.printable c hp

theorem Number.printable (n : Number) : Printable n.text := by
  refine .append ?_ (.append (fun c hc => toNat_digit ((digits_toDigits n.whole).2 c hc)) ?_)
  · split
    · exact .cons (by decide) .nil
    · exact .nil
  · split
    · exact .nil
    · exact .cons (by decide) (fun c hc => toNat_digit (n.digits c hc))

mutual

/-- **No line ends inside a document**, nor is there any control character in it. -/
theorem printable_print : ∀ v : Value, Printable v.print
  | .null => by
    rw [Value.print]
    exact (by decide : ∀ c ∈ "null".toList, 0x20 ≤ c.toNat)
  | .bool true => by
    rw [Value.print]
    exact (by decide : ∀ c ∈ "true".toList, 0x20 ≤ c.toNat)
  | .bool false => by
    rw [Value.print]
    exact (by decide : ∀ c ∈ "false".toList, 0x20 ≤ c.toNat)
  | .number n => by
    rw [Value.print]
    exact n.printable
  | .string s => by
    rw [Value.print]
    exact printable_quoted s
  | .array items => by
    rw [Value.print]
    exact .cons (by decide) ((printable_items .nil items).append (.cons (by decide) .nil))
  | .object members => by
    rw [Value.print]
    exact .cons (by decide) ((printable_members .nil members).append (.cons (by decide) .nil))

theorem printable_items {sep : Text} (hsep : Printable sep) : ∀ items : List Value, Printable (printItems sep items)
  | [] => by
    rw [printItems]
    exact .nil
  | v :: items => by
    rw [printItems]
    exact hsep.append ((printable_print v).append (printable_items (.cons (by decide) .nil) items))

theorem printable_members {sep : Text} (hsep : Printable sep) :
    ∀ members : List (Str × Value), Printable (printMembers sep members)
  | [] => by
    rw [printMembers]
    exact .nil
  | (key, v) :: members => by
    rw [printMembers]
    exact hsep.append ((printable_quoted key).append (.cons (by decide)
      ((printable_print v).append (printable_members (.cons (by decide) .nil) members))))

end

end Control

end Json
