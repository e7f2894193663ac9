import AffinityGraph.CppText
/-!
# Streams — what `operator>>` takes from a text

A text is read here as an `std::istringstream` is: `words` is the loop over its words, `extract` the number at its front
with what is left behind it.  `find` and `rfind` are the places of a character in it.
-/
namespace CppText

/-- A condition on the characters of a text is tried on these alone, however many characters there are. -/
instance decidableOnText (t : Text) (p : Char → Prop) [DecidablePred p] : Decidable (∀ c ∈ t, p c) :=
  List.decidableBAll p t

/-! ## Lines that are ended -/

theorem linesFrom_append {sep : Char} {p t : Text} (hp : sep ∉ p) : ∀ part : Text,
    linesFrom sep part (p ++ t) = linesFrom sep (part ++ p) t := by
  induction p with
  | nil => intro part; simp
  | cons c p ih =>
    intro part
    rw [List.mem_cons, not_or] at hp
    rw [List.cons_append, linesFrom, if_neg (fun h => hp.1 h.symm), ih hp.2, List.append_assoc, List.singleton_append]

theorem lines_cons {sep : Char} {p t : Text} (hp : sep ∉ p) : lines sep (p ++ sep :: t) = p :: lines sep t := by
  have h := linesFrom_append (t := sep :: t) hp []
  rw [List.nil_append, linesFrom, if_pos rfl] at h
  exact h

/-- Each line with its end. -/
def ended (sep : Char) (parts : List Text) : Text := parts.flatMap (fun p => p ++ [sep])

/-- **Lines that are ended are found again**, empty ones too. -/
theorem lines_ended {sep : Char} : ∀ {parts : List Text}, (∀ p ∈ parts, sep ∉ p) → lines sep (ended sep parts) = parts
  | [], _ => rfl
  | p :: parts, h => by
    have hrest : lines sep (ended sep parts) = parts := lines_ended (fun q hq => h q (List.mem_cons_of_mem p hq))
    unfold ended at hrest ⊢
    rw [List.flatMap_cons, List.append_assoc, List.singleton_append, lines_cons (h p List.mem_cons_self), hrest]

/-! ## Words -/

/-- The words a loop over `stream >> word` gets, with the one that has been begun. -/
def wordsFrom (word : Text) : Text → List Text
  | [] => if word = [] then [] else [word]
  | c :: t =>
    if isSpace c then (if word = [] then wordsFrom [] t else word :: wordsFrom [] t) else wordsFrom (word ++ [c]) t

def words (t : Text) : List Text := wordsFrom [] t

/-- Some characters, none of them white space. -/
def IsWord (t : Text) : Prop := t ≠ [] ∧ ∀ c ∈ t, isSpace c = false

instance (t : Text) : Decidable (IsWord t) :=
  decidable_of_iff (t ≠ [] ∧ t.all (fun c => !isSpace c) = true)
    (and_congr_right (fun _ => by simp only [List.all_eq_true, Bool.not_eq_true']))

theorem wordsFrom_append {w t : Text} (hw : ∀ c ∈ w, isSpace c = false) : ∀ word : Text,
    wordsFrom word (w ++ t) = wordsFrom (word ++ w) t := by
  induction w with
  | nil => intro word; simp
  | cons c w ih =>
    intro word
    have hc : isSpace c = false := hw c List.mem_cons_self
    rw [List.cons_append, wordsFrom, hc, if_neg Bool.false_ne_true, ih (fun d hd => hw d (List.mem_cons_of_mem c hd)),
      List.append_assoc, List.singleton_append]

theorem words_word {w : Text} (hw : IsWord w) : words w = [w] := by
  have h := wordsFrom_append (t := []) hw.2 []
  rw [List.append_nil, List.nil_append, wordsFrom, if_neg hw.1] at h
  exact h

theorem words_cons {w t : Text} {c : Char} (hw : IsWord w) (hc : isSpace c = true) :
    words (w ++ c :: t) = w :: words t := by
  have h := wordsFrom_append (t := c :: t) hw.2 []
  rw [List.nil_append, wordsFrom, if_pos hc, if_neg hw.1] at h
  exact h

/-- **Words that are joined are found again.** -/
theorem words_intercalate {c : Char} (hc : isSpace c = true) : ∀ {ws : List Text}, (∀ w ∈ ws, IsWord w) →
    words ([c].intercalate ws) = ws
  | [], _ => rfl
  | [w], h => by
    rw [List.intercalate_singleton]
    exact words_word (h w List.mem_cons_self)
  | w :: v :: ws, h => by
    have hrest : words ([c].intercalate (v :: ws)) = v :: ws :=
      words_intercalate hc (fun u hu => h u (List.mem_cons_of_mem w hu))
    rw [List.intercalate_cons_of_ne_nil (List.cons_ne_nil v ws), List.append_assoc, List.singleton_append,
      words_cons (h w List.mem_cons_self) hc, hrest]

theorem Digits.word {t : Text} (h : Digits t) : IsWord t := ⟨h.1, fun c hc => not_isSpace_of_isDigit (h.2 c hc)⟩

/-! ## Wide numbers -/

/-- A `uint64_t` made of a number whose digits fit: a negative one wraps. -/
def wide (n : Int) : Nat := (n % 2 ^ 64).toNat

/-- `std::stoull`: it throws without digits, and when the digits do not fit. -/
def stoull (t : Text) : Except String Nat :=
  match number t with
  | none => .error "stoull"
  | some n => if n.natAbs < 2 ^ 64 then .ok (wide n) else .error "stoull"

/-- What is behind the number of a text. -/
def behind (t : Text) : Text := (signed (t.dropWhile isSpace)).2.dropWhile Char.isDigit

/-- `stream >> n` for a `uint64_t`: 0 where there is no number, the largest where it does not fit, and in both cases the
stream has failed. -/
def extract (t : Text) : Nat × Option Text :=
  match number t with
  | none => (0, none)
  | some n => if n.natAbs < 2 ^ 64 then (wide n, some (behind t)) else (2 ^ 64 - 1, none)

theorem wide_of_lt {n : Nat} (h : n < 2 ^ 64) : wide (n : Int) = n := by
  unfold wide
  omega

theorem stoull_eq_ok {t : Text} {n : Nat} (h : Reads t n) (hn : n < 2 ^ 64) : stoull t = .ok n := by
  unfold stoull
  rw [number_eq_some.2 h]
  dsimp only
  rw [Int.natAbs_natCast, if_pos hn, wide_of_lt hn]

/-- `text.find(c)`. -/
def find (c : Char) (t : Text) : Option Nat := t.findIdx? (fun d => decide (d = c))

/-- `text.rfind(c)`. -/
def rfind (c : Char) (t : Text) : Option Nat := (find c t.reverse).map (fun i => t.length - 1 - i)

theorem find_eq {c : Char} {a b : Text} (h : c ∉ a) : find c (a ++ c :: b) = some a.length := by
  have hnone : a.findIdx? (fun d => decide (d = c)) = none := by
    rw [List.findIdx?_eq_none_iff]
    exact fun d hd => decide_eq_false (fun heq => h (heq ▸ hd))
  unfold find
  rw [List.findIdx?_append, hnone, List.findIdx?_cons]
  simp

end CppText
