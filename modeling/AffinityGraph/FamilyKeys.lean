import AffinityGraph.Graph
import Mathlib.Data.List.TakeWhile
/-!
# FamilyKeys — the key of a family, from a name that the kernel has cut off

`normalize_group` first cuts a role in brackets off a thread's name, then the ordinal.  The kernel keeps the first bytes of
a name, so that either may be there in part.  A cut anywhere gives the key of the pool but one: right after the space before
the bracket there is no bracket left, the space stays, and the ordinal is no longer at the end (`normalizeGroup_take_iff`).
-/
namespace AffinityGraph
namespace GraphWindow

/-! ## Ordinals -/

/-- `[_-]?[0-9]+`. -/
def IsBlock (b : List Char) : Prop :=
  ∃ sep digits, b = sep ++ digits ∧ (sep = [] ∨ sep = ['_'] ∨ sep = ['-']) ∧ digits ≠ [] ∧ ∀ c ∈ digits, c.isDigit = true

/-- `([_-]?[0-9]+)*`. -/
def IsOrdinals (d : List Char) : Prop := ∃ blocks : List (List Char), (∀ b ∈ blocks, IsBlock b) ∧ d = blocks.flatten

section Ordinals

variable {c : Char} {cs d : List Char}

/-- The characters of an ordinal. -/
def OrdinalChar (c : Char) : Prop := c.isDigit = true ∨ c = '_' ∨ c = '-'

theorem isOrdinal_cons_digit (hc : c.isDigit = true) (h : cs = [] ∨ isOrdinal cs = true) : isOrdinal (c :: cs) = true := by
  cases cs with
  | nil => exact hc
  | cons d cs =>
    rcases h with h | h
    · cases h
    · rw [isOrdinal, hc, h]
      rfl

theorem isOrdinal_digits : ∀ {ds : List Char}, (∀ c ∈ ds, c.isDigit = true) → ds ≠ [] → (cs = [] ∨ isOrdinal cs = true) →
    isOrdinal (ds ++ cs) = true
  | [], _, hne, _ => absurd rfl hne
  | [c], hds, _, h => isOrdinal_cons_digit (hds c List.mem_cons_self) h
  | c :: e :: ds, hds, _, h => by
    have hrest := isOrdinal_digits (fun x hx => hds x (List.mem_cons_of_mem _ hx)) (List.cons_ne_nil e ds) h
    exact isOrdinal_cons_digit (hds c List.mem_cons_self) (Or.inr hrest)

theorem IsBlock.isOrdinal {b : List Char} (hb : IsBlock b) (h : cs = [] ∨ isOrdinal cs = true) :
    isOrdinal (b ++ cs) = true := by
  obtain ⟨sep, digits, rfl, hsep, hne, hdigits⟩ := hb
  have hrest := isOrdinal_digits hdigits hne h
  obtain ⟨e, ds, rfl⟩ := List.exists_cons_of_ne_nil hne
  have he : e.isDigit = true := hdigits e List.mem_cons_self
  rcases hsep with rfl | rfl | rfl
  · exact hrest
  · rw [List.append_assoc, List.singleton_append, List.cons_append, GraphWindow.isOrdinal, he, ← List.cons_append, hrest]
    rfl
  · rw [List.append_assoc, List.singleton_append, List.cons_append, GraphWindow.isOrdinal, he, ← List.cons_append, hrest]
    rfl

theorem IsOrdinals.eq_nil_or (h : IsOrdinals d) : d = [] ∨ isOrdinal d = true := by
  obtain ⟨blocks, hblocks, rfl⟩ := h
  induction blocks with
  | nil => exact Or.inl rfl
  | cons b blocks ih =>
    rw [List.flatten_cons]
    exact Or.inr ((hblocks b List.mem_cons_self).isOrdinal (ih (fun x hx => hblocks x (List.mem_cons_of_mem _ hx))))

/-- An ordinal has nothing else in it. -/
theorem ordinalChar_of_isOrdinal : ∀ {cs : List Char}, isOrdinal cs = true → ∀ c ∈ cs, OrdinalChar c
  | [], h, _, _ => by cases h
  | [c], h, x, hx => by
    rw [List.mem_singleton.1 hx]
    exact Or.inl h
  | c :: d :: cs, h, x, hx => by
    rw [isOrdinal, Bool.and_eq_true, Bool.or_eq_true, Bool.and_eq_true, Bool.or_eq_true, decide_eq_true_eq,
      decide_eq_true_eq] at h
    rcases List.mem_cons.1 hx with rfl | hx
    · rcases h.1 with h | h
      · exact Or.inl h
      · exact Or.inr h.1
    · exact ordinalChar_of_isOrdinal h.2 x hx

theorem IsOrdinals.ordinalChar (h : IsOrdinals d) (hc : c ∈ d) : OrdinalChar c := by
  rcases h.eq_nil_or with rfl | h
  · exact absurd hc List.not_mem_nil
  · exact ordinalChar_of_isOrdinal h c hc

end Ordinals

/-! ## Cuts -/

section Cuts

variable {accepts : List Char → Bool} {p d r x y : List Char}

/-- What no accepted suffix starts in, stays. -/
theorem cutSuffix_append : ∀ {x : List Char}, (∀ s t, x = s ++ t → t ≠ [] → accepts (t ++ y) = false) →
    cutSuffix accepts (x ++ y) = x ++ cutSuffix accepts y
  | [], _ => rfl
  | c :: x, h => by
    have hhead := h [] (c :: x) rfl (List.cons_ne_nil c x)
    rw [List.cons_append] at hhead
    rw [List.cons_append, cutSuffix, hhead, if_neg Bool.false_ne_true, List.cons_append,
      cutSuffix_append (fun s t hst hne => h (c :: s) t (by rw [hst]; rfl) hne)]

theorem cutSuffix_self (h : ∀ s t, x = s ++ t → t ≠ [] → accepts t = false) : cutSuffix accepts x = x := by
  have happend : cutSuffix accepts (x ++ []) = x ++ cutSuffix accepts [] := by
    refine cutSuffix_append (fun s t hst hne => ?_)
    rw [List.append_nil]
    exact h s t hst hne
  rwa [List.append_nil, cutSuffix, List.append_nil] at happend

theorem cutSuffix_accepted (h : x = [] ∨ accepts x = true) : cutSuffix accepts x = [] := by
  cases x with
  | nil => rfl
  | cons c x =>
    rcases h with h | h
    · cases h
    · rw [cutSuffix, if_pos h]

/-- A role has an opening bracket, with nothing but white space before it. -/
theorem bracket_of_isRole (h : isRole x = true) : ∃ body, x.dropWhile isSpace = '[' :: body := by
  unfold isRole at h
  split at h
  · rename_i body hbody
    exact ⟨body, hbody⟩
  · cases h

theorem cutSuffix_isRole_self (h : '[' ∉ x) : cutSuffix isRole x = x := by
  refine cutSuffix_self (fun s t hst _ => ?_)
  rw [← Bool.not_eq_true]
  intro hrole
  obtain ⟨body, hbody⟩ := bracket_of_isRole hrole
  have hmem : '[' ∈ t := (List.dropWhile_suffix isSpace).subset (hbody ▸ List.mem_cons_self)
  exact h (hst ▸ List.mem_append_right s hmem)

/-- The last character of a pool's name. -/
def NameEnd (c : Char) : Prop := c.isDigit = false ∧ c ≠ '_' ∧ c ≠ '-' ∧ isSpace c = false

/-- A pool's name: not empty, no bracket, and an end that is no part of an ordinal and no white space. -/
structure PoolName (p : List Char) : Prop where
  opening : '[' ∉ p
  closing : ']' ∉ p
  ends : ∃ c ∈ p.getLast?, NameEnd c

theorem NameEnd.not_ordinalChar {c : Char} (h : NameEnd c) : ¬ OrdinalChar c := by
  rintro (hc | hc | hc)
  · rw [h.1] at hc
    cases hc
  · exact h.2.1 hc
  · exact h.2.2.1 hc

theorem PoolName.ne_nil (h : PoolName p) : p ≠ [] := by
  rintro rfl
  obtain ⟨c, hc, -⟩ := h.ends
  cases hc

/-- The end of a name is in every suffix of it. -/
theorem PoolName.mem_suffix (h : PoolName p) {s t : List Char} (hst : p = s ++ t) (hne : t ≠ []) : ∃ c ∈ t, NameEnd c := by
  obtain ⟨c, hc, hend⟩ := h.ends
  rw [hst, List.getLast?_append_of_ne_nil _ hne] at hc
  exact ⟨c, List.mem_of_getLast? hc, hend⟩

/-- The ordinal is cut off a name, and nothing more. -/
theorem cutSuffix_isOrdinal (hp : PoolName p) (hd : IsOrdinals d) : cutSuffix isOrdinal (p ++ d) = p := by
  rw [cutSuffix_append, cutSuffix_accepted hd.eq_nil_or, List.append_nil]
  intro s t hst hne
  obtain ⟨c, hc, hend⟩ := hp.mem_suffix hst hne
  rw [← Bool.not_eq_true]
  intro h
  exact hend.not_ordinalChar (ordinalChar_of_isOrdinal h c (List.mem_append_left d hc))

theorem not_isSpace_of_isDigit {c : Char} (h : c.isDigit = true) : isSpace c = false := by
  rw [← Bool.not_eq_true]
  intro hspace
  simp only [isSpace, Bool.or_eq_true, decide_eq_true_eq] at hspace
  simp only [Char.isDigit, Bool.and_eq_true, decide_eq_true_eq, UInt32.le_iff_toNat_le, ge_iff_le] at h
  change 48 ≤ c.toNat ∧ c.toNat ≤ 57 at h
  rcases hspace with ((((rfl | rfl) | rfl) | rfl) | hcode) | hcode
  · revert h
    decide
  · revert h
    decide
  · revert h
    decide
  · revert h
    decide
  · omega
  · omega

theorem opening_notMem (hp : PoolName p) (hd : IsOrdinals d) : '[' ∉ p ++ d := by
  intro h
  rcases List.mem_append.1 h with h | h
  · exact hp.opening h
  · rcases hd.ordinalChar h with h | h | h
    · revert h
      decide
    · cases h
    · cases h

/-- The last character before the role is no white space. -/
theorem exists_nonspace (hp : PoolName p) (hd : IsOrdinals d) {s t : List Char} (hst : p ++ d = s ++ t) (hne : t ≠ []) :
    ∃ c ∈ t, isSpace c = false := by
  by_cases hnil : d = []
  · subst hnil
    rw [List.append_nil] at hst
    obtain ⟨c, hc, hend⟩ := hp.mem_suffix hst hne
    exact ⟨c, hc, hend.2.2.2⟩
  · obtain ⟨c, hc⟩ := Option.isSome_iff_exists.1 (List.getLast?_isSome.2 hne)
    have hlast : (p ++ d).getLast? = some c := by rw [hst, List.getLast?_append_of_ne_nil _ hne, hc]
    rw [List.getLast?_append_of_ne_nil _ hnil] at hlast
    refine ⟨c, List.mem_of_getLast? hc, ?_⟩
    rcases hd.ordinalChar (List.mem_of_getLast? hlast) with h | rfl | rfl
    · exact not_isSpace_of_isDigit h
    · decide
    · decide

theorem dropWhile_append_of_exists {f : Char → Bool} : ∀ {t : List Char}, (∃ c ∈ t, f c = false) →
    (t ++ y).dropWhile f = t.dropWhile f ++ y
  | [], ⟨_, h, _⟩ => absurd h List.not_mem_nil
  | c :: t, h => by
    cases hc : f c with
    | false => simp [hc]
    | true =>
      obtain ⟨x, hx, hfx⟩ := h
      rcases List.mem_cons.1 hx with rfl | hx
      · rw [hc] at hfx
        cases hfx
      · rw [List.cons_append, List.dropWhile_cons_of_pos hc, List.dropWhile_cons_of_pos hc,
          dropWhile_append_of_exists ⟨x, hx, hfx⟩]

/-- **A role is cut off**, whole or with its end missing. -/
theorem cutSuffix_isRole (hp : PoolName p) (hd : IsOrdinals d) (hr : ']' ∉ r.dropLast) :
    cutSuffix isRole (p ++ d ++ ' ' :: '[' :: r) = p ++ d := by
  have hrole : isRole (' ' :: '[' :: r) = true := by
    change (true && !(r.dropLast.contains ']')) = true
    rw [List.contains_eq_mem, decide_eq_false hr]
    rfl
  rw [cutSuffix_append, cutSuffix_accepted (Or.inr hrole), List.append_nil]
  intro s t hst hne
  rw [← Bool.not_eq_true]
  intro h
  obtain ⟨body, hbody⟩ := bracket_of_isRole h
  have hsome := exists_nonspace hp hd hst hne
  rw [dropWhile_append_of_exists hsome] at hbody
  cases hdrop : t.dropWhile isSpace with
  | nil =>
    obtain ⟨c, hc, hspace⟩ := hsome
    rw [List.dropWhile_eq_nil_iff.1 hdrop c hc] at hspace
    cases hspace
  | cons c u =>
    rw [hdrop] at hbody
    have hc : c = '[' := (List.cons.inj hbody).1
    have hmem : '[' ∈ t := (List.dropWhile_suffix isSpace).subset (hdrop ▸ hc ▸ List.mem_cons_self)
    exact opening_notMem hp hd (hst ▸ List.mem_append_right s hmem)

/-- A pool's name is its own key. -/
theorem cutName_self (hp : PoolName p) : cutSuffix isOrdinal (cutSuffix isRole p) = p := by
  have h := cutSuffix_isOrdinal (d := []) hp ⟨[], fun _ hb => absurd hb List.not_mem_nil, rfl⟩
  rw [List.append_nil] at h
  rw [cutSuffix_isRole_self hp.opening, h]

/-- With a space at its end a name keeps everything. -/
theorem cutName_space (hp : PoolName p) (hd : IsOrdinals d) :
    cutSuffix isOrdinal (cutSuffix isRole (p ++ d ++ [' '])) = p ++ d ++ [' '] := by
  have hopening : '[' ∉ p ++ d ++ [' '] := by
    intro h
    rcases List.mem_append.1 h with h | h
    · exact opening_notMem hp hd h
    · cases List.mem_singleton.1 h
  rw [cutSuffix_isRole_self hopening]
  refine cutSuffix_self (fun s t hst hne => ?_)
  rw [← Bool.not_eq_true]
  intro h
  have hlast : t.getLast? = some ' ' := by
    rw [← List.getLast?_append_of_ne_nil s hne, ← hst, List.getLast?_append_of_ne_nil _ (List.cons_ne_nil _ _)]
    rfl
  rcases ordinalChar_of_isOrdinal h ' ' (List.mem_of_getLast? hlast) with h | h | h
  · revert h
    decide
  · cases h
  · cases h

theorem closing_notMem_take (hr : ']' ∉ r) (m : Nat) : ']' ∉ ((r ++ [']']).take m).dropLast := by
  intro h
  by_cases hm : m ≤ r.length
  · rw [List.take_append_of_le_length hm] at h
    exact hr (List.mem_of_mem_take ((List.dropLast_sublist _).subset h))
  · rw [List.take_of_length_le (by rw [List.length_append, List.length_singleton]; omega), List.dropLast_concat] at h
    exact hr h

end Cuts

/-! ## Names cut off -/

section Names

variable {p d r : List Char}

/-- The name of a thread of a pool, with its ordinal and its role. -/
def roleName (p d r : List Char) : List Char := p ++ d ++ ' ' :: '[' :: (r ++ [']'])

/-- What is left of it, by where it is cut. -/
theorem take_roleName {n : Nat} (hn : (p ++ d).length ≤ n) :
    (n = (p ++ d).length ∧ (roleName p d r).take n = p ++ d) ∨
    (n = (p ++ d).length + 1 ∧ (roleName p d r).take n = p ++ d ++ [' ']) ∨
    ∃ m, n = (p ++ d).length + 2 + m ∧ (roleName p d r).take n = p ++ d ++ ' ' :: '[' :: (r ++ [']']).take m := by
  obtain ⟨k, rfl⟩ := Nat.exists_eq_add_of_le hn
  unfold roleName
  rw [List.take_length_add_append]
  match k with
  | 0 => exact Or.inl ⟨rfl, by rw [List.take_zero, List.append_nil]⟩
  | 1 => exact Or.inr (Or.inl ⟨rfl, rfl⟩)
  | m + 2 => exact Or.inr (Or.inr ⟨m, by omega, rfl⟩)

theorem normalizeGroup_eq {x name : List Char} (h : cutSuffix isOrdinal (cutSuffix isRole x) = name) (hne : name ≠ [])
    (routine : Nat) (symbol : String) : normalizeGroup (String.ofList x) routine symbol =
      String.ofList name ++ "@" ++ (if symbol.isEmpty then toString routine else symbol) := by
  have hempty : name.isEmpty = false := by rw [List.isEmpty_eq_false_iff]; exact hne
  unfold normalizeGroup
  rw [String.toList_ofList, h]
  dsimp only
  rw [hempty]
  rfl

/-- **A cut name has the key of its pool, except where it ends with the space before the role.** -/
theorem normalizeGroup_take_iff (hp : PoolName p) (hd : IsOrdinals d) (hr : ']' ∉ r) (routine : Nat) (symbol : String)
    {n : Nat} (hn : (p ++ d).length ≤ n) :
    normalizeGroup (String.ofList ((roleName p d r).take n)) routine symbol = normalizeGroup (String.ofList p) routine symbol ↔
      n ≠ (p ++ d).length + 1 := by
  have hself := normalizeGroup_eq (cutName_self hp) hp.ne_nil routine symbol
  rcases take_roleName (r := r) hn with ⟨hlen, htake⟩ | ⟨hlen, htake⟩ | ⟨m, hlen, htake⟩
  · have hcut : cutSuffix isOrdinal (cutSuffix isRole (p ++ d)) = p := by
      rw [cutSuffix_isRole_self (opening_notMem hp hd), cutSuffix_isOrdinal hp hd]
    rw [htake, hself, normalizeGroup_eq hcut hp.ne_nil]
    exact iff_of_true rfl (by omega)
  · rw [htake, hself, normalizeGroup_eq (cutName_space hp hd) (by simp)]
    refine iff_of_false (fun h => ?_) (fun h => h hlen)
    have hlength := congrArg String.length h
    simp only [String.length_append, String.length_ofList, List.length_append, List.length_singleton] at hlength
    omega
  · have hcut : cutSuffix isOrdinal (cutSuffix isRole (p ++ d ++ ' ' :: '[' :: (r ++ [']']).take m)) = p := by
      rw [cutSuffix_isRole hp hd (closing_notMem_take hr m), cutSuffix_isOrdinal hp hd]
    rw [htake, hself, normalizeGroup_eq hcut hp.ne_nil]
    exact iff_of_true rfl (by omega)

/-- Cut inside the role, `Pipe_12 [worker]` has the key of `Pipe`. -/
theorem normalizeGroup_take_pipe :
    normalizeGroup (String.ofList ((roleName "Pipe".toList "_12".toList "worker".toList).take 12)) 0 "" =
      normalizeGroup (String.ofList "Pipe".toList) 0 "" := by
  have hpool : PoolName "Pipe".toList := ⟨by decide, by decide, 'e', by decide, by decide, by decide, by decide, by decide⟩
  have hordinal : IsOrdinals "_12".toList := by
    refine ⟨["_12".toList], fun b hb => ?_, by decide⟩
    rw [List.mem_singleton.1 hb]
    have hdigits : ['1', '2'].all Char.isDigit = true := by decide
    exact ⟨['_'], ['1', '2'], by decide, by decide, by decide, List.all_eq_true.1 hdigits⟩
  have hrole : ']' ∉ "worker".toList := by decide
  have hcut : ("Pipe".toList ++ "_12".toList).length ≤ 12 := by decide
  exact (normalizeGroup_take_iff hpool hordinal hrole 0 "" hcut).2 (by decide)

/-- **Cut after the space, a name makes a family of its own.** -/
theorem normalizeGroup_take_space :
    normalizeGroup (String.ofList ((roleName "Pipe_normal".toList [] "worker".toList).take 12)) 0 "" ≠
      normalizeGroup (String.ofList "Pipe_normal".toList) 0 "" := by
  decide

end Names

end GraphWindow
end AffinityGraph
