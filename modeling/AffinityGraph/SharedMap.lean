import Mathlib.Algebra.BigOperators.Group.List.Basic
import Mathlib.Data.List.AList
import Mathlib.Tactic.Abel
/-!
# SharedMap — keyed amounts that several processors add to and a reader takes away

An element of the store is reached by a pointer, and the pointer outlives it: what is added through a pointer whose
element has been taken or replaced is added to nothing.  A round is a lookup and, later, a settlement: an addition
through the pointer that was found, or a first value where none was.  What the settlements credit is what the store
holds, what was taken from it, and what such pointers and such first values cost (`held_settle`); a settlement that
finds what its lookup found costs nothing (`lost_of_found`).  Both rest on sums over the entries of a store
(`Keyed.sum_split`, `Keyed.sum_insert`).
-/

/-! ## Sums over the entries of a keyed store -/

namespace Keyed

variable {κ β μ : Type} [DecidableEq κ] [AddCommMonoid μ] (amount : β → μ)

/-- What the entries of a store amount to. -/
def sum (m : AList (fun _ : κ => β)) : μ := (m.entries.map (fun e => amount e.2)).sum

/-- A key's entry set apart from the others. -/
theorem sum_split (m : AList (fun _ : κ => β)) (k : κ) : sum amount m = (m.lookup k).elim 0 amount + sum amount (m.erase k) := by
  unfold sum
  by_cases hk : k ∈ m
  · obtain ⟨b, before, after, hnot, hentries, herase⟩ := List.exists_of_kerase (AList.mem_keys.1 hk)
    have hlook : m.lookup k = some b := by
      rw [AList.lookup, hentries, List.dlookup_append, List.dlookup_eq_none.2 hnot, List.dlookup_cons_eq]
      rfl
    have herase' : (m.erase k).entries = before ++ after := herase
    rw [hlook, hentries, herase']
    simp [add_left_comm]
  · have hlook : m.lookup k = none := AList.lookup_eq_none.2 hk
    have herase : (m.erase k).entries = m.entries := List.kerase_of_notMem_keys hk
    rw [hlook, herase]
    simp

theorem sum_insert (m : AList (fun _ : κ => β)) (k : κ) (b : β) :
    sum amount (m.insert k b) = amount b + sum amount (m.erase k) := by
  unfold sum
  rw [AList.entries_insert, List.map_cons, List.sum_cons]
  rfl

end Keyed

/-- A keyed store with its elements numbered in the order they came to be. -/
structure SharedMap (κ ν : Type) [DecidableEq κ] where
  elements : AList (fun _ : κ => Nat × ν) := ∅
  next : Nat := 0
  numbered : ∀ k n v, elements.lookup k = some (n, v) → n < next := by simp

namespace SharedMap

variable {κ ν : Type} [DecidableEq κ]

/-- The pointer a lookup returns. -/
def find (m : SharedMap κ ν) (k : κ) : Option Nat := (m.elements.lookup k).map Prod.fst

def value (m : SharedMap κ ν) (k : κ) : Option ν := (m.elements.lookup k).map Prod.snd

/-- A new element, in the place of the one the key had. -/
def put (m : SharedMap κ ν) (k : κ) (v : ν) : SharedMap κ ν where
  elements := m.elements.insert k (m.next, v)
  next := m.next + 1
  numbered := by
    intro k' n v' h
    by_cases hk : k' = k
    · subst hk
      rw [AList.lookup_insert] at h
      cases h
      exact Nat.lt_succ_self _
    · rw [AList.lookup_insert_ne hk] at h
      exact Nat.lt_succ_of_lt (m.numbered k' n v' h)

def take (m : SharedMap κ ν) (k : κ) : SharedMap κ ν where
  elements := m.elements.erase k
  next := m.next
  numbered := by
    intro k' n v h
    by_cases hk : k' = k
    · subst hk
      rw [AList.lookup_erase] at h
      cases h
    · rw [AList.lookup_erase_ne hk] at h
      exact m.numbered k' n v h

/-- A change through a pointer: the element it points to, if the key still has it. -/
def amend (elements : AList (fun _ : κ => Nat × ν)) (k : κ) (pointer : Nat) (f : ν → ν) : AList (fun _ : κ => Nat × ν) :=
  match elements.lookup k with
  | some (n, v) => if n = pointer then elements.insert k (n, f v) else elements
  | none => elements

theorem lookup_amend (elements : AList (fun _ : κ => Nat × ν)) (k : κ) (pointer : Nat) (f : ν → ν) (k' : κ) :
    (amend elements k pointer f).lookup k' =
      if k' = k then (elements.lookup k).map (fun e => if e.1 = pointer then (e.1, f e.2) else e)
      else elements.lookup k' := by
  unfold amend
  cases h : elements.lookup k with
  | none =>
    dsimp only
    split
    · rename_i hk
      rw [hk, h]
      rfl
    · rfl
  | some e =>
    dsimp only [Option.map_some]
    by_cases hn : e.1 = pointer
    · rw [if_pos hn, if_pos hn]
      split
      · rename_i hk
        rw [hk]
        exact AList.lookup_insert elements
      · rename_i hk
        exact AList.lookup_insert_ne hk
    · rw [if_neg hn, if_neg hn]
      split
      · rename_i hk
        rw [hk, h]
      · rfl

def change (m : SharedMap κ ν) (k : κ) (pointer : Nat) (f : ν → ν) : SharedMap κ ν where
  elements := amend m.elements k pointer f
  next := m.next
  numbered := by
    intro k' n v h
    rw [lookup_amend] at h
    split at h
    · obtain ⟨e, he, heq⟩ := Option.map_eq_some_iff.1 h
      have hlt := m.numbered k e.1 e.2 he
      split at heq
      · cases heq
        exact hlt
      · cases heq
        exact hlt
    · exact m.numbered k' n v h

/-- The settlement of a round: through the pointer its lookup found, or as a first value, for which there may be no room. -/
def settle (m : SharedMap κ ν) (k : κ) (found : Option Nat) (add : ν → ν) (first : ν) (fits : Bool) :
    SharedMap κ ν × Bool :=
  match found with
  | some pointer => (m.change k pointer add, true)
  | none => if fits then (m.put k first, true) else (m, false)

/-! ## What the keys hold -/

section Values

variable {m : SharedMap κ ν} {k k' : κ}

theorem value_eq_some {v : ν} : m.value k = some v ↔ ∃ n, m.elements.lookup k = some (n, v) := by
  unfold value
  rw [Option.map_eq_some_iff]
  constructor
  · rintro ⟨⟨n, v'⟩, h, rfl⟩
    exact ⟨n, h⟩
  · rintro ⟨n, h⟩
    exact ⟨(n, v), h, rfl⟩

theorem lookup_take : (m.take k).elements.lookup k' = if k' = k then none else m.elements.lookup k' := by
  split
  · rename_i h
    rw [h]
    exact AList.lookup_erase k m.elements
  · rename_i h
    exact AList.lookup_erase_ne h

theorem lookup_put (v : ν) :
    (m.put k v).elements.lookup k' = if k' = k then some (m.next, v) else m.elements.lookup k' := by
  split
  · rename_i h
    rw [h]
    exact AList.lookup_insert m.elements
  · rename_i h
    exact AList.lookup_insert_ne h

theorem lookup_change (pointer : Nat) (f : ν → ν) : (m.change k pointer f).elements.lookup k' =
    if k' = k then (m.elements.lookup k).map (fun e => if e.1 = pointer then (e.1, f e.2) else e)
    else m.elements.lookup k' := lookup_amend m.elements k pointer f k'

/-- **What a settlement leaves under a key**: nothing of the other keys changes, and its own value is the old one, the old
one with the addition, or the first. -/
theorem value_settle {found : Option Nat} {add : ν → ν} {first v : ν} {fits : Bool}
    (h : (m.settle k found add first fits).1.value k' = some v) :
    m.value k' = some v ∨ k' = k ∧ ((∃ old, m.value k = some old ∧ v = add old) ∨ found = none ∧ v = first) := by
  obtain ⟨n, h⟩ := value_eq_some.1 h
  unfold settle at h
  split at h
  · rename_i pointer
    rw [lookup_change] at h
    split at h
    · rename_i hk
      obtain ⟨⟨n', old⟩, hold, heq⟩ := Option.map_eq_some_iff.1 h
      split at heq
      · cases heq
        exact Or.inr ⟨hk, Or.inl ⟨old, value_eq_some.2 ⟨_, hold⟩, rfl⟩⟩
      · cases heq
        rw [hk]
        exact Or.inl (value_eq_some.2 ⟨_, hold⟩)
    · exact Or.inl (value_eq_some.2 ⟨n, h⟩)
  · split at h
    · rw [lookup_put] at h
      split at h
      · rename_i hk
        cases h
        exact Or.inr ⟨hk, Or.inr ⟨rfl, rfl⟩⟩
      · exact Or.inl (value_eq_some.2 ⟨n, h⟩)
    · exact Or.inl (value_eq_some.2 ⟨n, h⟩)

end Values

/-! ## Accounts -/

section Accounts

variable {μ : Type} [AddCommMonoid μ] (amount : ν → μ)

/-- What the store holds altogether. -/
def held (m : SharedMap κ ν) : μ := Keyed.sum (fun e : Nat × ν => amount e.2) m.elements

/-- What it holds under one key. -/
def heldAt (m : SharedMap κ ν) (k : κ) : μ := (m.value k).elim 0 amount

/-- What a settlement's addition costs: itself when its pointer leads nowhere, the element it overwrites when it puts a
first value. -/
def lost (m : SharedMap κ ν) (k : κ) (found : Option Nat) (x : μ) (fits : Bool) : μ :=
  match found with
  | some pointer => if m.find k = some pointer then 0 else x
  | none => if fits then m.heldAt amount k else 0

variable {m : SharedMap κ ν} {k : κ}

/-- A key's element set apart from the others. -/
theorem held_split (m : SharedMap κ ν) (k : κ) :
    m.held amount = m.heldAt amount k + Keyed.sum (fun e : Nat × ν => amount e.2) (m.elements.erase k) := by
  unfold held heldAt value
  rw [Keyed.sum_split _ m.elements k]
  cases m.elements.lookup k <;> rfl

variable {amount}

theorem held_take : (m.take k).held amount + m.heldAt amount k = m.held amount := by
  rw [held_split amount m k, add_comm]
  rfl

theorem held_put (v : ν) : (m.put k v).held amount + m.heldAt amount k = m.held amount + amount v := by
  have hput : (m.put k v).held amount = _ := Keyed.sum_insert (fun e : Nat × ν => amount e.2) m.elements k (m.next, v)
  rw [hput, held_split amount m k]
  abel

theorem held_change {pointer : Nat} {f : ν → ν} {x : μ} (hf : ∀ v, amount (f v) = amount v + x) :
    (m.change k pointer f).held amount + (if m.find k = some pointer then 0 else x) = m.held amount + x := by
  have hchange : (m.change k pointer f).held amount =
      Keyed.sum (fun e : Nat × ν => amount e.2) (amend m.elements k pointer f) := rfl
  have hsplit := held_split amount m k
  unfold heldAt value at hsplit
  rw [hchange]
  unfold amend find
  cases h : m.elements.lookup k with
  | none =>
    rw [if_neg (by simp)]
    rfl
  | some e =>
    rw [h] at hsplit
    dsimp only [Option.map_some]
    by_cases hn : e.1 = pointer
    · rw [if_pos hn, if_pos (by rw [hn]), Keyed.sum_insert, hf, hsplit]
      dsimp only [Option.map_some, Option.elim_some]
      abel
    · rw [if_neg hn, if_neg (fun heq => hn (Option.some.inj heq))]
      rfl

/-- **The account of a settlement.**  What the store holds after it, and what it cost, is what the store held and what the
settlement credits. -/
theorem held_settle {found : Option Nat} {add : ν → ν} {first : ν} {x : μ} (hadd : ∀ v, amount (add v) = amount v + x)
    (hfirst : amount first = x) (fits : Bool) :
    (m.settle k found add first fits).1.held amount + m.lost amount k found x fits =
      m.held amount + if (m.settle k found add first fits).2 then x else 0 := by
  unfold settle lost
  cases found with
  | some pointer => simpa using held_change hadd
  | none =>
    cases fits with
    | false => simp
    | true =>
      rw [← hfirst]
      exact held_put first

/-- A settlement that finds what its lookup found costs nothing. -/
theorem lost_of_found {found : Option Nat} {x : μ} (h : m.find k = found) (fits : Bool) : m.lost amount k found x fits = 0 := by
  subst h
  unfold lost
  cases h : m.find k with
  | some pointer => exact if_pos rfl
  | none =>
    have hvalue : m.heldAt amount k = 0 := by
      unfold heldAt value
      rw [Option.map_eq_none_iff.1 h]
      rfl
    dsimp only
    rw [hvalue, ite_self]

end Accounts

end SharedMap
