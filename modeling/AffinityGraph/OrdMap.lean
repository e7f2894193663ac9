import Mathlib.Data.List.Perm.Subperm
import Mathlib.Data.List.Sort
import Mathlib.Data.Prod.Lex
/-!
# Ordered maps and sets, as lists sorted by key

`OrdMap κ ν` is `std::map<κ, ν>`: a finite map whose iteration order is the order of its keys.  The entries are a list
strictly ascending by key, the proof is a field, so a map with a repeated key cannot be built and two maps that answer
every lookup alike are equal (`OrdMap.ext_find`).  `OrdSet κ` is `std::set<κ>`, a map to `Unit`.

Every operation is characterised by what it does to `find?`; no later proof unfolds the list.
-/

/-- A finite map, its entries strictly ascending by key. -/
structure OrdMap (κ : Type*) (ν : Type*) [LinearOrder κ] where
  entries : List (κ × ν)
  sorted : entries.Pairwise (fun a b => a.1 < b.1)
  deriving DecidableEq

namespace OrdMap

variable {κ : Type*} {ν : Type*} {μ : Type*} [LinearOrder κ]

/-! ## On the entry lists -/

/-- The value of the first entry with key `k`. -/
def lookupIn (k : κ) : List (κ × ν) → Option ν
  | [] => none
  | e :: es => if e.1 = k then some e.2 else lookupIn k es

/-- Put an entry in its place, over an entry of the same key. -/
def insertIn (k : κ) (v : ν) : List (κ × ν) → List (κ × ν)
  | [] => [(k, v)]
  | e :: es => if k < e.1 then (k, v) :: e :: es else if k = e.1 then (k, v) :: es else e :: insertIn k v es

theorem lookupIn_cons (k : κ) (e : κ × ν) (es : List (κ × ν)) :
    lookupIn k (e :: es) = if e.1 = k then some e.2 else lookupIn k es := rfl

theorem lookupIn_eq_none {k : κ} : ∀ {es : List (κ × ν)}, (∀ e ∈ es, e.1 ≠ k) → lookupIn k es = none
  | [], _ => rfl
  | e :: es, h => by
    rw [lookupIn_cons, if_neg (h e List.mem_cons_self)]
    exact lookupIn_eq_none (fun x hx => h x (List.mem_cons_of_mem _ hx))

theorem mem_iff_lookupIn : ∀ {es : List (κ × ν)}, es.Pairwise (fun a b => a.1 < b.1) → ∀ {k : κ} {v : ν},
    (k, v) ∈ es ↔ lookupIn k es = some v
  | [], _, k, v => by simp [lookupIn]
  | e :: es, hs, k, v => by
    rw [lookupIn_cons, List.mem_cons]
    by_cases hk : e.1 = k
    · rw [if_pos hk]
      constructor
      · rintro (h | h)
        · rw [← h]
        · have := List.rel_of_pairwise_cons hs h
          rw [hk] at this
          exact absurd this (lt_irrefl _)
      · intro h
        exact Or.inl (Prod.ext hk.symm (Option.some.inj h).symm)
    · rw [if_neg hk, ← mem_iff_lookupIn hs.of_cons]
      constructor
      · rintro (h | h)
        · exact absurd (by rw [← h]) hk
        · exact h
      · exact Or.inr

theorem mem_insertIn {k : κ} {v : ν} {x : κ × ν} : ∀ {es : List (κ × ν)}, x ∈ insertIn k v es → x = (k, v) ∨ x ∈ es
  | [], h => by simpa [insertIn] using h
  | e :: es, h => by
    unfold insertIn at h
    split at h
    · simpa using h
    · split at h
      · rcases List.mem_cons.1 h with h | h
        · exact Or.inl h
        · exact Or.inr (List.mem_cons_of_mem _ h)
      · rcases List.mem_cons.1 h with h | h
        · exact Or.inr (by simp [h])
        · rcases mem_insertIn h with h | h
          · exact Or.inl h
          · exact Or.inr (List.mem_cons_of_mem _ h)

theorem sorted_insertIn (k : κ) (v : ν) : ∀ {es : List (κ × ν)}, es.Pairwise (fun a b => a.1 < b.1) →
    (insertIn k v es).Pairwise (fun a b => a.1 < b.1)
  | [], _ => List.pairwise_singleton _ _
  | e :: es, hs => by
    unfold insertIn
    split
    · rename_i hlt
      refine List.Pairwise.cons (fun x hx => ?_) hs
      rcases List.mem_cons.1 hx with rfl | hx
      · exact hlt
      · exact hlt.trans (List.rel_of_pairwise_cons hs hx)
    · rename_i hlt
      split
      · rename_i heq
        exact List.Pairwise.cons (fun x hx => heq ▸ List.rel_of_pairwise_cons hs hx) hs.of_cons
      · rename_i hne
        refine List.Pairwise.cons (fun x hx => ?_) (sorted_insertIn k v hs.of_cons)
        rcases mem_insertIn hx with rfl | hx
        · exact lt_of_le_of_ne (not_lt.1 hlt) (Ne.symm hne)
        · exact List.rel_of_pairwise_cons hs hx

theorem lookupIn_insertIn (k : κ) (v : ν) (k' : κ) : ∀ (es : List (κ × ν)), es.Pairwise (fun a b => a.1 < b.1) →
    lookupIn k' (insertIn k v es) = if k = k' then some v else lookupIn k' es
  | [], _ => rfl
  | e :: es, hs => by
    unfold insertIn
    split
    · rfl
    · split
      · rename_i heq
        simp only [lookupIn_cons]
        by_cases h : k = k'
        · rw [if_pos h, if_pos h]
        · rw [if_neg h, if_neg h, if_neg (heq ▸ h)]
      · rename_i hne
        rw [lookupIn_cons, lookupIn_insertIn k v k' es hs.of_cons, lookupIn_cons]
        by_cases h : e.1 = k'
        · rw [if_pos h, if_pos h, if_neg (fun hk => hne (hk.trans h.symm))]
        · rw [if_neg h, if_neg h]

theorem sorted_filter {p : κ × ν → Bool} {es : List (κ × ν)} (h : es.Pairwise (fun a b => a.1 < b.1)) :
    (es.filter p).Pairwise (fun a b => a.1 < b.1) := h.sublist List.filter_sublist

theorem lookupIn_filter (p : κ × ν → Bool) (k : κ) : ∀ (es : List (κ × ν)), es.Pairwise (fun a b => a.1 < b.1) →
    lookupIn k (es.filter p) = (lookupIn k es).filter (fun v => p (k, v))
  | [], _ => rfl
  | e :: es, hs => by
    rw [lookupIn_cons]
    by_cases hk : e.1 = k
    · rw [if_pos hk]
      have hrest : lookupIn k (es.filter p) = none := lookupIn_eq_none (fun x hx => by
        have := List.rel_of_pairwise_cons hs (List.mem_of_mem_filter hx)
        rw [hk] at this
        exact ne_of_gt this)
      have he : p (k, e.2) = p e := by rw [← hk]
      by_cases hp : p e = true
      · rw [List.filter_cons_of_pos hp, lookupIn_cons, if_pos hk, Option.filter_some, if_pos (he.trans hp)]
      · rw [List.filter_cons_of_neg hp, hrest, Option.filter_some, if_neg (he ▸ hp)]
    · rw [if_neg hk]
      by_cases hp : p e = true
      · rw [List.filter_cons_of_pos hp, lookupIn_cons, if_neg hk, lookupIn_filter p k es hs.of_cons]
      · rw [List.filter_cons_of_neg hp, lookupIn_filter p k es hs.of_cons]

theorem lookupIn_map (f : κ → ν → μ) (k : κ) : ∀ (es : List (κ × ν)),
    lookupIn k (es.map (fun e => (e.1, f e.1 e.2))) = (lookupIn k es).map (f k)
  | [] => rfl
  | e :: es => by
    rw [List.map_cons, lookupIn_cons, lookupIn_cons]
    by_cases hk : e.1 = k
    · subst hk; simp
    · rw [if_neg hk, if_neg hk, lookupIn_map f k es]

/-! ## The operations -/

def empty : OrdMap κ ν := ⟨[], List.Pairwise.nil⟩

instance : EmptyCollection (OrdMap κ ν) := ⟨empty⟩
instance : Inhabited (OrdMap κ ν) := ⟨empty⟩

/-- `find`, as an option. -/
def find? (m : OrdMap κ ν) (k : κ) : Option ν := lookupIn k m.entries

/-- `m[k] = v`. -/
def insert (m : OrdMap κ ν) (k : κ) (v : ν) : OrdMap κ ν := ⟨insertIn k v m.entries, sorted_insertIn k v m.sorted⟩

/-- Keep the entries `p` accepts. -/
def filter (m : OrdMap κ ν) (p : κ → ν → Bool) : OrdMap κ ν :=
  ⟨m.entries.filter (fun e => p e.1 e.2), sorted_filter m.sorted⟩

def erase (m : OrdMap κ ν) (k : κ) : OrdMap κ ν := m.filter (fun k' _ => decide (k' ≠ k))

/-- Every value replaced, keys kept. -/
def mapVal (m : OrdMap κ ν) (f : κ → ν → μ) : OrdMap κ μ :=
  ⟨m.entries.map (fun e => (e.1, f e.1 e.2)), m.sorted.map _ (fun _ _ h => h)⟩

/-- `m[k]`, with the value a missing key reads. -/
def getD (m : OrdMap κ ν) (k : κ) (d : ν) : ν := (m.find? k).getD d

/-- `m[k] = f(m[k])`, a missing key reading `d`. -/
def update (m : OrdMap κ ν) (k : κ) (d : ν) (f : ν → ν) : OrdMap κ ν := m.insert k (f (m.getD k d))

/-- What reading `m[k]` leaves of the map: a missing key gets the default. -/
def touch (m : OrdMap κ ν) (k : κ) (d : ν) : OrdMap κ ν := if (m.find? k).isSome then m else m.insert k d

def keys (m : OrdMap κ ν) : List κ := m.entries.map Prod.fst

def size (m : OrdMap κ ν) : Nat := m.entries.length

def isEmpty (m : OrdMap κ ν) : Bool := m.entries.isEmpty

/-- Insert every pair of a list, the later ones over the earlier. -/
def ofList (l : List (κ × ν)) : OrdMap κ ν := l.foldl (fun m e => m.insert e.1 e.2) empty

instance : Membership κ (OrdMap κ ν) := ⟨fun m k => (m.find? k).isSome = true⟩

instance (k : κ) (m : OrdMap κ ν) : Decidable (k ∈ m) := inferInstanceAs (Decidable ((m.find? k).isSome = true))

/-! ## What each operation does to `find?` -/

theorem mem_def {m : OrdMap κ ν} {k : κ} : k ∈ m ↔ (m.find? k).isSome = true := Iff.rfl

theorem mem_iff {m : OrdMap κ ν} {k : κ} : k ∈ m ↔ ∃ v, m.find? k = some v := by
  rw [mem_def, Option.isSome_iff_exists]

theorem mem_of_find {m : OrdMap κ ν} {k : κ} {v : ν} (h : m.find? k = some v) : k ∈ m := mem_iff.2 ⟨v, h⟩

theorem notMem_iff {m : OrdMap κ ν} {k : κ} : k ∉ m ↔ m.find? k = none := by
  rw [mem_def]; simp

theorem mem_entries {m : OrdMap κ ν} {k : κ} {v : ν} : (k, v) ∈ m.entries ↔ m.find? k = some v :=
  mem_iff_lookupIn m.sorted

theorem mem_keys {m : OrdMap κ ν} {k : κ} : k ∈ m.keys ↔ k ∈ m := by
  rw [mem_iff, keys, List.mem_map]
  constructor
  · rintro ⟨⟨k', v⟩, h, rfl⟩
    exact ⟨v, mem_entries.1 h⟩
  · rintro ⟨v, h⟩
    exact ⟨(k, v), mem_entries.2 h, rfl⟩

theorem sorted_keys (m : OrdMap κ ν) : m.keys.Pairwise (· < ·) := List.pairwise_map.2 m.sorted

theorem nodup_keys (m : OrdMap κ ν) : m.keys.Nodup := m.sorted_keys.imp (fun h => ne_of_lt h)

@[simp] theorem find?_empty (k : κ) : (∅ : OrdMap κ ν).find? k = none := rfl

@[simp] theorem notMem_empty (k : κ) : k ∉ (∅ : OrdMap κ ν) := by rw [notMem_iff]; rfl

theorem find?_insert (m : OrdMap κ ν) (k : κ) (v : ν) (k' : κ) :
    (m.insert k v).find? k' = if k = k' then some v else m.find? k' := lookupIn_insertIn k v k' _ m.sorted

@[simp] theorem find?_insert_self (m : OrdMap κ ν) (k : κ) (v : ν) : (m.insert k v).find? k = some v := by
  rw [find?_insert, if_pos rfl]

theorem find?_insert_ne (m : OrdMap κ ν) {k k' : κ} (v : ν) (h : k ≠ k') : (m.insert k v).find? k' = m.find? k' := by
  rw [find?_insert, if_neg h]

theorem getD_insert (m : OrdMap κ ν) (k : κ) (v : ν) (k' : κ) (d : ν) :
    (m.insert k v).getD k' d = if k = k' then v else m.getD k' d := by
  rw [getD, find?_insert]
  by_cases h : k = k' <;> simp [h, getD]

theorem getD_update (m : OrdMap κ ν) (k : κ) (d : ν) (f : ν → ν) (k' : κ) :
    (m.update k d f).getD k' d = if k = k' then f (m.getD k' d) else m.getD k' d := by
  unfold update
  rw [getD_insert]
  split
  · rename_i hk
    rw [hk]
  · rfl

@[simp] theorem mem_insert {m : OrdMap κ ν} {k k' : κ} {v : ν} : k' ∈ m.insert k v ↔ k = k' ∨ k' ∈ m := by
  rw [mem_def, find?_insert, mem_def]
  by_cases h : k = k' <;> simp [h]

theorem find?_filter (m : OrdMap κ ν) (p : κ → ν → Bool) (k : κ) :
    (m.filter p).find? k = (m.find? k).filter (p k) := lookupIn_filter _ k _ m.sorted

theorem find?_erase (m : OrdMap κ ν) (k k' : κ) : (m.erase k).find? k' = if k = k' then none else m.find? k' := by
  rw [erase, find?_filter]
  by_cases h : k = k'
  · subst h; cases m.find? k <;> simp
  · rw [if_neg h]
    cases m.find? k' <;> simp [Ne.symm h]

@[simp] theorem find?_erase_self (m : OrdMap κ ν) (k : κ) : (m.erase k).find? k = none := by
  rw [find?_erase, if_pos rfl]

theorem find?_erase_ne (m : OrdMap κ ν) {k k' : κ} (h : k ≠ k') : (m.erase k).find? k' = m.find? k' := by
  rw [find?_erase, if_neg h]

theorem find?_of_erase {m : OrdMap κ ν} {k k' : κ} {v : ν} (h : (m.erase k).find? k' = some v) : m.find? k' = some v := by
  rw [find?_erase] at h
  split at h
  · cases h
  · exact h

@[simp] theorem mem_erase {m : OrdMap κ ν} {k k' : κ} : k' ∈ m.erase k ↔ k ≠ k' ∧ k' ∈ m := by
  rw [mem_def, find?_erase, mem_def]
  by_cases h : k = k' <;> simp [h]

theorem find?_mapVal (m : OrdMap κ ν) (f : κ → ν → μ) (k : κ) : (m.mapVal f).find? k = (m.find? k).map (f k) :=
  lookupIn_map f k m.entries

theorem isEmpty_iff {m : OrdMap κ ν} : m.isEmpty = true ↔ ∀ k, m.find? k = none := by
  unfold isEmpty
  rw [List.isEmpty_iff]
  constructor
  · intro h k
    rw [find?, h]; rfl
  · intro h
    cases he : m.entries with
    | nil => rfl
    | cons e es =>
      have : m.find? e.1 = some e.2 := mem_entries.1 (by rw [he]; exact List.mem_cons_self)
      rw [h] at this
      cases this

theorem size_eq_length_keys (m : OrdMap κ ν) : m.size = m.keys.length := by
  rw [size, keys, List.length_map]

/-- A map whose keys are some of another's, and as many, has them all. -/
theorem mem_of_size_eq {a : OrdMap κ ν} {b : OrdMap κ μ} (hsub : ∀ k ∈ a, k ∈ b) (hsize : a.size = b.size) {k : κ}
    (hk : k ∈ b) : k ∈ a := by
  have hperm : a.keys.Perm b.keys := by
    refine List.Subperm.perm_of_length_le (List.subperm_of_subset a.nodup_keys (fun x hx => ?_)) ?_
    · exact mem_keys.2 (hsub x (mem_keys.1 hx))
    · rw [← size_eq_length_keys, ← size_eq_length_keys, hsize]
  exact mem_keys.1 (hperm.mem_iff.2 (mem_keys.2 hk))

theorem touch_of_mem {m : OrdMap κ ν} {k : κ} (d : ν) (h : k ∈ m) : m.touch k d = m := if_pos h

theorem size_erase_lt {m : OrdMap κ ν} {k : κ} (h : k ∈ m) : (m.erase k).size < m.size := by
  obtain ⟨v, hv⟩ := mem_iff.1 h
  refine List.length_filter_lt_length_iff_exists.2 ⟨(k, v), mem_entries.2 hv, ?_⟩
  simp

theorem size_insert_of_notMem {m : OrdMap κ ν} {k : κ} (h : k ∉ m) (v : ν) : (m.insert k v).size = m.size + 1 := by
  have hperm : (m.insert k v).keys.Perm (k :: m.keys) := by
    refine (List.perm_ext_iff_of_nodup (nodup_keys _) (List.nodup_cons.2 ⟨fun hk => h (mem_keys.1 hk), m.nodup_keys⟩)).2 ?_
    intro x
    rw [mem_keys, mem_insert, List.mem_cons, mem_keys, eq_comm]
  rw [size_eq_length_keys, size_eq_length_keys, hperm.length_eq, List.length_cons]

theorem size_erase_of_mem {m : OrdMap κ ν} {k : κ} (h : k ∈ m) : (m.erase k).size + 1 = m.size := by
  have hperm : m.keys.Perm (k :: (m.erase k).keys) := by
    refine (List.perm_ext_iff_of_nodup m.nodup_keys (List.nodup_cons.2 ⟨fun hk => ?_, nodup_keys _⟩)).2 (fun x => ?_)
    · exact (mem_erase.1 (mem_keys.1 hk)).1 rfl
    · rw [List.mem_cons, mem_keys, mem_keys, mem_erase]
      by_cases hx : x = k
      · subst hx
        simp [h]
      · simp [hx, Ne.symm hx]
  rw [size_eq_length_keys, size_eq_length_keys, hperm.length_eq, List.length_cons]

/-! ## Loops that insert or erase -/

section Loops

variable {α : Type*} (key : α → κ) (val : α → ν)

theorem find?_foldl_insert_of_notMem {k : κ} : ∀ (l : List α) (m : OrdMap κ ν), (∀ x ∈ l, key x ≠ k) →
    (l.foldl (fun m x => m.insert (key x) (val x)) m).find? k = m.find? k
  | [], _, _ => rfl
  | x :: l, m, h => by
    rw [List.foldl_cons, find?_foldl_insert_of_notMem l _ (fun y hy => h y (List.mem_cons_of_mem _ hy))]
    exact find?_insert_ne m (val x) (h x List.mem_cons_self)

/-- Every value in the map is one the loop put there, or was there before. -/
theorem find?_foldl_insert {k : κ} {v : ν} : ∀ (l : List α) (m : OrdMap κ ν),
    (l.foldl (fun m x => m.insert (key x) (val x)) m).find? k = some v →
      (∃ x ∈ l, key x = k ∧ val x = v) ∨ m.find? k = some v
  | [], _, h => Or.inr h
  | x :: l, m, h => by
    rcases find?_foldl_insert l (m.insert (key x) (val x)) h with ⟨y, hy, hk, hv⟩ | hm
    · exact Or.inl ⟨y, List.mem_cons_of_mem _ hy, hk, hv⟩
    · rw [find?_insert] at hm
      split at hm
      · rename_i hk
        exact Or.inl ⟨x, List.mem_cons_self, hk, Option.some.inj hm⟩
      · exact Or.inr hm

theorem mem_foldl_insert {x : α} : ∀ (l : List α) (m : OrdMap κ ν), x ∈ l →
    key x ∈ l.foldl (fun m x => m.insert (key x) (val x)) m
  | y :: l, m, hx => by
    rw [List.foldl_cons]
    rcases List.mem_cons.1 hx with rfl | hx
    · by_cases hl : ∃ z ∈ l, key z = key x
      · obtain ⟨z, hz, hk⟩ := hl
        rw [← hk]
        exact mem_foldl_insert l _ hz
      · rw [mem_def, find?_foldl_insert_of_notMem key val l _ (fun z hz hk => hl ⟨z, hz, hk⟩), find?_insert_self]
        rfl
    · exact mem_foldl_insert l _ hx

/-- With distinct keys every item is found. -/
theorem find?_foldl_insert_of_mem {x : α} : ∀ (l : List α) (m : OrdMap κ ν), (l.map key).Nodup → x ∈ l →
    (l.foldl (fun m x => m.insert (key x) (val x)) m).find? (key x) = some (val x)
  | y :: l, m, hn, hx => by
    rw [List.map_cons, List.nodup_cons] at hn
    rw [List.foldl_cons]
    rcases List.mem_cons.1 hx with rfl | hx
    · rw [find?_foldl_insert_of_notMem key val l]
      · exact find?_insert_self m (key x) (val x)
      · intro z hz hk
        rw [← hk] at hn
        exact hn.1 (List.mem_map_of_mem hz)
    · exact find?_foldl_insert_of_mem l _ hn.2 hx

theorem find?_foldl_erase {k : κ} : ∀ (l : List κ) (m : OrdMap κ ν),
    (l.foldl erase m).find? k = if k ∈ l then none else m.find? k
  | [], m => by simp
  | x :: l, m => by
    rw [List.foldl_cons, find?_foldl_erase l, find?_erase]
    by_cases hl : k ∈ l
    · simp [hl]
    · by_cases hx : x = k
      · simp [hx]
      · simp [hl, hx, Ne.symm hx]

end Loops

/-! ## Extensionality -/

theorem eq_of_sorted_of_mem : ∀ {l₁ l₂ : List (κ × ν)}, l₁.Pairwise (fun a b => a.1 < b.1) →
    l₂.Pairwise (fun a b => a.1 < b.1) → (∀ x, x ∈ l₁ ↔ x ∈ l₂) → l₁ = l₂
  | [], [], _, _, _ => rfl
  | [], b :: l₂, _, _, h => absurd ((h b).2 List.mem_cons_self) List.not_mem_nil
  | a :: l₁, [], _, _, h => absurd ((h a).1 List.mem_cons_self) List.not_mem_nil
  | a :: l₁, b :: l₂, h₁, h₂, h => by
    have hab : a = b := by
      rcases List.mem_cons.1 ((h a).1 List.mem_cons_self) with e | ha
      · exact e
      rcases List.mem_cons.1 ((h b).2 List.mem_cons_self) with e | hb
      · exact e.symm
      exact absurd (List.rel_of_pairwise_cons h₂ ha) (lt_asymm (List.rel_of_pairwise_cons h₁ hb))
    subst hab
    congr 1
    refine eq_of_sorted_of_mem h₁.of_cons h₂.of_cons (fun x => ?_)
    constructor
    · intro hx
      rcases List.mem_cons.1 ((h x).1 (List.mem_cons_of_mem _ hx)) with e | hx'
      · exact absurd (e ▸ List.rel_of_pairwise_cons h₁ hx) (lt_irrefl _)
      · exact hx'
    · intro hx
      rcases List.mem_cons.1 ((h x).2 (List.mem_cons_of_mem _ hx)) with e | hx'
      · exact absurd (e ▸ List.rel_of_pairwise_cons h₂ hx) (lt_irrefl _)
      · exact hx'

/-- **Two maps that answer every lookup alike are equal.** -/
theorem ext_find {m₁ m₂ : OrdMap κ ν} (h : ∀ k, m₁.find? k = m₂.find? k) : m₁ = m₂ := by
  have he : m₁.entries = m₂.entries := eq_of_sorted_of_mem m₁.sorted m₂.sorted (fun ⟨k, v⟩ => by
    rw [mem_entries, mem_entries, h])
  cases m₁; cases m₂; congr

theorem mapVal_mapVal {ξ : Type*} (m : OrdMap κ ν) (f : κ → ν → μ) (g : κ → μ → ξ) :
    (m.mapVal f).mapVal g = m.mapVal (fun k v => g k (f k v)) := by
  refine ext_find (fun k => ?_)
  rw [find?_mapVal, find?_mapVal, find?_mapVal, Option.map_map]
  rfl

theorem mapVal_insert (m : OrdMap κ ν) (f : κ → ν → μ) (k : κ) (v : ν) :
    (m.insert k v).mapVal f = (m.mapVal f).insert k (f k v) := by
  refine ext_find (fun k' => ?_)
  rw [find?_mapVal, find?_insert, find?_insert, find?_mapVal]
  by_cases h : k = k'
  · subst h
    simp
  · simp [h]

theorem getD_mapVal (m : OrdMap κ ν) (f : κ → ν → μ) (k : κ) (d : ν) :
    (m.mapVal f).getD k (f k d) = f k (m.getD k d) := by
  unfold getD
  rw [find?_mapVal]
  cases m.find? k <;> rfl

theorem mem_mapVal {m : OrdMap κ ν} {f : κ → ν → μ} {k : κ} : k ∈ m.mapVal f ↔ k ∈ m := by
  rw [mem_def, mem_def, find?_mapVal, Option.isSome_map]

theorem size_mapVal (m : OrdMap κ ν) (f : κ → ν → μ) : (m.mapVal f).size = m.size := by
  unfold size mapVal
  exact List.length_map _

/-- The elements of a list under both their ends: each end has those it is an end of, each once. -/
theorem getD_foldl_ends {α : Type*} (a b : α → κ) (k : κ) : ∀ (l : List α) (m : OrdMap κ (List α)), (∀ x ∈ l, a x ≠ b x) →
    (l.foldl (fun m x => (m.update (a x) [] (· ++ [x])).update (b x) [] (· ++ [x])) m).getD k [] =
      m.getD k [] ++ l.filter (fun x => decide (a x = k ∨ b x = k))
  | [], m, _ => by simp
  | x :: l, m, hl => by
    have hne := hl x List.mem_cons_self
    rw [List.foldl_cons, getD_foldl_ends a b k l _ (fun y hy => hl y (List.mem_cons_of_mem _ hy)), List.filter_cons]
    unfold update
    by_cases ha : a x = k
    · have hb : b x ≠ k := fun h => hne (ha.trans h.symm)
      simp [getD_insert, ha, hb]
    · by_cases hb : b x = k
      · simp [getD_insert, ha, hb]
      · simp [getD_insert, ha, hb]

/-- A map is what its entries make. -/
theorem ofList_entries (m : OrdMap κ ν) : m.entries.foldl (fun n e => n.insert e.1 e.2) ∅ = m := by
  refine ext_find (fun k => ?_)
  cases hk : m.find? k with
  | none =>
    refine find?_foldl_insert_of_notMem Prod.fst Prod.snd m.entries ∅ (fun e he hek => ?_)
    subst hek
    rw [mem_entries.1 he] at hk
    cases hk
  | some v =>
    exact find?_foldl_insert_of_mem Prod.fst Prod.snd m.entries ∅ m.nodup_keys (mem_entries.2 hk)

theorem insert_find? {m : OrdMap κ ν} {k : κ} {v : ν} (h : m.find? k = some v) : m.insert k v = m := by
  refine ext_find (fun k' => ?_)
  rw [find?_insert]
  split
  · rename_i hk
    rw [← hk, h]
  · rfl

end OrdMap

/-! ## Sets -/

/-- A finite set, iterated in ascending order. -/
abbrev OrdSet (κ : Type*) [LinearOrder κ] := OrdMap κ Unit

namespace OrdSet

variable {κ : Type*} [LinearOrder κ]

def add (s : OrdSet κ) (k : κ) : OrdSet κ := OrdMap.insert s k ()

def toList (s : OrdSet κ) : List κ := OrdMap.keys s

/-- The elements of a list, sorted, once each. -/
def ofList (l : List κ) : OrdSet κ := l.foldl add ∅

@[simp] theorem mem_add {s : OrdSet κ} {k k' : κ} : k' ∈ s.add k ↔ k = k' ∨ k' ∈ s := OrdMap.mem_insert

theorem mem_toList {s : OrdSet κ} {k : κ} : k ∈ s.toList ↔ k ∈ s := OrdMap.mem_keys

theorem mem_foldl_add {k : κ} : ∀ (l : List κ) (s : OrdSet κ), k ∈ l.foldl add s ↔ k ∈ s ∨ k ∈ l
  | [], s => by simp
  | x :: l, s => by
    rw [List.foldl_cons, mem_foldl_add l, mem_add, List.mem_cons]
    constructor
    · rintro ((rfl | h) | h)
      · exact Or.inr (Or.inl rfl)
      · exact Or.inl h
      · exact Or.inr (Or.inr h)
    · rintro (h | rfl | h)
      · exact Or.inl (Or.inr h)
      · exact Or.inl (Or.inl rfl)
      · exact Or.inr h

@[simp] theorem mem_ofList {l : List κ} {k : κ} : k ∈ ofList l ↔ k ∈ l := by
  rw [ofList, mem_foldl_add]; simp

theorem ext_mem {s t : OrdSet κ} (h : ∀ k, k ∈ s ↔ k ∈ t) : s = t := by
  refine OrdMap.ext_find (fun k => ?_)
  have := h k
  rw [OrdMap.mem_def, OrdMap.mem_def] at this
  cases hs : s.find? k <;> cases ht : t.find? k <;> simp_all

end OrdSet
