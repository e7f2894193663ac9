import AffinityGraph.CppText
import AffinityGraph.OrdMap
import AffinityGraph.Ranges
import Mathlib.Data.List.DropRight
/-!
# CpuList — CPU sets as texts

`parse_cpu_list` and `format_cpu_list`.  What is written reads back as the same set, and a set is written in one way
(`CpuList.round_trip`).  The reader takes more than is ever written: `Loose` is what it reads, `Spelled` what the grammar
allows, and the two differ by the odd texts (`CpuList.grammar_iff`).
-/
namespace AffinityGraph
namespace CpuList

open CppText (Text Digits value Reads stoi shown)
open Ranges (Range Covers Has)

/-! ## The code -/

def trim (t : Text) : Text := (t.dropWhile CppText.isSpace).rdropWhile CppText.isSpace

/-- One element: a CPU or a range of them, up to 1048575. -/
def parseElement (result : OrdSet Int) (text : Text) : Except String (OrdSet Int) :=
  let part := trim text
  if part = [] then .error "empty CPU-list element"
  else do
    let first ← stoi (part.takeWhile (fun c => decide (c ≠ '-')))
    let last ← match part.dropWhile (fun c => decide (c ≠ '-')) with
      | [] => pure first
      | _ :: upper => stoi upper
    if first < 0 ∨ last < first ∨ last > 1048575 then .error ("invalid CPU range: " ++ String.ofList part)
    else .ok ((Ranges.elements (first, last)).foldl OrdSet.add result)

/-- `parse_cpu_list`. -/
def parseCpuList (text : Text) : Except String (List Int) := do
  let result ← (CppText.lines ',' text).foldlM parseElement ∅
  if result.isEmpty then .error "CPU envelope must not be empty" else .ok result.toList

/-- `std::unique`: the first of each group of equals stays. -/
def unique : List Int → List Int
  | a :: b :: l => if a = b then unique (b :: l) else a :: unique (b :: l)
  | l => l

/-- A run from `cpus[i]` to `cpus[j]`. -/
def spell (r : Range) : Text := if r.1 = r.2 then shown r.1 else shown r.1 ++ '-' :: shown r.2

/-- `format_cpu_list`. -/
def formatCpuList (input : List Int) : Text :=
  if input = [] then [] else [','].intercalate ((Ranges.runs (unique (input.insertionSort (· ≤ ·)))).map spell)

/-! ## What the reader reads -/

/-- What the reader takes for a range: a number, or two with a dash between, each with anything after it. -/
def Loose (e : Text) (r : Range) : Prop :=
  0 ≤ r.1 ∧ r.1 ≤ r.2 ∧ r.2 ≤ 1048575 ∧
    ('-' ∉ e ∧ Reads e r.1 ∧ r.2 = r.1 ∨ ∃ a b, e = a ++ '-' :: b ∧ '-' ∉ a ∧ Reads a r.1 ∧ Reads b r.2)

/-- Digits, or digits on both sides of a dash. -/
def Spelled (e : Text) : Prop := Digits e ∨ ∃ a b, e = a ++ '-' :: b ∧ Digits a ∧ Digits b

/-- `N` or `N-M`, with `N ≤ M ≤ 1048575`. -/
def Element (e : Text) (r : Range) : Prop :=
  r.1 ≤ r.2 ∧ r.2 ≤ 1048575 ∧
    (Digits e ∧ r.1 = value e ∧ r.2 = value e ∨
      ∃ a b, e = a ++ '-' :: b ∧ Digits a ∧ Digits b ∧ r.1 = value a ∧ r.2 = value b)

/-- The sorted union of the ranges. -/
def Union (rs : List Range) (v : List Int) : Prop := v.Pairwise (· < ·) ∧ ∀ c, c ∈ v ↔ Covers rs c

/-- The grammar: elements separated by commas, each a range when white space is taken off its ends. -/
def Grammar (t : Text) (v : List Int) : Prop :=
  ∃ parts rs, parts ≠ [] ∧ t = [','].intercalate parts ∧ List.Forall₂ (fun p r => Element (trim p) r) parts rs ∧ Union rs v

/-- A text with a comma at its end or an element that is not spelled. -/
def Odd (t : Text) : Prop := t.getLast? = some ',' ∨ ∃ p ∈ CppText.lines ',' t, ¬ Spelled (trim p)

theorem span_dash {a b : Text} (ha : '-' ∉ a) :
    (a ++ '-' :: b).takeWhile (fun c => decide (c ≠ '-')) = a ∧
      (a ++ '-' :: b).dropWhile (fun c => decide (c ≠ '-')) = '-' :: b := by
  have hall : ∀ c ∈ a, decide (c ≠ '-') = true := fun c hc => decide_eq_true (fun h => ha (h ▸ hc))
  rw [List.takeWhile_append_of_pos hall, List.dropWhile_append_of_pos hall]
  simp

theorem span_no_dash {e : Text} (he : '-' ∉ e) :
    e.takeWhile (fun c => decide (c ≠ '-')) = e ∧ e.dropWhile (fun c => decide (c ≠ '-')) = [] := by
  have hall : ∀ c ∈ e, decide (c ≠ '-') = true := fun c hc => decide_eq_true (fun h => he (h ▸ hc))
  exact ⟨List.takeWhile_eq_self_iff.2 hall, List.dropWhile_eq_nil_iff.2 hall⟩

/-- A text has no dash, or is cut at its first. -/
theorem dash_or (e : Text) : '-' ∉ e ∨ ∃ a b, e = a ++ '-' :: b ∧ '-' ∉ a := by
  by_cases he : '-' ∈ e
  · obtain ⟨a, b, hab, ha⟩ := List.eq_append_cons_of_mem he
    exact Or.inr ⟨a, b, hab, ha⟩
  · exact Or.inl he

/-- The first dash of a text is at one place. -/
theorem cut_unique {a b a' b' : Text} (ha : '-' ∉ a) (ha' : '-' ∉ a') (h : a ++ '-' :: b = a' ++ '-' :: b') :
    a = a' ∧ b = b' := by
  have hfront := (span_dash (b := b) ha).1
  have hback := (span_dash (b := b) ha).2
  rw [h, (span_dash ha').1] at hfront
  rw [h, (span_dash ha').2] at hback
  exact ⟨hfront.symm, (List.cons.inj hback).2.symm⟩

theorem inRange_eq_ok {α : Type} {a b : α} {e : String} {first last : Int} :
    (if first < 0 ∨ last < first ∨ last > 1048575 then Except.error e else .ok a) = .ok b ↔
      (0 ≤ first ∧ first ≤ last ∧ last ≤ 1048575) ∧ b = a := by
  by_cases hbad : first < 0 ∨ last < first ∨ last > 1048575
  · rw [if_pos hbad]
    refine iff_of_false (fun h => by cases h) ?_
    rintro ⟨hgood, -⟩
    omega
  · rw [if_neg hbad, Except.ok.injEq]
    exact ⟨fun h => ⟨by omega, h.symm⟩, fun h => h.2.symm⟩

theorem stoi_bind_eq_ok {α : Type} {t : Text} {f : Int → Except String α} {a : α} :
    (stoi t >>= f) = .ok a ↔ ∃ n, Reads t n ∧ (-2 ^ 31 ≤ n ∧ n < 2 ^ 31) ∧ f n = .ok a := by
  constructor
  · intro h
    cases hn : stoi t with
    | error e =>
      rw [hn] at h
      cases h
    | ok n =>
      rw [hn] at h
      obtain ⟨hreads, hrange⟩ := CppText.stoi_eq_ok.1 hn
      exact ⟨n, hreads, hrange, h⟩
  · rintro ⟨n, hreads, hrange, h⟩
    rw [CppText.stoi_eq_ok.2 ⟨hreads, hrange⟩]
    exact h

/-- **The reader takes an element exactly when it is loosely a range**, and adds the CPUs of that range. -/
theorem parseElement_eq_ok {result s : OrdSet Int} {text : Text} : parseElement result text = .ok s ↔
    ∃ r, Loose (trim text) r ∧ s = (Ranges.elements r).foldl OrdSet.add result := by
  unfold parseElement
  dsimp only
  generalize trim text = e
  by_cases hnil : e = []
  · rw [if_pos hnil]
    refine iff_of_false (fun h => by cases h) ?_
    rintro ⟨r, ⟨-, -, -, ⟨-, hread, -⟩ | ⟨a, b, hab, -⟩⟩, -⟩
    · exact CppText.Reads.ne_nil hread hnil
    · rw [hnil] at hab
      exact absurd hab.symm (by simp)
  · rw [if_neg hnil, stoi_bind_eq_ok]
    rcases dash_or e with he | ⟨a, b, rfl, ha⟩
    · rw [(span_no_dash he).1, (span_no_dash he).2]
      constructor
      · rintro ⟨n, hread, -, h⟩
        obtain ⟨⟨h₀, -, h₁⟩, rfl⟩ := inRange_eq_ok.1 h
        exact ⟨(n, n), ⟨h₀, le_refl n, h₁, Or.inl ⟨he, hread, rfl⟩⟩, rfl⟩
      · rintro ⟨⟨n, m⟩, ⟨h₀, -, h₁, ⟨-, hread, hm⟩ | ⟨a, b, rfl, -⟩⟩, rfl⟩
        · dsimp only at h₀ h₁ hread hm
          subst hm
          exact ⟨m, hread, by omega, inRange_eq_ok.2 ⟨⟨h₀, le_refl m, h₁⟩, rfl⟩⟩
        · exact absurd (by simp) he
    · rw [(span_dash ha).1, (span_dash ha).2]
      dsimp only
      constructor
      · rintro ⟨n, hread, -, h⟩
        obtain ⟨m, hread', -, h⟩ := stoi_bind_eq_ok.1 h
        obtain ⟨hrange, rfl⟩ := inRange_eq_ok.1 h
        exact ⟨(n, m), ⟨hrange.1, hrange.2.1, hrange.2.2, Or.inr ⟨a, b, rfl, ha, hread, hread'⟩⟩, rfl⟩
      · rintro ⟨⟨n, m⟩, ⟨h₀, hle, h₁, ⟨hno, -⟩ | ⟨a', b', hab, ha', hread, hread'⟩⟩, rfl⟩
        · exact absurd (by simp) hno
        · dsimp only at h₀ hle h₁ hread hread'
          obtain ⟨rfl, rfl⟩ := cut_unique ha ha' hab
          exact ⟨n, hread, by omega, stoi_bind_eq_ok.2 ⟨m, hread', by omega, inRange_eq_ok.2 ⟨⟨h₀, hle, h₁⟩, rfl⟩⟩⟩

theorem mem_foldl_elements {c : Int} (r : Range) (s : OrdSet Int) :
    c ∈ (Ranges.elements r).foldl OrdSet.add s ↔ c ∈ s ∨ Has r c := by
  rw [OrdSet.mem_foldl_add, Ranges.mem_elements]

/-- The loop over the elements. -/
theorem foldlM_parseElement_eq_ok : ∀ {parts : List Text} {result s : OrdSet Int},
    parts.foldlM parseElement result = .ok s ↔
      ∃ rs, List.Forall₂ (fun p r => Loose (trim p) r) parts rs ∧ ∀ c, c ∈ s ↔ c ∈ result ∨ Covers rs c
  | [], result, s => by
    constructor
    · intro h
      cases h
      exact ⟨[], List.Forall₂.nil, fun c => (or_iff_left (Ranges.not_covers_nil c)).symm⟩
    · rintro ⟨rs, hrs, hmem⟩
      cases hrs
      have hs : s = result := OrdSet.ext_mem (fun c => (hmem c).trans (or_iff_left (Ranges.not_covers_nil c)))
      rw [hs]
      rfl
  | p :: parts, result, s => by
    rw [List.foldlM_cons]
    constructor
    · intro h
      cases hp : parseElement result p with
      | error e =>
        rw [hp] at h
        cases h
      | ok s₁ =>
        rw [hp] at h
        obtain ⟨r, hr, hs₁⟩ := parseElement_eq_ok.1 hp
        obtain ⟨rs, hrs, hmem⟩ := foldlM_parseElement_eq_ok.1 h
        refine ⟨r :: rs, List.Forall₂.cons hr hrs, fun c => ?_⟩
        rw [hmem, hs₁, mem_foldl_elements, Ranges.covers_cons, or_assoc]
    · rintro ⟨rs, hrs, hmem⟩
      cases hrs with
      | @cons _ r _ rs hr hrs =>
        rw [parseElement_eq_ok.2 ⟨r, hr, rfl⟩]
        refine foldlM_parseElement_eq_ok.2 ⟨rs, hrs, fun c => ?_⟩
        rw [hmem, mem_foldl_elements, Ranges.covers_cons, or_assoc]

/-- A sorted union is the one list of its set. -/
theorem Union.eq_toList {rs : List Range} {v : List Int} {s : OrdSet Int} (h : Union rs v) (hs : ∀ c, c ∈ s ↔ Covers rs c) :
    v = s.toList :=
  List.Perm.eq_of_pairwise' h.1 (OrdMap.sorted_keys s)
    ((List.perm_ext_iff_of_nodup (h.1.imp ne_of_lt) (OrdMap.nodup_keys s)).2
      (fun c => (h.2 c).trans ((hs c).symm.trans OrdSet.mem_toList.symm)))

/-- **What the reader accepts**: a text with at least one element, each of them loosely a range. -/
theorem parseCpuList_eq_ok {t : Text} {v : List Int} : parseCpuList t = .ok v ↔
    t ≠ [] ∧ ∃ rs, List.Forall₂ (fun p r => Loose (trim p) r) (CppText.lines ',' t) rs ∧ Union rs v := by
  unfold parseCpuList
  constructor
  · intro h
    cases hs : (CppText.lines ',' t).foldlM parseElement (∅ : OrdSet Int) with
    | error e =>
      rw [hs] at h
      cases h
    | ok s =>
      rw [hs] at h
      obtain ⟨rs, hrs, hmem⟩ := foldlM_parseElement_eq_ok.1 hs
      have hset : ∀ c, c ∈ s ↔ Covers rs c := fun c => (hmem c).trans (or_iff_right (OrdMap.notMem_empty c))
      change (if s.isEmpty then Except.error "CPU envelope must not be empty" else .ok s.toList) = .ok v at h
      split at h
      · cases h
      · rename_i hfull
        cases h
        refine ⟨?_, rs, hrs, OrdMap.sorted_keys s, fun c => OrdSet.mem_toList.trans (hset c)⟩
        rintro rfl
        cases hrs
        exact hfull (OrdMap.isEmpty_iff.2 (fun k => OrdMap.notMem_iff.1 (fun hk => Ranges.not_covers_nil k ((hset k).1 hk))))
  · rintro ⟨hne, rs, hrs, hv⟩
    obtain ⟨s, hset⟩ : ∃ s : OrdSet Int, ∀ c, c ∈ s ↔ Covers rs c :=
      ⟨OrdSet.ofList v, fun c => OrdSet.mem_ofList.trans (hv.2 c)⟩
    have hs : (CppText.lines ',' t).foldlM parseElement (∅ : OrdSet Int) = .ok s :=
      foldlM_parseElement_eq_ok.2 ⟨rs, hrs, fun c => (hset c).trans (or_iff_right (OrdMap.notMem_empty c)).symm⟩
    rw [hs]
    change (if s.isEmpty then Except.error "CPU envelope must not be empty" else .ok s.toList) = .ok v
    rw [if_neg, hv.eq_toList hset]
    intro hempty
    have hlines : CppText.lines ',' t ≠ [] := CppText.lines_ne_nil hne
    obtain ⟨p, parts, hparts⟩ := List.exists_cons_of_ne_nil hlines
    rw [hparts] at hrs
    cases hrs with
    | @cons _ r _ rs hr hrest =>
      have hin : r.1 ∈ s := (hset r.1).2 ⟨r, List.mem_cons_self, le_refl _, hr.2.1⟩
      exact OrdMap.notMem_iff.2 (OrdMap.isEmpty_iff.1 hempty r.1) hin

/-! ## The grammar -/

/-- **An element of the grammar** is one the reader takes that is spelled. -/
theorem element_iff {e : Text} {r : Range} : Element e r ↔ Loose e r ∧ Spelled e := by
  obtain ⟨n, m⟩ := r
  constructor
  · rintro ⟨hle, hmax, ⟨he, rfl, hm⟩ | ⟨a, b, rfl, ha, hb, rfl, rfl⟩⟩
    · exact ⟨⟨Int.natCast_nonneg _, hle, hmax, Or.inl ⟨(he.notMem (by decide)), he.reads, hm⟩⟩, Or.inl he⟩
    · exact ⟨⟨Int.natCast_nonneg _, hle, hmax, Or.inr ⟨a, b, rfl, ha.notMem (by decide), ha.reads, hb.reads⟩⟩,
        Or.inr ⟨a, b, rfl, ha, hb⟩⟩
  · rintro ⟨⟨-, hle, hmax, hread⟩, hspelled⟩
    refine ⟨hle, hmax, ?_⟩
    rcases hread with ⟨hno, hn, hm⟩ | ⟨a, b, rfl, ha, hn, hm⟩ <;> rcases hspelled with he | ⟨a', b', hab, ha', hb'⟩
    · have hvalue := hn.unique he.reads
      exact Or.inl ⟨he, hvalue, hm.trans hvalue⟩
    · rw [hab] at hno
      exact absurd (by simp) hno
    · exact absurd (by simp) (he.notMem (c := '-') (by decide))
    · obtain ⟨rfl, rfl⟩ := cut_unique ha (ha'.notMem (by decide)) hab
      exact Or.inr ⟨a, b, rfl, ha', hb', hn.unique ha'.reads, hm.unique hb'.reads⟩

/-- Nothing else than white space goes. -/
theorem trim_ne_nil {t : Text} (h : trim t ≠ []) : t ≠ [] := by
  rintro rfl
  exact h rfl

/-- The comma stays: it is no white space. -/
theorem comma_mem_trim {t : Text} (h : ',' ∈ t) : ',' ∈ trim t := by
  have hcomma : ¬ CppText.isSpace ',' = true := by decide
  have hfront : ',' ∈ t.dropWhile CppText.isSpace := by
    rw [← List.takeWhile_append_dropWhile (p := CppText.isSpace) (l := t), List.mem_append] at h
    exact h.resolve_left (fun hin => hcomma (List.mem_takeWhile_imp hin))
  have hback := hfront
  rw [← List.rdropWhile_append_rtakeWhile (p := CppText.isSpace) (l := t.dropWhile CppText.isSpace), List.mem_append] at hback
  exact hback.resolve_right (fun hin => hcomma (List.mem_rtakeWhile_imp hin))

theorem Spelled.no_comma {e : Text} (h : Spelled e) : e ≠ [] ∧ ',' ∉ e := by
  have hdigits : ∀ {t : Text}, Digits t → ',' ∉ t := fun ht => ht.notMem (by decide)
  rcases h with he | ⟨a, b, rfl, ha, hb⟩
  · exact ⟨he.1, hdigits he⟩
  · refine ⟨by simp, ?_⟩
    rw [List.mem_append, List.mem_cons]
    rintro (h | h | h)
    · exact hdigits ha h
    · cases h
    · exact hdigits hb h

/-- To see whether an element is spelled, cut it at its first dash. -/
theorem spelled_iff {e : Text} : Spelled e ↔ Digits e ∨ '-' ∈ e ∧ Digits (e.takeWhile (fun c => decide (c ≠ '-'))) ∧
    Digits (e.dropWhile (fun c => decide (c ≠ '-'))).tail := by
  refine or_congr_right ⟨?_, ?_⟩
  · rintro ⟨a, b, rfl, ha, hb⟩
    have hno : '-' ∉ a := ha.notMem (by decide)
    rw [(span_dash hno).1, (span_dash hno).2]
    exact ⟨by simp, ha, hb⟩
  · rintro ⟨hdash, ha, hb⟩
    obtain ⟨a, b, rfl, hno⟩ := List.eq_append_cons_of_mem hdash
    rw [(span_dash hno).1] at ha
    rw [(span_dash hno).2] at hb
    exact ⟨a, b, rfl, ha, hb⟩

instance (e : Text) : Decidable (Spelled e) := decidable_of_iff _ spelled_iff.symm

instance (t : Text) : Decidable (Odd t) := inferInstanceAs (Decidable (_ ∨ _))

/-- **The grammar is the reader's**, on the texts that are not odd. -/
theorem grammar_iff_parse {t : Text} {v : List Int} : Grammar t v ↔ parseCpuList t = .ok v ∧ ¬ Odd t := by
  have hboth : ∀ parts rs, List.Forall₂ (fun p r => Element (trim p) r) parts rs ↔
      (∀ p ∈ parts, Spelled (trim p)) ∧ List.Forall₂ (fun p r => Loose (trim p) r) parts rs := by
    intro parts rs
    rw [← List.forall₂_and_left]
    simp only [element_iff, and_comm]
  rw [parseCpuList_eq_ok]
  constructor
  · rintro ⟨parts, rs, hne, rfl, hrs, hv⟩
    obtain ⟨hspelled, hloose⟩ := (hboth parts rs).1 hrs
    have hparts := CppText.lines_intercalate (fun p hp hin => (hspelled p hp).no_comma.2 (comma_mem_trim hin))
      (fun p hp => trim_ne_nil (hspelled p hp).no_comma.1) hne
    refine ⟨⟨fun hnil => hparts.2 (Or.inl hnil), rs, ?_, hv⟩, ?_⟩
    · rw [hparts.1]
      exact hloose
    · rintro (hend | ⟨p, hp, hodd⟩)
      · exact hparts.2 (Or.inr hend)
      · rw [hparts.1] at hp
        exact hodd (hspelled p hp)
  · rintro ⟨⟨hne, rs, hrs, hv⟩, hodd⟩
    have hopen : ¬ CppText.Ended ',' t := fun h => h.elim hne (fun hend => hodd (Or.inl hend))
    refine ⟨_, rs, CppText.lines_ne_nil hne, (CppText.intercalate_lines hopen).symm, ?_, hv⟩
    refine (hboth _ rs).2 ⟨fun p hp => ?_, hrs⟩
    by_contra hspelled
    exact hodd (Or.inr ⟨p, hp, hspelled⟩)

/-- What the reader accepts at all. -/
def Readable (t : Text) : Prop := ∃ rs, List.Forall₂ (fun p r => Loose (trim p) r) (CppText.lines ',' t) rs

/-- Ranges have a sorted union. -/
theorem exists_union (rs : List Range) : ∃ v, Union rs v := by
  refine ⟨(OrdSet.ofList (rs.flatMap Ranges.elements)).toList, OrdMap.sorted_keys _, fun c => ?_⟩
  rw [OrdSet.mem_toList, OrdSet.mem_ofList, List.mem_flatMap]
  simp only [Ranges.mem_elements]
  exact Iff.rfl

/-- **The reader is exact on a text** unless it reads the text though it is odd. -/
theorem grammar_iff (t : Text) : (∀ v, parseCpuList t = .ok v ↔ Grammar t v) ↔ ¬ (Readable t ∧ Odd t) := by
  constructor
  · rintro hexact ⟨⟨rs, hrs⟩, hodd⟩
    have hne : t ≠ [] := by
      rintro rfl
      rcases hodd with h | ⟨p, hp, -⟩
      · cases h
      · cases hp
    obtain ⟨v, hv⟩ := exists_union rs
    have hparse : parseCpuList t = .ok v := parseCpuList_eq_ok.2 ⟨hne, rs, hrs, hv⟩
    exact (grammar_iff_parse.1 ((hexact v).1 hparse)).2 hodd
  · intro hclean v
    rw [grammar_iff_parse]
    refine ⟨fun h => ⟨h, fun hodd => hclean ⟨?_, hodd⟩⟩, And.left⟩
    obtain ⟨-, rs, hrs, -⟩ := parseCpuList_eq_ok.1 h
    exact ⟨rs, hrs⟩

/-- **Texts outside the grammar are read**, in part: a comma at the end, a letter after a number, a second dash, a sign. -/
theorem odd_texts_read : parseCpuList "1,".toList = .ok [1] ∧ parseCpuList "2x5".toList = .ok [2] ∧
    parseCpuList "1-2-7".toList = .ok [1, 2] ∧ parseCpuList "+3".toList = .ok [3] ∧
    (¬ ∃ v, Grammar "1,".toList v) ∧ (¬ ∃ v, Grammar "2x5".toList v) ∧ (¬ ∃ v, Grammar "1-2-7".toList v) ∧
    ¬ ∃ v, Grammar "+3".toList v := by
  have hout : ∀ {t : Text}, Odd t → ¬ ∃ v, Grammar t v := fun hodd ⟨_, hv⟩ => (grammar_iff_parse.1 hv).2 hodd
  refine ⟨by decide +kernel, by decide +kernel, by decide +kernel, by decide +kernel, hout ?_, hout ?_, hout ?_, hout ?_⟩
  all_goals decide +kernel

/-! ## Writing and reading back -/

theorem mem_unique {c : Int} : ∀ {l : List Int}, c ∈ unique l ↔ c ∈ l
  | [] => Iff.rfl
  | [a] => Iff.rfl
  | a :: b :: l => by
    unfold unique
    split
    · rename_i hab
      rw [mem_unique, hab]
      simp
    · rw [List.mem_cons, mem_unique, List.mem_cons (a := c) (b := a)]

theorem sorted_unique : ∀ {l : List Int}, l.Pairwise (· ≤ ·) → (unique l).Pairwise (· < ·)
  | [], _ => List.Pairwise.nil
  | [a], _ => List.pairwise_singleton _ _
  | a :: b :: l, h => by
    unfold unique
    split
    · exact sorted_unique h.of_cons
    · rename_i hne
      refine List.pairwise_cons.2 ⟨fun c hc => ?_, sorted_unique h.of_cons⟩
      have hab : a < b := lt_of_le_of_ne (List.rel_of_pairwise_cons h List.mem_cons_self) hne
      rcases List.mem_cons.1 (mem_unique.1 hc) with rfl | hc
      · exact hab
      · exact lt_of_lt_of_le hab (List.rel_of_pairwise_cons h.of_cons hc)

/-- The distinct elements in order. -/
def distinct (input : List Int) : List Int := unique (input.insertionSort (· ≤ ·))

theorem sorted_distinct (input : List Int) : (distinct input).Pairwise (· < ·) :=
  sorted_unique (List.pairwise_insertionSort _ _)

theorem mem_distinct {input : List Int} {c : Int} : c ∈ distinct input ↔ c ∈ input := by
  rw [distinct, mem_unique, List.mem_insertionSort]

theorem formatCpuList_eq (input : List Int) :
    formatCpuList input = [','].intercalate ((Ranges.runs (distinct input)).map spell) := by
  unfold formatCpuList
  split
  · rename_i hnil
    rw [hnil]
    rfl
  · rfl

/-- **A set is written in one way**: as its maximal runs. -/
theorem formatCpuList_of_maximal {input : List Int} {rs : List Range} (hrs : Ranges.Maximal rs)
    (hcovers : ∀ c, Covers rs c ↔ c ∈ input) : formatCpuList input = [','].intercalate (rs.map spell) := by
  have hruns : Ranges.runs (distinct input) = rs :=
    (Ranges.maximal_runs (sorted_distinct input)).unique hrs
      (fun c => (Ranges.covers_runs _ c).trans (mem_distinct.trans (hcovers c).symm))
  rw [formatCpuList_eq, hruns]

theorem trim_eq_self {t : Text} (h : ∀ c ∈ t, CppText.isSpace c = false) : trim t = t := by
  have hfront : ([] ++ t).dropWhile CppText.isSpace = t :=
    CppText.dropWhile_spaces (by simp) (fun c hc => h c (List.mem_of_mem_head? hc))
  rw [List.nil_append] at hfront
  unfold trim
  rw [hfront, List.rdropWhile_eq_self_iff]
  intro hne hlast
  rw [h _ (List.getLast_mem hne)] at hlast
  cases hlast

/-- **A range that is written is one of the grammar.** -/
theorem element_spell {r : Range} (h₀ : 0 ≤ r.1) (hle : r.1 ≤ r.2) (hmax : r.2 ≤ 1048575) : Element (trim (spell r)) r := by
  obtain ⟨hd, hv⟩ := CppText.digits_shown h₀
  obtain ⟨hd', hv'⟩ := CppText.digits_shown (h₀.trans hle)
  have hplain : ∀ c ∈ spell r, CppText.isSpace c = false := by
    intro c hc
    unfold spell at hc
    split at hc
    · exact CppText.not_isSpace_of_isDigit (hd.2 c hc)
    · rw [List.mem_append, List.mem_cons] at hc
      rcases hc with hc | rfl | hc
      · exact CppText.not_isSpace_of_isDigit (hd.2 c hc)
      · decide
      · exact CppText.not_isSpace_of_isDigit (hd'.2 c hc)
  rw [trim_eq_self hplain]
  refine ⟨hle, hmax, ?_⟩
  unfold spell
  split
  · rename_i heq
    exact Or.inl ⟨hd, hv.symm, by rw [← heq]; exact hv.symm⟩
  · exact Or.inr ⟨_, _, rfl, hd, hd', hv.symm, hv'.symm⟩

/-- What is written of CPUs is in the grammar, and denotes them. -/
theorem grammar_format {v : List Int} (hne : v ≠ []) (hv : ∀ c ∈ v, 0 ≤ c ∧ c ≤ 1048575) :
    Grammar (formatCpuList v) (distinct v) := by
  have hmaximal := Ranges.maximal_runs (sorted_distinct v)
  have hcovers : ∀ c, Covers (Ranges.runs (distinct v)) c ↔ c ∈ v := fun c =>
    (Ranges.covers_runs _ c).trans mem_distinct
  refine ⟨(Ranges.runs (distinct v)).map spell, Ranges.runs (distinct v), ?_, formatCpuList_eq v, ?_, sorted_distinct v,
    fun c => (Ranges.covers_runs _ c).symm⟩
  · obtain ⟨c, hc⟩ := List.exists_mem_of_ne_nil v hne
    obtain ⟨r, hr, -⟩ := (hcovers c).2 hc
    exact List.ne_nil_of_mem (List.mem_map_of_mem hr)
  · rw [List.forall₂_map_left_iff, List.forall₂_same]
    intro r hr
    have hle := hmaximal.filled r hr
    have hfirst := hv r.1 ((hcovers r.1).1 ⟨r, hr, le_refl _, hle⟩)
    have hlast := hv r.2 ((hcovers r.2).1 ⟨r, hr, hle, le_refl _⟩)
    exact element_spell hfirst.1 hle hlast.2

/-- **The round trip.**  CPUs that are written read back as their set in order; what is read is written as its maximal runs,
whatever they are; and two texts of one set are written alike. -/
theorem round_trip :
    (∀ v : List Int, v ≠ [] → (∀ c ∈ v, 0 ≤ c ∧ c ≤ 1048575) → ∃ w, parseCpuList (formatCpuList v) = .ok w ∧
      w.Pairwise (· < ·) ∧ ∀ c, c ∈ w ↔ c ∈ v) ∧
    (∀ t v, parseCpuList t = .ok v →
      (∃ rs, Ranges.Maximal rs ∧ ∀ c, Covers rs c ↔ c ∈ v) ∧
      ∀ rs, Ranges.Maximal rs → (∀ c, Covers rs c ↔ c ∈ v) → formatCpuList v = [','].intercalate (rs.map spell)) ∧
    ∀ t t' v v', parseCpuList t = .ok v → parseCpuList t' = .ok v' → (∀ c, c ∈ v ↔ c ∈ v') →
      formatCpuList v = formatCpuList v' := by
  refine ⟨fun v hne hv => ?_, fun t v _ => ⟨?_, fun rs hrs hcovers => formatCpuList_of_maximal hrs hcovers⟩, ?_⟩
  · exact ⟨distinct v, (grammar_iff_parse.1 (grammar_format hne hv)).1, sorted_distinct v, fun c => mem_distinct⟩
  · exact ⟨Ranges.runs (distinct v), Ranges.maximal_runs (sorted_distinct v), fun c =>
      (Ranges.covers_runs _ c).trans mem_distinct⟩
  · intro t t' v v' _ _ hsame
    rw [formatCpuList_eq v']
    exact formatCpuList_of_maximal (Ranges.maximal_runs (sorted_distinct v')) (fun c =>
      (Ranges.covers_runs _ c).trans (mem_distinct.trans (hsame c).symm))

end CpuList
end AffinityGraph
