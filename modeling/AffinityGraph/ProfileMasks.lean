import AffinityGraph.Gates
import AffinityGraph.ProfileMatch
import AffinityGraph.ProfileText
/-!
# ProfileMasks — what a loaded profile can bind a thread to

Every assignment ever made is one of a rule of the profile, and a rule that was loaded is bounded by its check, so whatever
text was loaded, and whatever is sampled, a mask that is handed on has CPUs the rule, the envelope and the thread allow
(`masks_safe`).  The books of a supervisor are those of the samples it has taken (`books_of_run`).
-/
namespace AffinityGraph

/-! ## The books over the samples -/

/-- What `profile_assignment` does with one sample. -/
inductive ProfileAssigned (profile : ThreadProfile) (x : ThreadSample) (books : ProfileBooks) : Prop where
  | found (a : ProfileAssignment) (old : books.assignments.find? x.identity = some a)
      (same : profileAssignment profile x books = (some a, books))
  | unmatched (fresh : x.identity ∉ books.assignments) (norule : profile.ruleFor x = none)
      (same : profileAssignment profile x books = (none, books))
  | matched (rule : ThreadProfileRule) (fresh : x.identity ∉ books.assignments) (first : profile.ruleFor x = some rule)
      (result : profileAssignment profile x books =
        (some (books.assign rule x.identity).1, (books.assign rule x.identity).2))

theorem profileAssignment_cases (profile : ThreadProfile) (x : ThreadSample) (books : ProfileBooks) :
    ProfileAssigned profile x books := by
  cases hold : books.assignments.find? x.identity with
  | some a => exact .found a hold (by unfold profileAssignment; rw [hold])
  | none =>
    have hfresh : x.identity ∉ books.assignments := OrdMap.notMem_iff.2 hold
    cases hrule : profile.ruleFor x with
    | none => exact .unmatched hfresh hrule (by unfold profileAssignment; rw [hold, hrule])
    | some rule => exact .matched rule hfresh hrule (by unfold profileAssignment; rw [hold, hrule])

namespace ProfileBooks

/-- The books once the samples have been looked up, one after the other. -/
def after (profile : ThreadProfile) (samples : List ThreadSample) : ProfileBooks :=
  samples.foldl (fun books x => (profileAssignment profile x books).2) {}

/-- The identities a rule has, as their instance numbers see them: `count` of them, numbered from zero, each once. -/
def Numbered (books : ProfileBooks) (id : String) (count : Nat) : Prop :=
  (∀ i a, books.assignments.find? i = some a → a.ruleId = id → a.instance_ < count) ∧
    ∀ n < count, ∃! i, ∃ a, books.assignments.find? i = some a ∧ a.ruleId = id ∧ a.instance_ = n

/-- Every assignment is one of a rule, and the next number of an id is how many it has. -/
structure Kept (profile : ThreadProfile) (books : ProfileBooks) : Prop where
  known : ∀ i a, books.assignments.find? i = some a →
    ∃ rule ∈ profile.placements, a.ruleId = rule.id ∧ a.targetCpus = rule.cpus ∧ a.allowedCpus = rule.allowedCpus
  numbered : ∀ id, books.Numbered id (books.nextInstances.getD id 0)

section Books

variable {profile : ThreadProfile} {books : ProfileBooks} {i : ThreadIdentity} {a : ProfileAssignment} {x : ThreadSample}

theorem Kept.empty : Kept profile {} where
  known i a h := by cases h
  numbered id := by
    refine ⟨fun i a h => ?_, fun n hn => absurd hn (Nat.not_lt_zero n)⟩
    cases h

theorem find?_assign_self (rule : ThreadProfileRule) (i : ThreadIdentity) :
    (books.assign rule i).2.assignments.find? i = some (books.assign rule i).1 := OrdMap.find?_insert_self _ _ _

theorem find?_assign_ne (rule : ThreadProfileRule) {i j : ThreadIdentity} (h : i ≠ j) :
    (books.assign rule i).2.assignments.find? j = books.assignments.find? j := OrdMap.find?_insert_ne _ _ h

/-- An assignment is the new one or an old one. -/
theorem find?_assign_cases {rule : ThreadProfileRule} {j : ThreadIdentity}
    (h : (books.assign rule i).2.assignments.find? j = some a) :
    j = i ∧ a = (books.assign rule i).1 ∨ i ≠ j ∧ books.assignments.find? j = some a := by
  by_cases hij : i = j
  · subst hij
    rw [find?_assign_self] at h
    exact Or.inl ⟨rfl, (Option.some.inj h).symm⟩
  · rw [find?_assign_ne rule hij] at h
    exact Or.inr ⟨hij, h⟩

theorem nextInstances_assign (rule : ThreadProfileRule) (i : ThreadIdentity) (id : String) :
    (books.assign rule i).2.nextInstances.getD id 0 =
      if rule.id = id then books.nextInstances.getD rule.id 0 + 1 else books.nextInstances.getD id 0 :=
  OrdMap.getD_insert _ _ _ _ _

/-- The identities of another id keep their numbers. -/
theorem Numbered.assign_other {id : String} {count : Nat} (h : books.Numbered id count) {rule : ThreadProfileRule}
    (hne : rule.id ≠ id) (hfresh : i ∉ books.assignments) : (books.assign rule i).2.Numbered id count := by
  have hsame : ∀ j b, ((books.assign rule i).2.assignments.find? j = some b ∧ b.ruleId = id) ↔
      (books.assignments.find? j = some b ∧ b.ruleId = id) := by
    intro j b
    constructor
    · rintro ⟨hb, hid⟩
      rcases find?_assign_cases hb with ⟨-, rfl⟩ | ⟨-, hb'⟩
      · exact absurd hid hne
      · exact ⟨hb', hid⟩
    · rintro ⟨hb, hid⟩
      have hij : i ≠ j := fun hij => hfresh (OrdMap.mem_of_find (hij ▸ hb))
      exact ⟨(find?_assign_ne rule hij).trans hb, hid⟩
  refine ⟨fun j b hb hid => h.1 j b ((hsame j b).1 ⟨hb, hid⟩).1 hid, fun n hn => ?_⟩
  obtain ⟨j, ⟨b, hb, hid, hnum⟩, honly⟩ := h.2 n hn
  refine ⟨j, ⟨b, ((hsame j b).2 ⟨hb, hid⟩).1, hid, hnum⟩, fun j' hj' => honly j' ?_⟩
  obtain ⟨b', hb', hid', hnum'⟩ := hj'
  exact ⟨b', ((hsame j' b').1 ⟨hb', hid'⟩).1, hid', hnum'⟩

/-- The new identity takes the number after the last. -/
theorem Numbered.assign_self {rule : ThreadProfileRule}
    (h : books.Numbered rule.id (books.nextInstances.getD rule.id 0)) (hfresh : i ∉ books.assignments) :
    (books.assign rule i).2.Numbered rule.id (books.nextInstances.getD rule.id 0 + 1) := by
  have hold : ∀ j b, books.assignments.find? j = some b → (books.assign rule i).2.assignments.find? j = some b :=
    fun j b hb => (find?_assign_ne rule (fun hij => hfresh (OrdMap.mem_of_find (hij ▸ hb)))).trans hb
  refine ⟨fun j b hb hid => ?_, fun n hn => ?_⟩
  · rcases find?_assign_cases hb with ⟨-, rfl⟩ | ⟨-, hb'⟩
    · exact Nat.lt_succ_self _
    · exact Nat.lt_succ_of_lt (h.1 j b hb' hid)
  · by_cases hlast : n = books.nextInstances.getD rule.id 0
    · refine ⟨i, ⟨_, find?_assign_self rule i, rfl, hlast.symm⟩, ?_⟩
      rintro j ⟨b, hb, hid, hnum⟩
      rcases find?_assign_cases hb with ⟨hj, -⟩ | ⟨-, hb'⟩
      · exact hj
      · have hbelow := h.1 j b hb' hid
        omega
    · obtain ⟨j, ⟨b, hb, hid, hnum⟩, honly⟩ := h.2 n (by omega)
      refine ⟨j, ⟨b, hold j b hb, hid, hnum⟩, ?_⟩
      rintro j' ⟨b', hb', hid', hnum'⟩
      rcases find?_assign_cases hb' with ⟨-, rfl⟩ | ⟨-, hb''⟩
      · exact absurd hnum'.symm hlast
      · exact honly j' ⟨b', hb'', hid', hnum'⟩

/-- **One sample keeps the books.** -/
theorem Kept.assignment (h : Kept profile books) (x : ThreadSample) : Kept profile (profileAssignment profile x books).2 := by
  rcases profileAssignment_cases profile x books with ⟨a, -, hsame⟩ | ⟨-, -, hsame⟩ | ⟨rule, hfresh, hfirst, hresult⟩
  · rw [hsame]
    exact h
  · rw [hsame]
    exact h
  · rw [hresult]
    refine ⟨fun j b hb => ?_, fun id => ?_⟩
    · rcases find?_assign_cases hb with ⟨-, rfl⟩ | ⟨-, hb'⟩
      · exact ⟨rule, List.mem_of_find?_eq_some hfirst, rfl, rfl, rfl⟩
      · exact h.known j b hb'
    · rw [nextInstances_assign]
      split
      · rename_i hid
        subst hid
        exact (h.numbered rule.id).assign_self hfresh
      · rename_i hid
        exact (h.numbered id).assign_other hid hfresh

theorem Kept.after (profile : ThreadProfile) (samples : List ThreadSample) : Kept profile (after profile samples) :=
  Loop.foldl_keeps (Kept profile) (fun _ x h => h.assignment x) samples .empty

/-- **An assignment once made is kept**, and is what every later look-up of its identity returns. -/
theorem assignment_keeps (h : books.assignments.find? i = some a) (x : ThreadSample) :
    (profileAssignment profile x books).2.assignments.find? i = some a := by
  rcases profileAssignment_cases profile x books with ⟨b, -, hsame⟩ | ⟨-, -, hsame⟩ | ⟨rule, hfresh, -, hresult⟩
  · rw [hsame]
    exact h
  · rw [hsame]
    exact h
  · rw [hresult]
    exact (find?_assign_ne rule (fun hxi => hfresh (OrdMap.mem_of_find (hxi ▸ h)))).trans h

theorem after_keeps {earlier : List ThreadSample} (later : List ThreadSample)
    (h : (after profile earlier).assignments.find? i = some a) :
    (after profile (earlier ++ later)).assignments.find? i = some a := by
  unfold after at h ⊢
  rw [List.foldl_append]
  exact Loop.foldl_keeps (fun books : ProfileBooks => books.assignments.find? i = some a)
    (fun _ x hb => assignment_keeps hb x) later h

theorem assignment_of_find (h : books.assignments.find? x.identity = some a) :
    (profileAssignment profile x books).1 = some a := by
  unfold profileAssignment
  rw [h]

end Books

end ProfileBooks

/-! ## The masks of a sampling -/

namespace Supervisor

open ProfileBooks (after)

/-- What one sampling gathers, after samples taken earlier. -/
def matchedAfter (profile : ThreadProfile) (earlier samples : List ThreadSample) : Matching :=
  samples.foldl (matchSample profile) { books := after profile earlier }

/-- A mask that keeps a sampled thread inside its own CPUs, the one affinity of the rule it has been assigned, the CPUs the
rule allows and the envelope. -/
def SafeMask (rules : List ThreadProfileRule) (envelope : Mask) (x : ThreadSample) (a : ProfileAssignment) (mask : Mask) : Prop :=
  mask ≠ [] ∧ mask ⊆ x.allowedCpus ∧ ∃ rule ∈ rules, a.ruleId = rule.id ∧ rule.affinities = [a.targetCpus] ∧
    mask ⊆ a.targetCpus ∧ a.targetCpus ⊆ rule.allowedCpus ∧ rule.allowedCpus ⊆ envelope

section Masks

variable {profile : ThreadProfile}

theorem matchSample_books (m : Matching) (x : ThreadSample) :
    (matchSample profile m x).books = (profileAssignment profile x m.books).2 := by
  unfold matchSample
  cases profileAssignment profile x m.books with
  | mk assignment books =>
    cases assignment with
    | none => rfl
    | some a =>
      dsimp only
      split
      · rfl
      · rfl

theorem foldl_matchSample_books : ∀ (samples : List ThreadSample) (m : Matching),
    (samples.foldl (matchSample profile) m).books =
      samples.foldl (fun books x => (profileAssignment profile x books).2) m.books
  | [], _ => rfl
  | x :: samples, m => by rw [List.foldl_cons, List.foldl_cons, foldl_matchSample_books samples, matchSample_books]

theorem matchedAfter_books (earlier samples : List ThreadSample) :
    (matchedAfter profile earlier samples).books = after profile (earlier ++ samples) := by
  unfold matchedAfter
  rw [foldl_matchSample_books]
  unfold after
  rw [List.foldl_append]

theorem mem_setIntersection_right {cpu : Int} : ∀ {l r : List Int}, cpu ∈ setIntersection l r → cpu ∈ r
  | [], _, h => by simp [setIntersection] at h
  | a :: l, r, h => by
    have hsub : (r.dropWhile (· < a)).Sublist r := List.dropWhile_sublist _
    unfold setIntersection at h
    cases hd : r.dropWhile (· < a) with
    | nil =>
      rw [hd] at h
      cases h
    | cons b rest =>
      rw [hd] at h hsub
      dsimp only at h
      split at h
      · rename_i hab
        rcases List.mem_cons.1 h with rfl | h
        · exact hsub.subset (hab ▸ List.mem_cons_self)
        · exact hsub.subset (List.mem_cons_of_mem b (mem_setIntersection_right h))
      · exact hsub.subset (mem_setIntersection_right h)

/-- A mask comes from a sample of its TID, and is what the sample's assignment leaves of its CPUs. -/
def Gathered (samples : List ThreadSample) (m : Matching) : Prop :=
  ∀ tid mask, m.masks.find? tid = some mask → ∃ x ∈ samples, x.identity.tid = tid ∧ ∃ a,
    m.books.assignments.find? x.identity = some a ∧ mask = setIntersection a.targetCpus x.allowedCpus ∧ mask ≠ []

theorem Gathered.matchSample {samples : List ThreadSample} {m : Matching} (h : Gathered samples m) (x : ThreadSample) :
    Gathered (samples ++ [x]) (matchSample profile m x) := by
  have hold : ∀ tid mask, m.masks.find? tid = some mask → ∃ y ∈ samples ++ [x], y.identity.tid = tid ∧ ∃ a,
      (Supervisor.matchSample profile m x).books.assignments.find? y.identity = some a ∧
        mask = setIntersection a.targetCpus y.allowedCpus ∧ mask ≠ [] := by
    intro tid mask hmask
    obtain ⟨y, hy, htid, a, ha, heq⟩ := h tid mask hmask
    refine ⟨y, List.mem_append_left _ hy, htid, a, ?_, heq⟩
    rw [matchSample_books]
    exact ProfileBooks.assignment_keeps ha x
  intro tid mask hmask
  rcases matchSample_cases profile m x with ⟨-, he⟩ | ⟨-, -, he⟩ | ⟨-, rule, -, hbooks, htarget⟩
  · exact hold tid mask (by rw [← he]; exact hmask)
  · exact hold tid mask (by rw [← he]; exact hmask)
  · rcases htarget with ⟨-, hsame, -⟩ | ⟨hne, hnew, -⟩
    · exact hold tid mask (by rw [← hsame]; exact hmask)
    · rw [hnew, OrdMap.find?_insert] at hmask
      split at hmask
      · rename_i htid
        cases hmask
        refine ⟨x, List.mem_append_right _ (List.mem_singleton_self x), htid, (m.books.assign rule x.identity).1, ?_, rfl, hne⟩
        rw [hbooks]
        exact OrdMap.find?_insert_self _ _ _
      · exact hold tid mask hmask

theorem gathered_matchedAfter (earlier samples : List ThreadSample) :
    Gathered samples (matchedAfter profile earlier samples) := by
  have hstart : Gathered [] { books := after profile earlier } := fun tid mask h => by cases h
  exact Loop.foldl_so_far Gathered (fun done m x h => h.matchSample x) samples [] hstart

theorem affinities_eq (rule : ThreadProfileRule) : rule.affinities = [rule.cpus] := by
  obtain ⟨mask, hmask⟩ := List.length_eq_one_iff.1 rule.single
  unfold ThreadProfileRule.cpus
  simp only [hmask, List.head_cons]

/-- **Profile masks are always safe.**  For any text that loads and any samples, in order and in samplings: a mask that is
handed on is safe, an identity keeps its assignment, and the identities of a rule are numbered from zero. -/
theorem masks_safe {stod : CppText.Text → Except String ℚ} {root : CppText.Text} {envelope : Mask}
    {file : ProfileText.ProfileFile} (hload : ProfileText.loadThreadProfile stod root envelope = .ok file) :
    (∀ earlier samples tid mask, (matchedAfter file.profile earlier samples).masks.find? tid = some mask →
      ∃ x ∈ samples, x.identity.tid = tid ∧ ∃ a,
        (after file.profile (earlier ++ samples)).assignments.find? x.identity = some a ∧
          SafeMask file.placements envelope x a mask) ∧
    (∀ earlier later i a, (after file.profile earlier).assignments.find? i = some a →
      (after file.profile (earlier ++ later)).assignments.find? i = some a ∧
        ∀ x : ThreadSample, x.identity = i →
          (profileAssignment file.profile x (after file.profile (earlier ++ later))).1 = some a) ∧
    ∀ samples, ∀ rule ∈ file.placements, ∃ count, (after file.profile samples).Numbered rule.id count := by
  obtain ⟨-, hbounded⟩ := ProfileText.loaded_rules hload
  refine ⟨fun earlier samples tid mask hmask => ?_, fun earlier later i a ha => ?_, fun samples rule _ => ?_⟩
  · obtain ⟨x, hx, htid, a, ha, hmaskeq, hne⟩ := gathered_matchedAfter earlier samples tid mask hmask
    rw [matchedAfter_books] at ha
    obtain ⟨rule, hrule, hid, htarget, -⟩ := (ProfileBooks.Kept.after file.profile (earlier ++ samples)).known _ a ha
    have hrules : rule ∈ file.placements := hrule
    refine ⟨x, hx, htid, a, ha, hne, fun cpu hcpu => ?_, rule, hrules, hid, ?_, fun cpu hcpu => ?_, ?_,
      (hbounded rule hrules).envelope⟩
    · rw [hmaskeq] at hcpu
      exact mem_setIntersection_right hcpu
    · rw [htarget]
      exact affinities_eq rule
    · rw [hmaskeq] at hcpu
      exact (setIntersection_sublist _ _).subset hcpu
    · rw [htarget]
      exact (hbounded rule hrules).allowed
  · have hlater := ProfileBooks.after_keeps later ha
    exact ⟨hlater, fun x hx => ProfileBooks.assignment_of_find (hx ▸ hlater)⟩
  · exact ⟨_, (ProfileBooks.Kept.after file.profile samples).numbered rule.id⟩

/-- A text with one rule. -/
def poolText : CppText.Text :=
  ["\x7b\"schema_version\": 2, \"profile_id\": \"p\", \"generated_at\": \"g\", \"status\": \"tested\", ",
    "\"source\": \x7b\x7d, \"applicability\": \x7b\x7d, \"dynamic\": \x7b\"enabled\": false, \"small_step_threads\": 1, ",
    "\"large_change_ratio\": 0.5, \"large_step_threads\": 4, \"cooldown_seconds\": 10\x7d, \"placements\": [",
    "\x7b\"id\": \"pool\", \"match\": \x7b\"comm\": \"w\"\x7d, \"allowed_cpus\": \"0-1\", \"dynamic\": false, ",
    "\"affinities\": [\x7b\"cpus\": \"1\"\x7d]\x7d]\x7d"].flatMap String.toList

def halfStod (t : CppText.Text) : Except String ℚ := if t = "0.5".toList then .ok (1 / 2) else .error "stod"

def poolWorker : ThreadSample := { identity := ⟨5, 7, 9⟩, comm := "w", allowedCpus := [0, 1] }

/-- The loaded profile meets a check. -/
def poolLoads (ok : ProfileText.ProfileFile → Bool) : Bool :=
  match ProfileText.loadThreadProfile halfStod poolText [0, 1, 2] with
  | .ok file => ok file
  | .error _ => false

theorem exists_of_poolLoads {ok : ProfileText.ProfileFile → Bool} (h : poolLoads ok = true) :
    ∃ file, ProfileText.loadThreadProfile halfStod poolText [0, 1, 2] = .ok file ∧ ok file = true := by
  unfold poolLoads at h
  split at h
  · rename_i file hfile
    exact ⟨file, hfile, h⟩
  · cases h

theorem masks_safe_pool : ∃ file, ProfileText.loadThreadProfile halfStod poolText [0, 1, 2] = .ok file ∧
    (matchedAfter file.profile [] [poolWorker]).masks.find? 7 = some [1] ∧
    ∃ x ∈ [poolWorker], x.identity.tid = 7 ∧ ∃ a,
      (after file.profile ([] ++ [poolWorker])).assignments.find? x.identity = some a ∧
        SafeMask file.placements [0, 1, 2] x a [1] := by
  have hcheck : poolLoads (fun file => decide ((matchedAfter file.profile [] [poolWorker]).masks.find? 7 = some [1])) = true := by
    decide +kernel
  obtain ⟨file, hload, hmask⟩ := exists_of_poolLoads hcheck
  rw [decide_eq_true_eq] at hmask
  exact ⟨file, hload, hmask, (masks_safe hload).1 [] [poolWorker] 7 [1] hmask⟩

end Masks

/-! ## The supervisor's books -/

section Run

variable {s s' : Supervisor} {profile : ThreadProfile}

/-- An input that takes samples adds them to the books; any other leaves the books alone. -/
theorem handle_books {e : Input} (h : s.handle e = .ok s') : s'.threadProfile = s.threadProfile ∧
    (s'.books = s.books ∨ ∃ c now, e = .reconcile (some c) now ∧ s'.books = (s.matchSamples c.samples).books) := by
  cases e with
  | outside kernel =>
    cases h
    exact ⟨rfl, Or.inl rfl⟩
  | bpf event startSymbol =>
    cases h
    exact ⟨rfl, Or.inl rfl⟩
  | retain relations =>
    cases h
    exact ⟨rfl, Or.inl rfl⟩
  | health valid windowReady lossRatio =>
    cases h
    exact ⟨rfl, Or.inl rfl⟩
  | fatal message =>
    obtain ⟨r, -, rfl⟩ := triggerFatal_ok h
    exact ⟨rfl, Or.inl rfl⟩
  | pause =>
    obtain ⟨r, -, rfl⟩ := pause_ok h
    exact ⟨rfl, Or.inl rfl⟩
  | resume =>
    cases h
    exact ⟨rfl, Or.inl rfl⟩
  | reconcile collected now =>
    obtain ⟨-, hf⟩ | ⟨c, rfl, -, stopped, last, rfl⟩ := reconcileAndSample_ok h
    · obtain ⟨since, -, ⟨-, r, -, rfl⟩ | ⟨-, rfl⟩⟩ := collectorFailure_ok hf
      · exact ⟨rfl, Or.inl rfl⟩
      · exact ⟨rfl, Or.inl rfl⟩
    · obtain ⟨kernel, actuator, hbound⟩ := bindProfile_eq (s.sampled c) (s.matchSamples c.samples)
      rw [hbound]
      exact ⟨rfl, Or.inr ⟨c, now, rfl, rfl⟩⟩
  | solve now dirtyTids =>
    obtain ⟨-, ⟨-, rfl⟩ | ⟨-, -, rfl⟩⟩ | ⟨-, r, -, rfl⟩ := maybeSolve_ok h
    · exact ⟨rfl, Or.inl rfl⟩
    · exact ⟨rfl, Or.inl rfl⟩
    · exact ⟨rfl, Or.inl rfl⟩
  | shutdown =>
    cases h
    exact ⟨rfl, Or.inl rfl⟩

/-- The samples the books are of. -/
def BooksOf (profile : ThreadProfile) (s : Supervisor) : Prop :=
  s.threadProfile = some profile ∧ ∃ earlier, s.books = after profile earlier

theorem BooksOf.matchSamples {earlier : List ThreadSample} (hp : s.threadProfile = some profile)
    (hb : s.books = after profile earlier) (samples : List ThreadSample) :
    s.matchSamples samples = matchedAfter profile earlier samples := by
  unfold Supervisor.matchSamples matchedAfter
  rw [hp, hb]

/-- **In every run** the books are those of the samples taken, so what a sampling gathers is `matchedAfter` of them. -/
theorem books_of_run {l : Launch} {s₀ : Supervisor} (hstart : create l = .ok s₀) (hprofile : l.threadProfile = some profile)
    {run : List Input} (hrun : Run.exec step s₀ run = some s) :
    ∃ earlier, ∀ samples, s.matchSamples samples = matchedAfter profile earlier samples := by
  have hcreate : BooksOf profile s₀ := by
    unfold create at hstart
    dsimp only at hstart
    generalize (if (l.collectorDegraded || (decide (l.config.solver = .numaDomain) && !l.bpfReader)) = true
      then { l.config with mode := .observe } else l.config) = config at hstart
    split at hstart
    · cases hstart
    · cases hstart
      exact ⟨hprofile, [], rfl⟩
  have hstep : ∀ t e t', BooksOf profile t → step t e = some t' → BooksOf profile t' := by
    rintro t e t' ⟨hp, earlier, hb⟩ hs
    obtain ⟨hsame, hbooks⟩ := handle_books (step_handle hs).2
    refine ⟨hsame.trans hp, ?_⟩
    rcases hbooks with hbooks | ⟨c, now, -, hbooks⟩
    · exact ⟨earlier, hbooks.trans hb⟩
    · refine ⟨earlier ++ c.samples, ?_⟩
      rw [hbooks, BooksOf.matchSamples hp hb, matchedAfter_books]
  obtain ⟨hp, earlier, hb⟩ := Run.exec_keeps (BooksOf profile) hstep hcreate hrun
  exact ⟨earlier, fun samples => BooksOf.matchSamples hp hb samples⟩

end Run

end Supervisor
end AffinityGraph
