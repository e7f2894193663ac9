import AffinityGraph.Confirmations
import AffinityGraph.RelationCost
import Mathlib.Data.List.GetD
/-!
# RotatingScan — no thread is left out of the dirty set for good

Every evaluation takes the next `rotating_scan_size` threads of the TID order into its dirty set, from where the one
before stopped and around the end.  While the threads stay the same, as many evaluations as it takes to go around once
have looked at all of them, wherever the cursor stood.
-/
namespace AffinityGraph
namespace IncrementalSolver

/-- What a call scans: the state and the window it finds. -/
def scanOf (s : IncrementalSolver) : Call → Option (IncrementalSolver × IncrementalInput)
  | .propose input => if Evaluates s input then some ((intake s input).1, input) else none
  | _ => none

/-- The scans of a run, in order. -/
def scans : IncrementalSolver → List Call → List (IncrementalSolver × IncrementalInput)
  | _, [] => []
  | s, call :: calls =>
    match step s call with
    | none => []
    | some t => (scanOf s call).toList ++ scans t calls

/-- The calls leave a thread set as it is. -/
def Unchanging (tids : List Tid) (s : IncrementalSolver) (calls : List Call) : Prop :=
  Run.Obeys step (fun s call => ∀ t ∈ step s call, t.threads.keys = tids) s calls

instance (tids : List Tid) (s : IncrementalSolver) (calls : List Call) : Decidable (Unchanging tids s calls) :=
  have : ∀ (s : IncrementalSolver) (call : Call), Decidable (∀ t ∈ step s call, t.threads.keys = tids) := fun s call =>
    match step s call with
    | none => isTrue (fun t ht => by cases ht)
    | some u => decidable_of_iff (u.threads.keys = tids) ⟨fun h t ht => by cases ht; exact h, fun h => h u rfl⟩
  inferInstanceAs (Decidable (Run.Obeys step _ s calls))

section Step

variable {s t : IncrementalSolver} {call : Call} {input : IncrementalInput} {p : SolverProposal}

/-- An evaluation leaves the threads as its intake left them. -/
theorem threads_evaluation (he : Evaluates s input) (h : propose s input = .ok (p, t)) :
    t.threads = (intake s input).1.threads := by
  rcases propose_cases h with ⟨hout, -⟩ | ⟨-, -, hphases⟩
  · rw [he.1] at hout
    cases hout
  · rcases hphases with ⟨hphase, -, -⟩ | ⟨hphase, -⟩ | ⟨hphase, -⟩ | ⟨-, hr⟩
    · rw [he.2.1] at hphase
      cases hphase
    · rw [he.2.1] at hphase
      cases hphase
    · rw [he.2.1] at hphase
      cases hphase
    · have hsame := optimize_same (intake s input).1 input (intake s input).2
      rw [hr] at hsame
      have hthreads := congrArg IncrementalSolver.threads hsame
      exact hthreads

/-- **The cursor moves with the scans alone.** -/
theorem scanCursor_step (h : step s call = some t) (hreset : isReset call = false) :
    t.scanCursor = match scanOf s call with
      | none => s.scanCursor
      | some x => nextCursor x.1 x.2 := by
  cases call with
  | propose input =>
    obtain ⟨r, hr, rfl⟩ := Option.map_eq_some_iff.1 h
    cases hp : s.propose input with
    | error e =>
      rw [hp] at hr
      cases hr
    | ok r' =>
      rw [hp] at hr
      cases hr
      have hwritten := evaluated_propose (p := r.1) hp
      by_cases he : Evaluates s input
      · have hscan : scanOf s (.propose input) = some ((intake s input).1, input) := if_pos he
        rw [if_pos he] at hwritten
        rw [hscan]
        exact congrArg Prod.snd hwritten
      · have hscan : scanOf s (.propose input) = none := if_neg he
        rw [if_neg he] at hwritten
        rw [hscan]
        exact congrArg Prod.snd hwritten
  | commit nowNs tids =>
    obtain ⟨p, hout, rfl⟩ := Option.map_eq_some_iff.1 h
    exact congrArg Prod.snd (evaluated_commit hout nowNs tids)
  | discard =>
    obtain ⟨p, -, rfl⟩ := Option.map_eq_some_iff.1 h
    exact congrArg Prod.snd (evaluated_discard p)
  | removeThread tid =>
    cases h
    rfl
  | reset => cases hreset

/-- A scan starts where the cursor stood, and finds the threads it leaves. -/
theorem scanOf_eq_some {x : IncrementalSolver × IncrementalInput} (h : step s call = some t)
    (hx : scanOf s call = some x) : x.1.scanCursor = s.scanCursor ∧ x.1.threads = t.threads := by
  cases call with
  | propose input =>
    obtain ⟨r, hr, rfl⟩ := Option.map_eq_some_iff.1 h
    cases hp : s.propose input with
    | error e =>
      rw [hp] at hr
      cases hr
    | ok r' =>
      rw [hp] at hr
      cases hr
      by_cases he : Evaluates s input
      · rw [show scanOf s (.propose input) = some ((intake s input).1, input) from if_pos he] at hx
        cases hx
        exact ⟨congrArg Prod.snd (evaluated_intake s input), (threads_evaluation (p := r.1) he hp).symm⟩
      · rw [show scanOf s (.propose input) = none from if_neg he] at hx
        cases hx
  | commit nowNs tids => cases hx
  | discard => cases hx
  | removeThread tid => cases hx
  | reset => cases hx

end Step

section Rounds

variable {tids : List Tid} {size : Nat}

/-- A scan takes in the threads from the cursor on, around the end. -/
theorem mem_scanned {s : IncrementalSolver} {options : IncrementalOptions} {i : Nat} (hne : s.threads.keys ≠ [])
    (hi : i < options.rotatingScanSize) :
    s.threads.keys.getD ((s.scanCursor + i) % s.threads.keys.length) 0 ∈ scanned s options := by
  unfold scanned
  rw [if_neg (by simpa using hne)]
  exact List.mem_map.2 ⟨i, List.mem_range.2 hi, rfl⟩

/-- **So many places after the cursor are scanned as the scans have together.** -/
theorem scans_reach (hne : tids ≠ []) : ∀ (calls : List Call) (s : IncrementalSolver), Unchanging tids s calls →
    (∀ x ∈ scans s calls, x.2.options.rotatingScanSize = size) → ∀ i < (scans s calls).length * size,
    ∃ x ∈ scans s calls, tids.getD ((s.scanCursor + i) % tids.length) 0 ∈ scanned x.1 x.2.options
  | [], s, _, _, i, hi => by
    rw [scans, List.length_nil, zero_mul] at hi
    exact absurd hi (Nat.not_lt_zero i)
  | call :: calls, s, hsame, hsize, i, hi => by
    cases hstep : step s call with
    | none =>
      rw [scans, hstep] at hi
      simp at hi
    | some t =>
      have hkeys : t.threads.keys = tids := hsame.1 t hstep
      have hreset : isReset call = false := by
        cases call with
        | reset =>
          cases hstep
          exact absurd hkeys.symm hne
        | propose input => rfl
        | commit nowNs tids => rfl
        | discard => rfl
        | removeThread tid => rfl
      have hcursor := scanCursor_step hstep hreset
      have hall : scans s (call :: calls) = (scanOf s call).toList ++ scans t calls := by rw [scans, hstep]
      rw [hall] at hsize hi ⊢
      have ih := scans_reach hne calls t (hsame.2 t hstep) (fun x hx => hsize x (List.mem_append_right _ hx))
      cases hx : scanOf s call with
      | none =>
        rw [hx] at hcursor hi
        rw [Option.toList_none, List.nil_append] at hi ⊢
        have hstays : t.scanCursor = s.scanCursor := hcursor
        rw [← hstays]
        exact ih i hi
      | some x =>
        rw [hx] at hcursor hi hsize
        obtain ⟨hfrom, hthreads⟩ := scanOf_eq_some hstep hx
        have hxkeys : x.1.threads.keys = tids := by rw [hthreads, hkeys]
        have hxsize : x.2.options.rotatingScanSize = size := hsize x (List.mem_append_left _ (by simp))
        by_cases hin : i < size
        · refine ⟨x, List.mem_append_left _ (by simp), ?_⟩
          rw [← hfrom, ← hxkeys]
          exact mem_scanned (by rw [hxkeys]; exact hne) (by rw [hxsize]; exact hin)
        · have hrest : i - size < (scans t calls).length * size := by
            rw [Option.toList_some, List.length_append, List.length_singleton, add_mul, one_mul] at hi
            omega
          obtain ⟨y, hy, hyin⟩ := ih (i - size) hrest
          refine ⟨y, List.mem_append_right _ hy, ?_⟩
          have hnext : t.scanCursor = (s.scanCursor + size) % tids.length := by
            have hempty : x.1.threads.isEmpty = false := by
              rw [Bool.eq_false_iff]
              intro he
              refine hne (hxkeys.symm.trans ?_)
              unfold OrdMap.keys
              rw [List.isEmpty_iff.1 he, List.map_nil]
            have hmoved : t.scanCursor = nextCursor x.1 x.2 := hcursor
            rw [hmoved, nextCursor, hempty, if_neg Bool.false_ne_true, hfrom, hxsize, OrdMap.size_eq_length_keys, hxkeys]
          rw [hnext, Nat.mod_add_mod, show s.scanCursor + size + (i - size) = s.scanCursor + i from by omega] at hyin
          exact hyin

/-- What the scan takes in is dirty. -/
theorem scanned_dirty {s : IncrementalSolver} {input : IncrementalInput} {loads : Loads} {tid : Tid}
    (h : tid ∈ scanned s input.options) : tid ∈ dirtyTids s input loads := by
  unfold dirtyTids
  dsimp only
  exact (OrdSet.mem_foldl_add _ _).2 (Or.inr (List.mem_append_right _ h))

/-- **A fair scan**: while the threads and the size of the scan stay the same, so many evaluations as the size goes into
the number of the threads, rounded up, have put every thread into the dirty set, wherever the cursor stood before. -/
theorem scan_fair {s : IncrementalSolver} {calls : List Call} (hsize : 1 ≤ size) (hsame : Unchanging tids s calls)
    (hsizes : ∀ x ∈ scans s calls, x.2.options.rotatingScanSize = size)
    (hmany : ⌈(tids.length : ℚ) / size⌉₊ ≤ (scans s calls).length) {tid : Tid} (htid : tid ∈ tids) :
    ∃ x ∈ scans s calls, tid ∈ dirtyTids x.1 x.2 (currentLoads x.1 x.2.hardware) := by
  have hround : tids.length ≤ (scans s calls).length * size := by
    have hpos : (0 : ℚ) < size := by exact_mod_cast hsize
    have hceil := Nat.ceil_le.1 hmany
    rw [div_le_iff₀ hpos] at hceil
    exact_mod_cast hceil
  obtain ⟨j, hj, hget⟩ := List.mem_iff_getElem.1 htid
  -- The place of the thread, counted from the cursor.
  have hplace : (s.scanCursor + (j + (tids.length - s.scanCursor % tids.length)) % tids.length) % tids.length = j := by
    have hlt := Nat.mod_lt s.scanCursor (Nat.zero_lt_of_lt hj)
    rw [Nat.add_mod_mod, ← Nat.mod_add_mod,
      show s.scanCursor % tids.length + (j + (tids.length - s.scanCursor % tids.length)) = j + tids.length from by omega,
      Nat.add_mod_right, Nat.mod_eq_of_lt hj]
  obtain ⟨x, hx, hin⟩ := scans_reach (List.ne_nil_of_mem htid) calls s hsame hsizes
    ((j + (tids.length - s.scanCursor % tids.length)) % tids.length)
    ((Nat.mod_lt _ (Nat.zero_lt_of_lt hj)).trans_le hround)
  refine ⟨x, hx, scanned_dirty ?_⟩
  rw [hplace, List.getD_eq_getElem _ _ hj, hget] at hin
  exact hin

/-- Three threads, two of them scanned in a window. -/
def scanTwo : IncrementalInput := { chain 1 [] with options := { (chain 1 []).options with rotatingScanSize := 2 } }

/-- Two windows look at all three threads. -/
theorem scan_fair_chain : ∃ s, Run.exec step {} (chainRun 1 ++ [.propose scanTwo]) = some s ∧ s.scanCursor = 2 ∧
    ∀ tid ∈ ([1, 2, 3] : List Tid), ∃ x ∈ scans s [.propose scanTwo, .propose scanTwo],
      tid ∈ dirtyTids x.1 x.2 (currentLoads x.1 x.2.hardware) := by
  have hsome : (Run.exec step {} (chainRun 1 ++ [.propose scanTwo])).any (fun s => decide (s.scanCursor = 2 ∧
      Unchanging [1, 2, 3] s [.propose scanTwo, .propose scanTwo] ∧
      (scans s [.propose scanTwo, .propose scanTwo]).length = 2 ∧
      ∀ x ∈ scans s [.propose scanTwo, .propose scanTwo], x.2.options.rotatingScanSize = 2)) = true := by decide +kernel
  obtain ⟨s, hexec, hs⟩ := (Option.any_eq_true _ _).1 hsome
  obtain ⟨hcursor, hsame, hmany, hsizes⟩ := of_decide_eq_true hs
  refine ⟨s, hexec, hcursor, fun tid htid => scan_fair (by decide) hsame hsizes ?_ htid⟩
  rw [hmany]
  norm_num

end Rounds

end IncrementalSolver
end AffinityGraph
