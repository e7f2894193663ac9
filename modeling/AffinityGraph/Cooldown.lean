import AffinityGraph.RelationCost
/-!
# Cooldown — how long a thread rests between two moves

`Recorded` is the incremental solver beside its past.  The past says when a thread was added and when one of its moves was
committed (`deeds`); the solver keeps the last of these moves in `last_moved_ns_`, and a migration that is no emergency
reads it there, a swap for both of its threads.
-/
namespace AffinityGraph
namespace IncrementalSolver

/-! ## The past of a solver -/

/-- A solver with its past, the newest call first, each with the state before it. -/
structure Recorded where
  solver : IncrementalSolver := {}
  past : List (IncrementalSolver × Call) := []

/-- What a call did to a thread. -/
inductive Deed where
  | added (tid : Tid)
  | moved (tid : Tid) (nowNs : Nat)

/-- The threads of a window that the solver does not know, or knows under another identity. -/
def newcomers (s : IncrementalSolver) (input : IncrementalInput) : List Tid :=
  tids (input.threads.filter (fun th => decide (s.identities.find? th.identity.tid ≠ some th.identity)))

/-- The threads a `propose` adds. -/
def addedBy (s : IncrementalSolver) (input : IncrementalInput) : List Tid :=
  if s.outstanding.isSome then [] else s.newcomers input

/-- The threads a commit of the outstanding proposal moves. -/
def movedBy (s : IncrementalSolver) (tids : OrdSet Tid) : List Tid :=
  (s.outstanding.elim [] (fun p => p.actions.filter (fun a =>
    commits tids a.identity.tid && decide (a.fromCpu ≠ a.targetCpu)))).map (·.identity.tid)

def deedsOf : IncrementalSolver × Call → List Deed
  | (s, .propose input) => (s.addedBy input).map .added
  | (s, .commit nowNs tids) => (s.movedBy tids).map (.moved · nowNs)
  | _ => []

/-- When a thread last moved, since it was last added. -/
def lastMoved (t : Tid) : List Deed → Option Nat
  | [] => none
  | .added u :: l => if u = t then none else lastMoved t l
  | .moved u nowNs :: l => if u = t then some nowNs else lastMoved t l

def timeOf : IncrementalSolver × Call → Option Nat
  | (_, .propose input) => some input.nowNs
  | (_, .commit nowNs _) => some nowNs
  | _ => none

namespace Recorded

def step (w : Recorded) (call : Call) : Option Recorded :=
  (IncrementalSolver.step w.solver call).map (fun s => { solver := s, past := (w.solver, call) :: w.past })

/-- What has been done to the threads, the newest first. -/
def deeds (w : Recorded) : List Deed := w.past.flatMap deedsOf

/-- The times of the calls, the newest first. -/
def times (w : Recorded) : List Nat := w.past.filterMap timeOf

end Recorded

/-! ## The last move -/

section LastMoved

variable {t : Tid} {l : List Deed}

theorem lastMoved_added : ∀ {tids : List Tid}, lastMoved t (tids.map .added ++ l) = if t ∈ tids then none else lastMoved t l
  | [] => by simp
  | u :: tids => by
    rw [List.map_cons, List.cons_append, lastMoved, lastMoved_added]
    by_cases hu : u = t
    · simp [hu]
    · simp [hu, Ne.symm hu]

theorem lastMoved_moved {nowNs : Nat} : ∀ {tids : List Tid},
    lastMoved t (tids.map (.moved · nowNs) ++ l) = if t ∈ tids then some nowNs else lastMoved t l
  | [] => by simp
  | u :: tids => by
    rw [List.map_cons, List.cons_append, lastMoved, lastMoved_moved]
    by_cases hu : u = t
    · simp [hu]
    · simp [hu, Ne.symm hu]

end LastMoved

/-! ## The window's threads -/

/-- Every thread is on record under its own TID. -/
structure Named (s : IncrementalSolver) : Prop where
  known : ∀ t ∈ s.threads, t ∈ s.identities
  keyed : ∀ t i, s.identities.find? t = some i → i.tid = t

section Intake

variable {s s' : IncrementalSolver} {input : IncrementalInput} {p : SolverProposal}

theorem Named.removeThread (h : Named s) (tid : Tid) : Named (s.removeThread tid) where
  known t ht := by
    obtain ⟨hne, hmem⟩ := OrdMap.mem_erase.1 (show t ∈ s.threads.erase tid from ht)
    exact OrdMap.mem_erase.2 ⟨hne, h.known t hmem⟩
  keyed t i hi := by
    have hi' : (s.identities.erase tid).find? t = some i := hi
    rw [OrdMap.find?_erase] at hi'
    split at hi'
    · cases hi'
    · exact h.keyed t i hi'

theorem Named.forgetReused (h : Named s) (identity : ThreadIdentity) : Named (forgetReused s identity) := by
  rcases forgetReused_cases s identity with ⟨he, -⟩ | ⟨he, -⟩
  · rw [he]
    exact h
  · rw [he]
    exact h.removeThread _

/-- The identities after one turn of the loop. -/
theorem takeIn_identities (input : IncrementalInput) (adjacency : OrdMap Tid (List RelationEdge)) (st : Intake)
    (th : ThreadDemand) : (takeIn input adjacency st th).solver.identities =
      if th.identity.tid ∈ (forgetReused st.solver th.identity).identities then
        (forgetReused st.solver th.identity).identities
      else (forgetReused st.solver th.identity).identities.insert th.identity.tid th.identity := by
  unfold takeIn
  dsimp only
  split
  · rfl
  · split <;> rfl

theorem takeIn_threads (input : IncrementalInput) (adjacency : OrdMap Tid (List RelationEdge)) (st : Intake)
    (th : ThreadDemand) : (takeIn input adjacency st th).solver.threads =
      (forgetReused st.solver th.identity).threads.insert th.identity.tid th := by
  unfold takeIn
  dsimp only
  split
  · rfl
  · split <;> rfl

theorem takeIn_lastMovedNs (input : IncrementalInput) (adjacency : OrdMap Tid (List RelationEdge)) (st : Intake)
    (th : ThreadDemand) : (takeIn input adjacency st th).solver.lastMovedNs =
      (forgetReused st.solver th.identity).lastMovedNs := by
  unfold takeIn
  dsimp only
  split
  · rfl
  · split <;> rfl

theorem Named.takeIn {adjacency : OrdMap Tid (List RelationEdge)} {st : Intake} (h : Named st.solver) (th : ThreadDemand) :
    Named (takeIn input adjacency st th).solver := by
  have hf := h.forgetReused th.identity
  refine ⟨fun t ht => ?_, fun t i hi => ?_⟩
  · rw [takeIn_threads] at ht
    rw [takeIn_identities]
    split
    · rename_i hin
      rcases OrdMap.mem_insert.1 ht with rfl | ht
      · exact hin
      · exact hf.known t ht
    · rcases OrdMap.mem_insert.1 ht with rfl | ht
      · exact OrdMap.mem_insert.2 (Or.inl rfl)
      · exact OrdMap.mem_insert.2 (Or.inr (hf.known t ht))
  · rw [takeIn_identities] at hi
    split at hi
    · exact hf.keyed t i hi
    · rw [OrdMap.find?_insert] at hi
      split at hi
      · rename_i htid
        cases hi
        exact htid
      · exact hf.keyed t i hi

/-- What is on record of a thread's moves. -/
def memo (s : IncrementalSolver) (t : Tid) : Option ThreadIdentity × Option Nat :=
  (s.identities.find? t, s.lastMovedNs.find? t)

/-- A thread that the window does not add is on record as it was. -/
def Carries (s : IncrementalSolver) (input : IncrementalInput) (s' : IncrementalSolver) : Prop :=
  ∀ t ∉ s.newcomers input, t ∈ tids input.threads ∨ t ∈ s'.identities → s'.memo t = s.memo t

theorem mem_removeThread {t tid : Tid} (h : t ∈ (s.removeThread tid).identities) :
    t ∈ s.identities ∧ (s.removeThread tid).memo t = s.memo t := by
  obtain ⟨hne, hmem⟩ := OrdMap.mem_erase.1 (show t ∈ s.identities.erase tid from h)
  refine ⟨hmem, Prod.ext ?_ ?_⟩
  · exact OrdMap.find?_erase_ne _ hne
  · exact OrdMap.find?_erase_ne _ hne

theorem forgetReused_memo (s : IncrementalSolver) (identity : ThreadIdentity) {t : Tid} (ht : identity.tid ≠ t) :
    (forgetReused s identity).memo t = s.memo t := by
  rcases forgetReused_cases s identity with ⟨he, -⟩ | ⟨he, -⟩
  · rw [he]
  · rw [he]
    refine Prod.ext ?_ ?_
    · exact OrdMap.find?_erase_ne _ ht
    · exact OrdMap.find?_erase_ne _ ht

theorem takeIn_memo (input : IncrementalInput) (adjacency : OrdMap Tid (List RelationEdge)) (st : Intake)
    {th : ThreadDemand} {t : Tid} (ht : th.identity.tid ≠ t) :
    (takeIn input adjacency st th).solver.memo t = st.solver.memo t := by
  rw [← forgetReused_memo st.solver th.identity ht]
  unfold memo
  rw [takeIn_lastMovedNs, takeIn_identities]
  split
  · rfl
  · rw [OrdMap.find?_insert_ne _ _ ht]

/-- A thread that is known under its identity stays as it is. -/
theorem takeIn_known {adjacency : OrdMap Tid (List RelationEdge)} {st : Intake} {th : ThreadDemand}
    (h : st.solver.identities.find? th.identity.tid = some th.identity) :
    (takeIn input adjacency st th).solver.memo th.identity.tid = st.solver.memo th.identity.tid := by
  have hsame : forgetReused st.solver th.identity = st.solver := by
    rcases forgetReused_cases st.solver th.identity with ⟨he, -⟩ | ⟨-, old, hold, hne⟩
    · exact he
    · rw [h] at hold
      exact absurd (Option.some.inj hold).symm hne
  unfold memo
  rw [takeIn_lastMovedNs, takeIn_identities, hsame, if_pos (OrdMap.mem_of_find h)]

theorem Carries.takeIn {adjacency : OrdMap Tid (List RelationEdge)} {st : Intake} (h : Carries s input st.solver)
    {th : ThreadDemand} (hth : ∃ x ∈ input.threads, x.identity = th.identity) :
    Carries s input (takeIn input adjacency st th).solver := by
  intro t hnew ht
  by_cases htid : th.identity.tid = t
  · subst htid
    obtain ⟨x, hx, hid⟩ := hth
    have hwindow : th.identity.tid ∈ tids input.threads := List.mem_map.2 ⟨x, hx, by rw [hid]⟩
    have hsame := h _ hnew (Or.inl hwindow)
    -- the window would add it if it were not known under this identity
    have hknown : s.identities.find? th.identity.tid = some th.identity := by
      by_contra hne
      refine hnew (List.mem_map.2 ⟨x, List.mem_filter.2 ⟨hx, ?_⟩, by rw [hid]⟩)
      rw [hid]
      exact decide_eq_true hne
    have hst : st.solver.identities.find? th.identity.tid = some th.identity := (congrArg Prod.fst hsame).trans hknown
    exact (takeIn_known hst).trans hsame
  · have hmemo := takeIn_memo input adjacency st htid
    refine hmemo.trans (h t hnew (ht.imp_right (fun hin => ?_)))
    have hfind : (IncrementalSolver.takeIn input adjacency st th).solver.identities.find? t =
        st.solver.identities.find? t := congrArg Prod.fst hmemo
    rw [OrdMap.mem_def, hfind] at hin
    exact hin

theorem intake_named (h : Named s) (input : IncrementalInput) : Named (intake s input).1 := by
  have hrec := records_intake s input
  unfold records at hrec
  simp only [Prod.mk.injEq] at hrec
  have htaken : Named (takenIn s input).solver := by
    unfold takenIn
    refine Loop.foldl_keeps (fun st : Intake => Named st.solver) (fun st th hst => hst.takeIn th) _ ?_
    exact dropStale_keeps (fun s tid hs => hs.removeThread tid) _ _ ⟨h.known, h.keyed⟩
  refine ⟨fun t ht => ?_, fun t i hi => ?_⟩
  · rw [hrec.1] at ht
    rw [hrec.2.1]
    exact htaken.known t ht
  · rw [hrec.2.1] at hi
    exact htaken.keyed t i hi

/-- **What the intake leaves on record of a thread's moves.** -/
theorem intake_carries (s : IncrementalSolver) (input : IncrementalInput) : Carries s input (intake s input).1 := by
  have hstart : Carries s input (startOf s input).solver := by
    intro t _ ht
    rcases ht with ht | ht
    · obtain ⟨x, hx, rfl⟩ := List.mem_map.1 ht
      exact dropStale_window (fun s u => s.memo u)
        (fun s tid u hu => Prod.ext (OrdMap.find?_erase_ne _ hu) (OrdMap.find?_erase_ne _ hu)) _ hx
    · have hkeep := dropStale_keeps (P := fun s' => ∀ u ∈ s'.identities, s'.memo u = s.memo u)
        (fun s' tid hs' u hu => (mem_removeThread hu).2.trans (hs' u (mem_removeThread hu).1))
        { s with groupPeakDemand := groupPeaks s input } input.threads (fun _ _ => rfl)
      exact hkeep t ht
  have htaken : Carries s input (takenIn s input).solver := by
    have hfold : ∀ (l : List ThreadDemand), (∀ th ∈ l, ∃ x ∈ input.threads, x.identity = th.identity) →
        ∀ st : Intake, Carries s input st.solver →
          Carries s input (l.foldl (takeIn input (incomingAdjacency s input)) st).solver := by
      intro l
      induction l with
      | nil => exact fun _ _ h => h
      | cons th l ih =>
        intro hl st hst
        exact ih (fun x hx => hl x (List.mem_cons_of_mem _ hx)) _ (hst.takeIn (hl th List.mem_cons_self))
    refine hfold (incomingThreads s input) (fun th hth => ?_) _ hstart
    obtain ⟨x, hx, rfl⟩ := List.mem_map.1 hth
    exact ⟨x, hx, rfl⟩
  have hrec := records_intake s input
  unfold records at hrec
  simp only [Prod.mk.injEq] at hrec
  intro t hnew ht
  rw [hrec.2.1] at ht
  have h := htaken t hnew ht
  unfold memo at h ⊢
  rw [hrec.2.1, hrec.2.2.2.2.2.1]
  exact h

end Intake

/-! ## The proposal -/

section Propose

variable {s s' : IncrementalSolver} {input : IncrementalInput} {p : SolverProposal}

/-- A pinning batch leaves the threads on record as they are, and its actions are pins. -/
theorem initialPinning_moves {proposal : SolverProposal} (hno : proposal.actions = [])
    {r : SolverProposal × IncrementalSolver} (h : initialPinning s input proposal = .ok r) (hn : Named s) :
    Named r.2 ∧ r.2.memo = s.memo ∧ (r.2.outstanding = s.outstanding ∨ r.2.outstanding = some r.1) ∧
      ∀ a ∈ r.1.actions, a.initialPin = true := by
  obtain ⟨hsame, hout⟩ := initialPinning_same h
  refine ⟨?_, ?_, hout, fun a ha => ?_⟩
  · rw [hsame]
    exact ⟨hn.known, hn.keyed⟩
  · rw [hsame]
    rfl
  · unfold initialPinning at h
    dsimp only at h
    split at h
    · cases h
      have ha' : a ∈ proposal.actions := ha
      rw [hno] at ha'
      cases ha'
    · cases hs : seatBatch input (pendingBatch s input.hardware proposal.migrationBudget)
          { solver := readTargets s, projected := vacated s (pendingBatch s input.hardware proposal.migrationBudget) } with
      | error e =>
        rw [hs] at h
        cases h
      | ok st =>
        rw [hs] at h
        cases h
        obtain ⟨t, -, rfl⟩ := List.mem_map.1
          (show a ∈ (pendingBatch s input.hardware proposal.migrationBudget).map (pinAction st.solver input.hardware) from ha)
        rfl

theorem nodePlanning_records {proposal : SolverProposal} {r : SolverProposal × IncrementalSolver}
    (h : nodePlanning s input proposal = .ok r) : records r.2 = records s := by
  unfold nodePlanning at h
  cases hplan : planNodes s input with
  | error e =>
    rw [hplan] at h
    cases h
  | ok plan =>
    rw [hplan] at h
    cases h
    show records (confirmNodes s input proposal _).2 = _
    rcases confirmNodes_cases s input proposal
      (swapPasses s input (communityOrder s).ordered input.options.initialNodePasses plan) with he | he
    · rw [he]
      rfl
    · rw [he]
      rfl

/-- **A potential that is no emergency moves threads that do not cool.** -/
theorem potential_rested {adjacency : OrdMap Tid (List RelationEdge)} {loads : Loads} {candidates : List Dissatisfaction}
    {x : Potential} (h : x ∈ potentials s input adjacency loads candidates) {a : PlacementAction} (ha : a ∈ x.actions)
    (hem : a.emergency = false) :
    ∃ d ∈ candidates, a.identity = identityOf s d.tid ∧ cooling s input d.tid = false := by
  rcases mem_potentials h with ⟨d, hd, hx⟩ | ⟨⟨d, e⟩, hpair, hx⟩
  · unfold singleMove at hx
    obtain ⟨m, hm, rfl⟩ := Option.map_eq_some_iff.1 hx
    rw [List.mem_singleton] at ha
    subst ha
    refine ⟨d, hd, rfl, ?_⟩
    have hadm := Community.minElement_mem hm
    unfold admissibleMoves at hadm
    have htests := (List.mem_filter.1 hadm).2
    have hm' : m.emergency = false := hem
    rw [hm'] at htests
    simp only [Bool.not_false, Bool.and_true, Bool.and_eq_true, Bool.not_eq_true'] at htests
    exact htests.1.1
  · obtain ⟨hd, he⟩ := mem_rankedPairs hpair
    unfold pairSwap at hx
    dsimp only at hx
    split at hx
    · cases hx
    · rename_i hrest
      rw [not_or, not_or, Bool.not_eq_true, Bool.not_eq_true] at hrest
      split at hx
      · cases hx
      · split at hx
        · cases hx
          rcases List.mem_pair.1 ha with rfl | rfl
          · exact ⟨d, hd, rfl, hrest.2.1⟩
          · exact ⟨e, he, rfl, hrest.2.2⟩
        · cases hx

/-- The actions of a migration that are no emergencies, on the state the intake left. -/
theorem optimize_rested {proposal : SolverProposal} (hno : proposal.actions = []) (hn : Named s) {a : PlacementAction}
    (ha : a ∈ (optimize s input proposal).1.actions) (hem : a.emergency = false) :
    a.identity.tid ∈ s.identities ∧ cooling s input a.identity.tid = false := by
  unfold optimize at ha
  dsimp only at ha
  split at ha
  · have ha' : a ∈ proposal.actions := ha
    rw [hno] at ha'
    cases ha'
  · have hmem : a ∈ ((potentials s input (adjacencyOf (s.edges.entries.map Prod.snd)) (currentLoads s input.hardware)
        (ranked s input (adjacencyOf (s.edges.entries.map Prod.snd)) (currentLoads s input.hardware)
          proposal.migrationBudget)).foldl (selectPotential s input _ proposal.migrationBudget)
            { loads := currentLoads s input.hardware }).actions := ha
    rcases mem_select hmem with h | ⟨x, hx, ha⟩
    · cases h
    · obtain ⟨d, hd, hid, hcool⟩ := potential_rested hx ha hem
      have hknown := hn.known d.tid (mem_ranked hd).1
      obtain ⟨i, hi⟩ := OrdMap.mem_iff.1 hknown
      have hident : identityOf s d.tid = i := by
        unfold identityOf
        rw [OrdMap.getD, hi]
        rfl
      rw [hid, hident, hn.keyed _ _ hi]
      exact ⟨hknown, hcool⟩

/-- **Everything a `propose` does to the records of the moves**: a proposal that waits is returned as it is, and otherwise
the threads are as the intake left them and an action is a pin, an emergency, or of a thread that does not cool. -/
theorem propose_moves (hn : Named s) (h : propose s input = .ok (p, s')) :
    (s.outstanding = some p ∧ s' = s) ∨
    (s.outstanding = none ∧ Named s' ∧ s'.memo = (intake s input).1.memo ∧
      (s'.outstanding = none ∨ s'.outstanding = some p) ∧
      ∀ a ∈ p.actions, a.initialPin = false → a.emergency = false →
        a.identity.tid ∈ s'.identities ∧ cooling (intake s input).1 input a.identity.tid = false) := by
  rcases propose_cases h with hsame | ⟨hnone, -, hphases⟩
  · exact Or.inl hsame
  · have hi := intake_named hn input
    have hout : (intake s input).1.outstanding = none := (intake_outstanding s input).trans hnone
    refine Or.inr ⟨hnone, ?_⟩
    rcases hphases with ⟨-, rfl, rfl⟩ | ⟨-, hr⟩ | ⟨-, hr⟩ | ⟨-, hr⟩
    · exact ⟨hi, rfl, Or.inl hout, fun a ha => by cases ha⟩
    · have hrec := nodePlanning_records hr
      unfold records at hrec
      simp only [Prod.mk.injEq] at hrec
      refine ⟨⟨by rw [hrec.1, hrec.2.1]; exact hi.known, by rw [hrec.2.1]; exact hi.keyed⟩, ?_,
        Or.inl (hrec.2.2.2.2.2.2.trans hout), fun a ha => ?_⟩
      · unfold memo
        rw [hrec.2.1, hrec.2.2.2.2.2.1]
      · rw [(nodePlanning_same hr).1] at ha
        cases ha
    · obtain ⟨hnamed, hmemo, hwaits, hpins⟩ := initialPinning_moves (intake_actions s input) hr hi
      rw [hout] at hwaits
      refine ⟨hnamed, hmemo, hwaits, fun a ha hpin => ?_⟩
      rw [hpins a ha] at hpin
      cases hpin
    · have hsame := optimize_same (intake s input).1 input (intake s input).2
      have hwaits := optimize_outstanding (intake s input).1 input (intake s input).2
      have hrested : ∀ a ∈ p.actions, a.emergency = false → a.identity.tid ∈ (intake s input).1.identities ∧
          cooling (intake s input).1 input a.identity.tid = false := by
        intro a ha hem
        refine optimize_rested (intake_actions s input) hi ?_ hem
        rw [hr]
        exact ha
      rw [hr] at hsame hwaits
      rw [hout] at hwaits
      dsimp only at hsame hwaits
      refine ⟨?_, ?_, hwaits, fun a ha _ hem => ?_⟩
      · rw [hsame]
        exact ⟨hi.known, hi.keyed⟩
      · rw [hsame]
        rfl
      · rw [hsame]
        exact hrested a ha hem

end Propose

/-! ## Runs -/

namespace Recorded

/-- A call of a run with one dwell time whose times never go back. -/
def Timely (dwell : Nat) (w : Recorded) : Call → Prop
  | .propose input => input.options.minimumDwellNs = dwell ∧ (∀ time ∈ w.times, time ≤ input.nowNs) ∧ input.nowNs < 2 ^ 64
  | .commit nowNs _ => (∀ time ∈ w.times, time ≤ nowNs) ∧ nowNs < 2 ^ 64
  | _ => True

instance Timely.decidable (dwell : Nat) (w : Recorded) : ∀ call, Decidable (w.Timely dwell call)
  | .propose input => inferInstanceAs (Decidable (_ ∧ (∀ time ∈ w.times, time ≤ input.nowNs) ∧ _))
  | .commit nowNs _ => inferInstanceAs (Decidable ((∀ time ∈ w.times, time ≤ nowNs) ∧ _))
  | .discard => isTrue trivial
  | .removeThread _ => isTrue trivial
  | .reset => isTrue trivial

/-- What the run has on record is what happened, and an outstanding migration moves threads that had rested. -/
structure Rested (dwell : Nat) (w : Recorded) : Prop where
  named : Named w.solver
  last : ∀ t ∈ w.solver.identities, ∀ m, lastMoved t w.deeds = some m → w.solver.lastMovedNs.find? t = some m
  waits : ∀ p, w.solver.outstanding = some p → ∀ a ∈ p.actions, a.initialPin = false → a.emergency = false →
    ∀ m, lastMoved a.identity.tid w.deeds = some m → ∃ time ∈ w.times, m + dwell ≤ time

variable {w w' : Recorded} {dwell : Nat}

/-- A move was committed in a call of the past. -/
theorem lastMoved_mem_times {t : Tid} {m : Nat} : ∀ (past : List (IncrementalSolver × Call)),
    lastMoved t (past.flatMap deedsOf) = some m → m ∈ past.filterMap timeOf
  | [], h => by cases h
  | (s, call) :: past, h => by
    rw [List.flatMap_cons] at h
    cases call with
    | propose input =>
      rw [deedsOf, lastMoved_added] at h
      split at h
      · cases h
      · exact List.mem_cons_of_mem _ (lastMoved_mem_times past h)
    | commit nowNs tids =>
      rw [deedsOf, lastMoved_moved] at h
      split at h
      · cases h
        exact List.mem_cons_self
      · exact List.mem_cons_of_mem _ (lastMoved_mem_times past h)
    | discard => exact lastMoved_mem_times past h
    | removeThread tid => exact lastMoved_mem_times past h
    | reset => exact lastMoved_mem_times past h

/-- **The law of one `propose`.** -/
theorem Rested.propose (h : w.Rested dwell) {input : IncrementalInput} (hok : w.Timely dwell (.propose input))
    {p : SolverProposal} {s' : IncrementalSolver} (hp : w.solver.propose input = .ok (p, s')) :
    Rested dwell { solver := s', past := (w.solver, .propose input) :: w.past } ∧
    ∀ a ∈ p.actions, a.initialPin = false → a.emergency = false →
      ∀ m, lastMoved a.identity.tid (deedsOf (w.solver, .propose input) ++ w.deeds) = some m → m + dwell ≤ input.nowNs := by
  obtain ⟨hdwell, hafter, hrange⟩ := hok
  have hdeeds : deeds { solver := s', past := (w.solver, Call.propose input) :: w.past } =
      (w.solver.addedBy input).map .added ++ w.deeds := rfl
  have htimes : times { solver := s', past := (w.solver, Call.propose input) :: w.past } = input.nowNs :: w.times := rfl
  rcases propose_moves h.named hp with ⟨hout, rfl⟩ | ⟨hnone, hnamed, hmemo, hwaits, hcool⟩
  · -- the outstanding proposal comes back
    have hadded : w.solver.addedBy input = [] := by
      unfold addedBy
      rw [hout]
      rfl
    rw [hadded, List.map_nil, List.nil_append] at hdeeds
    have hlast : ∀ a ∈ p.actions, a.initialPin = false → a.emergency = false →
        ∀ m, lastMoved a.identity.tid w.deeds = some m → m + dwell ≤ input.nowNs := by
      intro a ha hpin hem m hm
      obtain ⟨time, htime, hle⟩ := h.waits p hout a ha hpin hem m hm
      exact hle.trans (hafter time htime)
    refine ⟨⟨h.named, fun t ht m hm => h.last t ht m (hdeeds ▸ hm), fun q hq a ha hpin hem m hm => ?_⟩,
      fun a ha hpin hem m hm => ?_⟩
    · rw [hout] at hq
      cases hq
      rw [hdeeds] at hm
      rw [htimes]
      exact ⟨input.nowNs, List.mem_cons_self, hlast a ha hpin hem m hm⟩
    · rw [deedsOf, hadded] at hm
      exact hlast a ha hpin hem m hm
  · have hadded : w.solver.addedBy input = w.solver.newcomers input := by
      unfold addedBy
      rw [hnone]
      rfl
    rw [hadded] at hdeeds
    have hlast : ∀ t ∈ s'.identities, ∀ m,
        lastMoved t ((w.solver.newcomers input).map .added ++ w.deeds) = some m → s'.lastMovedNs.find? t = some m := by
      intro t ht m hm
      rw [lastMoved_added] at hm
      split at hm
      · cases hm
      · rename_i hold
        have ht' : t ∈ (intake w.solver input).1.identities := by
          have hid : s'.identities.find? t = (intake w.solver input).1.identities.find? t :=
            congrArg Prod.fst (congrFun hmemo t)
          rw [OrdMap.mem_def, hid] at ht
          exact ht
        have hcarried := (congrFun hmemo t).trans (intake_carries w.solver input t hold (Or.inr ht'))
        have hknown : t ∈ w.solver.identities := by
          have hid : s'.identities.find? t = w.solver.identities.find? t := congrArg Prod.fst hcarried
          rw [OrdMap.mem_def, hid] at ht
          exact ht
        exact (congrArg Prod.snd hcarried).trans (h.last t hknown m hm)
    have hrests : ∀ a ∈ p.actions, a.initialPin = false → a.emergency = false →
        ∀ m, lastMoved a.identity.tid ((w.solver.newcomers input).map .added ++ w.deeds) = some m →
          m + dwell ≤ input.nowNs := by
      intro a ha hpin hem m hm
      obtain ⟨hin, hrest⟩ := hcool a ha hpin hem
      have hmoved : (intake w.solver input).1.lastMovedNs.find? a.identity.tid = some m :=
        (congrArg Prod.snd (congrFun hmemo a.identity.tid)).symm.trans (hlast _ hin m hm)
      have hle : m ≤ input.nowNs := by
        rw [lastMoved_added] at hm
        split at hm
        · cases hm
        · exact hafter m (lastMoved_mem_times _ hm)
      unfold cooling at hrest
      rw [hmoved] at hrest
      rw [decide_eq_false_iff_not, hdwell, subU64_of_le hle hrange] at hrest
      omega
    refine ⟨⟨hnamed, fun t ht m hm => hlast t ht m (hdeeds ▸ hm), fun q hq a ha hpin hem m hm => ?_⟩,
      fun a ha hpin hem m hm => ?_⟩
    · rcases hwaits with hw | hw
      · have hq' : s'.outstanding = some q := hq
        rw [hw] at hq'
        cases hq'
      · have hq' : s'.outstanding = some q := hq
        rw [hw] at hq'
        cases hq'
        rw [hdeeds] at hm
        rw [htimes]
        exact ⟨input.nowNs, List.mem_cons_self, hrests a ha hpin hem m hm⟩
    · rw [deedsOf, hadded] at hm
      exact hrests a ha hpin hem m hm

/-- What a commit writes down of the moves. -/
theorem lastMovedNs_commit {s : IncrementalSolver} {p : SolverProposal} (h : s.outstanding = some p) (nowNs : Nat)
    (tids : OrdSet Tid) (t : Tid) : (s.commit p nowNs tids).lastMovedNs.find? t =
      if t ∈ s.movedBy tids then some nowNs else s.lastMovedNs.find? t := by
  have hfold : ∀ (actions : List PlacementAction) (s : IncrementalSolver),
      (actions.foldl (commitAction nowNs tids) s).lastMovedNs.find? t =
        if t ∈ (actions.filter (fun a => commits tids a.identity.tid && decide (a.fromCpu ≠ a.targetCpu))).map
          (·.identity.tid) then some nowNs else s.lastMovedNs.find? t := by
    intro actions
    induction actions with
    | nil => exact fun s => rfl
    | cons a actions ih =>
      intro s
      rw [List.foldl_cons, ih]
      have hone : (commitAction nowNs tids s a).lastMovedNs.find? t =
          if (commits tids a.identity.tid && decide (a.fromCpu ≠ a.targetCpu)) = true ∧ a.identity.tid = t then some nowNs
          else s.lastMovedNs.find? t := by
        unfold commitAction
        dsimp only
        by_cases hc : commits tids a.identity.tid = true
        · by_cases hm : a.fromCpu ≠ a.targetCpu
          · simp [hc, hm, OrdMap.find?_insert]
          · simp [hc, hm]
        · simp [hc]
      rw [hone, List.filter_cons]
      generalize actions.filter _ = rest
      generalize (commits tids a.identity.tid && decide (a.fromCpu ≠ a.targetCpu)) = taken
      cases taken with
      | false => simp
      | true =>
        by_cases ht : a.identity.tid = t
        · simp [ht]
        · simp [ht, Ne.symm ht]
  have hmoved : s.movedBy tids = (p.actions.filter (fun a =>
      commits tids a.identity.tid && decide (a.fromCpu ≠ a.targetCpu))).map (·.identity.tid) := by
    unfold movedBy
    rw [h]
    rfl
  have hsettle : ∀ s : IncrementalSolver, (settlePinning s).lastMovedNs = s.lastMovedNs := by
    intro s
    unfold settlePinning
    split <;> rfl
  rw [commit_eq h, hmoved, ← hfold p.actions s]
  show (settlePinning _).lastMovedNs.find? t = _
  rw [hsettle]
  rfl

/-- **Every call keeps the record true.** -/
theorem Rested.step (h : w.Rested dwell) {call : Call} (hok : w.Timely dwell call) (hstep : w.step call = some w') :
    w'.Rested dwell := by
  obtain ⟨s', hs', rfl⟩ := Option.map_eq_some_iff.1 hstep
  cases call with
  | propose input =>
    obtain ⟨⟨p, t⟩, hp, rfl⟩ := Option.map_eq_some_iff.1 hs'
    exact (h.propose hok (toOption_eq_some hp)).1
  | commit nowNs tids =>
    obtain ⟨p, hout, rfl⟩ := Option.map_eq_some_iff.1 hs'
    obtain ⟨hthreads, hids⟩ := identities_commit hout nowNs tids
    refine ⟨⟨by rw [hthreads, hids]; exact h.named.known, by rw [hids]; exact h.named.keyed⟩, fun t ht m hm => ?_,
      fun q hq => ?_⟩
    · have hm' : lastMoved t ((w.solver.movedBy tids).map (.moved · nowNs) ++ w.deeds) = some m := hm
      rw [lastMoved_moved] at hm'
      rw [lastMovedNs_commit hout]
      split
      · rename_i hin
        rw [if_pos hin] at hm'
        exact hm'
      · rename_i hin
        rw [if_neg hin] at hm'
        rw [hids] at ht
        exact h.last t ht m hm'
    · rw [commit_eq hout] at hq
      cases hq
  | discard =>
    obtain ⟨p, hout, rfl⟩ := Option.map_eq_some_iff.1 hs'
    have hnone : w.solver.discard p = { w.solver with outstanding := none } := by
      unfold IncrementalSolver.discard
      rw [if_pos (by rw [hout]; rfl)]
    rw [hnone]
    exact ⟨⟨h.named.known, h.named.keyed⟩, h.last, fun q hq => by cases hq⟩
  | removeThread tid =>
    cases hs'
    refine ⟨h.named.removeThread tid, fun t ht m hm => ?_, h.waits⟩
    obtain ⟨hin, hmemo⟩ := mem_removeThread ht
    exact (congrArg Prod.snd hmemo).trans (h.last t hin m hm)
  | reset =>
    cases hs'
    exact ⟨⟨fun t ht => absurd ht (OrdMap.notMem_empty t), fun t i hi => by cases hi⟩,
      fun t ht => absurd ht (OrdMap.notMem_empty t), fun q hq => by cases hq⟩

/-- **A migration that is no emergency moves threads that have rested for the dwell time**, both halves of a swap
included. -/
theorem migration_rests {shadow : Bool} {run : List Call}
    (hobeys : Run.Obeys step (Timely dwell) { solver := { shadow := shadow } } run)
    (hrun : Run.exec step { solver := { shadow := shadow } } run = some w) {input : IncrementalInput}
    (hok : w.Timely dwell (.propose input)) {p : SolverProposal} {s' : IncrementalSolver}
    (hp : w.solver.propose input = .ok (p, s')) {a : PlacementAction} (ha : a ∈ p.actions) (hpin : a.initialPin = false)
    (hem : a.emergency = false) {m : Nat}
    (hm : lastMoved a.identity.tid (deedsOf (w.solver, .propose input) ++ w.deeds) = some m) :
    m + dwell ≤ input.nowNs := by
  have hrested : w.Rested dwell := by
    refine hobeys.invariant (Rested dwell) (fun w call w' h hok hstep => h.step hok hstep) ?_ hrun
    exact ⟨⟨fun t ht => absurd ht (OrdMap.notMem_empty t), fun t i hi => by cases hi⟩,
      fun t ht => absurd ht (OrdMap.notMem_empty t), fun q hq => by cases hq⟩
  exact (hrested.propose hok hp).2 a ha hpin hem m hm

/-- The chain of three: thread 2 is moved to its heavier neighbour at time 2, and a dwell time later towards the other. -/
def restedRun : List Call :=
  chainRun (1 / 3) ++ [.propose { chain (1 / 3) chainEdges with nowNs := 2 }, .commit 2 ∅]

def restedInput : IncrementalInput :=
  { chain (1 / 3) [{ fromTid := 1, toTid := 2, score := 9 }] with nowNs := 60000000002 }

theorem migration_rests_returned : ∃ w p s', Run.exec step {} restedRun = some w ∧
    w.solver.propose restedInput = .ok (p, s') ∧ ∃ a ∈ p.actions, (a.identity.tid, a.fromCpu, a.targetCpu) = (2, 2, 0) ∧
      lastMoved 2 (deedsOf (w.solver, .propose restedInput) ++ w.deeds) = some 2 ∧ 2 + 60000000000 ≤ restedInput.nowNs := by
  have hobeys : Run.Obeys step (Timely 60000000000) {} restedRun := by decide +kernel
  have hsome : (Run.exec step {} restedRun).any (fun w => decide (w.Timely 60000000000 (.propose restedInput) ∧
      lastMoved 2 (deedsOf (w.solver, .propose restedInput) ++ w.deeds) = some 2) &&
      (match w.solver.propose restedInput with
        | .ok r => decide (∃ a ∈ r.1.actions, (a.identity.tid, a.fromCpu, a.targetCpu) = (2, 2, 0) ∧
            a.initialPin = false ∧ a.emergency = false)
        | .error _ => false)) = true := by decide +kernel
  obtain ⟨w, hexec, hw⟩ := (Option.any_eq_true _ _).1 hsome
  rw [Bool.and_eq_true, decide_eq_true_eq] at hw
  obtain ⟨⟨hok, hlast⟩, hr⟩ := hw
  cases hp : w.solver.propose restedInput with
  | error e =>
    rw [hp] at hr
    cases hr
  | ok r =>
    rw [hp] at hr
    obtain ⟨a, ha, hmove, hpin, hem⟩ := of_decide_eq_true hr
    have htid : a.identity.tid = 2 := congrArg Prod.fst hmove
    refine ⟨w, r.1, r.2, hexec, hp, a, ha, hmove, hlast, ?_⟩
    exact @migration_rests _ _ false _ hobeys hexec _ hok _ _ hp _ ha hpin hem _ (by rw [htid]; exact hlast)

end Recorded
end IncrementalSolver
end AffinityGraph
