import AffinityGraph.BatchLoads
import AffinityGraph.Cooldown
import AffinityGraph.Decimal
import AffinityGraph.Streak
/-!
# Confirmations — how often a move was found before it is made

Every evaluation of the migration phase writes its choices' counters anew, so the counter of a choice is the number of
evaluations in a row that had it, the newest included.  It is kept under the text of the choice, and that text says
everything about the moves: their threads, where they come from and where they go.
-/
namespace AffinityGraph
namespace IncrementalSolver

/-! ## The key of a choice -/

/-- The threads of a choice, where each comes from and where it goes. -/
def Potential.moves (x : Potential) : List (ThreadIdentity × Int × Int) :=
  x.actions.map (fun a => (a.identity, a.fromCpu, a.targetCpu))

section Key

/-- The text of one action. -/
def actionText (a : PlacementAction) : String :=
  toString a.identity.tgid ++ ":" ++ toString a.identity.tid ++ ":" ++ toString a.identity.starttime ++ ":" ++
    toString a.fromCpu ++ ">" ++ toString a.targetCpu ++ ";"

theorem toList_actionText (a : PlacementAction) (rest : List Char) : (actionText a).toList ++ rest =
    (toString a.identity.tgid).toList ++ ':' :: ((toString a.identity.tid).toList ++ ':' ::
      ((toString a.identity.starttime).toList ++ ':' :: ((toString a.fromCpu).toList ++ '>' ::
        ((toString a.targetCpu).toList ++ ';' :: rest)))) := by
  unfold actionText
  simp only [String.toList_append, List.append_assoc]
  rfl

theorem actionText_inj {a b : PlacementAction} {rest rest' : List Char}
    (h : (actionText a).toList ++ rest = (actionText b).toList ++ rest') :
    (a.identity, a.fromCpu, a.targetCpu) = (b.identity, b.fromCpu, b.targetCpu) ∧ rest = rest' := by
  have hcolon : ¬ Decimal.Numeral ':' := by decide
  rw [toList_actionText, toList_actionText] at h
  obtain ⟨htgid, h⟩ := Decimal.int_inj hcolon h
  obtain ⟨htid, h⟩ := Decimal.int_inj hcolon h
  obtain ⟨hstart, h⟩ := Decimal.nat_inj hcolon h
  obtain ⟨hfrom, h⟩ := Decimal.int_inj (by decide) h
  obtain ⟨htarget, h⟩ := Decimal.int_inj (by decide) h
  have hidentity : a.identity = b.identity := by
    cases ha : a.identity
    cases hb : b.identity
    rw [ha, hb] at htgid htid hstart
    dsimp only at htgid htid hstart
    rw [htgid, htid, hstart]
  rw [hidentity, hfrom, htarget]
  exact ⟨rfl, h⟩

theorem actionTexts_inj : ∀ {l l' : List PlacementAction},
    l.flatMap (fun a => (actionText a).toList) = l'.flatMap (fun a => (actionText a).toList) →
    l.map (fun a => (a.identity, a.fromCpu, a.targetCpu)) = l'.map (fun a => (a.identity, a.fromCpu, a.targetCpu))
  | [], [], _ => rfl
  | [], b :: l', h => by
    rw [List.flatMap_cons, toList_actionText, List.flatMap_nil] at h
    simp at h
  | a :: l, [], h => by
    rw [List.flatMap_cons, toList_actionText, List.flatMap_nil] at h
    simp at h
  | a :: l, b :: l', h => by
    rw [List.flatMap_cons, List.flatMap_cons] at h
    obtain ⟨hab, hrest⟩ := actionText_inj h
    rw [List.map_cons, List.map_cons, hab, actionTexts_inj hrest]

/-- **Different moves have different counters.** -/
theorem moves_eq_of_key {x y : Potential} (h : x.key = y.key) : x.moves = y.moves := by
  have hkey : ∀ x : Potential, x.key.toList = x.actions.flatMap (fun a => (actionText a).toList) := by
    intro x
    show (String.join (x.actions.map actionText)).toList = _
    rw [String.toList_join, List.flatMap_map]
  refine actionTexts_inj ?_
  rw [← hkey, ← hkey, h]

end Key

/-! ## The evaluations -/

/-- A `propose` that gets as far as to the choices of the migration phase. -/
def Evaluates (s : IncrementalSolver) (input : IncrementalInput) : Prop :=
  s.outstanding = none ∧ (intake s input).1.phase = .optimizing ∧ (intake s input).2.migrationBudget ≠ 0

instance (s : IncrementalSolver) (input : IncrementalInput) : Decidable (Evaluates s input) :=
  inferInstanceAs (Decidable (_ ∧ _ ∧ _))

/-- The choices of a window. -/
def windowChoices (s : IncrementalSolver) (input : IncrementalInput) : List Potential :=
  choices (intake s input).1 input (intake s input).2.migrationBudget

/-- The choices a call evaluated. -/
def evaluationOf : IncrementalSolver × Call → Option (List Potential)
  | (s, .propose input) => if Evaluates s input then some (windowChoices s input) else none
  | _ => none

def isReset : Call → Bool
  | .reset => true
  | _ => false

/-- The evaluations since the last reset, the newest first. -/
def Recorded.evaluations (w : Recorded) : List (List Potential) :=
  (w.past.takeWhile (fun e => !isReset e.2)).filterMap evaluationOf

/-- An evaluation has a choice of that key. -/
def hasKey (key : String) (all : List Potential) : Bool := all.any (fun x => decide (x.key = key))

/-- The counters are those of the evaluations. -/
def Recorded.Counts (w : Recorded) : Prop :=
  ∀ key, w.solver.actionConfirmations.getD key 0 = (streak (hasKey key) w.evaluations : Int)

section Counters

variable {s s' : IncrementalSolver} {input : IncrementalInput} {p : SolverProposal}

/-- One turn of the counters. -/
theorem getD_nextConfirmations (s : IncrementalSolver) (all : List Potential) (key : String) :
    (nextConfirmations s all).getD key 0 = if hasKey key all then s.actionConfirmations.getD key 0 + 1 else 0 := by
  have hfold : ∀ (l : List Potential) (m : OrdMap String Int),
      (l.foldl (fun (m : OrdMap String Int) x => m.insert x.key (s.actionConfirmations.getD x.key 0 + 1)) m).getD key 0 =
        if hasKey key l then s.actionConfirmations.getD key 0 + 1 else m.getD key 0 := by
    intro l
    induction l with
    | nil => exact fun m => rfl
    | cons x l ih =>
      intro m
      rw [List.foldl_cons, ih]
      unfold hasKey
      rw [List.any_cons]
      by_cases hx : x.key = key
      · rw [hx, OrdMap.getD_insert, if_pos rfl]
        simp
      · rw [OrdMap.getD_insert, if_neg hx]
        simp [hx]
  exact hfold all ∅

/-- What only an evaluation writes: the counters of the choices and the cursor of the rotating scan. -/
def evaluated (s : IncrementalSolver) : OrdMap String Int × Nat := (s.actionConfirmations, s.scanCursor)

theorem evaluated_intake (s : IncrementalSolver) (input : IncrementalInput) :
    evaluated (intake s input).1 = evaluated s := by
  have htaken : evaluated (takenIn s input).solver = evaluated s := by
    unfold takenIn
    refine Loop.foldl_keeps (fun st : Intake => evaluated st.solver = evaluated s) (fun st th h => ?_) _ ?_
    · have hforget : evaluated (forgetReused st.solver th.identity) = evaluated st.solver := by
        rcases forgetReused_cases st.solver th.identity with ⟨he, -⟩ | ⟨he, -⟩
        · rw [he]
        · rw [he]
          rfl
      unfold takeIn
      dsimp only
      split
      · exact hforget.trans h
      · split <;> exact hforget.trans h
    · exact dropStale_keeps (P := fun t => evaluated t = evaluated s) (fun t tid h => h) _ _ rfl
  have hphase : evaluated (settlePhase input (takenIn s input)) = evaluated s := by
    unfold settlePhase
    dsimp only
    split <;> split <;> first | exact htaken | (split <;> exact htaken)
  have hhot : evaluated (settleHotspots input (settlePhase input (takenIn s input))).1 = evaluated s := by
    unfold settleHotspots
    dsimp only
    split
    · split
      · split <;> exact hphase
      · split <;> exact hphase
    · exact hphase
  rw [intake_eq]
  dsimp only
  split
  · exact hhot
  · split
    · exact hhot
    · exact hhot

theorem actionConfirmations_intake (s : IncrementalSolver) (input : IncrementalInput) :
    (intake s input).1.actionConfirmations = s.actionConfirmations := congrArg Prod.fst (evaluated_intake s input)

theorem evaluated_nodePlanning {proposal : SolverProposal} {r : SolverProposal × IncrementalSolver}
    (h : nodePlanning s input proposal = .ok r) : evaluated r.2 = evaluated s := by
  unfold nodePlanning at h
  cases hplan : planNodes s input with
  | error e =>
    rw [hplan] at h
    cases h
  | ok plan =>
    rw [hplan] at h
    cases h
    show evaluated (confirmNodes s input proposal _).2 = _
    rcases confirmNodes_cases s input proposal
      (swapPasses s input (communityOrder s).ordered input.options.initialNodePasses plan) with he | he
    · rw [he]
      rfl
    · rw [he]
      rfl

/-- Where the rotating scan goes on after a window. -/
def nextCursor (s : IncrementalSolver) (input : IncrementalInput) : Nat :=
  if s.threads.isEmpty then s.scanCursor else (s.scanCursor + input.options.rotatingScanSize) % s.threads.size

theorem evaluated_optimize {proposal : SolverProposal} (h : proposal.migrationBudget ≠ 0) :
    evaluated (optimize s input proposal).2 =
      (nextConfirmations s (choices s input proposal.migrationBudget), nextCursor s input) := by
  refine Prod.ext (optimize_selection h).2 ?_
  show (optimize s input proposal).2.scanCursor = nextCursor s input
  unfold optimize
  dsimp only
  rw [if_neg h]
  unfold offer
  dsimp only
  split <;> rfl

/-- **What a `propose` does to the counters and the cursor**: an evaluation writes them, and nothing else touches
them. -/
theorem evaluated_propose (h : propose s input = .ok (p, s')) :
    evaluated s' =
      if Evaluates s input then
        (nextConfirmations (intake s input).1 (windowChoices s input), nextCursor (intake s input).1 input)
      else evaluated s := by
  have hintake := evaluated_intake s input
  rcases propose_cases h with ⟨hout, rfl⟩ | ⟨hnone, -, hphases⟩
  · rw [if_neg (fun he => ?_)]
    rw [he.1] at hout
    cases hout
  · rcases hphases with ⟨hphase, -, rfl⟩ | ⟨hphase, hr⟩ | ⟨hphase, hr⟩ | ⟨hphase, hr⟩
    · rw [if_neg (fun he => by rw [he.2.1] at hphase; cases hphase)]
      exact hintake
    · rw [if_neg (fun he => by rw [he.2.1] at hphase; cases hphase)]
      exact (evaluated_nodePlanning hr).trans hintake
    · rw [if_neg (fun he => by rw [he.2.1] at hphase; cases hphase)]
      exact (congrArg evaluated (initialPinning_same hr).1).trans hintake
    · by_cases hzero : (intake s input).2.migrationBudget = 0
      · rw [if_neg (fun he => he.2.2 hzero)]
        unfold optimize at hr
        dsimp only at hr
        rw [if_pos hzero] at hr
        cases hr
        exact hintake
      · rw [if_pos ⟨hnone, hphase, hzero⟩]
        have hsel : evaluated (optimize (intake s input).1 input (intake s input).2).2 = _ := evaluated_optimize hzero
        rw [hr] at hsel
        exact hsel

theorem evaluated_commit (h : s.outstanding = some p) (nowNs : Nat) (tids : OrdSet Tid) :
    evaluated (s.commit p nowNs tids) = evaluated s := by
  have hsettle : ∀ s : IncrementalSolver, evaluated (settlePinning s) = evaluated s := by
    intro s
    unfold settlePinning
    split <;> rfl
  rw [commit_eq h]
  show evaluated (settlePinning _) = _
  rw [hsettle, committed_same]
  rfl

theorem evaluated_discard (p : SolverProposal) : evaluated (s.discard p) = evaluated s := by
  unfold discard
  split <;> rfl

end Counters

/-! ## The selection -/

/-- What a selection takes is an emergency or has its confirmations. -/
theorem selects_taken (s : IncrementalSolver) (input : IncrementalInput) (budget : Nat) : ∀ (turns : List Potential)
    (st : Batch), ∃ chosen : List Potential, chosen.Sublist turns ∧
      (turns.foldl (selects s input budget) st).actions = st.actions ++ chosen.flatMap (·.actions) ∧
      ∀ x ∈ chosen, x.emergency = true ∨
        input.options.proposalConfirmations ≤ (nextConfirmations s (choices s input budget)).getD x.key 0
  | [], st => ⟨[], List.Sublist.refl _, by simp, fun x hx => by cases hx⟩
  | x :: turns, st => by
    rw [List.foldl_cons]
    obtain ⟨chosen, hsub, hactions, hconfirmed⟩ := selects_taken s input budget turns (selects s input budget st x)
    rcases selects_cases s input budget st x with he | ⟨htaken, -, hx, -⟩
    · rw [he] at hactions ⊢
      exact ⟨chosen, hsub.trans (List.sublist_cons_self x turns), hactions, hconfirmed⟩
    · refine ⟨x :: chosen, hsub.cons_cons x, ?_, fun y hy => ?_⟩
      · rw [hactions, htaken, List.flatMap_cons, List.append_assoc]
      · rcases List.mem_cons.1 hy with rfl | hy
        · exact hx
        · exact hconfirmed y hy

/-! ## Every run -/

namespace Recorded

variable {w w' : Recorded} {input : IncrementalInput} {p : SolverProposal} {s' : IncrementalSolver}

theorem evaluations_cons (s : IncrementalSolver) (call : Call) (past : List (IncrementalSolver × Call))
    (h : isReset call = false) :
    evaluations { solver := s', past := (s, call) :: past } =
      (evaluationOf (s, call)).toList ++ evaluations { solver := s, past := past } := by
  unfold evaluations
  rw [List.takeWhile_cons, if_pos (by rw [h]; rfl), List.filterMap_cons]
  cases evaluationOf (s, call) with
  | none => rfl
  | some all => rfl

/-- **Every call keeps the counters those of the evaluations.** -/
theorem Counts.step (h : w.Counts) {call : Call} (hstep : w.step call = some w') : w'.Counts := by
  obtain ⟨s', hs', rfl⟩ := Option.map_eq_some_iff.1 hstep
  intro key
  have hkept : isReset call = false → evaluationOf (w.solver, call) = none →
      s'.actionConfirmations = w.solver.actionConfirmations →
      s'.actionConfirmations.getD key 0 =
        (streak (hasKey key) (evaluations { solver := s', past := (w.solver, call) :: w.past }) : Int) := by
    intro hreset hno hsame
    rw [evaluations_cons w.solver call w.past hreset, hno, hsame]
    exact h key
  cases call with
  | propose input =>
    cases hr : w.solver.propose input with
    | error e =>
      rw [IncrementalSolver.step, hr] at hs'
      cases hs'
    | ok r =>
      rw [IncrementalSolver.step, hr] at hs'
      cases hs'
      have hcounters : evaluated r.2 = _ := evaluated_propose (p := r.1) hr
      by_cases he : Evaluates w.solver input
      · rw [if_pos he] at hcounters
        rw [evaluations_cons w.solver _ w.past rfl]
        have hone : evaluationOf (w.solver, .propose input) = some (windowChoices w.solver input) := if_pos he
        rw [hone, Option.toList_some, List.singleton_append, streak]
        show (evaluated r.2).1.getD key 0 = _
        rw [hcounters, getD_nextConfirmations, actionConfirmations_intake, h key]
        split
        · rw [Nat.cast_succ]
        · rfl
      · rw [if_neg he] at hcounters
        exact hkept rfl (if_neg he) (congrArg Prod.fst hcounters)
  | commit nowNs tids =>
    obtain ⟨p, hout, rfl⟩ := Option.map_eq_some_iff.1 hs'
    exact hkept rfl rfl (congrArg Prod.fst (evaluated_commit hout nowNs tids))
  | discard =>
    obtain ⟨p, hout, rfl⟩ := Option.map_eq_some_iff.1 hs'
    exact hkept rfl rfl (congrArg Prod.fst (evaluated_discard p))
  | removeThread tid =>
    cases hs'
    exact hkept rfl rfl rfl
  | reset =>
    cases hs'
    rfl

/-- **Confirmed moves only**: a choice that is taken and is no emergency was a choice of each of the evaluations before,
as many as the confirmations ask for; and no two different groups of moves share a counter. -/
theorem moves_confirmed {shadow : Bool} {run : List Call}
    (hrun : Run.exec step { solver := { shadow := shadow } } run = some w) (hnone : w.solver.outstanding = none)
    (hp : w.solver.propose input = .ok (p, s')) (hphase : p.phase = .optimizing) :
    (∃ chosen : List Potential, chosen.Sublist (windowChoices w.solver input) ∧ p.actions = chosen.flatMap (·.actions) ∧
      ∀ x ∈ chosen, x.emergency = false → Lasting (input.options.proposalConfirmations - 1).toNat
        (fun all => ∃ y ∈ all, y.moves = x.moves) w.evaluations) ∧
    ∀ x y : Potential, x.key = y.key → x.moves = y.moves := by
  refine ⟨?_, fun x y => moves_eq_of_key⟩
  have hcounts : w.Counts := Run.exec_keeps Counts (fun w call w' h hstep => h.step hstep) (fun key => rfl) hrun
  rcases propose_cases hp with ⟨hout, -⟩ | ⟨-, -, hphases⟩
  · rw [hnone] at hout
    cases hout
  rcases hphases with ⟨-, rfl, -⟩ | ⟨-, hr⟩ | ⟨-, hr⟩ | ⟨-, hr⟩
  · cases hphase
  · exact absurd hphase (nodePlanning_phase hr)
  · rw [(initialPinning_header hr).1] at hphase
    cases hphase
  · by_cases hzero : (intake w.solver input).2.migrationBudget = 0
    · unfold optimize at hr
      dsimp only at hr
      rw [if_pos hzero] at hr
      cases hr
      exact ⟨[], List.nil_sublist _, rfl, fun x hx => by cases hx⟩
    · have hactions : (optimize (intake w.solver input).1 input (intake w.solver input).2).1.actions = _ :=
        (optimize_selection hzero).1
      obtain ⟨chosen, hsub, htaken, hconfirmed⟩ := selects_taken (intake w.solver input).1 input
        (intake w.solver input).2.migrationBudget (windowChoices w.solver input)
        { loads := currentLoads (intake w.solver input).1 input.hardware }
      rw [hr] at hactions
      refine ⟨chosen, hsub, hactions.trans htaken, fun x hx hem => ?_⟩
      have hkey : hasKey x.key (windowChoices w.solver input) = true :=
        List.any_eq_true.2 ⟨x, hsub.subset hx, decide_eq_true rfl⟩
      have hcount := (hconfirmed x hx).resolve_left (by rw [hem]; exact Bool.false_ne_true)
      have hnext := getD_nextConfirmations (intake w.solver input).1 (windowChoices w.solver input) x.key
      rw [if_pos hkey, actionConfirmations_intake, hcounts x.key] at hnext
      have hstreak : (input.options.proposalConfirmations - 1).toNat ≤ streak (hasKey x.key) w.evaluations := by
        have : input.options.proposalConfirmations ≤ _ := hcount.trans_eq hnext
        omega
      refine Streak.Lasting.imp (Streak.le_streak_iff.1 hstreak) (fun all hall => ?_)
      obtain ⟨y, hy, he⟩ := List.any_eq_true.1 hall
      exact ⟨y, hy, moves_eq_of_key (of_decide_eq_true he)⟩

/-- The chain of three with two confirmations: the move of thread 2 waits for the second evaluation that has it. -/
def patientInput : IncrementalInput :=
  { chain (1 / 3) chainEdges with options := { (chain (1 / 3) chainEdges).options with proposalConfirmations := 2 } }

def patientRun : List Call := chainRun (1 / 3) ++ [.propose patientInput]

theorem moves_confirmed_patient : ∃ w p s', Run.exec step {} patientRun = some w ∧
    w.solver.propose patientInput = .ok (p, s') ∧
    p.actions.map (fun a => (a.identity.tid, a.fromCpu, a.targetCpu)) = [(2, 1, 2)] ∧
    ∃ chosen : List Potential, p.actions = chosen.flatMap (·.actions) ∧
      ∀ x ∈ chosen, x.emergency = false → Lasting 1 (fun all => ∃ y ∈ all, y.moves = x.moves) w.evaluations := by
  have hsome : (Run.exec step {} patientRun).any (fun w => w.solver.outstanding.isNone &&
      (match w.solver.propose patientInput with
        | .ok r => decide (r.1.phase = .optimizing ∧
            r.1.actions.map (fun a => (a.identity.tid, a.fromCpu, a.targetCpu)) = [(2, 1, 2)])
        | .error _ => false)) = true := by decide +kernel
  obtain ⟨w, hexec, hw⟩ := (Option.any_eq_true _ _).1 hsome
  rw [Bool.and_eq_true] at hw
  obtain ⟨hnone, hr⟩ := hw
  cases hp : w.solver.propose patientInput with
  | error e =>
    rw [hp] at hr
    cases hr
  | ok r =>
    rw [hp] at hr
    obtain ⟨hphase, hactions⟩ := of_decide_eq_true hr
    obtain ⟨⟨chosen, -, htaken, hlasting⟩, -⟩ :=
      moves_confirmed hexec (Option.isNone_iff_eq_none.1 hnone) hp hphase
    exact ⟨w, r.1, r.2, hexec, hp, hactions, chosen, htaken, hlasting⟩

end Recorded

end IncrementalSolver
end AffinityGraph
