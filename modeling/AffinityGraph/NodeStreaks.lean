import AffinityGraph.DomainPlan
import AffinityGraph.DomainTrace
/-!
# NodeStreaks — the two counters of a domain's nodes

A domain that wants more nodes, or fewer, has to want it in several calls.  The counters are written where a candidate has
nodes from before and is valid so far; a call without such a candidate leaves them alone, so a domain that was gone for a
while resumes its count.  `Traced.node_decision_is_consecutive` has the runs in which the counts are streaks, and
`Traced.count_survives_absence` one in which they are not.
-/
namespace AffinityGraph

namespace NumaDomainSolver

/-- More nodes, or fewer. -/
inductive Side where
  | expand
  | shrink
  deriving DecidableEq

namespace Side

def all : List Side := [.expand, .shrink]

theorem mem_all (side : Side) : side ∈ all := by cases side <;> simp [all]

def decision : Side → NodeDecision
  | .expand => .expanded
  | .shrink => .shrunk

def confirmations (options : NumaDomainOptions) : Side → Int
  | .expand => options.expandConfirmations
  | .shrink => options.shrinkConfirmations

/-- The counter of a side in the solver. -/
def counter (s : NumaDomainSolver) : Side → OrdMap String Int
  | .expand => s.expandConfirmations
  | .shrink => s.shrinkConfirmations

/-- The same in the loop over the candidates. -/
def counting (st : CandidateState) : Side → OrdMap String Int
  | .expand => st.expandConfirmations
  | .shrink => st.shrinkConfirmations

/-- The condition of a side, for a domain that has nodes. -/
def wanted (input : ProposeInput) (s : NumaDomainSolver) (id : String) (demand : ℚ) (required previous : List Int) : Side → Bool
  | .expand =>
    let mask := maskForNodes input.hardware previous
    let utilization := if mask.isEmpty then 1 else demand / mask.length
    decide (previous.length < required.length) && decide (input.options.expandRatio < utilization)
  | .shrink =>
    let mask := maskForNodes input.hardware previous
    let utilization := if mask.isEmpty then 1 else demand / mask.length
    decide (required.length < previous.length) && decide (utilization < input.options.shrinkRatio) &&
      decide (input.options.minimumDwellNs ≤ subU64 input.nowNs (s.lastChangedNs.getD id 0))

end Side

/-- The count of a side, after the lifecycle has looked at a domain. -/
def Side.read (x : List Int × NodeDecision × Int × Int) : Side → Int
  | .expand => x.2.2.1
  | .shrink => x.2.2.2

section Lifecycle

variable (input : ProposeInput) (s : NumaDomainSolver) (id : String) (demand : ℚ) (required previous : List Int)

/-- The decision, once it is known what is wanted and what the counts are. -/
def decided (expand shrink : Bool) (e h : Int) : List Int × NodeDecision × Int × Int :=
  if expand && decide (input.options.expandConfirmations ≤ e) then (required, .expanded, e, h)
  else if shrink && decide (input.options.shrinkConfirmations ≤ h) then (required, .shrunk, e, h)
  else
    (previous,
      (if required = previous then .stable else if expand then .heldExpandPending
        else if shrink then .heldShrinkPending else .heldExisting), e, h)

theorem decideNodes_eq (e h : Int) : decideNodes input s id demand required previous e h =
    decided input required previous (Side.expand.wanted input s id demand required previous)
      (Side.shrink.wanted input s id demand required previous)
      (if Side.expand.wanted input s id demand required previous then e + 1 else 0)
      (if Side.shrink.wanted input s id demand required previous then h + 1 else 0) := rfl

theorem decided_cases (expand shrink : Bool) (e h : Int) :
    decided input required previous expand shrink e h = (required, .expanded, e, h) ∧ expand = true ∧
        input.options.expandConfirmations ≤ e ∨
      decided input required previous expand shrink e h = (required, .shrunk, e, h) ∧ shrink = true ∧
        input.options.shrinkConfirmations ≤ h ∨
      ∃ decision ∈ [NodeDecision.stable, .heldExpandPending, .heldShrinkPending, .heldExisting],
        decided input required previous expand shrink e h = (previous, decision, e, h) := by
  unfold decided
  split
  · rename_i hc
    rw [Bool.and_eq_true, decide_eq_true_eq] at hc
    exact Or.inl ⟨rfl, hc⟩
  · split
    · rename_i hc
      rw [Bool.and_eq_true, decide_eq_true_eq] at hc
      exact Or.inr (Or.inl ⟨rfl, hc⟩)
    · refine Or.inr (Or.inr ⟨_, ?_, rfl⟩)
      split
      · simp
      · split
        · simp
        · split <;> simp

/-- **What the lifecycle decides**: each count goes up or back to zero, and a decision rests on its own count. -/
theorem decideNodes_spec (counts : Side → Int) (side : Side) :
    side.read (decideNodes input s id demand required previous (counts .expand) (counts .shrink)) =
        (if side.wanted input s id demand required previous then counts side + 1 else 0) ∧
      ((decideNodes input s id demand required previous (counts .expand) (counts .shrink)).2.1 = side.decision →
        side.wanted input s id demand required previous = true ∧
        side.confirmations input.options ≤
          side.read (decideNodes input s id demand required previous (counts .expand) (counts .shrink))) := by
  rw [decideNodes_eq]
  rcases decided_cases input required previous (Side.expand.wanted input s id demand required previous)
    (Side.shrink.wanted input s id demand required previous)
    (if Side.expand.wanted input s id demand required previous then counts .expand + 1 else 0)
    (if Side.shrink.wanted input s id demand required previous then counts .shrink + 1 else 0)
    with ⟨heq, hwanted, hle⟩ | ⟨heq, hwanted, hle⟩ | ⟨decision, hmem, heq⟩
  · rw [heq]
    cases side with
    | expand => exact ⟨rfl, fun _ => ⟨hwanted, hle⟩⟩
    | shrink => exact ⟨rfl, fun h => by cases h⟩
  · rw [heq]
    cases side with
    | expand => exact ⟨rfl, fun h => by cases h⟩
    | shrink => exact ⟨rfl, fun _ => ⟨hwanted, hle⟩⟩
  · rw [heq]
    refine ⟨by cases side <;> rfl, fun h => ?_⟩
    have hdec : decision = side.decision := h
    rw [hdec] at hmem
    cases side <;> simp [Side.decision] at hmem

end Lifecycle

/-- What the loop finds out about one candidate. -/
structure Evaluation where
  id : String
  /-- it has nodes from before and is valid so far -/
  follows : Bool
  /-- it follows and meets the condition -/
  wants : Side → Bool
  valid : Bool

section Loop

variable (input : ProposeInput) (s : NumaDomainSolver) (families : OrdMap String (List ThreadDemand))
  (cross : OrdMap FamilyPair ℚ)

/-- The evaluation of a component by the loop body of `addCandidate`. -/
def evaluate (st : CandidateState) (component : List String) : Evaluation :=
  let names := component.insertionSort (· ≤ ·)
  let id := domainId names
  let members := names.flatMap (fun n => families.getD n [])
  let demand := (members.map (·.demand)).sum
  let choice := chooseNodes input.hardware demand input.options.capacityRatio members input.threads st.placedDomains
    names cross
  let previous := s.domainNodes.getD id []
  let follows := !previous.isEmpty &&
    !decide (input.options.maximumThreadsPerDomain < ((members.map (·.identity.tid)).insertionSort (· ≤ ·)).length) &&
    !choice.nodes.isEmpty
  { id := id
    follows := follows
    wants := fun side => follows && side.wanted input s id demand choice.nodes previous
    valid := (addCandidate input s families cross st component).domains.getLast?.any (·.valid) }

/-- The evaluations of a call, in order. -/
def evaluations : CandidateState → List (List String) → List Evaluation
  | _, [] => []
  | st, component :: comps =>
    evaluate input s families cross st component ::
      evaluations (addCandidate input s families cross st component) comps

/-- One more window for a count. -/
def tally (side : Side) (n : Int) (ev : Evaluation) : Int := if ev.wants side then n + 1 else 0

variable {input s families cross}

/-- The candidate a component becomes, and what the lifecycle had to do with it. -/
theorem addCandidate_lifecycle (st : CandidateState) (component : List String) :
    ∃ d demand required previous,
      (addCandidate input s families cross st component).domains = st.domains ++ [d] ∧
      d.id = (evaluate input s families cross st component).id ∧
      (∀ side, (evaluate input s families cross st component).wants side =
        ((evaluate input s families cross st component).follows && side.wanted input s d.id demand required previous)) ∧
      ((evaluate input s families cross st component).follows = true →
        d.nodeDecision = (decideNodes input s d.id demand required previous (st.expandConfirmations.getD d.id 0)
          (st.shrinkConfirmations.getD d.id 0)).2.1 ∧
        ∀ side : Side, side.counting (addCandidate input s families cross st component) =
          (side.counting st).insert d.id (side.read (decideNodes input s d.id demand required previous
            (st.expandConfirmations.getD d.id 0) (st.shrinkConfirmations.getD d.id 0)))) ∧
      ((evaluate input s families cross st component).follows = false →
        (d.nodeDecision = .none ∨ d.nodeDecision = .initial) ∧
        ∀ side : Side, side.counting (addCandidate input s families cross st component) = side.counting st) := by
  cases hf : (evaluate input s families cross st component).follows with
  | true =>
    unfold evaluate at hf ⊢
    unfold addCandidate
    dsimp only at hf ⊢
    simp only [hf, if_true]
    refine ⟨_, _, _, _, rfl, rfl, fun side => rfl, fun _ => ⟨rfl, fun side => ?_⟩, fun h => ?_⟩
    · cases side <;> rfl
    · cases h
  | false =>
    unfold evaluate at hf ⊢
    unfold addCandidate
    dsimp only at hf ⊢
    simp only [hf, Bool.false_eq_true, if_false]
    refine ⟨_, 0, [], [], rfl, rfl, fun side => rfl, fun h => ?_, fun _ => ⟨?_, fun side => ?_⟩⟩
    · exact h.elim
    · dsimp only
      split
      · exact Or.inl rfl
      · exact Or.inr rfl
    · cases side <;> rfl

/-- **What one candidate does to the counts**, and what a decision about its nodes rests on. -/
theorem addCandidate_evaluate (st : CandidateState) (component : List String) (side : Side) :
    ∃ d, (addCandidate input s families cross st component).domains = st.domains ++ [d] ∧
      d.id = (evaluate input s families cross st component).id ∧
      (∀ x, (side.counting (addCandidate input s families cross st component)).getD x 0 =
        if (evaluate input s families cross st component).id = x ∧ (evaluate input s families cross st component).follows = true
        then tally side ((side.counting st).getD x 0) (evaluate input s families cross st component)
        else (side.counting st).getD x 0) ∧
      (d.nodeDecision = side.decision → (evaluate input s families cross st component).wants side = true ∧
        side.confirmations input.options ≤ (side.counting (addCandidate input s families cross st component)).getD d.id 0) := by
  obtain ⟨d, demand, required, previous, hd, hid, hwants, hyes, hno⟩ := addCandidate_lifecycle st component
  refine ⟨d, hd, hid, ?_⟩
  cases hf : (evaluate input s families cross st component).follows with
  | false =>
    obtain ⟨hdec, hcount⟩ := hno hf
    rw [hcount side]
    refine ⟨fun x => by simp, fun h => ?_⟩
    rcases hdec with hdec | hdec <;> rw [hdec] at h <;> cases side <;> cases h
  | true =>
    obtain ⟨hdec, hcount⟩ := hyes hf
    have hspec := decideNodes_spec input s d.id demand required previous
      (fun side => (side.counting st).getD d.id 0) side
    rw [hcount side]
    unfold tally
    rw [hwants side, hf, Bool.true_and, ← hid]
    refine ⟨fun x => ?_, fun h => ?_⟩
    · rw [OrdMap.getD_insert]
      by_cases hx : d.id = x
      · subst hx
        rw [if_pos rfl, if_pos ⟨rfl, rfl⟩]
        exact hspec.1
      · rw [if_neg hx, if_neg (fun h => hx h.1)]
    · rw [OrdMap.getD_insert, if_pos rfl]
      exact hspec.2 (hdec.symm.trans h)

theorem follows_of_wants {ev : Evaluation} {side : Side} : ∀ (comps : List (List String)) (st : CandidateState),
    ev ∈ evaluations input s families cross st comps → ev.wants side = true → ev.follows = true
  | component :: comps, st, hev, hwants => by
    rcases List.mem_cons.1 hev with rfl | hev
    · obtain ⟨_, _, _, _, -, -, hw, -⟩ := addCandidate_lifecycle st component
      rw [hw, Bool.and_eq_true] at hwants
      exact hwants.1
    · exact follows_of_wants comps _ hev hwants

/-- A count no candidate of the call is about. -/
theorem foldl_counting_notMem (side : Side) {x : String} : ∀ (comps : List (List String)) (st : CandidateState),
    x ∉ (evaluations input s families cross st comps).map (·.id) →
      (side.counting (comps.foldl (addCandidate input s families cross) st)).getD x 0 = (side.counting st).getD x 0
  | [], _, _ => rfl
  | component :: comps, st, hx => by
    rw [evaluations, List.map_cons, List.mem_cons, not_or] at hx
    obtain ⟨-, -, -, hcount, -⟩ := addCandidate_evaluate st component side
    rw [List.foldl_cons, foldl_counting_notMem side comps _ hx.2, hcount, if_neg (fun h => hx.1 h.1.symm)]

/-- **A count after the loop**, where no two candidates share their id. -/
theorem foldl_counting (side : Side) {ev : Evaluation} : ∀ (comps : List (List String)) (st : CandidateState),
    ((evaluations input s families cross st comps).map (·.id)).Nodup → ev ∈ evaluations input s families cross st comps →
      (side.counting (comps.foldl (addCandidate input s families cross) st)).getD ev.id 0 =
        if ev.follows then tally side ((side.counting st).getD ev.id 0) ev else (side.counting st).getD ev.id 0
  | component :: comps, st, hn, hev => by
    rw [evaluations, List.map_cons, List.nodup_cons] at hn
    obtain ⟨-, -, -, hcount, -⟩ := addCandidate_evaluate st component side
    rw [List.foldl_cons]
    rcases List.mem_cons.1 hev with rfl | hev
    · rw [foldl_counting_notMem side comps _ hn.1, hcount]
      simp only [true_and]
    · have hne : (evaluate input s families cross st component).id ≠ ev.id :=
        fun h => hn.1 (h ▸ List.mem_map_of_mem hev)
      have hkeep := hcount ev.id
      rw [if_neg (fun h => hne h.1)] at hkeep
      rw [foldl_counting side comps _ hn.2 hev, hkeep]

/-- **What a decision of the loop rests on.** -/
theorem foldl_decision (side : Side) {d : NumaDomain} : ∀ (comps : List (List String)) (st : CandidateState),
    ((evaluations input s families cross st comps).map (·.id)).Nodup →
      d ∈ (comps.foldl (addCandidate input s families cross) st).domains → d.nodeDecision = side.decision →
      d ∈ st.domains ∨ side.confirmations input.options ≤
        (side.counting (comps.foldl (addCandidate input s families cross) st)).getD d.id 0
  | [], _, _, hd, _ => Or.inl hd
  | component :: comps, st, hn, hd, hdec => by
    rw [evaluations, List.map_cons, List.nodup_cons] at hn
    obtain ⟨d₀, hdomains, hid, -, hrests⟩ := addCandidate_evaluate st component side
    rcases foldl_decision side comps _ hn.2 hd hdec with hin | hle
    · rw [hdomains] at hin
      rcases List.mem_append.1 hin with hin | hin
      · exact Or.inl hin
      · rw [List.mem_singleton] at hin
        subst hin
        refine Or.inr ?_
        rw [List.foldl_cons, foldl_counting_notMem side comps _ (hid ▸ hn.1)]
        exact (hrests hdec).2
    · exact Or.inr hle

end Loop

end NumaDomainSolver

open NumaDomainSolver

namespace Call

/-- The candidates of a call, as the loop found them. -/
def evaluations (c : Call) : List Evaluation :=
  NumaDomainSolver.evaluations c.input c.solver (byFamily c.input.threads) (relationStage c.input).cross
    { expandConfirmations := c.solver.expandConfirmations, shrinkConfirmations := c.solver.shrinkConfirmations }
    ((components (anchorNames (pairStage c.solver c.input).metrics)
      (pairStage c.solver c.input).confirmedSeeds).entries.map Prod.snd)

/-- The domain was a valid candidate of the call and met the condition of the side. -/
def Wished (side : Side) (id : String) (c : Call) : Prop :=
  ∃ ev ∈ c.evaluations, ev.id = id ∧ ev.wants side = true ∧ ev.valid = true

instance (side : Side) (id : String) (c : Call) : Decidable (Wished side id c) :=
  inferInstanceAs (Decidable (∃ ev ∈ c.evaluations, ev.id = id ∧ ev.wants side = true ∧ ev.valid = true))

/-- The call breaks no count behind the back of the lifecycle: its candidates have ids of their own, those that meet a
condition are valid, and every domain with a count is a candidate whose nodes are looked at. -/
def Unbroken (c : Call) : Prop :=
  (c.evaluations.map (·.id)).Nodup ∧
  (∀ ev ∈ c.evaluations, ∀ side ∈ Side.all, ev.wants side = true → ev.valid = true) ∧
  ∀ side ∈ Side.all, ∀ e ∈ (Side.counter c.solver side).entries, e.2 ≠ 0 → ∃ ev ∈ c.evaluations, ev.id = e.1 ∧ ev.follows = true

instance (c : Call) : Decidable c.Unbroken := inferInstanceAs (Decidable (_ ∧ _ ∧ _))

end Call

namespace Traced

variable {w : Traced}

theorem counter_proposed (side : Side) (s : NumaDomainSolver) (input : ProposeInput) :
    side.counter (proposed s input) = side.counting (candidateStage s input) := by cases side <;> rfl

instance (ok : Call → Prop) [DecidablePred ok] (w : Traced) : (e : SolverEvent) → Decidable (Calling ok w e)
  | .propose input => inferInstanceAs (Decidable (ok ⟨w.solver, input⟩))
  | .commit _ _ | .discard | .removeThread _ | .reset => isTrue trivial

/-- **The count of a side is one of a counter**, as long as no call breaks it. -/
theorem node_counter (side : Side) (id : String) :
    Counter Call.Unbroken (fun s => (side.counter s).getD id 0) (fun c => decide (c.Wished side id)) where
  start := by cases side <;> rfl
  propose := by
    intro s input hok
    obtain ⟨hn, hvalid, hcounted⟩ := hok
    have hstart : side.counting { expandConfirmations := s.expandConfirmations, shrinkConfirmations := s.shrinkConfirmations } =
        side.counter s := by cases side <;> rfl
    rw [counter_proposed]
    by_cases hin : ∃ ev ∈ Call.evaluations ⟨s, input⟩, ev.id = id ∧ ev.follows = true
    · obtain ⟨ev, hev, rfl, hfollows⟩ := hin
      have hcount := foldl_counting side _ _ hn hev
      rw [if_pos hfollows, hstart, tally] at hcount
      refine hcount.trans ?_
      by_cases hwants : ev.wants side = true
      · rw [if_pos hwants, if_pos (decide_eq_true ⟨ev, hev, rfl, hwants, hvalid ev hev side side.mem_all hwants⟩)]
      · rw [if_neg hwants, if_neg]
        rw [decide_eq_true_eq]
        rintro ⟨ev', hev', hid, hwants', -⟩
        rw [List.inj_on_of_nodup_map hn hev' hev hid] at hwants'
        exact hwants hwants'
    · have hzero : (side.counter s).getD id 0 = 0 := by
        unfold OrdMap.getD
        cases hfind : (side.counter s).find? id with
        | none => rfl
        | some n =>
          by_contra hne
          exact hin (hcounted side side.mem_all (id, n) (OrdMap.mem_entries.2 hfind) hne)
      rw [if_neg]
      · by_cases hid : id ∈ (Call.evaluations ⟨s, input⟩).map (·.id)
        · obtain ⟨ev, hev, rfl⟩ := List.mem_map.1 hid
          have hcount := foldl_counting side _ _ hn hev
          rw [if_neg (fun hf => hin ⟨ev, hev, rfl, hf⟩), hstart, hzero] at hcount
          exact hcount
        · have hcount := foldl_counting_notMem side _ _ hid
          rw [hstart, hzero] at hcount
          exact hcount
      · rw [decide_eq_true_eq]
        rintro ⟨ev, hev, rfl, hwants, -⟩
        exact hin ⟨ev, hev, rfl, follows_of_wants _ _ hev hwants⟩
  commit := fun s p nowNs tids s' h => by
    rw [read_commit side.counter (fun _ _ => ?_) (fun _ _ _ _ => ?_) (fun _ _ _ _ => ?_) h]
    all_goals cases side <;> rfl
  discard := fun s p => by
    rw [read_discard side.counter (fun _ => ?_) s p]
    cases side <;> rfl
  removeThread := fun _ _ => by cases side <;> rfl

/-- **A decision about nodes is consecutive** in every run whose calls break no count: a domain that is expanded, or shrunk,
was a valid candidate that met the condition in each of the last calls that the decision asks for. -/
theorem node_decision_is_consecutive {run : List SolverEvent} (hobeys : Run.Obeys step (Calling Call.Unbroken) {} run)
    (hrun : Run.exec step {} run = some w) {input : ProposeInput} (hok : Call.Unbroken ⟨w.solver, input⟩)
    {p : NumaDomainProposal} {s' : NumaDomainSolver} (hp : propose w.solver input = .ok (p, s')) {side : Side} {d : NumaDomain}
    (hd : d ∈ p.domains) (hdec : d.nodeDecision = side.decision) :
    Lasting (side.confirmations input.options).toNat (Call.Wished side d.id) (⟨w.solver, input⟩ :: w.calls) := by
  obtain ⟨-, rfl, -⟩ := propose_ok hp
  obtain ⟨c, hc, he⟩ := exists_held (fun d => (d.nodeDecision, d.id)) (fun _ _ _ _ => rfl) hd
  simp only [Prod.mk.injEq] at he
  obtain ⟨hdec', hid⟩ := he
  rw [hdec] at hdec'
  rcases mem_heldStage_cases hc with hc | ⟨old, -, -, rfl⟩
  · have hcount : side.confirmations input.options ≤ (side.counter (proposed w.solver input)).getD c.id 0 := by
      rw [counter_proposed]
      rcases foldl_decision side _ _ hok.1 hc hdec'.symm with hnil | hle
      · exact absurd hnil List.not_mem_nil
      · exact hle
    have hlast := lasting_of_count (node_counter side c.id) hobeys hrun hok hcount
    rw [hid]
    simpa only [decide_eq_true_eq] using hlast
  · -- a domain carried over by its dwell has a decision of its own
    cases side <;> cases hdec'

/-- A family of two threads on a machine of two nodes with two CPUs each; an expansion has to be confirmed twice. -/
def growing (threads : List ThreadDemand) : ProposeInput where
  hardware := { cpus := [⟨0, 0, true⟩, ⟨1, 0, true⟩, ⟨2, 1, true⟩, ⟨3, 1, true⟩] }
  threads := threads
  edges := [{ fromTid := 1, toTid := 2, score := 1 }]
  options :=
    { familyStabilityConfirmations := 1
      planConfirmations := 1
      expandConfirmations := 2 }
  nowNs := 1000

def twoThreads (demand : ℚ) : List ThreadDemand :=
  [⟨⟨1, 1, 1⟩, "a", demand / 2, 1, 0⟩, ⟨⟨1, 2, 1⟩, "a", demand / 2, 1, 0⟩]

/-- The family is placed on one node, and has more demand than that from then on. -/
def placedOnce : List SolverEvent :=
  [.propose (growing (twoThreads (3 / 2))), .commit 1000 ∅, .propose (growing (twoThreads (19 / 10))), .discard]

/-- The same, with a window in which the family has next to no demand and is only carried over. -/
def placedTwice : List SolverEvent := placedOnce ++ [.propose (growing (twoThreads (1 / 2))), .discard]

theorem node_decision_is_consecutive_twice : ∃ w p s', Run.exec step {} placedOnce = some w ∧
    propose w.solver (growing (twoThreads (19 / 10))) = .ok (p, s') ∧ ∃ d ∈ p.domains, d.nodeDecision = Side.expand.decision ∧
      Lasting 2 (Call.Wished .expand d.id) (⟨w.solver, growing (twoThreads (19 / 10))⟩ :: w.calls) := by
  have hobeys : Run.Obeys step (Calling Call.Unbroken) {} placedOnce := by decide +kernel
  have h : (Run.exec step {} placedOnce).any (fun w => decide (Call.Unbroken ⟨w.solver, growing (twoThreads (19 / 10))⟩) &&
      (propose w.solver (growing (twoThreads (19 / 10)))).toOption.any (fun x =>
        decide (∃ d ∈ x.1.domains, d.nodeDecision = Side.expand.decision))) = true := by decide +kernel
  obtain ⟨w, hw, h⟩ := (Option.any_eq_true _ _).1 h
  obtain ⟨hok, h⟩ := Bool.and_eq_true_iff.1 h
  obtain ⟨⟨p, s'⟩, hp, h⟩ := (Option.any_eq_true _ _).1 h
  obtain ⟨d, hd, hdec⟩ := of_decide_eq_true h
  have hp' := toOption_eq_some hp
  exact ⟨w, p, s', hw, hp', d, hd, hdec, node_decision_is_consecutive hobeys hw (of_decide_eq_true hok) hp' hd hdec⟩

/-- **A count survives a window without its domain**: the family is expanded in the window after one in which it was no
candidate, although an expansion has to be confirmed in two windows in a row. -/
theorem count_survives_absence : ∃ w p s', Run.exec step {} placedTwice = some w ∧
    propose w.solver (growing (twoThreads (19 / 10))) = .ok (p, s') ∧ ∃ d ∈ p.domains, d.nodeDecision = Side.expand.decision ∧
      ¬ Lasting 2 (Call.Wished .expand d.id) (⟨w.solver, growing (twoThreads (19 / 10))⟩ :: w.calls) := by
  have h : (Run.exec step {} placedTwice).any (fun w => (propose w.solver (growing (twoThreads (19 / 10)))).toOption.any (fun x =>
      decide (∃ d ∈ x.1.domains, d.nodeDecision = Side.expand.decision ∧
        ¬ Lasting 2 (Call.Wished .expand d.id) (⟨w.solver, growing (twoThreads (19 / 10))⟩ :: w.calls)))) = true := by
    decide +kernel
  obtain ⟨w, hw, h⟩ := (Option.any_eq_true _ _).1 h
  obtain ⟨⟨p, s'⟩, hp, h⟩ := (Option.any_eq_true _ _).1 h
  exact ⟨w, p, s', hw, toOption_eq_some hp, of_decide_eq_true h⟩

end Traced
end AffinityGraph
