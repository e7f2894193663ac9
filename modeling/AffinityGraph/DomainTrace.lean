import AffinityGraph.DomainRuns
import AffinityGraph.Streak
/-!
# DomainTrace — what a confirmation count says about the calls before it

`Traced` is the solver beside what has happened to it since its last reset.  The counts of `propose` are kept per family, per
pair of families and for the whole plan; each goes up in a call that speaks for its key and back to zero in any other, also
in one that does not see the key at all.  So each is the length of a streak (`Traced.count_eq_streak`), and a confirmed
family, pair or plan was so in each of the last calls (`Traced.confirmations_are_consecutive`).
-/
namespace AffinityGraph

open NumaDomainSolver

/-- One call of `propose`: the solver before it and what it was given. -/
structure Call where
  solver : NumaDomainSolver
  input : ProposeInput

/-- What the call returned. -/
def Call.proposal (c : Call) : NumaDomainProposal := proposalOf c.solver c.input

/-- A solver with its past since the last reset, the newest event first, each with the state before it. -/
structure Traced where
  solver : NumaDomainSolver := {}
  past : List (NumaDomainSolver × SolverEvent) := []

namespace Traced

def step (w : Traced) (e : SolverEvent) : Option Traced :=
  (solverStep w.solver e).map (fun s =>
    { solver := s
      past := match e with
        | .reset => []
        | _ => (w.solver, e) :: w.past })

def callOf : NumaDomainSolver × SolverEvent → Option Call
  | (s, .propose input) => some ⟨s, input⟩
  | _ => none

/-- The calls of `propose` since the last reset, the newest first. -/
def calls (w : Traced) : List Call := w.past.filterMap callOf

variable {w w' : Traced} {e : SolverEvent}

/-- A counter that is zero in a new solver and that only `propose` touches; `ok` are the calls for which the law is claimed. -/
structure Counter (ok : Call → Prop) (count : NumaDomainSolver → Int) (good : Call → Bool) : Prop where
  start : count {} = 0
  propose : ∀ s input, ok ⟨s, input⟩ → count (proposed s input) = if good ⟨s, input⟩ then count s + 1 else 0
  commit : ∀ s p nowNs tids s', NumaDomainSolver.commit s p nowNs tids = .ok s' → count s' = count s
  discard : ∀ s p, count (NumaDomainSolver.discard s p) = count s
  removeThread : ∀ s tid, count (NumaDomainSolver.removeThread s tid) = count s

/-- Every call of `propose` is one of `ok`. -/
def Calling (ok : Call → Prop) (w : Traced) : SolverEvent → Prop
  | .propose input => ok ⟨w.solver, input⟩
  | _ => True

variable {ok : Call → Prop} {count : NumaDomainSolver → Int} {good : Call → Bool}

theorem Counter.step (hc : Counter ok count good) (h : count w.solver = streak good w.calls) (hok : Calling ok w e)
    (hstep : w.step e = some w') : count w'.solver = streak good w'.calls := by
  obtain ⟨s, hs, rfl⟩ := Option.map_eq_some_iff.1 hstep
  cases e with
  | propose input =>
    obtain ⟨⟨p, t⟩, hp, rfl⟩ := Option.map_eq_some_iff.1 hs
    obtain ⟨-, -, rfl⟩ := propose_ok (toOption_eq_some hp)
    show count (proposed w.solver input) = ((streak good (⟨w.solver, input⟩ :: w.calls) : Nat) : Int)
    rw [hc.propose _ _ hok, streak, h]
    split <;> simp
  | commit nowNs tids =>
    obtain ⟨p, -, hcommit⟩ := Option.bind_eq_some_iff.1 hs
    exact (hc.commit _ _ _ _ _ (toOption_eq_some hcommit)).trans h
  | discard =>
    obtain ⟨p, -, rfl⟩ := Option.map_eq_some_iff.1 hs
    exact (hc.discard _ _).trans h
  | removeThread tid =>
    cases hs
    exact (hc.removeThread _ _).trans h
  | reset =>
    cases hs
    exact hc.start

/-- **The count of every state is a streak.** -/
theorem count_eq_streak (hc : Counter ok count good) {run : List SolverEvent} (hobeys : Run.Obeys step (Calling ok) {} run)
    (hrun : Run.exec step {} run = some w) : count w.solver = streak good w.calls :=
  hobeys.invariant (fun w : Traced => count w.solver = streak good w.calls)
    (fun _ _ _ h hok hstep => hc.step h hok hstep) hc.start hrun

/-- A count that a call reports, read over the calls up to and with it. -/
theorem lasting_of_count (hc : Counter ok count good) {run : List SolverEvent}
    (hobeys : Run.Obeys step (Calling ok) {} run) (hrun : Run.exec step {} run = some w) {input : ProposeInput}
    (hok : ok ⟨w.solver, input⟩) {n : Int} (hn : n ≤ count (proposed w.solver input)) :
    Lasting n.toNat (fun c => good c = true) (⟨w.solver, input⟩ :: w.calls) := by
  rw [← Streak.le_streak_iff]
  have hcount : count (proposed w.solver input) = streak good (⟨w.solver, input⟩ :: w.calls) := by
    rw [hc.propose _ _ hok, streak, count_eq_streak hc hobeys hrun]
    split <;> simp
  rw [hcount] at hn
  omega

/-- The law of a counter that holds for every call. -/
def EveryCall (_ : Call) : Prop := True

theorem obeys_everyCall (run : List SolverEvent) (w : Traced) : Run.Obeys step (Calling EveryCall) w run := by
  refine Run.Obeys.of_forall (fun w e => ?_) run w
  cases e <;> trivial

/-! ## Counters that a commit leaves alone -/

section Kept

variable {α : Type*} (read : NumaDomainSolver → α)

/-- What no part of a commit writes, a commit keeps. -/
theorem read_commit (hplacement : ∀ s placement, read { s with placement := placement } = read s)
    (hdomain : ∀ previous nowNs s d, read (commitDomain previous nowNs s d) = read s)
    (hclose : ∀ s domains generation outstanding,
      read { s with domains := domains, generation := generation, outstanding := outstanding } = read s)
    {s s' : NumaDomainSolver} {p : NumaDomainProposal} {nowNs : Nat} {tids : OrdSet Tid}
    (h : NumaDomainSolver.commit s p nowNs tids = .ok s') : read s' = read s := by
  unfold NumaDomainSolver.commit at h
  split at h
  · cases h
    rw [hclose, ← hplacement s (commitPlacement s.placement p tids)]
    exact Loop.foldl_keeps (fun t => read t = _) (fun t d ht => (hdomain _ _ t d).trans ht) p.domains rfl
  · cases h

theorem read_discard (hclose : ∀ s, read { s with outstanding := none } = read s) (s : NumaDomainSolver)
    (p : NumaDomainProposal) : read (NumaDomainSolver.discard s p) = read s := by
  unfold NumaDomainSolver.discard
  split
  · exact hclose s
  · rfl

end Kept

/-- The counts of `propose`. -/
def counts (s : NumaDomainSolver) : OrdMap String Int × OrdMap FamilyPair Int × (String × Int) :=
  (s.familyConfirmations, s.mergeConfirmations, (s.pendingSignature, s.globalPlanConfirmation))

/-- A counter that reads the counts. -/
theorem counter_of_counts (read : OrdMap String Int × OrdMap FamilyPair Int × (String × Int) → Int) {good : Call → Bool}
    (hstart : read (counts {}) = 0)
    (hpropose : ∀ s input, read (counts (proposed s input)) = if good ⟨s, input⟩ then read (counts s) + 1 else 0) :
    Counter EveryCall (fun s => read (counts s)) good where
  start := hstart
  propose := fun s input _ => hpropose s input
  commit := fun _ _ _ _ _ h => congrArg read
    (read_commit counts (fun _ _ => rfl) (fun _ _ _ _ => rfl) (fun _ _ _ _ => rfl) h)
  discard := fun s p => congrArg read (read_discard counts (fun _ => rfl) s p)
  removeThread := fun _ _ => rfl

/-! ## Families -/

/-- What the later stages of a call leave of a family's metric. -/
def settled (m : FamilyMetric) : String × Bool × Int × Bool := (m.name, m.cohesiveEligible, m.confirmation, m.cohesiveAnchor)

/-- The metrics of a later stage: those of the first, and at most empty ones besides. -/
structure Extends (first later : OrdMap String FamilyMetric) : Prop where
  kept : ∀ k m, first.find? k = some m → ∃ m', later.find? k = some m' ∧ settled m' = settled m
  rest : ∀ k m', later.find? k = some m' → (∃ m, first.find? k = some m ∧ settled m' = settled m) ∨ settled m' = settled {}

theorem Extends.refl (first : OrdMap String FamilyMetric) : Extends first first :=
  ⟨fun _ m h => ⟨m, h, rfl⟩, fun _ m h => Or.inl ⟨m, h, rfl⟩⟩

theorem Extends.update {first later : OrdMap String FamilyMetric} (h : Extends first later) (k : String)
    {f : FamilyMetric → FamilyMetric} (hf : ∀ m, settled (f m) = settled m) : Extends first (later.update k {} f) := by
  unfold OrdMap.update
  refine ⟨fun j m hj => ?_, fun j m' hj => ?_⟩
  · obtain ⟨m', hm', hset⟩ := h.kept j m hj
    rw [OrdMap.find?_insert]
    split
    · rename_i hkj
      subst hkj
      refine ⟨_, rfl, ?_⟩
      rw [hf, OrdMap.getD, hm']
      exact hset
    · exact ⟨m', hm', hset⟩
  · rw [OrdMap.find?_insert] at hj
    split at hj
    · rename_i hkj
      subst hkj
      rw [← Option.some.inj hj, hf, OrdMap.getD]
      cases hl : later.find? k with
      | none => exact Or.inr rfl
      | some m => exact h.rest k m hl
    · exact h.rest j m' hj

/-- The pairs of a call only mark its families. -/
theorem pairStage_extends (s : NumaDomainSolver) (input : ProposeInput) :
    Extends (metricStage s input) (pairStage s input).metrics := by
  unfold pairStage confirmPairs
  dsimp only
  refine Loop.foldl_keeps (Extends (metricStage s input)) (fun later e h => ?_) _ ?_
  · unfold markPending
    dsimp only
    split
    · refine Extends.update (Extends.update h _ ?_) _ ?_
      · exact fun m => rfl
      · exact fun m => rfl
    · exact h
  · refine Loop.foldl_keeps (fun st : PairState => Extends (metricStage s input) st.metrics) (fun st pair h => ?_) _
      (Extends.refl _)
    unfold confirmPair
    dsimp only
    refine Extends.update (Extends.update h _ ?_) _ ?_
    · exact fun m => rfl
    · exact fun m => rfl

theorem find?_metricStage {s : NumaDomainSolver} {input : ProposeInput} {k : String} {m : FamilyMetric}
    (h : (metricStage s input).find? k = some m) : m.name = k ∧
      m.confirmation = (if m.cohesiveEligible then s.familyConfirmations.getD k 0 + 1 else 0) ∧
      m.cohesiveAnchor = decide (input.options.familyStabilityConfirmations ≤ m.confirmation) := by
  unfold metricStage familyMetrics at h
  dsimp only at h
  rw [OrdMap.find?_mapVal] at h
  obtain ⟨members, -, rfl⟩ := Option.map_eq_some_iff.1 h
  exact ⟨rfl, rfl, rfl⟩

theorem mem_families {s : NumaDomainSolver} {input : ProposeInput} {m : FamilyMetric} (h : m ∈ (proposalOf s input).families) :
    (∃ k m₀, (metricStage s input).find? k = some m₀ ∧ settled m = settled m₀) ∨ settled m = settled {} := by
  obtain ⟨⟨k, m'⟩, hentry, rfl⟩ := List.mem_map.1 h
  have hfind := OrdMap.mem_entries.1 hentry
  rw [OrdMap.find?_mapVal] at hfind
  obtain ⟨m₁, hm₁, rfl⟩ := Option.map_eq_some_iff.1 hfind
  rcases (pairStage_extends s input).rest k m₁ hm₁ with ⟨m₀, hm₀, hset⟩ | hset
  · exact Or.inl ⟨k, m₀, hm₀, hset⟩
  · exact Or.inr hset

theorem exists_family_of_metric {s : NumaDomainSolver} {input : ProposeInput} {k : String} {m₀ : FamilyMetric}
    (h : (metricStage s input).find? k = some m₀) : ∃ m ∈ (proposalOf s input).families, settled m = settled m₀ := by
  obtain ⟨m₁, hm₁, hset⟩ := (pairStage_extends s input).kept k m₀ h
  refine ⟨markAnchor m₁, List.mem_map.2 ⟨(k, markAnchor m₁), OrdMap.mem_entries.2 ?_, rfl⟩, hset⟩
  rw [OrdMap.find?_mapVal, hm₁]
  rfl

/-- The call saw the family and found it eligible. -/
def Cohesive (name : String) (c : Call) : Prop :=
  ∃ m ∈ c.proposal.families, m.name = name ∧ m.cohesiveEligible = true

instance (name : String) (c : Call) : Decidable (Cohesive name c) :=
  inferInstanceAs (Decidable (∃ m ∈ c.proposal.families, m.name = name ∧ m.cohesiveEligible = true))

theorem cohesive_iff {s : NumaDomainSolver} {input : ProposeInput} {name : String} :
    Cohesive name ⟨s, input⟩ ↔ ∃ m, (metricStage s input).find? name = some m ∧ m.cohesiveEligible = true := by
  constructor
  · rintro ⟨m, hm, hname, helig⟩
    rcases mem_families hm with ⟨k, m₀, hm₀, hset⟩ | hset
    · unfold settled at hset
      simp only [Prod.mk.injEq] at hset
      have hk : k = name := by rw [← (find?_metricStage hm₀).1, ← hset.1, hname]
      subst hk
      exact ⟨m₀, hm₀, by rw [← hset.2.1]; exact helig⟩
    · unfold settled at hset
      simp only [Prod.mk.injEq] at hset
      rw [hset.2.1] at helig
      cases helig
  · rintro ⟨m₀, hm₀, helig⟩
    obtain ⟨m, hm, hset⟩ := exists_family_of_metric hm₀
    unfold settled at hset
    simp only [Prod.mk.injEq] at hset
    exact ⟨m, hm, hset.1.trans (find?_metricStage hm₀).1, hset.2.1.trans helig⟩

/-- What the sweep leaves of a family's count. -/
theorem getD_confirmFamilies (confirmations : OrdMap String Int) (metrics : OrdMap String FamilyMetric) (name : String) :
    (confirmFamilies confirmations metrics).getD name 0 = ((metrics.find? name).map (·.confirmation)).getD 0 := by
  have hlocal : Loop.Local (fun (c : OrdMap String Int) k => c.find? k) (fun e : String × FamilyMetric => e.1)
      (fun c e => c.insert e.1 e.2.confirmation) := fun c e k hk => OrdMap.find?_insert_ne _ _ hk
  unfold confirmFamilies OrdMap.getD
  cases hm : metrics.find? name with
  | none =>
    have hskip := hlocal.foldl_notMem (u := name) (l := metrics.entries) (s := confirmations.mapVal (fun _ _ => 0))
      (fun e he hk => by
        have hentry := OrdMap.mem_entries.1 (show (e.1, e.2) ∈ metrics.entries from he)
        rw [hk, hm] at hentry
        cases hentry)
    rw [hskip, OrdMap.find?_mapVal]
    cases confirmations.find? name <;> rfl
  | some m =>
    obtain ⟨pre, post, -, -, hat⟩ := hlocal.foldl_at metrics.nodup_keys (OrdMap.mem_entries.2 hm)
      (confirmations.mapVal (fun _ _ => 0))
    rw [hat, OrdMap.find?_insert_self]
    rfl

/-- **The count of a family**: up when the call finds it eligible, back to zero otherwise. -/
theorem family_counter (name : String) :
    Counter EveryCall (fun s => s.familyConfirmations.getD name 0) (fun c => decide (Cohesive name c)) := by
  refine counter_of_counts (fun x => x.1.getD name 0) rfl (fun s input => ?_)
  show (confirmFamilies s.familyConfirmations (metricStage s input)).getD name 0 = _
  rw [getD_confirmFamilies]
  by_cases hc : Cohesive name ⟨s, input⟩
  · obtain ⟨m, hm, helig⟩ := cohesive_iff.1 hc
    rw [if_pos (decide_eq_true hc), hm]
    show m.confirmation = _
    rw [(find?_metricStage hm).2.1, if_pos helig]
    rfl
  · rw [if_neg (by simpa using hc)]
    cases hm : (metricStage s input).find? name with
    | none => rfl
    | some m =>
      show m.confirmation = 0
      rw [(find?_metricStage hm).2.1, if_neg (fun helig => hc (cohesive_iff.2 ⟨m, hm, helig⟩))]

/-! ## Pairs -/

/-- The pair a metric is of. -/
def pairOf (q : FamilyPairMetric) : FamilyPair := toLex (q.left, q.right)

/-- The pairs of `done` have been through the loop. -/
structure Counted (s : NumaDomainSolver) (options : NumaDomainOptions) (done : List FamilyPair) (st : PairState) : Prop where
  metric : ∀ q ∈ st.familyPairs, pairOf q ∈ done ∧ st.mergeConfirmations.getD (pairOf q) 0 = q.confirmation ∧
    q.confirmation = (if q.qualifies then s.mergeConfirmations.getD (pairOf q) 0 + 1 else 0) ∧
    q.confirmed = decide (options.domainStabilityConfirmations ≤ q.confirmation)
  listed : ∀ pair ∈ done, ∃ q ∈ st.familyPairs, pairOf q = pair
  others : ∀ pair, pair ∉ done → st.mergeConfirmations.getD pair 0 = s.mergeConfirmations.getD pair 0

theorem Counted.confirmPair {s : NumaDomainSolver} {options : NumaDomainOptions} {done : List FamilyPair} {st : PairState}
    (h : Counted s options done st) {pair : FamilyPair} (hpair : pair ∉ done) (r : Relations) :
    Counted s options (pair :: done) (NumaDomainSolver.confirmPair options r st pair) := by
  unfold NumaDomainSolver.confirmPair
  dsimp only
  refine ⟨fun q hq => ?_, fun p hp => ?_, fun p hp => ?_⟩
  · rw [OrdMap.getD_insert]
    rcases List.mem_append.1 hq with hq | hq
    · obtain ⟨hdone, hcount, hrest⟩ := h.metric q hq
      have hne : pair ≠ pairOf q := fun heq => hpair (heq ▸ hdone)
      rw [if_neg hne]
      exact ⟨List.mem_cons_of_mem _ hdone, hcount, hrest⟩
    · rw [List.mem_singleton] at hq
      rw [hq]
      refine ⟨List.mem_cons_self, if_pos rfl, ?_, rfl⟩
      show _ = if _ then s.mergeConfirmations.getD pair 0 + 1 else 0
      rw [h.others pair hpair]
  · rcases List.mem_cons.1 hp with rfl | hp
    · exact ⟨_, List.mem_append_right _ (List.mem_singleton.2 rfl), rfl⟩
    · obtain ⟨q, hq, hqp⟩ := h.listed p hp
      exact ⟨q, List.mem_append_left _ hq, hqp⟩
  · rw [List.mem_cons, not_or] at hp
    rw [OrdMap.getD_insert, if_neg (Ne.symm hp.1)]
    exact h.others p hp.2

theorem Counted.foldl {s : NumaDomainSolver} {options : NumaDomainOptions} (r : Relations) :
    ∀ (l done : List FamilyPair) (st : PairState), (l ++ done).Nodup → Counted s options done st →
      ∃ done', (∀ p, p ∈ done' ↔ p ∈ l ∨ p ∈ done) ∧
        Counted s options done' (l.foldl (NumaDomainSolver.confirmPair options r) st)
  | [], done, st, _, h => ⟨done, fun p => by simp, h⟩
  | pair :: l, done, st, hn, h => by
    rw [List.cons_append, List.nodup_cons] at hn
    have hpair : pair ∉ done := fun hin => hn.1 (List.mem_append_right _ hin)
    have hperm : (l ++ pair :: done).Perm (pair :: (l ++ done)) := List.perm_middle
    obtain ⟨done', hdone, hc⟩ := Counted.foldl r l (pair :: done) _ (by rw [hperm.nodup_iff, List.nodup_cons]; exact hn)
      (h.confirmPair hpair r)
    refine ⟨done', fun p => ?_, hc⟩
    rw [hdone]
    simp only [List.mem_cons]
    tauto

/-- The pairs of a call, with their counts before and after it. -/
theorem pairStage_counted (s : NumaDomainSolver) (input : ProposeInput) :
    (∀ q ∈ (proposalOf s input).familyPairs,
      (pairStage s input).mergeConfirmations.getD (pairOf q) 0 = q.confirmation ∧
      q.confirmation = (if q.qualifies then s.mergeConfirmations.getD (pairOf q) 0 + 1 else 0) ∧
      q.confirmed = decide (input.options.domainStabilityConfirmations ≤ q.confirmation)) ∧
    ∀ pair, (∀ q ∈ (proposalOf s input).familyPairs, pairOf q ≠ pair) →
      (pairStage s input).mergeConfirmations.getD pair 0 = 0 := by
  let selected := selectFamilyEdges (relationStage input).cross input.options.familyEdgesPerFamily
  let st₀ : PairState :=
    { metrics := metricStage s input
      mergeConfirmations := s.mergeConfirmations
      mergePendingGrace := s.mergePendingGrace }
  have hstart : Counted s input.options [] st₀ := by
    refine ⟨fun q hq => ?_, fun p hp => ?_, fun p _ => rfl⟩
    · cases hq
    · cases hp
  obtain ⟨done, hdone, hc⟩ := Counted.foldl (relationStage input) selected.toList [] st₀
    (by rw [List.append_nil]; exact OrdMap.nodup_keys _) hstart
  have hsel : ∀ p, p ∈ done ↔ p ∈ selected := by
    intro p
    rw [hdone, OrdSet.mem_toList]
    simp
  have hcount : ∀ pair, (pairStage s input).mergeConfirmations.getD pair 0 =
      if pair ∈ selected then (selected.toList.foldl (NumaDomainSolver.confirmPair input.options (relationStage input))
        st₀).mergeConfirmations.getD pair 0 else 0 := by
    intro pair
    show OrdMap.getD (OrdMap.mapVal _ _) pair 0 = _
    rw [OrdMap.getD, OrdMap.find?_mapVal, OrdMap.getD]
    cases (selected.toList.foldl (NumaDomainSolver.confirmPair input.options (relationStage input))
        st₀).mergeConfirmations.find? pair with
    | none => simp
    | some c => rfl
  refine ⟨fun q hq => ?_, fun pair hpair => ?_⟩
  · obtain ⟨hin, hnow, hrest⟩ := hc.metric q hq
    rw [hcount, if_pos ((hsel _).1 hin)]
    exact ⟨hnow, hrest⟩
  · rw [hcount]
    split
    · rename_i hin
      obtain ⟨q, hq, hqp⟩ := hc.listed pair ((hsel pair).2 hin)
      exact absurd hqp (hpair q hq)
    · rfl

/-- The pair was among the selected edges of the call and qualified. -/
def Qualified (pair : FamilyPair) (c : Call) : Prop :=
  ∃ q ∈ c.proposal.familyPairs, pairOf q = pair ∧ q.qualifies = true

instance (pair : FamilyPair) (c : Call) : Decidable (Qualified pair c) :=
  inferInstanceAs (Decidable (∃ q ∈ c.proposal.familyPairs, pairOf q = pair ∧ q.qualifies = true))

/-- **The count of a pair**: up when the call selects it and it qualifies, back to zero otherwise. -/
theorem pair_counter (pair : FamilyPair) :
    Counter EveryCall (fun s => s.mergeConfirmations.getD pair 0) (fun c => decide (Qualified pair c)) := by
  refine counter_of_counts (fun x => x.2.1.getD pair 0) rfl (fun s input => ?_)
  show (pairStage s input).mergeConfirmations.getD pair 0 = _
  obtain ⟨hmetric, hothers⟩ := pairStage_counted s input
  by_cases hc : Qualified pair ⟨s, input⟩
  · obtain ⟨q, hq, hpair, hqual⟩ := hc
    obtain ⟨hnow, hconf, -⟩ := hmetric q hq
    rw [if_pos (decide_eq_true ⟨q, hq, hpair, hqual⟩), ← hpair, hnow, hconf, if_pos hqual]
    rfl
  · rw [if_neg (by simpa using hc)]
    by_cases hlisted : ∀ q ∈ (proposalOf s input).familyPairs, pairOf q ≠ pair
    · exact hothers pair hlisted
    · push Not at hlisted
      obtain ⟨q, hq, hpair⟩ := hlisted
      obtain ⟨hnow, hconf, -⟩ := hmetric q hq
      rw [← hpair, hnow, hconf, if_neg (fun hqual => hc ⟨q, hq, hpair, hqual⟩)]

/-! ## The plan -/

/-- The signature of what a call proposed. -/
def signature (c : Call) : String := planSignature c.proposal.domains

theorem signature_eq (s : NumaDomainSolver) (input : ProposeInput) :
    signature ⟨s, input⟩ = planSignature (planStage s input).1.domains := by
  show planSignature ((planStage s input).1.domains.map _) = _
  unfold planSignature
  rw [List.map_map]
  rfl

/-- **The count of a plan**: up when the call ends with the same signature, back to zero otherwise. -/
theorem plan_counter (sig : String) :
    Counter EveryCall (fun s => if s.pendingSignature = sig then s.globalPlanConfirmation else 0)
      (fun c => decide (signature c = sig)) := by
  refine counter_of_counts (fun x => if x.2.2.1 = sig then x.2.2.2 else 0) ?_ (fun s input => ?_)
  · show (if "" = sig then (0 : Int) else 0) = 0
    simp
  · show (if planSignature (planStage s input).1.domains = sig then planConfirmation s input else 0) =
      if decide (signature ⟨s, input⟩ = sig) = true then (if s.pendingSignature = sig then s.globalPlanConfirmation else 0) + 1
      else 0
    rw [signature_eq]
    by_cases hs : planSignature (planStage s input).1.domains = sig
    · rw [if_pos hs, if_pos (decide_eq_true hs)]
      unfold planConfirmation
      rw [hs]
      by_cases hp : sig = s.pendingSignature
      · rw [if_pos hp, if_pos hp.symm]
      · rw [if_neg hp, if_neg (Ne.symm hp)]
        rfl
    · rw [if_neg hs, if_neg (by simpa using hs)]

/-! ## Confirmed means consecutive -/

/-- **Confirmations are consecutive.**  In every run since the last reset: a family reported as a cohesive anchor was observed
and eligible in each of the last calls that its confirmation asks for, a confirmed pair was selected and qualified in each of
them, and a ready plan with domains has had its signature in each of them. -/
theorem confirmations_are_consecutive {run : List SolverEvent} (hrun : Run.exec step {} run = some w) {input : ProposeInput}
    {p : NumaDomainProposal} {s' : NumaDomainSolver} (hp : propose w.solver input = .ok (p, s')) :
    (∀ m ∈ p.families, m.cohesiveAnchor = true →
      Lasting input.options.familyStabilityConfirmations.toNat (Cohesive m.name) (⟨w.solver, input⟩ :: w.calls)) ∧
    (∀ q ∈ p.familyPairs, q.confirmed = true →
      Lasting input.options.domainStabilityConfirmations.toNat (Qualified (pairOf q)) (⟨w.solver, input⟩ :: w.calls)) ∧
    (p.ready = true → p.domains ≠ [] →
      Lasting input.options.planConfirmations.toNat (fun c => signature c = planSignature p.domains)
        (⟨w.solver, input⟩ :: w.calls)) := by
  obtain ⟨-, rfl, -⟩ := propose_ok hp
  refine ⟨fun m hm hanchor => ?_, fun q hq hconf => ?_, fun hready hne => ?_⟩
  · rcases mem_families hm with ⟨k, m₀, hm₀, hset⟩ | hset
    · unfold settled at hset
      simp only [Prod.mk.injEq] at hset
      obtain ⟨hname, -, hanchor₀⟩ := find?_metricStage hm₀
      rw [hset.2.2.2, hanchor₀, decide_eq_true_eq] at hanchor
      have hcount : (confirmFamilies w.solver.familyConfirmations (metricStage w.solver input)).getD k 0 = m₀.confirmation := by
        rw [getD_confirmFamilies, hm₀]
        rfl
      rw [← hcount] at hanchor
      have hlast := lasting_of_count (family_counter k) (obeys_everyCall run {}) hrun trivial hanchor
      rw [hset.1, hname]
      simpa only [decide_eq_true_eq] using hlast
    · unfold settled at hset
      simp only [Prod.mk.injEq] at hset
      rw [hset.2.2.2] at hanchor
      cases hanchor
  · obtain ⟨hnow, -, hconfirmed⟩ := (pairStage_counted w.solver input).1 q hq
    rw [hconfirmed, decide_eq_true_eq, ← hnow] at hconf
    have hlast := lasting_of_count (pair_counter (pairOf q)) (obeys_everyCall run {}) hrun trivial hconf
    simpa only [decide_eq_true_eq] using hlast
  · have hsig : planSignature (proposalOf w.solver input).domains = planSignature (planStage w.solver input).1.domains :=
      signature_eq w.solver input
    have hcount : input.options.planConfirmations ≤ (fun s : NumaDomainSolver =>
        if s.pendingSignature = planSignature (proposalOf w.solver input).domains then s.globalPlanConfirmation else 0)
        (proposed w.solver input) := by
      show _ ≤ if planSignature (planStage w.solver input).1.domains = planSignature (proposalOf w.solver input).domains
        then planConfirmation w.solver input else 0
      rw [if_pos hsig.symm]
      have hplan : planReady w.solver input = true := hready
      have hsome : (planStage w.solver input).1.domains ≠ [] := by
        intro hnil
        have hmap : (proposalOf w.solver input).domains = (planStage w.solver input).1.domains.map
            (fun d => { d with confirmation := planConfirmation w.solver input }) := rfl
        rw [hnil] at hmap
        exact hne hmap
      have hready' : ((planStage w.solver input).1.valid &&
          ((!(planStage w.solver input).1.domains.isEmpty &&
            decide (input.options.planConfirmations ≤ planConfirmation w.solver input)) ||
          ((planStage w.solver input).1.domains.isEmpty &&
            !(releasedBy w.solver.placement (planStage w.solver input).2).isEmpty))) = true := hplan
      have hfull : (planStage w.solver input).1.domains.isEmpty = false := by simpa using hsome
      rw [hfull] at hready'
      simpa using (Bool.and_eq_true_iff.1 hready').2
    have hlast := lasting_of_count (plan_counter _) (obeys_everyCall run {}) hrun trivial hcount
    simpa only [decide_eq_true_eq] using hlast

/-- One family of two related threads; a family has to be confirmed twice. -/
def oneFamily : ProposeInput where
  hardware := { cpus := [⟨0, 0, true⟩, ⟨1, 0, true⟩] }
  threads := [⟨⟨1, 1, 1⟩, "a", 1 / 2, 1, 0⟩, ⟨⟨1, 2, 1⟩, "a", 1 / 2, 1, 0⟩]
  edges := [{ fromTid := 1, toTid := 2, score := 1 }]
  options := { familyStabilityConfirmations := 2 }
  nowNs := 1000

/-- The second window in a row reports the family as an anchor. -/
theorem confirmations_are_consecutive_twice : ∃ w p s', Run.exec step {} [.propose oneFamily, .discard] = some w ∧
    propose w.solver oneFamily = .ok (p, s') ∧ ∃ m ∈ p.families, m.name = "a" ∧ m.cohesiveAnchor = true ∧
      Lasting 2 (Cohesive m.name) (⟨w.solver, oneFamily⟩ :: w.calls) := by
  have h : (Run.exec step {} [.propose oneFamily, .discard]).any (fun w => (propose w.solver oneFamily).toOption.any (fun x =>
      decide (∃ m ∈ x.1.families, m.name = "a" ∧ m.cohesiveAnchor = true))) = true := by decide +kernel
  obtain ⟨w, hw, h⟩ := (Option.any_eq_true _ _).1 h
  obtain ⟨⟨p, s'⟩, hp, h⟩ := (Option.any_eq_true _ _).1 h
  obtain ⟨m, hm, hname, hanchor⟩ := of_decide_eq_true h
  have hok := toOption_eq_some hp
  exact ⟨w, p, s', hw, hok, m, hm, hname, hanchor, (confirmations_are_consecutive hw hok).1 m hm hanchor⟩

end Traced
end AffinityGraph
