import AffinityGraph.DwellEvidence
import AffinityGraph.NodeChoices
/-!
# ShrinkDwell — how long a domain has had the nodes it gives up

A domain may shrink once its nodes are as old as the dwell.  Their age is read off a map that every commit of the domain
compares with and may write, whatever the commit was about.  Here it is compared with the history of the commits itself:
the map is never older than the last change in it (`Traced.dated_of_run`), so no shrink comes too early.
-/
namespace AffinityGraph

/-! ## When a value last changed -/

namespace History

variable {τ α : Type*} [DecidableEq α]

/-- When a value last changed, by what was on record at which time, the newest first.  The oldest record is a change. -/
def lastChange : List (τ × α) → Option τ
  | [] => none
  | (time, value) :: older => if older.head?.map Prod.snd = some value then lastChange older else some time

theorem lastChange_same {time : τ} {value : α} {older : List (τ × α)} (h : older.head?.map Prod.snd = some value) :
    lastChange ((time, value) :: older) = lastChange older := by
  rw [lastChange, if_pos h]

theorem lastChange_new {time : τ} {value : α} {older : List (τ × α)} (h : older.head?.map Prod.snd ≠ some value) :
    lastChange ((time, value) :: older) = some time := by
  rw [lastChange, if_neg h]

/-- **The last change**: another value came before it, or none, and no other value after it. -/
theorem lastChange_eq_some {time : τ} : ∀ {history : List (τ × α)},
    lastChange history = some time ↔ ∃ newer value older, history = newer ++ (time, value) :: older ∧
      (∀ x ∈ newer, x.2 = value) ∧ older.head?.map Prod.snd ≠ some value
  | [] => by
    simp [lastChange]
  | (t, v) :: older => by
    by_cases hv : older.head?.map Prod.snd = some v
    · rw [lastChange_same hv, lastChange_eq_some]
      constructor
      · rintro ⟨newer, value, rest, rfl, hnewer, hrest⟩
        refine ⟨(t, v) :: newer, value, rest, rfl, fun x hx => ?_, hrest⟩
        rcases List.mem_cons.1 hx with rfl | hx
        · cases newer with
          | nil => exact (Option.some.inj hv).symm
          | cons y newer => exact (Option.some.inj hv).symm.trans (hnewer y List.mem_cons_self)
        · exact hnewer x hx
      · rintro ⟨newer, value, rest, heq, hnewer, hrest⟩
        cases newer with
        | nil =>
          cases heq
          exact absurd hv hrest
        | cons y newer =>
          cases heq
          exact ⟨newer, value, rest, rfl, fun x hx => hnewer x (List.mem_cons_of_mem _ hx), hrest⟩
    · rw [lastChange_new hv]
      constructor
      · rintro h
        cases h
        exact ⟨[], v, older, rfl, fun x hx => absurd hx List.not_mem_nil, hv⟩
      · rintro ⟨newer, value, rest, heq, hnewer, hrest⟩
        cases newer with
        | nil =>
          cases heq
          rfl
        | cons y newer =>
          cases heq
          have hvalue : v = value := hnewer (t, v) List.mem_cons_self
          refine absurd ?_ hv
          rw [hvalue]
          cases newer with
          | nil => rfl
          | cons z newer => exact congrArg some (hnewer z (by simp))

end History

namespace NumaDomainSolver

/-! ## What a commit does to the record of an id -/

/-- **A commit dates what it changes**: where it leaves the time of an id alone, it leaves its nodes alone. -/
theorem foldl_commitDomain_dated (previous : List String) (nowNs : Nat) (id : String) (domains : List NumaDomain)
    (s : NumaDomainSolver) :
    (domains.foldl (commitDomain previous nowNs) s).lastChangedNs.find? id = some nowNs ∨
      (domains.foldl (commitDomain previous nowNs) s).lastChangedNs.find? id = s.lastChangedNs.find? id ∧
      (domains.foldl (commitDomain previous nowNs) s).domainNodes.getD id [] = s.domainNodes.getD id [] := by
  refine Loop.foldl_keeps (fun t : NumaDomainSolver => t.lastChangedNs.find? id = some nowNs ∨
    t.lastChangedNs.find? id = s.lastChangedNs.find? id ∧ t.domainNodes.getD id [] = s.domainNodes.getD id [])
    (fun t d ht => ?_) domains (Or.inr ⟨rfl, rfl⟩)
  unfold commitDomain
  dsimp only
  by_cases hid : d.id = id
  · subst hid
    by_cases hnodes : t.domainNodes.getD d.id [] = d.targetNodes
    · rw [if_neg (not_not.2 hnodes), OrdMap.getD_insert, if_pos rfl, ← hnodes]
      exact ht
    · rw [if_pos hnodes]
      exact Or.inl (OrdMap.find?_insert_self _ _ _)
  · have htime : ∀ m : OrdMap String Nat, (m.insert d.id nowNs).find? id = m.find? id :=
      fun m => OrdMap.find?_insert_ne _ _ hid
    rw [OrdMap.getD_insert, if_neg hid]
    split
    · rw [htime]
      exact ht
    · exact ht

theorem commit_dated {s s' : NumaDomainSolver} {p : NumaDomainProposal} {nowNs : Nat} {tids : OrdSet Tid}
    (h : commit s p nowNs tids = .ok s') (id : String) : s'.lastChangedNs.find? id = some nowNs ∨
      s'.lastChangedNs.find? id = s.lastChangedNs.find? id ∧ s'.domainNodes.getD id [] = s.domainNodes.getD id [] := by
  unfold commit at h
  split at h
  · cases h
    exact foldl_commitDomain_dated _ nowNs id p.domains _
  · cases h

/-! ## What a shrink rests on -/

theorem nodes_of_follows {input : ProposeInput} {s : NumaDomainSolver} {families : OrdMap String (List ThreadDemand)}
    {cross : OrdMap FamilyPair ℚ} {st : CandidateState} {component : List String}
    (h : (evaluate input s families cross st component).follows = true) :
    s.domainNodes.getD (evaluate input s families cross st component).id [] ≠ [] := by
  unfold evaluate at h ⊢
  dsimp only at h ⊢
  rw [Bool.and_eq_true, Bool.and_eq_true] at h
  intro hnil
  rw [hnil] at h
  exact absurd h.1.1 (by decide)

/-- The domain has nodes on record, and they are as old as the dwell. -/
def Aged (s : NumaDomainSolver) (input : ProposeInput) (id : String) : Prop :=
  s.domainNodes.getD id [] ≠ [] ∧ input.options.minimumDwellNs ≤ subU64 input.nowNs (s.lastChangedNs.getD id 0)

theorem candidateStage_shrunk (s : NumaDomainSolver) (input : ProposeInput) :
    ∀ d ∈ (candidateStage s input).domains, d.nodeDecision = .shrunk → Aged s input d.id := by
  refine Loop.foldl_keeps (fun st : CandidateState => ∀ d ∈ st.domains, d.nodeDecision = .shrunk → Aged s input d.id)
    (fun st component h d hd hdec => ?_) _ (fun d hd => by cases hd)
  obtain ⟨d₀, demand, required, previous, hdomains, hid, -, hyes, hno⟩ := addCandidate_lifecycle st component
  rw [hdomains] at hd
  rcases List.mem_append.1 hd with hd | hd
  · exact h d hd hdec
  · rw [List.mem_singleton] at hd
    subst hd
    cases hf : (evaluate input s (byFamily input.threads) (relationStage input).cross st component).follows with
    | true =>
      have hnodes := nodes_of_follows hf
      rw [← hid] at hnodes
      have hspec := (decideNodes_spec input s d.id demand required previous
        (fun side => (side.counting st).getD d.id 0) .shrink).2 ((hyes hf).1.symm.trans hdec)
      have hwanted := hspec.1
      unfold Side.wanted at hwanted
      rw [Bool.and_eq_true, decide_eq_true_eq] at hwanted
      exact ⟨hnodes, hwanted.2⟩
    | false =>
      rw [hdec] at hno
      rcases (hno hf).1 with hdec | hdec <;> cases hdec

theorem proposalOf_shrunk {s : NumaDomainSolver} {input : ProposeInput} {d : NumaDomain}
    (hd : d ∈ (proposalOf s input).domains) (hdec : d.nodeDecision = .shrunk) : Aged s input d.id := by
  obtain ⟨c, hc, he⟩ := exists_held (fun d => (d.nodeDecision, d.id)) (fun _ _ _ _ => rfl) hd
  simp only [Prod.mk.injEq] at he
  rw [he.2]
  rcases mem_heldStage_cases hc with hc | ⟨x, -, -, rfl⟩
  · exact candidateStage_shrunk s input c hc (he.1.symm.trans hdec)
  · -- a domain carried over by its dwell has a decision of its own
    rw [hdec] at he
    cases he.1

end NumaDomainSolver

open NumaDomainSolver History

namespace Traced

variable {w w' : Traced} {e : SolverEvent}

/-! ## The commits of a domain -/

/-- The time of a commit that has the domain, and the nodes it puts on record. -/
def recordIn (id : String) : NumaDomainSolver × SolverEvent → Option (Nat × List Int)
  | (s, .commit nowNs tids) => (committedIn id (s, .commit nowNs tids)).map (fun nodes => (nowNs, nodes))
  | _ => none

/-- The commits that have the domain since the last reset, the newest first. -/
def records (w : Traced) (id : String) : List (Nat × List Int) := w.past.filterMap (recordIn id)

/-- When a commit last changed the nodes of the domain, from those of the commit before it that has the domain. -/
def lastNodeChange (w : Traced) (id : String) : Option Nat := lastChange (w.records id)

theorem lastCommitted_eq_head? (w : Traced) (id : String) : w.lastCommitted id = (w.records id).head?.map Prod.snd := by
  unfold lastCommitted records
  induction w.past with
  | nil => rfl
  | cons x past ih =>
    obtain ⟨s, e⟩ := x
    rw [List.findSome?_cons, List.filterMap_cons]
    cases e with
    | commit nowNs tids =>
      dsimp only [recordIn]
      cases committedIn id (s, .commit nowNs tids) with
      | none => exact ih
      | some nodes => rfl
    | propose input => exact ih
    | discard => exact ih
    | removeThread tid => exact ih
    | reset => exact ih

/-- The map's time for a domain with nodes on record is at or after their last change, and no time of its own. -/
def Dated (w : Traced) (id : String) : Prop :=
  w.solver.domainNodes.getD id [] ≠ [] → ∃ change time, w.lastNodeChange id = some change ∧
    w.solver.lastChangedNs.find? id = some time ∧ change ≤ time ∧ time ∈ w.times

/-- What writes neither the nodes nor their time keeps the dates. -/
theorem Dated.quiet {id : String} (h : w.Dated id) (hnodes : w'.solver.domainNodes = w.solver.domainNodes)
    (htime : w'.solver.lastChangedNs = w.solver.lastChangedNs) (hrecords : w'.records id = w.records id)
    (htimes : ∀ t ∈ w.times, t ∈ w'.times) : w'.Dated id := by
  intro hne
  rw [hnodes] at hne
  obtain ⟨change, time, hchange, hfind, hle, hmem⟩ := h hne
  refine ⟨change, time, ?_, ?_, hle, htimes time hmem⟩
  · unfold lastNodeChange
    rw [hrecords]
    exact hchange
  · rw [htime]
    exact hfind

/-- What a commit does to the last change of a domain, by what it does to the nodes on record. -/
theorem lastNodeChange_commit {run : List SolverEvent} (hrun : Run.exec step {} run = some w) (id : String) {nowNs : Nat}
    {tids : OrdSet Tid} (hstep : w.step (.commit nowNs tids) = some w') :
    w'.lastNodeChange id = w.lastNodeChange id ∧ w'.solver.domainNodes.find? id = w.solver.domainNodes.find? id ∨
      w'.lastNodeChange id = some nowNs ∧ w'.solver.domainNodes.find? id ≠ w.solver.domainNodes.find? id := by
  rw [domainNodes_eq_lastCommitted hrun, domainNodes_eq_lastCommitted (Run.exec_snoc hrun hstep), lastCommitted_eq_head?,
    lastCommitted_eq_head?]
  obtain ⟨s, -, rfl⟩ := Option.map_eq_some_iff.1 hstep
  unfold lastNodeChange records
  dsimp only
  rw [List.filterMap_cons]
  dsimp only [recordIn]
  cases committedIn id (w.solver, .commit nowNs tids) with
  | none => exact Or.inl ⟨rfl, rfl⟩
  | some nodes =>
    rw [Option.map_some]
    by_cases hsame : (w.past.filterMap (recordIn id)).head?.map Prod.snd = some nodes
    · exact Or.inl ⟨lastChange_same hsame, hsame.symm⟩
    · exact Or.inr ⟨lastChange_new hsame, fun h => hsame h.symm⟩

/-- **A commit keeps the dates**, if no time of the past is later. -/
theorem Dated.commit {run : List SolverEvent} (hrun : Run.exec step {} run = some w) {id : String} (h : w.Dated id)
    {nowNs : Nat} {tids : OrdSet Tid} (hlate : ∀ t ∈ w.times, t ≤ nowNs) (hstep : w.step (.commit nowNs tids) = some w') :
    w'.Dated id := by
  have hchange := lastNodeChange_commit hrun id hstep
  obtain ⟨s, hs, rfl⟩ := Option.map_eq_some_iff.1 hstep
  obtain ⟨p, -, hcommit⟩ := Option.bind_eq_some_iff.1 hs
  have hdated := commit_dated (toOption_eq_some hcommit) id
  intro hne
  rcases hchange with ⟨hchange, hnodes⟩ | ⟨hchange, hnodes⟩
  · -- the nodes are those of before, so their last change is
    have hold : w.solver.domainNodes.getD id [] ≠ [] := by
      unfold OrdMap.getD at hne ⊢
      rw [← hnodes]
      exact hne
    obtain ⟨change, time, hlast, hfind, hle, hmem⟩ := h hold
    rcases hdated with hnow | ⟨hkept, -⟩
    · exact ⟨change, nowNs, hchange.trans hlast, hnow, hle.trans (hlate time hmem), List.mem_cons_self⟩
    · exact ⟨change, time, hchange.trans hlast, hkept.trans hfind, hle, List.mem_cons_of_mem _ hmem⟩
  · rcases hdated with hnow | ⟨-, hkept⟩
    · exact ⟨nowNs, nowNs, hchange, hnow, le_rfl, List.mem_cons_self⟩
    · refine absurd ?_ hnodes
      rw [find?_of_getD hne]
      refine Eq.trans ?_ (find?_of_getD (hkept ▸ hne)).symm
      exact congrArg some hkept

/-- Every state of a run over non-decreasing times has the dates of its domains. -/
theorem dated_of_run {run : List SolverEvent} (hrun : Run.exec step {} run = some w) (htimes : w.times.Pairwise (· ≥ ·))
    (id : String) : w.Dated id := by
  have hkeep : (∃ run, Run.exec step {} run = some w) ∧ (w.times.Pairwise (· ≥ ·) → w.Dated id) := by
    refine Run.exec_keeps (fun w : Traced => (∃ run, Run.exec step {} run = some w) ∧
      (w.times.Pairwise (· ≥ ·) → w.Dated id)) (fun w e w' h hstep => ?_) ⟨⟨[], rfl⟩, fun _ hne => absurd rfl hne⟩ hrun
    obtain ⟨⟨run, hrun⟩, h⟩ := h
    refine ⟨⟨_, Run.exec_snoc hrun hstep⟩, fun htimes => ?_⟩
    cases e with
    | propose input =>
      obtain ⟨s, hs, rfl⟩ := Option.map_eq_some_iff.1 hstep
      obtain ⟨⟨p, t⟩, hp, rfl⟩ := Option.map_eq_some_iff.1 hs
      obtain ⟨-, -, rfl⟩ := propose_ok (toOption_eq_some hp)
      exact (h (List.pairwise_cons.1 htimes).2).quiet rfl rfl rfl (fun t ht => List.mem_cons_of_mem _ ht)
    | commit nowNs tids =>
      have hpast := hstep
      obtain ⟨s, hs, rfl⟩ := Option.map_eq_some_iff.1 hpast
      obtain ⟨hlate, hold⟩ := List.pairwise_cons.1 htimes
      exact (h hold).commit hrun hlate hstep
    | discard =>
      obtain ⟨s, hs, rfl⟩ := Option.map_eq_some_iff.1 hstep
      obtain ⟨p, -, rfl⟩ := Option.map_eq_some_iff.1 hs
      exact (h htimes).quiet (read_discard (·.domainNodes) (fun _ => rfl) w.solver p)
        (read_discard (·.lastChangedNs) (fun _ => rfl) w.solver p) rfl (fun t ht => ht)
    | removeThread tid =>
      cases hstep
      exact (h htimes).quiet rfl rfl rfl (fun t ht => ht)
    | reset =>
      cases hstep
      exact fun hne => absurd rfl hne
  exact hkeep.2 htimes

/-- **A shrink respects the dwell**, over non-decreasing times: of the commits that have the domain, the last one that changed
its nodes is at least the dwell ago, whatever became of the domain in between. -/
theorem shrink_respects_dwell {run : List SolverEvent} (hrun : Run.exec step {} run = some w) {input : ProposeInput}
    (htimes : (input.nowNs :: w.times).Pairwise (· ≥ ·)) (hnow : input.nowNs < 2 ^ 64) {p : NumaDomainProposal}
    {s' : NumaDomainSolver} (hp : propose w.solver input = .ok (p, s')) {d : NumaDomain} (hd : d ∈ p.domains)
    (hdec : d.nodeDecision = .shrunk) :
    ∃ newer change nodes older, w.records d.id = newer ++ (change, nodes) :: older ∧ (∀ x ∈ newer, x.2 = nodes) ∧
      older.head?.map Prod.snd ≠ some nodes ∧ change ≤ input.nowNs ∧
      input.options.minimumDwellNs ≤ input.nowNs - change := by
  obtain ⟨-, rfl, -⟩ := propose_ok hp
  obtain ⟨hnodes, haged⟩ := proposalOf_shrunk hd hdec
  obtain ⟨hlate, hold⟩ := List.pairwise_cons.1 htimes
  obtain ⟨change, time, hchange, hfind, hle, hmem⟩ := dated_of_run hrun hold d.id hnodes
  have htime : time ≤ input.nowNs := hlate time hmem
  have hget : w.solver.lastChangedNs.getD d.id 0 = time := by
    unfold OrdMap.getD
    rw [hfind]
    rfl
  rw [hget, subU64_of_le htime hnow] at haged
  obtain ⟨newer, nodes, older, hrecords, hnewer, holder⟩ := lastChange_eq_some.1 hchange
  exact ⟨newer, change, nodes, older, hrecords, hnewer, holder, hle.trans htime, by omega⟩

/-- The family again, five minutes after it was placed, and with one confirmation enough to shrink. -/
def shrinking (demand : ℚ) : ProposeInput :=
  { growing (twoThreads demand) with
    options := { (growing (twoThreads demand)).options with shrinkConfirmations := 1 }
    nowNs := 300000001000 }

/-- The family needs both nodes. -/
def placedWide : List SolverEvent := [.propose (growing (twoThreads 3)), .commit 1000 ∅]

theorem shrink_respects_dwell_wide : ∃ w p s', Run.exec step {} placedWide = some w ∧
    propose w.solver (shrinking 1) = .ok (p, s') ∧ ∃ d ∈ p.domains, d.nodeDecision = .shrunk ∧
      ∃ newer change nodes older, w.records d.id = newer ++ (change, nodes) :: older ∧ (∀ x ∈ newer, x.2 = nodes) ∧
        older.head?.map Prod.snd ≠ some nodes ∧ change ≤ 300000001000 ∧ 300000000000 ≤ 300000001000 - change := by
  have h : (Run.exec step {} placedWide).any (fun w => decide ((300000001000 :: w.times).Pairwise (· ≥ ·)) &&
      (propose w.solver (shrinking 1)).toOption.any (fun x =>
        decide (∃ d ∈ x.1.domains, d.nodeDecision = .shrunk))) = true := by decide +kernel
  obtain ⟨w, hw, h⟩ := (Option.any_eq_true _ _).1 h
  obtain ⟨htimes, h⟩ := Bool.and_eq_true_iff.1 h
  obtain ⟨⟨p, s'⟩, hp, h⟩ := (Option.any_eq_true _ _).1 h
  obtain ⟨d, hd, hdec⟩ := of_decide_eq_true h
  have hp' := toOption_eq_some hp
  exact ⟨w, p, s', hw, hp', d, hd, hdec,
    shrink_respects_dwell hw (of_decide_eq_true htimes) (by decide) hp' hd hdec⟩

end Traced
end AffinityGraph
