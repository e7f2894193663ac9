import AffinityGraph.NodeStreaks
import Mathlib.Data.Finset.Sort
import Mathlib.Data.Int.ConditionallyCompleteOrder
import Mathlib.Data.List.Lex
import Mathlib.Data.List.Perm.Subperm
import Mathlib.Data.Prod.Lex
import Mathlib.Order.Bounds.Defs
import Mathlib.Tactic.Linarith
/-!
# NodeChoices — which nodes a domain gets

`choose_nodes` walks all sets of nodes and keeps the best so far by a comparison of five levels.  Here the comparison is the
lexicographic order of a key and the walk the search for its least element.  What the lifecycle then does with the optimum
is one of two things: adopt it, or keep the nodes the domain was last committed with.
-/
namespace AffinityGraph

/-! ## The comparison -/

abbrev ChoiceKey := Nat ×ₗ ℚ ×ₗ ℚ ×ₗ Nat ×ₗ List Int

namespace NodeChoice

/-- What the comparison looks at, in its order. -/
def key (c : NodeChoice) : ChoiceKey :=
  toLex (c.nodes.length, toLex (c.relationLatency, toLex (c.backgroundDemand, toLex (c.initialMigrations, c.nodes))))

/-- The demand fits, up to the tolerance of the source. -/
def Feasible (c : NodeChoice) : Prop := -(1 / 10 ^ 12) ≤ c.capacityHeadroom

theorem feasible_iff {c : NodeChoice} : c.Feasible ↔ ¬ c.capacityHeadroom + 1 / 10 ^ 12 < 0 := by
  unfold Feasible
  constructor
  · intro h hlt
    linarith
  · intro h
    linarith

/-- **The five levels are one order**; anything replaces the choice there is before the first. -/
theorem better_iff {current best : NodeChoice} :
    current.better best = true ↔ best.nodes = [] ∨ current.key < best.key := by
  unfold better key
  simp only [Bool.or_eq_true, Bool.and_eq_true, decide_eq_true_eq, List.isEmpty_iff, Prod.Lex.toLex_lt_toLex, or_assoc]

end NodeChoice

/-! ## The sets of nodes -/

theorem mem_nodeSubsets {l : List Int} : ∀ {ns : List Int}, l ∈ nodeSubsets ns ↔ l.Sublist ns
  | [] => by
    rw [nodeSubsets, List.mem_singleton, List.sublist_nil]
  | n :: ns => by
    rw [nodeSubsets, List.mem_append, List.mem_map, List.sublist_cons_iff, mem_nodeSubsets, or_comm]
    refine or_congr_right ?_
    constructor
    · rintro ⟨r, hr, rfl⟩
      exact ⟨r, rfl, mem_nodeSubsets.1 hr⟩
    · rintro ⟨r, rfl, hr⟩
      exact ⟨r, mem_nodeSubsets.2 hr, rfl⟩

theorem nodes_pairwise (hardware : HardwareGraph) : hardware.nodes.Pairwise (· < ·) := by
  unfold HardwareGraph.nodes OrdSet.toList OrdMap.keys
  rw [List.pairwise_map]
  exact (OrdSet.ofList (hardware.cpus.map (·.node))).sorted

/-- The sets of nodes, listed ascending, are the sublists of the nodes. -/
theorem sort_sublist {hardware : HardwareGraph} {S : Finset Int} (h : S ⊆ hardware.nodes.toFinset) :
    S.sort.Sublist hardware.nodes := by
  refine List.sublist_of_subperm_of_pairwise (List.subperm_of_subset (S.sort_nodup (· ≤ ·)) (fun n hn => ?_))
    (S.pairwise_sort (· ≤ ·)) ((nodes_pairwise hardware).imp le_of_lt)
  exact List.mem_toFinset.1 (h ((S.mem_sort _).1 hn))

theorem toFinset_sort_of_sublist {hardware : HardwareGraph} {l : List Int} (h : l.Sublist hardware.nodes) :
    l.toFinset.sort = l := by
  have hsorted := (nodes_pairwise hardware).sublist h
  exact (List.toFinset_sort (· ≤ ·) (hsorted.imp ne_of_lt)).2 (hsorted.imp le_of_lt)

/-! ## The walk -/

section Walk

variable {eval : List Int → NodeChoice}

/-- The best of the sets walked so far. -/
def BestOf (eval : List Int → NodeChoice) (done : List (List Int)) (best : NodeChoice) : Prop :=
  (best.nodes = [] ∧ ∀ l ∈ done, l ≠ [] → ¬ (eval l).Feasible) ∨
  (∃ l ∈ done, l ≠ [] ∧ (eval l).Feasible ∧ best = eval l ∧
    ∀ r ∈ done, r ≠ [] → (eval r).Feasible → best.key ≤ (eval r).key)

/-- A set that does not count changes nothing. -/
theorem BestOf.skip {done : List (List Int)} {best : NodeChoice} {l : List Int} (h : BestOf eval done best)
    (hl : l ≠ [] → ¬ (eval l).Feasible) : BestOf eval (done ++ [l]) best := by
  rcases h with ⟨hnil, hno⟩ | ⟨c, hc, hne, hfeas, hbest, hle⟩
  · refine Or.inl ⟨hnil, fun r hr hne => ?_⟩
    rcases List.mem_append.1 hr with hr | hr
    · exact hno r hr hne
    · rw [List.mem_singleton] at hr
      subst hr
      exact hl hne
  · refine Or.inr ⟨c, List.mem_append_left _ hc, hne, hfeas, hbest, fun r hr hne' hfeas' => ?_⟩
    rcases List.mem_append.1 hr with hr | hr
    · exact hle r hr hne' hfeas'
    · rw [List.mem_singleton] at hr
      subst hr
      exact absurd hfeas' (hl hne')

/-- A feasible set replaces a worse one. -/
theorem BestOf.offer {done : List (List Int)} {best : NodeChoice} {l : List Int} (h : BestOf eval done best)
    (hnodes : ∀ l, (eval l).nodes = l) (hl : l ≠ []) (hfeas : (eval l).Feasible) :
    BestOf eval (done ++ [l]) (if (eval l).better best then eval l else best) := by
  have hlast : l ∈ done ++ [l] := List.mem_append_right _ (List.mem_singleton.2 rfl)
  have hsplit : ∀ r ∈ done ++ [l], r ∈ done ∨ r = l := by
    intro r hr
    exact (List.mem_append.1 hr).imp_right List.mem_singleton.1
  rcases h with ⟨hnil, hno⟩ | ⟨c, hc, hne, hcfeas, hbest, hle⟩
  · rw [if_pos (NodeChoice.better_iff.2 (Or.inl hnil))]
    refine Or.inr ⟨l, hlast, hl, hfeas, rfl, fun r hr hne hfeas' => ?_⟩
    rcases hsplit r hr with hr | rfl
    · exact absurd hfeas' (hno r hr hne)
    · exact le_rfl
  · have hbetter : (eval l).better best = true ↔ (eval l).key < best.key := by
      rw [NodeChoice.better_iff]
      refine or_iff_right (fun hnil => hne ?_)
      rw [← hnodes c, ← hbest]
      exact hnil
    by_cases hlt : (eval l).key < best.key
    · rw [if_pos (hbetter.2 hlt)]
      refine Or.inr ⟨l, hlast, hl, hfeas, rfl, fun r hr hne' hfeas' => ?_⟩
      rcases hsplit r hr with hr | rfl
      · exact hlt.le.trans (hle r hr hne' hfeas')
      · exact le_rfl
    · rw [if_neg (fun h => hlt (hbetter.1 h))]
      refine Or.inr ⟨c, List.mem_append_left _ hc, hne, hcfeas, hbest, fun r hr hne' hfeas' => ?_⟩
      rcases hsplit r hr with hr | rfl
      · exact hle r hr hne' hfeas'
      · exact le_of_not_gt hlt

/-- The sets of nodes that are not empty and have room. -/
def feasibleSets (hardware : HardwareGraph) (eval : List Int → NodeChoice) : Set (Finset Int) :=
  {S | S.Nonempty ∧ S ⊆ hardware.nodes.toFinset ∧ (eval S.sort).Feasible}

/-- The least feasible choice of nodes, and the empty one exactly when there is none. -/
structure Optimal (hardware : HardwareGraph) (eval : List Int → NodeChoice) (choice : NodeChoice) : Prop where
  empty_iff : choice.nodes = [] ↔ feasibleSets hardware eval = ∅
  least : choice.nodes ≠ [] → choice = eval choice.nodes ∧ choice.nodes.toFinset ∈ feasibleSets hardware eval ∧
    choice.nodes.toFinset.sort = choice.nodes ∧
    IsLeast (Set.image (fun S => (eval S.sort).key) (feasibleSets hardware eval)) choice.key

theorem BestOf.optimal {hardware : HardwareGraph} {best : NodeChoice} (h : BestOf eval (nodeSubsets hardware.nodes) best)
    (hnodes : ∀ l, (eval l).nodes = l) : Optimal hardware eval best := by
  have hlist : ∀ S ∈ feasibleSets hardware eval, S.sort ∈ nodeSubsets hardware.nodes ∧ S.sort ≠ [] := by
    intro S hS
    refine ⟨mem_nodeSubsets.2 (sort_sublist hS.2.1), fun hnil => ?_⟩
    obtain ⟨n, hn⟩ := hS.1
    rw [← S.mem_sort (· ≤ ·), hnil] at hn
    cases hn
  rcases h with ⟨hnil, hno⟩ | ⟨l, hl, hne, hfeas, rfl, hle⟩
  · refine ⟨⟨fun _ => Set.eq_empty_iff_forall_notMem.2 (fun S hS => ?_), fun _ => hnil⟩, fun h => absurd hnil h⟩
    exact hno _ (hlist S hS).1 (hlist S hS).2 hS.2.2
  · have hsub := mem_nodeSubsets.1 hl
    have hsort := toFinset_sort_of_sublist hsub
    have hmem : l.toFinset ∈ feasibleSets hardware eval := by
      refine ⟨(List.toFinset_nonempty_iff l).2 hne, fun n hn => ?_, ?_⟩
      · exact List.mem_toFinset.2 (hsub.subset (List.mem_toFinset.1 hn))
      · rw [hsort]
        exact hfeas
    refine ⟨?_, fun _ => ?_⟩
    · rw [hnodes]
      refine ⟨fun hnil => absurd hnil hne, fun hempty => ?_⟩
      rw [hempty] at hmem
      exact absurd hmem (Set.notMem_empty _)
    · rw [hnodes]
      refine ⟨rfl, hmem, hsort, ⟨l.toFinset, hmem, ?_⟩, ?_⟩
      · dsimp only
        rw [hsort]
      · rintro k ⟨S, hS, rfl⟩
        obtain ⟨hwalked, hne'⟩ := hlist S hS
        exact hle _ hwalked hne' hS.2.2

end Walk

/-- **`choose_nodes` is optimal.** -/
theorem chooseNodes_optimal (hardware : HardwareGraph) (demand capacityRatio : ℚ) (members allThreads : List ThreadDemand)
    (placedDomains : List (List String × List Int)) (families : List String) (cross : OrdMap FamilyPair ℚ) :
    Optimal hardware
      (fun l => evaluateNodes hardware l demand capacityRatio members allThreads placedDomains families cross)
      (chooseNodes hardware demand capacityRatio members allThreads placedDomains families cross) := by
  refine BestOf.optimal ?_ (fun _ => rfl)
  unfold chooseNodes
  refine Loop.foldl_so_far (BestOf fun l => evaluateNodes hardware l demand capacityRatio members allThreads placedDomains
    families cross) (fun done best l h => ?_) (nodeSubsets hardware.nodes) [] (Or.inl ⟨rfl, fun l hl => by cases hl⟩)
  dsimp only
  by_cases hl : l = []
  · rw [if_pos (List.isEmpty_iff.2 hl)]
    exact h.skip (fun hne => absurd hl hne)
  · rw [if_neg (fun h => hl (List.isEmpty_iff.1 h))]
    split
    · rename_i hover
      exact h.skip (fun _ hfeas => NodeChoice.feasible_iff.1 hfeas hover)
    · rename_i hroom
      exact h.offer (fun _ => rfl) hl (NodeChoice.feasible_iff.2 hroom)

namespace NumaDomainSolver

/-! ## The candidates -/

/-- The choice a candidate's nodes were decided on: the best for its members, with the candidates before it in place. -/
def bestFor (input : ProposeInput) (earlier : List NumaDomain) (d : NumaDomain) : NodeChoice :=
  chooseNodes input.hardware d.demand input.options.capacityRatio (membersOf (byFamily input.threads) d.families)
    input.threads (earlier.map (fun e => (e.families, e.targetNodes))) d.families (relationStage input).cross

/-- What the thread count and the capacity of a candidate are checked for. -/
def PassesChecks (input : ProposeInput) (earlier : List NumaDomain) (d : NumaDomain) : Prop :=
  d.tids.length ≤ input.options.maximumThreadsPerDomain ∧ (bestFor input earlier d).nodes ≠ []

instance PassesChecks.decidable (input : ProposeInput) (earlier : List NumaDomain) (d : NumaDomain) :
    Decidable (PassesChecks input earlier d) := inferInstanceAs (Decidable (_ ∧ _))

def adoptions : List NodeDecision := [.initial, .expanded, .shrunk]

def holdings : List NodeDecision := [.stable, .heldExpandPending, .heldShrinkPending, .heldExisting]

/-- What the loop makes of one component. -/
def Decided (input : ProposeInput) (s : NumaDomainSolver) (earlier : List NumaDomain) (d : NumaDomain) : Prop :=
  PassesChecks input earlier d → d.nodeDecision ∈ adoptions ∧ d.targetNodes = (bestFor input earlier d).nodes ∨
    d.nodeDecision ∈ holdings ∧ s.domainNodes.find? d.id = some d.targetNodes

theorem decideNodes_adopts (input : ProposeInput) (s : NumaDomainSolver) (id : String) (demand : ℚ)
    (required previous : List Int) (e h : Int) :
    (decideNodes input s id demand required previous e h).2.1 ∈ adoptions ∧
        (decideNodes input s id demand required previous e h).1 = required ∨
      (decideNodes input s id demand required previous e h).2.1 ∈ holdings ∧
        (decideNodes input s id demand required previous e h).1 = previous := by
  rw [decideNodes_eq]
  rcases decided_cases input required previous (Side.expand.wanted input s id demand required previous)
    (Side.shrink.wanted input s id demand required previous)
    (if Side.expand.wanted input s id demand required previous then e + 1 else 0)
    (if Side.shrink.wanted input s id demand required previous then h + 1 else 0)
    with ⟨heq, -⟩ | ⟨heq, -⟩ | ⟨decision, hmem, heq⟩
  · rw [heq]
    exact Or.inl ⟨by simp [adoptions], rfl⟩
  · rw [heq]
    exact Or.inl ⟨by simp [adoptions], rfl⟩
  · rw [heq]
    exact Or.inr ⟨hmem, rfl⟩

/-- Nodes that are known are those on record. -/
theorem find?_of_getD {m : OrdMap String (List Int)} {id : String} (h : m.getD id [] ≠ []) :
    m.find? id = some (m.getD id []) := by
  unfold OrdMap.getD at h ⊢
  cases hf : m.find? id with
  | none =>
    rw [hf] at h
    exact absurd rfl h
  | some nodes => rfl

theorem addCandidate_decided (input : ProposeInput) (s : NumaDomainSolver) (st : CandidateState) (component : List String)
    (hplaced : st.placedDomains = st.domains.map (fun e => (e.families, e.targetNodes))) :
    ∃ d, (addCandidate input s (byFamily input.threads) (relationStage input).cross st component).domains =
        st.domains ++ [d] ∧
      (addCandidate input s (byFamily input.threads) (relationStage input).cross st component).placedDomains =
        st.placedDomains ++ [(d.families, d.targetNodes)] ∧ Decided input s st.domains d := by
  cases hf : (evaluate input s (byFamily input.threads) (relationStage input).cross st component).follows with
  | true =>
    unfold evaluate at hf
    unfold addCandidate
    dsimp only at hf ⊢
    simp only [hf, if_true]
    refine ⟨_, rfl, rfl, fun _ => ?_⟩
    unfold bestFor
    rw [← hplaced]
    dsimp only
    refine (decideNodes_adopts _ _ _ _ _ _ _ _).imp_right (fun ⟨hdecision, hnodes⟩ => ⟨hdecision, ?_⟩)
    rw [hnodes]
    refine find?_of_getD (fun hnil => ?_)
    rw [hnil] at hf
    cases hf
  | false =>
    unfold evaluate at hf
    unfold addCandidate
    dsimp only at hf ⊢
    simp only [hf, Bool.false_eq_true, if_false]
    refine ⟨_, rfl, rfl, fun hchecks => Or.inl ?_⟩
    unfold PassesChecks bestFor membersOf at hchecks
    unfold bestFor membersOf
    rw [← hplaced] at hchecks ⊢
    dsimp only at hchecks ⊢
    obtain ⟨hcount, hroom⟩ := hchecks
    rw [decide_eq_false (not_lt.2 hcount), Bool.false_or, if_neg (fun h => hroom (List.isEmpty_iff.1 h))]
    exact ⟨by simp [adoptions], rfl⟩

/-- **The candidates of a call**, each decided with those before it in place. -/
theorem candidateStage_decided (s : NumaDomainSolver) (input : ProposeInput) {earlier later : List NumaDomain}
    {d : NumaDomain} (h : (candidateStage s input).domains = earlier ++ d :: later) : Decided input s earlier d := by
  have hloop : ∀ st : CandidateState, st.placedDomains = st.domains.map (fun e => (e.families, e.targetNodes)) →
      (∀ earlier d later, st.domains = earlier ++ d :: later → Decided input s earlier d) →
      ∀ comps : List (List String),
        let st' := comps.foldl (addCandidate input s (byFamily input.threads) (relationStage input).cross) st
        st'.placedDomains = st'.domains.map (fun e => (e.families, e.targetNodes)) ∧
        ∀ earlier d later, st'.domains = earlier ++ d :: later → Decided input s earlier d := by
    intro st hplaced hdecided comps
    refine Loop.foldl_keeps (fun st : CandidateState =>
      st.placedDomains = st.domains.map (fun e => (e.families, e.targetNodes)) ∧
      ∀ earlier d later, st.domains = earlier ++ d :: later → Decided input s earlier d) (fun st component hst => ?_) comps
      ⟨hplaced, hdecided⟩
    obtain ⟨x, hdomains, hplaced', hx⟩ := addCandidate_decided input s st component hst.1
    rw [hdomains, hplaced', hst.1, List.map_append]
    refine ⟨rfl, fun earlier d later hsplit => ?_⟩
    rcases List.eq_nil_or_concat' later with rfl | ⟨l, y, rfl⟩
    · obtain ⟨rfl, hd⟩ := List.append_inj' hsplit rfl
      rw [← (List.cons.inj hd).1]
      exact hx
    · rw [← List.cons_append, ← List.append_assoc] at hsplit
      exact hst.2 earlier d l (List.append_inj' hsplit rfl).1
  refine (hloop _ rfl (fun earlier d later hnil => ?_) _).2 earlier d later h
  exact absurd hnil.symm (by simp)

/-- What a commit puts on record: the nodes of the last domain with the id. -/
theorem find?_foldl_commitDomain (previous : List String) (nowNs : Nat) (id : String) : ∀ (l : List NumaDomain)
    (s : NumaDomainSolver), (l.foldl (commitDomain previous nowNs) s).domainNodes.find? id =
      ((l.reverse.find? (fun d => decide (d.id = id))).map (·.targetNodes)).or (s.domainNodes.find? id)
  | [], s => rfl
  | d :: l, s => by
    rw [List.foldl_cons, find?_foldl_commitDomain previous nowNs id l, List.reverse_cons, List.find?_append]
    have hone : (commitDomain previous nowNs s d).domainNodes.find? id =
        (([d].find? (fun d => decide (d.id = id))).map (·.targetNodes)).or (s.domainNodes.find? id) := by
      show (s.domainNodes.insert d.id d.targetNodes).find? id = _
      rw [OrdMap.find?_insert]
      by_cases hid : d.id = id
      · simp [hid]
      · simp [hid]
    rw [hone]
    cases l.reverse.find? (fun d => decide (d.id = id)) with
    | none => rfl
    | some x => rfl

end NumaDomainSolver

open NumaDomainSolver

namespace Traced

/-! ## What was committed last -/

/-- The nodes an event commits for an id. -/
def committedIn (id : String) : NumaDomainSolver × SolverEvent → Option (List Int)
  | (s, .commit _ _) =>
    s.outstanding.bind (fun p => (p.domains.reverse.find? (fun d => decide (d.id = id))).map (·.targetNodes))
  | _ => none

/-- The nodes that were committed last for an id, since the last reset. -/
def lastCommitted (w : Traced) (id : String) : Option (List Int) := w.past.findSome? (committedIn id)

/-- **`domain_nodes_` is what was committed last.** -/
theorem domainNodes_eq_lastCommitted {run : List SolverEvent} {w : Traced} (hrun : Run.exec step {} run = some w)
    (id : String) : w.solver.domainNodes.find? id = w.lastCommitted id := by
  refine Run.exec_keeps (fun w : Traced => w.solver.domainNodes.find? id = w.lastCommitted id) (fun w e w' h hstep => ?_)
    (by rfl) hrun
  obtain ⟨s, hs, rfl⟩ := Option.map_eq_some_iff.1 hstep
  cases e with
  | propose input =>
    obtain ⟨⟨p, t⟩, hp, rfl⟩ := Option.map_eq_some_iff.1 hs
    obtain ⟨-, -, rfl⟩ := propose_ok (toOption_eq_some hp)
    exact h
  | commit nowNs tids =>
    obtain ⟨p, hout, hcommit⟩ := Option.bind_eq_some_iff.1 hs
    have hc := toOption_eq_some hcommit
    unfold NumaDomainSolver.commit at hc
    rw [if_pos (by rw [hout]; rfl)] at hc
    cases hc
    refine (find?_foldl_commitDomain _ nowNs id p.domains _).trans ?_
    unfold lastCommitted
    rw [List.findSome?_cons]
    dsimp only [committedIn]
    rw [hout, Option.bind_some]
    cases (p.domains.reverse.find? (fun d => decide (d.id = id))).map (·.targetNodes) with
    | none => exact h
    | some nodes => rfl
  | discard =>
    obtain ⟨p, -, rfl⟩ := Option.map_eq_some_iff.1 hs
    refine Eq.trans ?_ h
    exact congrArg (fun m : OrdMap String (List Int) => m.find? id)
      (read_discard (fun s => s.domainNodes) (fun _ => rfl) w.solver p)
  | removeThread tid =>
    cases hs
    exact h
  | reset =>
    cases hs
    rfl

/-- **Which nodes a candidate gets**: `choose_nodes` finds the best feasible set of nodes; a candidate that passed its checks
takes it when it is placed, expanded or shrunk, and otherwise keeps the nodes it was last committed with. -/
theorem node_choice_optimal :
    (∀ hardware demand capacityRatio members allThreads placedDomains families cross,
      Optimal hardware
        (fun l => evaluateNodes hardware l demand capacityRatio members allThreads placedDomains families cross)
        (chooseNodes hardware demand capacityRatio members allThreads placedDomains families cross)) ∧
    ∀ run w, Run.exec step {} run = some w → ∀ input earlier d later,
      (candidateStage w.solver input).domains = earlier ++ d :: later → PassesChecks input earlier d →
      d.nodeDecision ∈ adoptions ++ holdings ∧
      (d.nodeDecision ∈ adoptions → d.targetNodes = (bestFor input earlier d).nodes) ∧
      (d.nodeDecision ∈ holdings →
        w.solver.domainNodes.find? d.id = some d.targetNodes ∧ w.lastCommitted d.id = some d.targetNodes) := by
  refine ⟨chooseNodes_optimal, fun run w hrun input earlier d later hsplit hchecks => ?_⟩
  have happart : ∀ x ∈ adoptions, x ∉ holdings := by decide
  rcases candidateStage_decided w.solver input hsplit hchecks with ⟨hmem, hnodes⟩ | ⟨hmem, hnodes⟩
  · exact ⟨List.mem_append_left _ hmem, fun _ => hnodes, fun h => absurd h (happart _ hmem)⟩
  · refine ⟨List.mem_append_right _ hmem, fun h => absurd hmem (happart _ h), fun _ => ⟨hnodes, ?_⟩⟩
    rw [← domainNodes_eq_lastCommitted hrun]
    exact hnodes

/-- The family has outgrown its node, and waits for the second confirmation on the node it was committed with. -/
theorem node_choice_optimal_waiting : ∃ w d, Run.exec step {} (placedOnce.take 2) = some w ∧
    (candidateStage w.solver (growing (twoThreads (19 / 10)))).domains = [d] ∧
    (bestFor (growing (twoThreads (19 / 10))) [] d).nodes = [0, 1] ∧ d.nodeDecision = .heldExpandPending ∧
    d.targetNodes = [0] ∧ w.lastCommitted d.id = some d.targetNodes := by
  have h : (Run.exec step {} (placedOnce.take 2)).any (fun w =>
      decide ((candidateStage w.solver (growing (twoThreads (19 / 10)))).domains.length = 1) &&
        (candidateStage w.solver (growing (twoThreads (19 / 10)))).domains.all fun d =>
          decide (PassesChecks (growing (twoThreads (19 / 10))) [] d ∧
            (bestFor (growing (twoThreads (19 / 10))) [] d).nodes = [0, 1] ∧ d.nodeDecision = .heldExpandPending ∧
            d.targetNodes = [0])) = true := by decide +kernel
  obtain ⟨w, hw, h⟩ := (Option.any_eq_true _ _).1 h
  obtain ⟨hone, hall⟩ := Bool.and_eq_true_iff.1 h
  obtain ⟨d, hd⟩ := List.length_eq_one_iff.1 (of_decide_eq_true hone)
  obtain ⟨hchecks, hbest, hheld, hnodes⟩ :=
    of_decide_eq_true (List.all_eq_true.1 hall d (hd ▸ List.mem_singleton_self d))
  have hmem : d.nodeDecision ∈ holdings := by
    rw [hheld]
    decide
  exact ⟨w, d, hw, hd, hbest, hheld, hnodes,
    ((node_choice_optimal.2 (placedOnce.take 2) w hw _ [] d [] hd hchecks).2.2 hmem).2⟩

end Traced

end AffinityGraph
