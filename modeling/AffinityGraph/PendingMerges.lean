import AffinityGraph.Components
import AffinityGraph.DomainPlan
/-!
# PendingMerges — a pair that is being confirmed holds back its families

A pair of families that qualifies starts a grace; while it lasts and the pair is not confirmed, neither family is an anchor
by itself.  One of them may still be a seed of another pair, and is then in one component with the other end of that.  So in
no call of the grace has a candidate just one of the two families (`Traced.pending_merge_suppresses`).
-/
namespace AffinityGraph
namespace NumaDomainSolver

open Traced

/-! ## The pairs of a call have two ends -/

/-- What is on a list after a push that may not happen. -/
theorem mem_of_push {α : Type*} {b : Prop} [Decidable b] {l : List α} {x y : α} (h : y ∈ (if b then l ++ [x] else l)) :
    y ∈ l ∨ y = x := by
  split at h
  · exact (List.mem_append.1 h).imp_right List.mem_singleton.1
  · exact Or.inl h

theorem cross_lt {tids : OrdMap Tid ThreadDemand} {edges : List RelationEdge} {pair : FamilyPair}
    (h : pair ∈ (relations tids edges).cross) : (ofLex pair).1 < (ofLex pair).2 := by
  unfold relations at h
  refine Loop.foldl_keeps (fun r : Relations => ∀ pair ∈ r.cross, (ofLex pair).1 < (ofLex pair).2)
    (fun r e hr pair hp => ?_) edges (s := {}) (fun pair hp => absurd hp (OrdMap.notMem_empty pair)) pair h
  unfold addRelation at hp
  split at hp
  · rename_i a b _ _
    split at hp
    · exact hr pair hp
    · rename_i hne
      rcases OrdMap.mem_insert.1 hp with rfl | hp
      · exact min_lt_max.2 hne
      · exact hr pair hp
  · exact hr pair hp

theorem mem_incidentPairs {cross : OrdMap FamilyPair ℚ} {name : String} {c : ℚ × FamilyPair}
    (h : c ∈ (incidentPairs cross).getD name []) : c.2 ∈ cross := by
  have hinv : c ∈ (incidentPairs cross).getD name [] → (c.2, c.1) ∈ cross.entries := by
    unfold incidentPairs
    refine Loop.foldl_so_far (fun done (m : OrdMap String (List (ℚ × FamilyPair))) =>
      c ∈ m.getD name [] → (c.2, c.1) ∈ done) (fun done m e hm hc => ?_) cross.entries [] (fun hc => by cases hc)
    have hlast : c = (e.2, e.1) → (c.2, c.1) ∈ done ++ [e] := by
      rintro rfl
      exact List.mem_append_right _ (List.mem_singleton.2 rfl)
    rw [OrdMap.getD_update, OrdMap.getD_update] at hc
    rcases mem_of_push hc with hc | hc
    · rcases mem_of_push hc with hc | hc
      · exact List.mem_append_left _ (hm hc)
      · exact hlast hc
    · exact hlast hc
  exact OrdMap.mem_of_find (OrdMap.mem_entries.1 (hinv h))

theorem mem_of_selected {cross : OrdMap FamilyPair ℚ} {k : Nat} {pair : FamilyPair} (h : pair ∈ selectFamilyEdges cross k) :
    pair ∈ cross := by
  have hinner : ∀ (l : List (ℚ × FamilyPair)) (s : OrdSet FamilyPair), pair ∈ l.foldl (fun s c => OrdSet.add s c.2) s →
      pair ∈ s ∨ ∃ c ∈ l, c.2 = pair := by
    intro l
    induction l with
    | nil => exact fun s hp => Or.inl hp
    | cons c l ih =>
      intro s hp
      rcases ih _ hp with hp | ⟨x, hx, hxp⟩
      · rcases OrdSet.mem_add.1 hp with hcp | hp
        · exact Or.inr ⟨c, List.mem_cons_self, hcp⟩
        · exact Or.inl hp
      · exact Or.inr ⟨x, List.mem_cons_of_mem _ hx, hxp⟩
  have hinv : ∃ e ∈ (incidentPairs cross).entries, ∃ c ∈ e.2, c.2 = pair := by
    unfold selectFamilyEdges at h
    refine (Loop.foldl_so_far (fun done (s : OrdSet FamilyPair) => pair ∈ s → ∃ e ∈ done, ∃ c ∈ e.2, c.2 = pair)
      (fun done s e hs hp => ?_) (incidentPairs cross).entries [] (fun hp => absurd hp (OrdMap.notMem_empty pair))) h
    rcases hinner _ _ hp with hp | ⟨c, hc, hcp⟩
    · obtain ⟨e', he', hrest⟩ := hs hp
      exact ⟨e', List.mem_append_left _ he', hrest⟩
    · exact ⟨e, List.mem_append_right _ (List.mem_singleton.2 rfl), c,
        (List.mem_insertionSort _).1 (List.mem_of_mem_take hc), hcp⟩
  obtain ⟨e, he, c, hc, rfl⟩ := hinv
  have hin : c ∈ (incidentPairs cross).getD e.1 [] := by
    unfold OrdMap.getD
    rw [OrdMap.mem_entries.1 he]
    exact hc
  exact mem_incidentPairs hin

/-! ## Seeds and anchors -/

theorem mem_anchorNames {metrics : OrdMap String FamilyMetric} {name : String} :
    name ∈ anchorNames metrics ↔ (metrics.getD name {}).crossSeed = true ∨
      (metrics.getD name {}).cohesiveAnchor = true ∧ (metrics.getD name {}).crossPending = false := by
  have hanchor : ∀ m : FamilyMetric, (markAnchor m).anchor = true ↔
      m.crossSeed = true ∨ m.cohesiveAnchor = true ∧ m.crossPending = false := by
    intro m
    show (m.crossSeed || (m.cohesiveAnchor && !m.crossPending)) = true ↔ _
    rw [Bool.or_eq_true, Bool.and_eq_true, Bool.not_eq_true']
  rw [← hanchor]
  unfold anchorNames OrdMap.getD
  rw [List.mem_map]
  constructor
  · rintro ⟨⟨k, m⟩, he, rfl⟩
    obtain ⟨hin, hm⟩ := List.mem_filter.1 he
    rw [OrdMap.mem_entries.1 hin]
    exact hm
  · intro h
    cases hf : metrics.find? name with
    | none =>
      rw [hf] at h
      cases h
    | some m =>
      rw [hf] at h
      exact ⟨(name, m), List.mem_filter.2 ⟨OrdMap.mem_entries.2 hf, h⟩, rfl⟩

/-- The family is an end of the pair. -/
def EndOf (pair : FamilyPair) (f : String) : Prop := (ofLex pair).1 = f ∨ (ofLex pair).2 = f

/-- What the loop over the pairs makes of the seeds and the graces. -/
structure Marked (s : NumaDomainSolver) (options : NumaDomainOptions) (st : PairState) : Prop where
  seed : ∀ f, (st.metrics.getD f {}).crossSeed = true ↔ ∃ pair ∈ st.confirmedSeeds, EndOf pair f
  qualifying : ∀ pair, pair ∈ st.qualifying ↔ ∃ q ∈ st.familyPairs, pairOf q = pair ∧ q.qualifies = true
  grace : ∀ pair, st.mergePendingGrace.find? pair =
    if pair ∈ st.qualifying then some options.planConfirmations else s.mergePendingGrace.find? pair

theorem Marked.confirmPair {s : NumaDomainSolver} {options : NumaDomainOptions} {st : PairState} (h : Marked s options st)
    (r : Relations) (pair : FamilyPair) : Marked s options (NumaDomainSolver.confirmPair options r st pair) := by
  unfold NumaDomainSolver.confirmPair
  dsimp only
  generalize (decide (options.familyMinimumDemand ≤ (st.metrics.getD (ofLex pair).1 {}).demand) &&
    decide (options.familyMinimumDemand ≤ (st.metrics.getD (ofLex pair).2 {}).demand) &&
    decide (options.familyMinimumInternalRelation ≤ (st.metrics.getD (ofLex pair).1 {}).internalRelation) &&
    decide (options.familyMinimumInternalRelation ≤ (st.metrics.getD (ofLex pair).2 {}).internalRelation)) = eligible
  generalize (eligible && decide (0 < min (r.internal.getD (ofLex pair).1 0) (r.internal.getD (ofLex pair).2 0)) &&
    decide (options.domainMergeRatio ≤ r.cross.getD pair 0 /
      min (r.internal.getD (ofLex pair).1 0) (r.internal.getD (ofLex pair).2 0))) = qualifies
  generalize (if qualifies = true then st.mergeConfirmations.getD pair 0 + 1 else 0) = confirmation
  refine ⟨fun f => ?_, fun x => ?_, fun x => ?_⟩
  · rw [OrdMap.getD_update, OrdMap.getD_update]
    by_cases hconfirmed : options.domainStabilityConfirmations ≤ confirmation
    · simp only [hconfirmed, decide_true, Bool.or_true, if_true, List.mem_append, List.mem_singleton, or_and_right, exists_or,
        exists_eq_left]
      rw [← h.seed]
      unfold EndOf
      by_cases hl : (ofLex pair).1 = f
      · by_cases hr : (ofLex pair).2 = f <;> simp [hl, hr]
      · by_cases hr : (ofLex pair).2 = f <;> simp [hl, hr]
    · simp only [hconfirmed, decide_false, Bool.or_false, Bool.false_eq_true, if_false]
      rw [← h.seed]
      split <;> split <;> rfl
  · dsimp only
    cases qualifies with
    | true =>
      rw [if_pos rfl, OrdSet.mem_add, h.qualifying]
      simp only [List.mem_append, List.mem_singleton, or_and_right, exists_or, exists_eq_left, and_true]
      exact or_comm
    | false =>
      rw [if_neg Bool.false_ne_true, h.qualifying]
      simp only [List.mem_append, List.mem_singleton, or_and_right, exists_or, exists_eq_left, Bool.false_eq_true, and_false,
        or_false]
  · dsimp only
    cases qualifies with
    | true =>
      rw [if_pos rfl, if_pos rfl, OrdMap.find?_insert, h.grace]
      by_cases hx : pair = x
      · rw [if_pos hx, if_pos (OrdSet.mem_add.2 (Or.inl hx))]
      · rw [if_neg hx]
        have hin : x ∈ OrdSet.add st.qualifying pair ↔ x ∈ st.qualifying := by
          rw [OrdSet.mem_add]
          exact or_iff_right hx
        by_cases hq : x ∈ st.qualifying
        · rw [if_pos hq, if_pos (hin.2 hq)]
        · rw [if_neg hq, if_neg (fun hq' => hq (hin.1 hq'))]
    | false =>
      rw [if_neg Bool.false_ne_true, if_neg Bool.false_ne_true]
      exact h.grace x

/-- The state after the loop over the selected pairs. -/
def loopedPairs (s : NumaDomainSolver) (input : ProposeInput) : PairState :=
  (selectFamilyEdges (relationStage input).cross input.options.familyEdgesPerFamily).toList.foldl
    (NumaDomainSolver.confirmPair input.options (relationStage input))
    { metrics := metricStage s input, mergeConfirmations := s.mergeConfirmations, mergePendingGrace := s.mergePendingGrace }

theorem loopedPairs_marked (s : NumaDomainSolver) (input : ProposeInput) : Marked s input.options (loopedPairs s input) := by
  refine Loop.foldl_keeps (Marked s input.options) (fun st pair h => h.confirmPair (relationStage input) pair) _ ?_
  refine ⟨fun f => ?_, fun pair => ?_, fun pair => ?_⟩
  · have hfalse : ((metricStage s input).getD f {}).crossSeed = false := by
      unfold metricStage familyMetrics OrdMap.getD
      dsimp only
      rw [OrdMap.find?_mapVal]
      cases (byFamily input.threads).find? f <;> rfl
    rw [hfalse]
    simp
  · refine iff_of_false (OrdMap.notMem_empty pair) ?_
    simp
  · exact (if_neg (OrdMap.notMem_empty pair)).symm

/-- A family with a member is in the metrics of every stage. -/
theorem mem_loopedPairs {s : NumaDomainSolver} {input : ProposeInput} {th : ThreadDemand} (h : th ∈ input.threads) :
    th.group ∈ (loopedPairs s input).metrics := by
  refine Loop.foldl_keeps (fun st : PairState => th.group ∈ st.metrics) (fun st pair hst => ?_) _ ?_
  · exact OrdMap.mem_insert.2 (Or.inr (OrdMap.mem_insert.2 (Or.inr hst)))
  · unfold metricStage familyMetrics
    dsimp only
    rw [OrdMap.mem_mapVal, OrdMap.mem_iff]
    have hmem := mem_byFamily.2 ⟨h, rfl⟩
    unfold OrdMap.getD at hmem
    cases hf : (byFamily input.threads).find? th.group with
    | none =>
      rw [hf] at hmem
      cases hmem
    | some members => exact ⟨members, rfl⟩

/-- What marking the pending pairs leaves alone. -/
theorem getD_markPending (options : NumaDomainOptions) (confirmations : OrdMap FamilyPair Int)
    (metrics : OrdMap String FamilyMetric) (e : FamilyPair × Int) (f : String) :
    (markPending options confirmations metrics e).getD f {} = metrics.getD f {} ∨
      (markPending options confirmations metrics e).getD f {} = { metrics.getD f {} with crossPending := true } := by
  unfold markPending
  dsimp only
  split
  · rw [OrdMap.getD_update, OrdMap.getD_update]
    split
    · split <;> exact Or.inr rfl
    · split
      · exact Or.inr rfl
      · exact Or.inl rfl
  · exact Or.inl rfl

theorem mem_markPending {options : NumaDomainOptions} {confirmations : OrdMap FamilyPair Int}
    {metrics : OrdMap String FamilyMetric} {e : FamilyPair × Int} {f : String} (h : f ∈ metrics) :
    f ∈ markPending options confirmations metrics e := by
  unfold markPending
  dsimp only
  split
  · exact OrdMap.mem_insert.2 (Or.inr (OrdMap.mem_insert.2 (Or.inr h)))
  · exact h

theorem foldl_markPending_seed (options : NumaDomainOptions) (confirmations : OrdMap FamilyPair Int) (f : String)
    (es : List (FamilyPair × Int)) (metrics : OrdMap String FamilyMetric) :
    ((es.foldl (markPending options confirmations) metrics).getD f {}).crossSeed = (metrics.getD f {}).crossSeed := by
  refine Loop.foldl_keeps (fun m : OrdMap String FamilyMetric => (m.getD f {}).crossSeed = (metrics.getD f {}).crossSeed)
    (fun m e hm => ?_) es rfl
  rcases getD_markPending options confirmations m e f with heq | heq <;> rw [heq]
  · exact hm
  · exact hm

/-- **A pending pair holds back both its families.** -/
theorem foldl_markPending_pending {options : NumaDomainOptions} {confirmations : OrdMap FamilyPair Int} {pair : FamilyPair}
    {grace : Int} (hgrace : 0 < grace) (hconf : confirmations.getD pair 0 < options.domainStabilityConfirmations) {f : String}
    (hf : EndOf pair f) : ∀ (es : List (FamilyPair × Int)) (metrics : OrdMap String FamilyMetric), (pair, grace) ∈ es →
      (ofLex pair).1 ∈ metrics → (ofLex pair).2 ∈ metrics →
      ((es.foldl (markPending options confirmations) metrics).getD f {}).crossPending = true
  | e :: es, metrics, he, hl, hr => by
    rw [List.foldl_cons]
    rcases List.mem_cons.1 he with rfl | he
    · refine Loop.foldl_keeps (fun m : OrdMap String FamilyMetric => (m.getD f {}).crossPending = true)
        (fun m e hm => ?_) es ?_
      · rcases getD_markPending options confirmations m e f with heq | heq <;> rw [heq]
        exact hm
      · unfold markPending
        dsimp only
        rw [if_pos ⟨hgrace, hconf, hl, hr⟩, OrdMap.getD_update, OrdMap.getD_update]
        rcases hf with rfl | rfl
        · split <;> simp
        · simp
    · exact foldl_markPending_pending hgrace hconf hf es _ he (mem_markPending hl) (mem_markPending hr)

/-! ## One call -/

/-- The grace of a pair after a call. -/
theorem pairStage_grace (s : NumaDomainSolver) (input : ProposeInput) (pair : FamilyPair) :
    (pairStage s input).mergePendingGrace.getD pair 0 =
      if Qualified pair ⟨s, input⟩ then input.options.planConfirmations
      else if 0 < s.mergePendingGrace.getD pair 0 then s.mergePendingGrace.getD pair 0 - 1
      else s.mergePendingGrace.getD pair 0 := by
  have h := loopedPairs_marked s input
  have hgrace : (pairStage s input).mergePendingGrace = (loopedPairs s input).mergePendingGrace.mapVal
      (fun pair g => if pair ∉ (loopedPairs s input).qualifying ∧ 0 < g then g - 1 else g) := rfl
  have hqual : pair ∈ (loopedPairs s input).qualifying ↔ Qualified pair ⟨s, input⟩ := h.qualifying pair
  rw [hgrace]
  unfold OrdMap.getD
  rw [OrdMap.find?_mapVal, h.grace]
  by_cases hq : Qualified pair ⟨s, input⟩
  · rw [if_pos hq, if_pos (hqual.2 hq), Option.map_some, if_neg (fun hn => hn.1 (hqual.2 hq))]
    rfl
  · have hnot : pair ∉ (loopedPairs s input).qualifying := fun hn => hq (hqual.1 hn)
    rw [if_neg hq, if_neg hnot]
    cases s.mergePendingGrace.find? pair with
    | none => rfl
    | some g =>
      simp only [Option.map_some, Option.getD_some, hnot, not_false_eq_true, true_and]

/-- The seeds are among the selected pairs. -/
theorem selected_of_seed {s : NumaDomainSolver} {input : ProposeInput} {pair : FamilyPair}
    (h : pair ∈ (pairStage s input).confirmedSeeds) : pair ∈ (relationStage input).cross := by
  have hinv : pair ∈ (loopedPairs s input).confirmedSeeds →
      pair ∈ (selectFamilyEdges (relationStage input).cross input.options.familyEdgesPerFamily).toList := by
    refine Loop.foldl_so_far (fun done (st : PairState) => pair ∈ st.confirmedSeeds → pair ∈ done)
      (fun done st x hst hp => ?_) _ [] (fun hp => absurd hp List.not_mem_nil)
    unfold NumaDomainSolver.confirmPair at hp
    dsimp only at hp
    rcases mem_of_push hp with hp | rfl
    · exact List.mem_append_left _ (hst hp)
    · exact List.mem_append_right _ (List.mem_singleton.2 rfl)
  exact mem_of_selected (OrdSet.mem_toList.1 (hinv h))

/-- The ends of a confirmed seed are anchors, and two. -/
theorem seed_ends {s : NumaDomainSolver} {input : ProposeInput} {f g : String}
    (h : Seeded (pairStage s input).confirmedSeeds f g) :
    (f ∈ anchorNames (pairStage s input).metrics ∧ g ∈ anchorNames (pairStage s input).metrics) ∧ f ≠ g := by
  have hends : ∀ x, EndOf (toLex (f, g)) x → x ∈ anchorNames (pairStage s input).metrics := by
    intro x hx
    refine mem_anchorNames.2 (Or.inl ?_)
    refine (foldl_markPending_seed _ _ x _ _).trans ?_
    exact ((loopedPairs_marked s input).seed x).2 ⟨_, h, hx⟩
  exact ⟨⟨hends f (Or.inl rfl), hends g (Or.inr rfl)⟩, ne_of_lt (cross_lt (selected_of_seed h))⟩

/-- A candidate is a component. -/
theorem component_of_candidate {s : NumaDomainSolver} {input : ProposeInput} {d : NumaDomain}
    (hd : d ∈ (candidateStage s input).domains) : ∃ r l,
      (components (anchorNames (pairStage s input).metrics) (pairStage s input).confirmedSeeds).find? r = some l ∧
      ∀ f, f ∈ d.families ↔ f ∈ l := by
  have hmem := List.mem_map_of_mem (f := fun d : NumaDomain => d.families) hd
  rw [candidateStage_families] at hmem
  obtain ⟨⟨r, l⟩, he, hl⟩ := List.mem_map.1 hmem
  refine ⟨r, l, OrdMap.mem_entries.1 he, fun f => ?_⟩
  rw [← hl]
  exact List.mem_insertionSort _

/-- **A family that is held back is no candidate by itself.** -/
theorem pending_not_alone {s : NumaDomainSolver} {input : ProposeInput} {pair : FamilyPair}
    (hgrace : 0 < (pairStage s input).mergePendingGrace.getD pair 0)
    (hconf : (pairStage s input).mergeConfirmations.getD pair 0 < input.options.domainStabilityConfirmations)
    (hobserved : ∀ f, EndOf pair f → ∃ th ∈ input.threads, th.group = f) {d : NumaDomain}
    (hd : d ∈ (candidateStage s input).domains) {f : String} (hend : EndOf pair f) (hf : f ∈ d.families) :
    ∃ g ∈ d.families, g ≠ f := by
  have hin : ∀ f, EndOf pair f → f ∈ (loopedPairs s input).metrics := by
    intro f hend
    obtain ⟨th, hth, rfl⟩ := hobserved f hend
    exact mem_loopedPairs hth
  have hentry : (pair, (pairStage s input).mergePendingGrace.getD pair 0) ∈
      (pairStage s input).mergePendingGrace.entries := by
    rw [OrdMap.mem_entries]
    unfold OrdMap.getD at hgrace ⊢
    cases hg : (pairStage s input).mergePendingGrace.find? pair with
    | none =>
      rw [hg] at hgrace
      exact absurd hgrace (lt_irrefl 0)
    | some g => rfl
  have hpending : ((pairStage s input).metrics.getD f {}).crossPending = true :=
    foldl_markPending_pending hgrace hconf hend _ _ hentry (hin _ (Or.inl rfl)) (hin _ (Or.inr rfl))
  obtain ⟨r, l, hfind, hmem⟩ := component_of_candidate hd
  have hends := fun f g (h : Seeded (pairStage s input).confirmedSeeds f g) => (seed_ends h).1
  have hanchor := ((mem_components_iff hends hfind ((hmem f).1 hf)).1 ((hmem f).1 hf)).1
  rcases mem_anchorNames.1 hanchor with hseed | ⟨-, hfree⟩
  · -- it is an anchor for another pair, and with the other end of that in one component
    have hlooped : ((loopedPairs s input).metrics.getD f {}).crossSeed = true :=
      (foldl_markPending_seed _ _ f _ _).symm.trans hseed
    obtain ⟨other, hother, hof⟩ := ((loopedPairs_marked s input).seed f).1 hlooped
    have hseeded : Seeded (pairStage s input).confirmedSeeds (ofLex other).1 (ofLex other).2 := hother
    obtain ⟨⟨hl, hr⟩, hne⟩ := seed_ends hseeded
    rcases hof with rfl | rfl
    · refine ⟨(ofLex other).2, (hmem _).2 ?_, Ne.symm hne⟩
      exact (mem_components_iff hends hfind ((hmem _).1 hf)).2 ⟨hr, .rel _ _ hseeded⟩
    · refine ⟨(ofLex other).1, (hmem _).2 ?_, hne⟩
      exact (mem_components_iff hends hfind ((hmem _).1 hf)).2 ⟨hl, .symm _ _ (.rel _ _ hseeded)⟩
  · rw [hpending] at hfree
    cases hfree

end NumaDomainSolver

open NumaDomainSolver

namespace Traced

variable {w w' : Traced} {e : SolverEvent}

/-! ## The calls of a run -/

/-- **What is left of a grace**: a pair that qualified has at least the rest of the confirmations of a plan, counted from
that call on. -/
def Gracious (options : NumaDomainOptions) (pair : FamilyPair) (calls : List Call) (grace : Int) : Prop :=
  ∀ newer c older, calls = newer ++ c :: older → Qualified pair c → options.planConfirmations - newer.length ≤ grace

theorem Gracious.call {options : NumaDomainOptions} {pair : FamilyPair} {calls : List Call} {s : NumaDomainSolver}
    {input : ProposeInput} (h : Gracious options pair calls (s.mergePendingGrace.getD pair 0)) (ho : input.options = options) :
    Gracious options pair (⟨s, input⟩ :: calls) ((proposed s input).mergePendingGrace.getD pair 0) := by
  intro newer c older hsplit hq
  show _ ≤ (pairStage s input).mergePendingGrace.getD pair 0
  rw [pairStage_grace, ho]
  split
  · exact sub_le_self _ (Int.natCast_nonneg _)
  · rename_i hnot
    cases newer with
    | nil =>
      cases hsplit
      exact absurd hq hnot
    | cons x newer =>
      cases hsplit
      have hle := h newer c older rfl hq
      rw [List.length_cons, Nat.cast_succ]
      split <;> omega

/-- Every state of a run with fixed options has the graces of its calls. -/
theorem gracious_of_run {options : NumaDomainOptions} {run : List SolverEvent} (hrun : Run.exec step {} run = some w)
    (hfixed : ∀ c ∈ w.calls, c.input.options = options) (pair : FamilyPair) :
    Gracious options pair w.calls (w.solver.mergePendingGrace.getD pair 0) := by
  have hkeep : (∀ c ∈ w.calls, c.input.options = options) →
      Gracious options pair w.calls (w.solver.mergePendingGrace.getD pair 0) := by
    refine Run.exec_keeps (fun w : Traced => (∀ c ∈ w.calls, c.input.options = options) →
      Gracious options pair w.calls (w.solver.mergePendingGrace.getD pair 0)) (fun w e w' h hstep hfixed => ?_)
      (fun _ newer c older hnil => ?_) hrun
    · obtain ⟨s, hs, rfl⟩ := Option.map_eq_some_iff.1 hstep
      cases e with
      | propose input =>
        obtain ⟨⟨p, t⟩, hp, rfl⟩ := Option.map_eq_some_iff.1 hs
        obtain ⟨-, -, rfl⟩ := propose_ok (toOption_eq_some hp)
        exact (h (fun c hc => hfixed c (List.mem_cons_of_mem _ hc))).call (hfixed _ List.mem_cons_self)
      | commit nowNs tids =>
        obtain ⟨p, -, hcommit⟩ := Option.bind_eq_some_iff.1 hs
        have hread := read_commit (fun s => s.mergePendingGrace) (fun _ _ => rfl) (fun _ _ _ _ => rfl)
          (fun _ _ _ _ => rfl) (toOption_eq_some hcommit)
        dsimp only at hread ⊢
        rw [hread]
        exact h hfixed
      | discard =>
        obtain ⟨p, -, rfl⟩ := Option.map_eq_some_iff.1 hs
        have hread := read_discard (fun s => s.mergePendingGrace) (fun _ => rfl) w.solver p
        dsimp only at hread ⊢
        rw [hread]
        exact h hfixed
      | removeThread tid =>
        cases hs
        exact h hfixed
      | reset =>
        intro newer c older hnil
        exact absurd hnil.symm (by simp [calls])
    · exact absurd hnil.symm (by simp [calls])
  exact hkeep hfixed

/-- **A pending merge suppresses its singletons.**  In every run since its last reset, with fixed options: where a pair
qualified in one of the last calls that a plan has to be confirmed in, and both its families are observed but the pair is not
confirmed, no domain of the proposal is one of the two families alone, except one that is held by its dwell. -/
theorem pending_merge_suppresses {options : NumaDomainOptions} {run : List SolverEvent}
    (hrun : Run.exec step {} run = some w) {input : ProposeInput} {p : NumaDomainProposal} {s' : NumaDomainSolver}
    (hp : propose w.solver input = .ok (p, s'))
    (hfixed : ∀ c ∈ (⟨w.solver, input⟩ : Call) :: w.calls, c.input.options = options) {newer older : List Call} {c : Call}
    (hcalls : (⟨w.solver, input⟩ : Call) :: w.calls = newer ++ c :: older) (hlate : newer.length < options.planConfirmations)
    {pair : FamilyPair} (hqual : Qualified pair c) (hobserved : ∀ f, EndOf pair f → ∃ th ∈ input.threads, th.group = f)
    (hnot : s'.mergeConfirmations.getD pair 0 < options.domainStabilityConfirmations) :
    ∀ d ∈ p.domains, d.nodeDecision ≠ .heldDomainDwell → ∀ f, EndOf pair f → d.families.toFinset ≠ {f} := by
  obtain ⟨-, rfl, rfl⟩ := propose_ok hp
  intro d hd hheld f hend halone
  have hmem : f ∈ d.families := by
    rw [← List.mem_toFinset, halone, Finset.mem_singleton]
  have hoptions : input.options = options := hfixed _ List.mem_cons_self
  have hgrace := (gracious_of_run hrun (fun c hc => hfixed c (List.mem_cons_of_mem _ hc)) pair).call hoptions newer c older
    hcalls hqual
  have hpos : 0 < (pairStage w.solver input).mergePendingGrace.getD pair 0 := by
    refine lt_of_lt_of_le ?_ hgrace
    omega
  obtain ⟨k, hk, he⟩ := exists_held (fun d => (d.nodeDecision, d.families)) (fun _ _ _ _ => rfl) hd
  simp only [Prod.mk.injEq] at he
  rcases mem_heldStage_cases hk with hk | ⟨x, -, -, rfl⟩
  · obtain ⟨g, hg, hne⟩ := pending_not_alone hpos (hoptions ▸ hnot) hobserved hk hend (he.2 ▸ hmem)
    rw [← he.2, ← List.mem_toFinset, halone, Finset.mem_singleton] at hg
    exact hne hg
  · exact hheld he.1

/-- Two families of two threads each, with so much between the families; a plan has to be confirmed twice. -/
def twoGroups (between : ℚ) : ProposeInput where
  hardware := { cpus := [⟨0, 0, true⟩, ⟨1, 0, true⟩, ⟨2, 1, true⟩, ⟨3, 1, true⟩] }
  threads := [⟨⟨1, 1, 1⟩, "a", 1 / 2, 0, 0⟩, ⟨⟨1, 2, 1⟩, "a", 1 / 2, 0, 0⟩, ⟨⟨1, 3, 1⟩, "b", 1 / 2, 0, 0⟩,
    ⟨⟨1, 4, 1⟩, "b", 1 / 2, 0, 0⟩]
  edges := [{ fromTid := 1, toTid := 2, score := 1 }, { fromTid := 3, toTid := 4, score := 1 },
    { fromTid := 1, toTid := 3, score := between }]
  options :=
    { familyStabilityConfirmations := 1
      domainStabilityConfirmations := 2
      planConfirmations := 2 }
  nowNs := 1000

theorem observed_twoGroups (between : ℚ) : ∀ f, EndOf (minmax "a" "b") f → ∃ th ∈ (twoGroups between).threads, th.group = f := by
  rintro f (rfl | rfl)
  · exact ⟨⟨⟨1, 1, 1⟩, "a", 1 / 2, 0, 0⟩, by simp [twoGroups], by decide⟩
  · exact ⟨⟨⟨1, 3, 1⟩, "b", 1 / 2, 0, 0⟩, by simp [twoGroups], by decide⟩

/-- The pair qualifies once, and in the window after that neither family is planned by itself. -/
theorem pending_merge_suppresses_once : ∃ w p s', Run.exec step {} [.propose (twoGroups 1), .discard] = some w ∧
    propose w.solver (twoGroups 0) = .ok (p, s') ∧ p.families.map (·.cohesiveAnchor) = [true, true] ∧
      ∀ d ∈ p.domains, d.nodeDecision ≠ .heldDomainDwell →
        ∀ f, EndOf (minmax "a" "b") f → d.families.toFinset ≠ {f} := by
  let s := NumaDomainSolver.discard (proposed {} (twoGroups 1)) (proposalOf {} (twoGroups 1))
  let w : Traced := ⟨s, [(proposed {} (twoGroups 1), .discard), ({}, .propose (twoGroups 1))]⟩
  have hw : Run.exec step {} [.propose (twoGroups 1), .discard] = some w := rfl
  have hqual : Qualified (minmax "a" "b") ⟨{}, twoGroups 1⟩ := by decide +kernel
  have h : (propose s (twoGroups 0)).toOption.any (fun x => decide (x.1.families.map (·.cohesiveAnchor) = [true, true] ∧
      x.2.mergeConfirmations.getD (minmax "a" "b") 0 < 2)) = true := by decide +kernel
  obtain ⟨⟨p, s'⟩, hp, h⟩ := (Option.any_eq_true _ _).1 h
  obtain ⟨hanchors, hnot⟩ := of_decide_eq_true h
  have hp' := toOption_eq_some hp
  have hcalls : (⟨s, twoGroups 0⟩ : Call) :: w.calls = [⟨s, twoGroups 0⟩] ++ ⟨{}, twoGroups 1⟩ :: [] := rfl
  have hfixed : ∀ c ∈ (⟨s, twoGroups 0⟩ : Call) :: w.calls, c.input.options = (twoGroups 1).options := by
    intro c hc
    rcases List.mem_cons.1 hc with rfl | hc
    · rfl
    · rw [List.mem_singleton.1 hc]
  exact ⟨w, p, s', hw, hp', hanchors,
    pending_merge_suppresses hw hp' hfixed hcalls (by decide) hqual (observed_twoGroups 0) hnot⟩

/-- **A reset forgets what is pending**: the same two windows with a reset between them end in each family by itself. -/
theorem reset_forgets_pending : Run.exec step {} [.propose (twoGroups 1), .discard, .reset] = some {} ∧
    Qualified (minmax "a" "b") ⟨{}, twoGroups 1⟩ ∧ (twoGroups 1).options = (twoGroups 0).options ∧
    (1 : Int) < (twoGroups 0).options.planConfirmations ∧
    (∀ f, EndOf (minmax "a" "b") f → ∃ th ∈ (twoGroups 0).threads, th.group = f) ∧
    ∃ p s', propose {} (twoGroups 0) = .ok (p, s') ∧
      s'.mergeConfirmations.getD (minmax "a" "b") 0 < (twoGroups 0).options.domainStabilityConfirmations ∧
      ∃ d ∈ p.domains, d.nodeDecision ≠ .heldDomainDwell ∧ d.families.toFinset = {"a"} := by
  have hqual : Qualified (minmax "a" "b") ⟨{}, twoGroups 1⟩ := by decide +kernel
  have h : (propose {} (twoGroups 0)).toOption.any (fun x => decide (x.2.mergeConfirmations.getD (minmax "a" "b") 0 < 2 ∧
      ∃ d ∈ x.1.domains, d.nodeDecision ≠ .heldDomainDwell ∧ d.families.toFinset = {"a"})) = true := by decide +kernel
  obtain ⟨⟨p, s'⟩, hp, h⟩ := (Option.any_eq_true _ _).1 h
  obtain ⟨hnot, hd⟩ := of_decide_eq_true h
  exact ⟨rfl, hqual, rfl, by decide, observed_twoGroups 0, p, s', toOption_eq_some hp, hnot, hd⟩

end Traced
end AffinityGraph
