import AffinityGraph.DomainSolver
/-!
# DomainTwins — what `NumaDomainSolver::propose` reads of its arguments

The solver reads of a thread all but its confidence, of the hardware the CPUs and the node distances, of the relation
edges what they add up to, and of the clock only whether a time is within the dwell of another.  Two solvers that have
been told the same so far, on clocks that agree about the dwell, are twins: they propose the same and stay twins
(`Twin.propose`).
-/
namespace AffinityGraph

/-- A thread as the solver reads it. -/
def ThreadDemand.bare (th : ThreadDemand) : ThreadDemand := { th with confidence := 0 }

/-- The hardware as the solver reads it. -/
def HardwareGraph.bare (h : HardwareGraph) : HardwareGraph := { cpus := h.cpus, nodeDistance := h.nodeDistance }

/-- An edge as the solver reads it. -/
def RelationEdge.bare (e : RelationEdge) : RelationEdge := { fromTid := e.fromTid, toTid := e.toTid, score := e.score }

namespace NumaDomainSolver

/-! ## Threads without their confidence -/

/-- The input as the solver reads it, but for the edges. -/
def bareInput (i : ProposeInput) : ProposeInput :=
  { i with hardware := i.hardware.bare, threads := i.threads.map ThreadDemand.bare }

def bareFamilies (families : OrdMap String (List ThreadDemand)) : OrdMap String (List ThreadDemand) :=
  families.mapVal (fun _ l => l.map ThreadDemand.bare)

section Bare

theorem byTid_bare (l : List ThreadDemand) : byTid (l.map ThreadDemand.bare) = (byTid l).mapVal (fun _ t => t.bare) := by
  have hloop : ∀ (l : List ThreadDemand) (m : OrdMap Tid ThreadDemand),
      (l.map ThreadDemand.bare).foldl (fun m t => m.insert t.identity.tid t) (m.mapVal (fun _ t => t.bare)) =
        (l.foldl (fun m t => m.insert t.identity.tid t) m).mapVal (fun _ t => t.bare) := by
    intro l
    induction l with
    | nil => exact fun _ => rfl
    | cons t l ih =>
      intro m
      rw [List.map_cons, List.foldl_cons, List.foldl_cons, ← ih, OrdMap.mapVal_insert]
      rfl
  exact hloop l ∅

theorem byFamily_bare (l : List ThreadDemand) : byFamily (l.map ThreadDemand.bare) = bareFamilies (byFamily l) := by
  have hloop : ∀ (l : List ThreadDemand) (m : OrdMap String (List ThreadDemand)),
      (l.map ThreadDemand.bare).foldl (fun m t => m.update t.group [] (· ++ [t])) (bareFamilies m) =
        bareFamilies (l.foldl (fun m t => m.update t.group [] (· ++ [t])) m) := by
    intro l
    induction l with
    | nil => exact fun _ => rfl
    | cons t l ih =>
      intro m
      rw [List.map_cons, List.foldl_cons, List.foldl_cons, ← ih]
      congr 1
      unfold OrdMap.update bareFamilies
      rw [OrdMap.mapVal_insert, List.map_append, ← OrdMap.getD_mapVal m (fun _ l => l.map ThreadDemand.bare) t.group []]
      rfl
  exact hloop l ∅

theorem membersOf_bare (families : OrdMap String (List ThreadDemand)) (names : List String) :
    membersOf (bareFamilies families) names = (membersOf families names).map ThreadDemand.bare := by
  unfold membersOf
  rw [List.map_flatMap]
  congr 1
  funext n
  exact OrdMap.getD_mapVal families (fun _ l => l.map ThreadDemand.bare) n []

@[simp] theorem map_demand_bare (l : List ThreadDemand) :
    (l.map ThreadDemand.bare).map (·.demand) = l.map (·.demand) := by
  rw [List.map_map]
  rfl

@[simp] theorem map_tid_bare (l : List ThreadDemand) :
    (l.map ThreadDemand.bare).map (·.identity.tid) = l.map (·.identity.tid) := by
  rw [List.map_map]
  rfl

theorem addRelation_bare (tids : OrdMap Tid ThreadDemand) (r : Relations) (e : RelationEdge) :
    addRelation (tids.mapVal (fun _ t => t.bare)) r e = addRelation tids r e := by
  unfold addRelation
  rw [OrdMap.find?_mapVal, OrdMap.find?_mapVal]
  cases tids.find? e.fromTid with
  | none => rfl
  | some a =>
    cases tids.find? e.toTid with
    | none => rfl
    | some b => rfl

theorem relationStage_bare (i : ProposeInput) : relationStage (bareInput i) = relationStage i := by
  unfold relationStage relations bareInput
  dsimp only
  rw [byTid_bare]
  congr 1
  funext r e
  exact addRelation_bare _ r e

theorem metricStage_bare (s : NumaDomainSolver) (i : ProposeInput) : metricStage s (bareInput i) = metricStage s i := by
  unfold metricStage
  rw [relationStage_bare]
  unfold familyMetrics bareInput
  dsimp only
  rw [byFamily_bare, bareFamilies, OrdMap.mapVal_mapVal]
  congr 1
  funext name members
  unfold familyMetric
  rw [map_demand_bare, List.length_map]

theorem pairStage_bare (s : NumaDomainSolver) (i : ProposeInput) : pairStage s (bareInput i) = pairStage s i := by
  unfold pairStage
  rw [relationStage_bare, metricStage_bare]
  rfl

theorem evaluateNodes_bare (hardware : HardwareGraph) (nodes : List Int) (demand ratio : ℚ)
    (members threads : List ThreadDemand) (placed : List (List String × List Int)) (families : List String)
    (cross : OrdMap FamilyPair ℚ) :
    evaluateNodes hardware.bare nodes demand ratio (members.map ThreadDemand.bare) (threads.map ThreadDemand.bare) placed
      families cross = evaluateNodes hardware nodes demand ratio members threads placed families cross := by
  have hbackground : (((threads.map ThreadDemand.bare).filter (fun t => !(members.map (·.identity.tid)).contains t.identity.tid &&
      cpuInNodes hardware.bare t.currentCpu nodes)).map (·.demand)) =
      ((threads.filter (fun t => !(members.map (·.identity.tid)).contains t.identity.tid &&
        cpuInNodes hardware t.currentCpu nodes)).map (·.demand)) := by
    rw [List.filter_map, map_demand_bare]
    rfl
  have hmigrations : ((members.map ThreadDemand.bare).filter (fun t => !cpuInNodes hardware.bare t.currentCpu nodes)).length =
      (members.filter (fun t => !cpuInNodes hardware t.currentCpu nodes)).length := by
    rw [List.filter_map, List.length_map]
    rfl
  unfold evaluateNodes
  dsimp only
  rw [map_tid_bare, hbackground, hmigrations]
  rfl

theorem chooseNodes_bare (hardware : HardwareGraph) (demand ratio : ℚ) (members threads : List ThreadDemand)
    (placed : List (List String × List Int)) (families : List String) (cross : OrdMap FamilyPair ℚ) :
    chooseNodes hardware.bare demand ratio (members.map ThreadDemand.bare) (threads.map ThreadDemand.bare) placed families
      cross = chooseNodes hardware demand ratio members threads placed families cross := by
  unfold chooseNodes
  simp only [evaluateNodes_bare]
  rfl

theorem addCandidate_bare (i : ProposeInput) (s : NumaDomainSolver) (families : OrdMap String (List ThreadDemand))
    (cross : OrdMap FamilyPair ℚ) (st : CandidateState) (component : List String) :
    addCandidate (bareInput i) s (bareFamilies families) cross st component = addCandidate i s families cross st component := by
  have hmembers : ∀ names : List String, names.flatMap (fun n => (bareFamilies families).getD n []) =
      (names.flatMap (fun n => families.getD n [])).map ThreadDemand.bare := fun names => membersOf_bare families names
  unfold addCandidate
  dsimp only [bareInput]
  simp only [hmembers, map_tid_bare, map_demand_bare, chooseNodes_bare, evaluateNodes_bare, List.any_map]
  rfl

theorem candidateStage_bare (s : NumaDomainSolver) (i : ProposeInput) :
    candidateStage s (bareInput i) = candidateStage s i := by
  have hbody : addCandidate (bareInput i) s (byFamily (bareInput i).threads) (relationStage i).cross =
      addCandidate i s (byFamily i.threads) (relationStage i).cross := by
    have hfamilies : byFamily (bareInput i).threads = bareFamilies (byFamily i.threads) := byFamily_bare i.threads
    funext st component
    rw [hfamilies, addCandidate_bare]
  unfold candidateStage candidates
  rw [pairStage_bare, relationStage_bare, hbody]

theorem evidenceStage_bare (s : NumaDomainSolver) (i : ProposeInput) : evidenceStage s (bareInput i) = evidenceStage s i := by
  unfold evidenceStage
  rw [candidateStage_bare]
  rfl

theorem holdStep_bare (options : NumaDomainOptions) (nowNs : Nat) (evidence : OrdMap String Nat)
    (families : OrdMap String (List ThreadDemand)) (st : Held) (committed : NumaDomain) :
    holdStep options nowNs evidence (bareFamilies families) st committed =
      holdStep options nowNs evidence families st committed := by
  unfold holdStep holdDomain
  simp only [membersOf_bare, map_tid_bare, map_demand_bare, List.isEmpty_map]

theorem heldStage_bare (s : NumaDomainSolver) (i : ProposeInput) : heldStage s (bareInput i) = heldStage s i := by
  have hbody : holdStep i.options i.nowNs (evidenceStage s i) (byFamily (bareInput i).threads) =
      holdStep i.options i.nowNs (evidenceStage s i) (byFamily i.threads) := by
    have hfamilies : byFamily (bareInput i).threads = bareFamilies (byFamily i.threads) := byFamily_bare i.threads
    funext st committed
    rw [hfamilies, holdStep_bare]
  unfold heldStage
  rw [candidateStage_bare, evidenceStage_bare]
  dsimp only
  rw [← hbody]
  rfl

theorem planTids_bare (tidMap : OrdMap Tid ThreadDemand) (allowedMasks : OrdMap Tid Mask) (targetMask : Mask) :
    ∀ (tids : List Tid) (masks : OrdMap Tid Mask),
      planTids (tidMap.mapVal (fun _ t => t.bare)) allowedMasks targetMask tids masks =
        planTids tidMap allowedMasks targetMask tids masks
  | [], _ => rfl
  | tid :: tids, masks => by
    unfold planTids
    simp only [OrdMap.mem_mapVal, planTids_bare tidMap allowedMasks targetMask tids]

theorem planDomains_bare (tidMap : OrdMap Tid ThreadDemand) (allowedMasks : OrdMap Tid Mask) :
    ∀ (domains : List NumaDomain) (masks : OrdMap Tid Mask),
      planDomains (tidMap.mapVal (fun _ t => t.bare)) allowedMasks domains masks =
        planDomains tidMap allowedMasks domains masks
  | [], _ => rfl
  | d :: ds, masks => by
    unfold planDomains
    simp only [planTids_bare, planDomains_bare tidMap allowedMasks ds]

theorem planStage_bare (s : NumaDomainSolver) (i : ProposeInput) : planStage s (bareInput i) = planStage s i := by
  unfold planStage finalPlan
  rw [heldStage_bare]
  unfold bareInput
  simp only [byTid_bare, planDomains_bare]

theorem actionFor_bare (tidMap : OrdMap Tid ThreadDemand) (allowedMasks : OrdMap Tid Mask) (domains : List NumaDomain) :
    actionFor (tidMap.mapVal (fun _ t => t.bare)) allowedMasks domains = actionFor tidMap allowedMasks domains := by
  funext e
  unfold actionFor
  rw [OrdMap.find?_mapVal, Option.map_map]
  rfl

theorem planned_bare (s : NumaDomainSolver) (i : ProposeInput) (n : Need) : planned s (bareInput i) n = planned s i n := by
  unfold planned
  rw [planStage_bare]
  rfl

theorem planConfirmation_bare (s : NumaDomainSolver) (i : ProposeInput) :
    planConfirmation s (bareInput i) = planConfirmation s i := by
  unfold planConfirmation
  rw [planStage_bare]

theorem planReady_bare (s : NumaDomainSolver) (i : ProposeInput) : planReady s (bareInput i) = planReady s i := by
  unfold planReady
  rw [planStage_bare, planConfirmation_bare]
  rfl

theorem proposalOf_bare (s : NumaDomainSolver) (i : ProposeInput) : proposalOf s (bareInput i) = proposalOf s i := by
  have htids : byTid (bareInput i).threads = (byTid i.threads).mapVal (fun _ t => t.bare) := byTid_bare i.threads
  have hfamilies : byFamily (bareInput i).threads = bareFamilies (byFamily i.threads) := byFamily_bare i.threads
  have hsize : (bareFamilies (byFamily i.threads)).size = (byFamily i.threads).size := OrdMap.size_mapVal _ _
  have hdemand : (bareInput i).threads.map (·.demand) = i.threads.map (·.demand) := map_demand_bare i.threads
  unfold proposalOf
  rw [pairStage_bare, planStage_bare, planConfirmation_bare, planReady_bare, planned_bare, planned_bare, relationStage_bare,
    htids, hfamilies, hsize, hdemand]
  simp only [actionFor_bare]
  rfl

theorem proposed_bare (s : NumaDomainSolver) (i : ProposeInput) : proposed s (bareInput i) = proposed s i := by
  unfold proposed
  rw [metricStage_bare, pairStage_bare, planConfirmation_bare, candidateStage_bare, evidenceStage_bare, proposalOf_bare,
    planStage_bare]

end Bare
/-! ## Edges in any order -/

section Edges

theorem update_add_comm {κ : Type} [LinearOrder κ] (m : OrdMap κ ℚ) (k l : κ) (x y : ℚ) :
    (m.update k 0 (· + x)).update l 0 (· + y) = (m.update l 0 (· + y)).update k 0 (· + x) := by
  refine OrdMap.ext_find (fun j => ?_)
  unfold OrdMap.update
  by_cases hkl : k = l
  · subst hkl
    simp only [OrdMap.find?_insert, OrdMap.getD_insert, if_true]
    by_cases hj : k = j
    · rw [if_pos hj, if_pos hj, add_right_comm]
    · rw [if_neg hj, if_neg hj, if_neg hj, if_neg hj]
  · have hlk : l ≠ k := Ne.symm hkl
    simp only [OrdMap.find?_insert, OrdMap.getD_insert, if_neg hkl, if_neg hlk]
    by_cases hk : k = j
    · have hl : l ≠ j := fun h => hlk (h.trans hk.symm)
      rw [if_neg hl, if_pos hk, if_pos hk]
    · rw [if_neg hk, if_neg hk]

instance addRelation_comm (tids : OrdMap Tid ThreadDemand) : RightCommutative (addRelation tids) where
  right_comm r e f := by
    unfold addRelation
    cases tids.find? e.fromTid with
    | none => rfl
    | some a =>
      cases tids.find? e.toTid with
      | none => rfl
      | some b =>
        cases tids.find? f.fromTid with
        | none => rfl
        | some c =>
          cases tids.find? f.toTid with
          | none => rfl
          | some d =>
            dsimp only
            by_cases hab : a.group = b.group
            · by_cases hcd : c.group = d.group
              · rw [if_pos hab, if_pos hcd, if_pos hcd, if_pos hab]
                dsimp only
                rw [update_add_comm]
              · rw [if_pos hab, if_neg hcd, if_neg hcd, if_pos hab]
            · by_cases hcd : c.group = d.group
              · rw [if_neg hab, if_pos hcd, if_pos hcd, if_neg hab]
              · rw [if_neg hab, if_neg hcd, if_neg hcd, if_neg hab]
                dsimp only
                rw [update_add_comm r.cross]
                congr 1
                rw [update_add_comm _ b.group c.group, update_add_comm _ b.group d.group, update_add_comm _ a.group c.group,
                  update_add_comm _ a.group d.group]

/-- The relations add up alike in any order of the edges. -/
theorem relations_perm (tids : OrdMap Tid ThreadDemand) {es es' : List RelationEdge}
    (h : (es'.map RelationEdge.bare).Perm (es.map RelationEdge.bare)) : relations tids es' = relations tids es := by
  have hbare : ∀ l : List RelationEdge, relations tids l = (l.map RelationEdge.bare).foldl (addRelation tids) {} := by
    intro l
    rw [List.foldl_map]
    rfl
  rw [hbare es', hbare es]
  exact h.foldl_eq _

theorem sum_score_perm {es es' : List RelationEdge} (h : (es'.map RelationEdge.bare).Perm (es.map RelationEdge.bare)) :
    (es'.map (·.score)).sum = (es.map (·.score)).sum := by
  have hbare : ∀ l : List RelationEdge, l.map (·.score) = (l.map RelationEdge.bare).map (·.score) := by
    intro l
    rw [List.map_map]
    rfl
  rw [hbare es', hbare es]
  exact (h.map (fun e : RelationEdge => e.score)).sum_eq

end Edges

/-! ## Two clocks -/

/-- Two clocks agree about the dwell: a window now, told on both, and the times told on both so far. -/
def Agree (dwell : Nat) (now now' : Nat) (times : List (Nat × Nat)) : Prop :=
  ∀ x ∈ (0, 0) :: times, (subU64 now x.1 < dwell ↔ subU64 now' x.2 < dwell)

/-- The same keys, and at each the two readings of one time. -/
def Paired (times : List (Nat × Nat)) (m m' : OrdMap String Nat) : Prop :=
  ∀ id, Option.Rel (fun a b => (a, b) ∈ times) (m.find? id) (m'.find? id)

/-- The solver with other times. -/
def clocked (s : NumaDomainSolver) (changed evidence : OrdMap String Nat) : NumaDomainSolver :=
  { s with lastChangedNs := changed, lastConfirmedDomainEvidenceNs := evidence }

/-- The second solver is the first but for its times, which are those of the first on another clock. -/
structure Twin (times : List (Nat × Nat)) (s s' : NumaDomainSolver) : Prop where
  same : s' = s.clocked s'.lastChangedNs s'.lastConfirmedDomainEvidenceNs
  changed : Paired times s.lastChangedNs s'.lastChangedNs
  evidence : Paired times s.lastConfirmedDomainEvidenceNs s'.lastConfirmedDomainEvidenceNs

section Clocks

variable {times : List (Nat × Nat)} {m m' : OrdMap String Nat}

theorem Paired.mono (h : Paired times m m') {more : List (Nat × Nat)} (hsub : ∀ x ∈ times, x ∈ more) : Paired more m m' := by
  intro id
  have hid := h id
  revert hid
  generalize m.find? id = o
  generalize m'.find? id = o'
  intro hid
  cases hid with
  | none => exact .none
  | some hx => exact .some (hsub _ hx)

theorem Paired.insert (h : Paired times m m') {a b : Nat} (hab : (a, b) ∈ times) (id : String) :
    Paired times (m.insert id a) (m'.insert id b) := by
  intro id'
  rw [OrdMap.find?_insert, OrdMap.find?_insert]
  by_cases hid : id = id'
  · rw [if_pos hid, if_pos hid]
    exact .some hab
  · rw [if_neg hid, if_neg hid]
    exact h id'

theorem Paired.getD (h : Paired times m m') (id : String) : (m.getD id 0, m'.getD id 0) ∈ (0, 0) :: times := by
  have hid := h id
  unfold OrdMap.getD
  revert hid
  generalize m.find? id = o
  generalize m'.find? id = o'
  intro hid
  cases hid with
  | none => exact List.mem_cons_self
  | some hx => exact List.mem_cons_of_mem _ hx

theorem Paired.mem_iff (h : Paired times m m') (id : String) : id ∈ m' ↔ id ∈ m := by
  have hid := h id
  rw [OrdMap.mem_def, OrdMap.mem_def]
  revert hid
  generalize m.find? id = o
  generalize m'.find? id = o'
  intro hid
  cases hid with
  | none => exact Iff.rfl
  | some _ => exact Iff.rfl

theorem inDwell_twin {options : NumaDomainOptions} {now now' : Nat} (h : Paired times m m')
    (hagree : Agree options.minimumDwellNs now now' times) (id : String) :
    inDwell options now' m' id = inDwell options now m id := by
  have hid := h id
  unfold inDwell
  revert hid
  generalize m.find? id = o
  generalize m'.find? id = o'
  intro hid
  cases hid with
  | none => rfl
  | some hx => exact decide_eq_decide.2 (hagree _ (List.mem_cons_of_mem _ hx)).symm

theorem agree_cons {dwell now now' : Nat} (h : Agree dwell now now' times) : Agree dwell now now' ((now, now') :: times) := by
  intro x hx
  have hself : ∀ n, subU64 n n = 0 := by
    intro n
    unfold subU64
    omega
  rcases List.mem_cons.1 hx with rfl | hx
  · exact h _ List.mem_cons_self
  · rcases List.mem_cons.1 hx with rfl | hx
    · rw [hself, hself]
    · exact h x (List.mem_cons_of_mem _ hx)

end Clocks

/-! ## Twins propose alike -/

section Twins

variable {times : List (Nat × Nat)} {s s' : NumaDomainSolver} {i : ProposeInput} {es : List RelationEdge} {now' : Nat}

/-- The window as the second solver is told it. -/
def retold (i : ProposeInput) (es : List RelationEdge) (now' : Nat) : ProposeInput := { i with edges := es, nowNs := now' }

theorem decideNodes_twin {changed evidence : OrdMap String Nat} (hchanged : Paired times s.lastChangedNs changed)
    (hagree : Agree i.options.minimumDwellNs i.nowNs now' times) (id : String) (demand : ℚ) (required previous : List Int)
    (e h : Int) : decideNodes (retold i es now') (s.clocked changed evidence) id demand required previous e h =
      decideNodes i s id demand required previous e h := by
  have hage : decide (i.options.minimumDwellNs ≤ subU64 now' (changed.getD id 0)) =
      decide (i.options.minimumDwellNs ≤ subU64 i.nowNs (s.lastChangedNs.getD id 0)) := by
    refine decide_eq_decide.2 ?_
    have hpair := hagree _ (hchanged.getD id)
    dsimp only at hpair
    rw [← not_lt, ← not_lt, hpair]
  unfold decideNodes retold clocked
  dsimp only
  rw [hage]

theorem candidateStage_twin {changed evidence : OrdMap String Nat} (hchanged : Paired times s.lastChangedNs changed)
    (hagree : Agree i.options.minimumDwellNs i.nowNs now' times)
    (hedges : (es.map RelationEdge.bare).Perm (i.edges.map RelationEdge.bare)) :
    candidateStage (s.clocked changed evidence) (retold i es now') = candidateStage s i := by
  have hrelations : relationStage (retold i es now') = relationStage i := relations_perm _ hedges
  have hpairs : pairStage (s.clocked changed evidence) (retold i es now') = pairStage s i := by
    unfold pairStage metricStage
    rw [hrelations]
    rfl
  have hbody : addCandidate (retold i es now') (s.clocked changed evidence) (byFamily i.threads) (relationStage i).cross =
      addCandidate i s (byFamily i.threads) (relationStage i).cross := by
    funext st component
    unfold addCandidate
    simp only [decideNodes_twin hchanged hagree]
    rfl
  unfold candidateStage candidates
  rw [hpairs, hrelations]
  show List.foldl (addCandidate (retold i es now') (s.clocked changed evidence) (byFamily i.threads) (relationStage i).cross)
    _ _ = _
  rw [hbody]
  rfl

theorem Paired.refreshEvidence {m m' : OrdMap String Nat} (h : Paired times m m') {now : Nat} (hnow : (now, now') ∈ times)
    (candidates : List NumaDomain) : ∀ domains : List NumaDomain,
      Paired times (refreshEvidence domains candidates now m) (refreshEvidence domains candidates now' m') := by
  intro domains
  unfold NumaDomainSolver.refreshEvidence
  induction domains generalizing m m' with
  | nil => exact h
  | cons d ds ih =>
    rw [List.foldl_cons, List.foldl_cons]
    split
    · exact ih (h.insert hnow d.id)
    · exact ih h

/-- **Twins that are told the same window propose the same and stay twins.** -/
theorem Twin.propose (h : Twin times s s') (hagree : Agree i.options.minimumDwellNs i.nowNs now' times)
    (hedges : (es.map RelationEdge.bare).Perm (i.edges.map RelationEdge.bare)) :
    proposalOf s' (retold i es now') = proposalOf s i ∧
      Twin ((i.nowNs, now') :: times) (proposed s i) (proposed s' (retold i es now')) := by
  obtain ⟨hsame, hchanged, hevidence⟩ := h
  generalize s'.lastChangedNs = changed at hsame hchanged
  generalize s'.lastConfirmedDomainEvidenceNs = evidence at hsame hevidence
  subst hsame
  have hrelations : relationStage (retold i es now') = relationStage i := relations_perm _ hedges
  have hmetrics : metricStage (s.clocked changed evidence) (retold i es now') = metricStage s i := by
    unfold metricStage
    rw [hrelations]
    rfl
  have hpairs : pairStage (s.clocked changed evidence) (retold i es now') = pairStage s i := by
    unfold pairStage
    rw [hrelations, hmetrics]
    rfl
  have hcands : candidateStage (s.clocked changed evidence) (retold i es now') = candidateStage s i :=
    candidateStage_twin hchanged hagree hedges
  have hsub : ∀ x ∈ times, x ∈ (i.nowNs, now') :: times := fun x hx => List.mem_cons_of_mem _ hx
  have hfresh : Paired ((i.nowNs, now') :: times) (evidenceStage s i)
      (evidenceStage (s.clocked changed evidence) (retold i es now')) := by
    unfold evidenceStage
    rw [hcands]
    exact (hevidence.mono hsub).refreshEvidence List.mem_cons_self _ _
  have hheld : heldStage (s.clocked changed evidence) (retold i es now') = heldStage s i := by
    have hbody : holdStep i.options now' (evidenceStage (s.clocked changed evidence) (retold i es now')) (byFamily i.threads) =
        holdStep i.options i.nowNs (evidenceStage s i) (byFamily i.threads) := by
      funext st committed
      unfold holdStep
      rw [inDwell_twin hfresh (agree_cons hagree)]
    unfold heldStage
    rw [hcands]
    exact congrArg (fun body => List.foldl body _ _) hbody
  have hplan : planStage (s.clocked changed evidence) (retold i es now') = planStage s i := by
    unfold planStage
    rw [hheld]
    rfl
  have hconfirmation : planConfirmation (s.clocked changed evidence) (retold i es now') = planConfirmation s i := by
    unfold planConfirmation
    rw [hplan]
    rfl
  have hready : planReady (s.clocked changed evidence) (retold i es now') = planReady s i := by
    unfold planReady
    rw [hplan, hconfirmation]
    rfl
  have hplanned : ∀ n, planned (s.clocked changed evidence) (retold i es now') n = planned s i n := by
    intro n
    unfold planned
    rw [hplan]
    rfl
  have hsum : ((retold i es now').edges.map (·.score)).sum = (i.edges.map (·.score)).sum := sum_score_perm hedges
  have hproposal : proposalOf (s.clocked changed evidence) (retold i es now') = proposalOf s i := by
    unfold proposalOf
    rw [hpairs, hplan, hconfirmation, hready, hplanned, hplanned, hrelations, hsum]
    rfl
  refine ⟨hproposal, ?_, hchanged.mono hsub, hfresh⟩
  unfold proposed
  rw [hmetrics, hpairs, hconfirmation, hcands, hproposal, hplan]
  rfl

theorem Twin.discard (h : Twin times s s') (p : NumaDomainProposal) : Twin times (s.discard p) (s'.discard p) := by
  obtain ⟨hsame, hchanged, hevidence⟩ := h
  generalize s'.lastChangedNs = changed at hsame hchanged
  generalize s'.lastConfirmedDomainEvidenceNs = evidence at hsame hevidence
  subst hsame
  have hout : (s.clocked changed evidence).outstanding = s.outstanding := rfl
  unfold NumaDomainSolver.discard
  rw [hout]
  split
  · exact ⟨rfl, hchanged, hevidence⟩
  · exact ⟨rfl, hchanged, hevidence⟩

theorem Twin.commitDomain (h : Twin times s s') {now : Nat} (hnow : (now, now') ∈ times) (previous : List String)
    (d : NumaDomain) : Twin times (commitDomain previous now s d) (commitDomain previous now' s' d) := by
  obtain ⟨hsame, hchanged, hevidence⟩ := h
  generalize s'.lastChangedNs = changed at hsame hchanged
  generalize s'.lastConfirmedDomainEvidenceNs = evidence at hsame hevidence
  subst hsame
  unfold NumaDomainSolver.commitDomain
  refine ⟨rfl, ?_, ?_⟩
  · show Paired times (if s.domainNodes.getD d.id [] ≠ d.targetNodes then s.lastChangedNs.insert d.id now else s.lastChangedNs)
      (if s.domainNodes.getD d.id [] ≠ d.targetNodes then changed.insert d.id now' else changed)
    split
    · exact hchanged.insert hnow d.id
    · exact hchanged
  · show Paired times (if previous.contains d.id then s.lastConfirmedDomainEvidenceNs
        else s.lastConfirmedDomainEvidenceNs.insert d.id now)
      (if previous.contains d.id then evidence else evidence.insert d.id now')
    split
    · exact hevidence
    · exact hevidence.insert hnow d.id

theorem Twin.commit (h : Twin times s s') {now : Nat} (hnow : (now, now') ∈ times) {p : NumaDomainProposal}
    {t : NumaDomainSolver} (hc : s.commit p now = .ok t) : ∃ t', s'.commit p now' = .ok t' ∧ Twin times t t' := by
  obtain ⟨hsame, hchanged, hevidence⟩ := h
  generalize s'.lastChangedNs = changed at hsame hchanged
  generalize s'.lastConfirmedDomainEvidenceNs = evidence at hsame hevidence
  subst hsame
  have hloop : ∀ (ds : List NumaDomain) {a a' : NumaDomainSolver}, Twin times a a' →
      Twin times (ds.foldl (NumaDomainSolver.commitDomain (s.domains.map (·.id)) now) a)
        (ds.foldl (NumaDomainSolver.commitDomain (s.domains.map (·.id)) now') a') := by
    intro ds
    induction ds with
    | nil => exact fun ha => ha
    | cons d ds ih => exact fun ha => ih (ha.commitDomain hnow _ d)
  have hplaced : Twin times { s with placement := commitPlacement s.placement p ∅ }
      { s.clocked changed evidence with placement := commitPlacement s.placement p ∅ } := ⟨rfl, hchanged, hevidence⟩
  have hall := hloop p.domains hplaced
  unfold NumaDomainSolver.commit at hc
  split at hc
  · rename_i hid
    cases hc
    have hid' : (s.clocked changed evidence).outstanding.map (·.id) = some p.id := hid
    refine ⟨_, if_pos hid', ?_, hall.changed, hall.evidence⟩
    exact congrArg (fun x : NumaDomainSolver =>
      { x with domains := p.domains, generation := s.generation + 1, outstanding := none }) hall.same
  · cases hc

end Twins

end NumaDomainSolver
end AffinityGraph
