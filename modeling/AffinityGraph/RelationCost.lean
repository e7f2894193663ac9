import AffinityGraph.Greedy
import AffinityGraph.IncrementalReach
import AffinityGraph.Layout
/-!
# RelationCost — what a migration batch does to the latency of the hotspot edges

The gain of a move is computed at the placement before the batch.  It is what the move really gains as long as no choice
taken before it touches the far ends of its thread's edges (`selects_cost`); the loads are projected through the batch, the
latencies are not.
-/
namespace AffinityGraph
namespace IncrementalSolver

/-! ## The cost of a placement -/

/-- The hotspot edges with both ends placed. -/
def hotspotCost (hardware : HardwareGraph) (edges : List RelationEdge) (placement : OrdMap Tid Int) : ℚ :=
  (edges.map (fun e =>
    match placement.find? e.fromTid, placement.find? e.toTid with
    | some a, some b => e.score * hardware.latency a b
    | _, _ => 0)).sum

def applyActions (placement : OrdMap Tid Int) (actions : List PlacementAction) : OrdMap Tid Int :=
  actions.foldl (fun m a => m.insert a.identity.tid a.targetCpu) placement

/-- The latency between two places, where a thread that is not placed has none. -/
def gap (hardware : HardwareGraph) : Option Int → Option Int → ℚ
  | some a, some b => hardware.latency a b
  | _, _ => 0

section Cost

variable {hardware : HardwareGraph} {s : IncrementalSolver} {E : List RelationEdge}

theorem gap_symm (h : ∀ a b, hardware.latency a b = hardware.latency b a) (a b : Option Int) :
    gap hardware a b = gap hardware b a := by
  cases a with
  | none =>
    cases b <;> rfl
  | some a =>
    cases b with
    | none => rfl
    | some b => exact h a b

theorem hotspotCost_eq (hardware : HardwareGraph) (E : List RelationEdge) (placement : OrdMap Tid Int) :
    hotspotCost hardware E placement =
      Layout.cost RelationEdge.fromTid RelationEdge.toTid RelationEdge.score (gap hardware) E placement.find? := by
  unfold hotspotCost Layout.cost
  congr 1
  refine List.map_congr_left (fun e _ => ?_)
  cases placement.find? e.fromTid with
  | none => simp [gap]
  | some a =>
    cases placement.find? e.toTid with
    | none => simp [gap]
    | some b => rfl

theorem otherEnd_eq (e : RelationEdge) (u : Tid) : otherEnd e u = Layout.far RelationEdge.fromTid RelationEdge.toTid e u := rfl

/-- The edges of a thread, each once. -/
theorem getD_adjacencyOf (hloop : ∀ e ∈ E, e.fromTid ≠ e.toTid) (u : Tid) :
    (adjacencyOf E).getD u [] = E.filter (fun e => decide (e.fromTid = u ∨ e.toTid = u)) := by
  unfold adjacencyOf
  rw [OrdMap.getD_foldl_ends _ _ u E ∅ hloop]
  rfl

/-- The part of the cost at one thread. -/
def incidentAt (hardware : HardwareGraph) (E : List RelationEdge) (placement : OrdMap Tid Int) (u : Tid) : ℚ :=
  Layout.incident RelationEdge.fromTid RelationEdge.toTid RelationEdge.score (gap hardware) E placement.find? u

/-- **`incident_cost` is the part of the cost at the thread**, in every placement that has the thread on the CPU and the
far ends of its edges where the overrides or the solver's placement say. -/
theorem incidentCost_eq (s : IncrementalSolver) (hardware : HardwareGraph) (overrides : OrdMap Tid Int) (hloop : ∀ e ∈ E, e.fromTid ≠ e.toTid)
    {placement : OrdMap Tid Int} {u : Tid} {cpu : Int} (hu : placement.find? u = some cpu)
    (hfar : ∀ e ∈ E, e.fromTid = u ∨ e.toTid = u → placement.find? (otherEnd e u) =
      (s.placement.find? (otherEnd e u)).map (fun placed => (overrides.find? (otherEnd e u)).getD placed)) :
    incidentCost s hardware (adjacencyOf E) overrides u cpu = incidentAt hardware E placement u := by
  unfold incidentCost incidentAt Layout.incident
  rw [getD_adjacencyOf hloop]
  congr 1
  refine List.map_congr_left (fun e he => ?_)
  obtain ⟨hmem, hat⟩ := List.mem_filter.1 he
  rw [← otherEnd_eq, hu, hfar e hmem (of_decide_eq_true hat)]
  cases s.placement.find? (otherEnd e u) with
  | none => simp [gap]
  | some placed => rfl

theorem hotspotCost_insert (hsym : ∀ a b, hardware.latency a b = hardware.latency b a) (E : List RelationEdge)
    (placement : OrdMap Tid Int) (u : Tid) (cpu : Int) :
    hotspotCost hardware E (placement.insert u cpu) = hotspotCost hardware E placement +
      (incidentAt hardware E (placement.insert u cpu) u - incidentAt hardware E placement u) := by
  rw [hotspotCost_eq, hotspotCost_eq]
  exact Layout.cost_moved (gap_symm hsym) (fun t ht => OrdMap.find?_insert_ne _ _ (Ne.symm ht))

theorem hotspotCost_swap (hsym : ∀ a b, hardware.latency a b = hardware.latency b a) (E : List RelationEdge)
    {placement : OrdMap Tid Int} {u v : Tid} {a b : Int} (huv : u ≠ v) (hu : placement.find? u = some a)
    (hv : placement.find? v = some b) :
    hotspotCost hardware E ((placement.insert u b).insert v a) = hotspotCost hardware E placement +
      (incidentAt hardware E ((placement.insert u b).insert v a) u + incidentAt hardware E ((placement.insert u b).insert v a) v -
        (incidentAt hardware E placement u + incidentAt hardware E placement v)) := by
  rw [hotspotCost_eq, hotspotCost_eq]
  refine Layout.cost_swapped (gap_symm hsym) huv ?_ ?_ (fun t htu htv => ?_)
  · rw [OrdMap.find?_insert_ne _ _ huv.symm, OrdMap.find?_insert_self, hv]
  · rw [OrdMap.find?_insert_self, hu]
  · rw [OrdMap.find?_insert_ne _ _ (Ne.symm htv), OrdMap.find?_insert_ne _ _ (Ne.symm htu)]

end Cost

/-! ## One potential -/

/-- A placement that has the threads of a potential, and the far ends of their edges, where the solver has them. -/
structure Undisturbed (s : IncrementalSolver) (E : List RelationEdge) (placement : OrdMap Tid Int) (x : Potential) :
    Prop where
  moved : ∀ a ∈ x.actions, placement.find? a.identity.tid = s.placement.find? a.identity.tid
  ends : ∀ a ∈ x.actions, ∀ e ∈ E, e.fromTid = a.identity.tid ∨ e.toTid = a.identity.tid →
    placement.find? (otherEnd e a.identity.tid) = s.placement.find? (otherEnd e a.identity.tid)

section Potential

variable {s : IncrementalSolver} {input : IncrementalInput} {E : List RelationEdge} {loads : Loads}
  {placement : OrdMap Tid Int} {x : Potential}

theorem otherEnd_ne {e : RelationEdge} (hne : e.fromTid ≠ e.toTid) {u : Tid} : u ≠ otherEnd e u := by
  unfold otherEnd
  by_cases h : e.fromTid = u
  · rw [if_pos h]
    exact fun he => hne (h.trans he)
  · rw [if_neg h]
    exact fun he => h he.symm

theorem admissibleMoves_gain {adjacency : OrdMap Tid (List RelationEdge)} {tid : Tid} {source : Int} {m : MoveEffect}
    (h : m ∈ admissibleMoves s input adjacency loads tid source) :
    m.gain = incidentCost s input.hardware adjacency ∅ tid source - incidentCost s input.hardware adjacency ∅ tid m.cpu := by
  unfold admissibleMoves at h
  obtain ⟨c, -, rfl⟩ := List.mem_map.1 (List.mem_filter.1 h).1
  rfl

/-- A single move changes the cost by its gain. -/
theorem singleMove_gain (hsym : ∀ a b, input.hardware.latency a b = input.hardware.latency b a)
    (hloop : ∀ e ∈ E, e.fromTid ≠ e.toTid) {d : Dissatisfaction} (hid : (identityOf s d.tid).tid = d.tid)
    (hplaced : d.tid ∈ s.placement) (hx : singleMove s input (adjacencyOf E) loads d = some x)
    (hag : Undisturbed s E placement x) :
    hotspotCost input.hardware E (applyActions placement x.actions) = hotspotCost input.hardware E placement - x.gain := by
  unfold singleMove at hx
  obtain ⟨m, hm, rfl⟩ := Option.map_eq_some_iff.1 hx
  have hgain := admissibleMoves_gain (Community.minElement_mem hm)
  obtain ⟨source, hsource⟩ := OrdMap.mem_iff.1 hplaced
  have hget : s.placement.getD d.tid 0 = source := by rw [OrdMap.getD, hsource]; rfl
  rw [hget] at hgain
  have htid : (moveAction s d (s.placement.getD d.tid 0) m.cpu m.emergency).identity.tid = d.tid := hid
  have hat := hag.moved _ List.mem_cons_self
  have hends := hag.ends _ List.mem_cons_self
  rw [htid] at hat hends
  have hbefore := incidentCost_eq s input.hardware ∅ hloop (hat.trans hsource) (fun e he hu => by rw [hends e he hu]; simp)
  have hafter := incidentCost_eq s input.hardware ∅ hloop (OrdMap.find?_insert_self placement d.tid m.cpu)
    (fun e he hu => by rw [OrdMap.find?_insert_ne _ _ (otherEnd_ne (hloop e he)), hends e he hu]; simp)
  have happly : applyActions placement [moveAction s d (s.placement.getD d.tid 0) m.cpu m.emergency] =
      placement.insert d.tid m.cpu := by
    show placement.insert _ _ = _
    rw [htid]
    rfl
  rw [happly, hotspotCost_insert hsym, ← hbefore, ← hafter, hgain]
  ring

/-- **A swap, unpacked.** -/
theorem pairSwap_some {adjacency : OrdMap Tid (List RelationEdge)} {a b : Dissatisfaction}
    (h : pairSwap s input adjacency loads a b = some x) :
    let c₁ := s.placement.getD a.tid 0
    let c₂ := s.placement.getD b.tid 0
    let cost := incidentCost s input.hardware adjacency
    let before := cost ∅ a.tid c₁ + cost ∅ b.tid c₂
    let overrides := ((∅ : OrdMap Tid Int).insert a.tid c₂).insert b.tid c₁
    c₁ ≠ c₂ ∧ x.actions = [moveAction s a c₁ c₂ false, moveAction s b c₂ c₁ false] ∧
      x.gain = before - (cost overrides a.tid c₂ + cost overrides b.tid c₁) ∧
      ¬ x.gain + 1 / 10 ^ 12 < input.options.minimumRelativeGain * max before (1 / 10 ^ 9) := by
  unfold pairSwap at h
  dsimp only at h ⊢
  split at h
  · cases h
  · rename_i hsame
    split at h
    · cases h
    · rename_i hgain
      split at h
      · cases h
        exact ⟨fun he => hsame (Or.inl he), rfl, rfl, hgain⟩
      · cases h

/-- A swap changes the cost by its gain. -/
theorem pairSwap_gain (hsym : ∀ a b, input.hardware.latency a b = input.hardware.latency b a)
    (hloop : ∀ e ∈ E, e.fromTid ≠ e.toTid) {a b : Dissatisfaction} (hida : (identityOf s a.tid).tid = a.tid)
    (hidb : (identityOf s b.tid).tid = b.tid) (hpa : a.tid ∈ s.placement) (hpb : b.tid ∈ s.placement)
    (hx : pairSwap s input (adjacencyOf E) loads a b = some x) (hag : Undisturbed s E placement x) :
    hotspotCost input.hardware E (applyActions placement x.actions) = hotspotCost input.hardware E placement - x.gain := by
  obtain ⟨c₁, h₁⟩ := OrdMap.mem_iff.1 hpa
  obtain ⟨c₂, h₂⟩ := OrdMap.mem_iff.1 hpb
  have hget₁ : s.placement.getD a.tid 0 = c₁ := by rw [OrdMap.getD, h₁]; rfl
  have hget₂ : s.placement.getD b.tid 0 = c₂ := by rw [OrdMap.getD, h₂]; rfl
  obtain ⟨hne, hactions, hgain, -⟩ := pairSwap_some hx
  rw [hget₁, hget₂] at hne hactions hgain
  have huv : a.tid ≠ b.tid := by
    intro he
    rw [he, h₂] at h₁
    exact hne (Option.some.inj h₁).symm
  have hta : ∀ c c' m, (moveAction s a c c' m).identity.tid = a.tid := fun _ _ _ => hida
  have htb : ∀ c c' m, (moveAction s b c c' m).identity.tid = b.tid := fun _ _ _ => hidb
  have hata := hag.moved (moveAction s a c₁ c₂ false) (by rw [hactions]; simp)
  have hatb := hag.moved (moveAction s b c₂ c₁ false) (by rw [hactions]; simp)
  have henda := hag.ends (moveAction s a c₁ c₂ false) (by rw [hactions]; simp)
  have hendb := hag.ends (moveAction s b c₂ c₁ false) (by rw [hactions]; simp)
  rw [hta] at hata henda
  rw [htb] at hatb hendb
  set overrides := ((∅ : OrdMap Tid Int).insert a.tid c₂).insert b.tid c₁ with hover
  -- the far end of an edge of one of the two: the other one, or a thread the swap does not move
  have hfar : ∀ t, t = a.tid ∨ t = b.tid ∨ placement.find? t = s.placement.find? t →
      ((placement.insert a.tid c₂).insert b.tid c₁).find? t =
        (s.placement.find? t).map (fun placed => (overrides.find? t).getD placed) := by
    intro t ht
    rw [hover]
    by_cases htb' : b.tid = t
    · subst htb'
      rw [OrdMap.find?_insert_self, OrdMap.find?_insert_self, h₂]
      rfl
    · rw [OrdMap.find?_insert_ne _ _ htb', OrdMap.find?_insert_ne _ _ htb']
      by_cases hta' : a.tid = t
      · subst hta'
        rw [OrdMap.find?_insert_self, OrdMap.find?_insert_self, h₁]
        rfl
      · rw [OrdMap.find?_insert_ne _ _ hta', OrdMap.find?_insert_ne _ _ hta']
        rcases ht with ht | ht | ht
        · exact absurd ht.symm hta'
        · exact absurd ht.symm htb'
        · rw [ht]
          simp
  have hbefore₁ := incidentCost_eq s input.hardware ∅ hloop (hata.trans h₁) (fun e he hu => by rw [henda e he hu]; simp)
  have hbefore₂ := incidentCost_eq s input.hardware ∅ hloop (hatb.trans h₂) (fun e he hu => by rw [hendb e he hu]; simp)
  have hseat : ((placement.insert a.tid c₂).insert b.tid c₁).find? a.tid = some c₂ := by
    rw [OrdMap.find?_insert_ne _ _ huv.symm, OrdMap.find?_insert_self]
  have hafter₁ := incidentCost_eq s input.hardware overrides hloop hseat
    (fun e he hu => hfar _ (Or.inr (Or.inr (henda e he hu))))
  have hafter₂ := incidentCost_eq s input.hardware overrides hloop
    (OrdMap.find?_insert_self (placement.insert a.tid c₂) b.tid c₁)
    (fun e he hu => hfar _ (Or.inr (Or.inr (hendb e he hu))))
  have happly : applyActions placement x.actions = (placement.insert a.tid c₂).insert b.tid c₁ := by
    rw [hactions]
    show (placement.insert _ _).insert _ _ = _
    rw [hta, htb]
    rfl
  rw [happly, hotspotCost_swap hsym E huv (hata.trans h₁) (hatb.trans h₂), ← hbefore₁, ← hbefore₂, ← hafter₁, ← hafter₂,
    hgain]
  ring

end Potential

/-! ## The batch -/

/-- The moves and swaps a window has to choose from. -/
def choices (s : IncrementalSolver) (input : IncrementalInput) (budget : Nat) : List Potential :=
  let adjacency := adjacencyOf (s.edges.entries.map Prod.snd)
  let loads := currentLoads s input.hardware
  potentials s input adjacency loads (ranked s input adjacency loads budget)

/-- The counters of a window. -/
def nextConfirmations (s : IncrementalSolver) (all : List Potential) : OrdMap String Int :=
  all.foldl (fun (m : OrdMap String Int) x => m.insert x.key (s.actionConfirmations.getD x.key 0 + 1)) ∅

/-- One turn of the selection of a window. -/
def selects (s : IncrementalSolver) (input : IncrementalInput) (budget : Nat) : Batch → Potential → Batch :=
  selectPotential s input (nextConfirmations s (choices s input budget)) budget

/-- The batch once some of the choices have had their turn. -/
def selection (s : IncrementalSolver) (input : IncrementalInput) (budget : Nat) (turns : List Potential) : Batch :=
  turns.foldl (selects s input budget) { loads := currentLoads s input.hardware }

/-- The turn of a choice takes it. -/
def Takes (s : IncrementalSolver) (input : IncrementalInput) (budget : Nat) (st : Batch) (x : Potential) : Prop :=
  st.actions.length < (selects s input budget st x).actions.length

/-- A hotspot edge joins a thread of the choice to one the batch has moved. -/
def Related (edges : List RelationEdge) (st : Batch) (x : Potential) : Prop :=
  ∃ a ∈ x.actions, ∃ b ∈ st.actions, ∃ e ∈ edges,
    e.fromTid = a.identity.tid ∧ e.toTid = b.identity.tid ∨ e.fromTid = b.identity.tid ∧ e.toTid = a.identity.tid

/-- No turn of the selection takes a choice with a hotspot edge to a thread taken before. -/
def TakesApart (s : IncrementalSolver) (input : IncrementalInput) (budget : Nat) : Prop :=
  ∀ turns x later, choices s input budget = turns ++ x :: later → Takes s input budget (selection s input budget turns) x →
    ¬ Related (s.edges.entries.map Prod.snd) (selection s input budget turns) x

/-- No turn of the selection takes a choice with a negative gain. -/
def TakesGaining (s : IncrementalSolver) (input : IncrementalInput) (budget : Nat) : Prop :=
  ∀ turns x later, choices s input budget = turns ++ x :: later → Takes s input budget (selection s input budget turns) x →
    0 ≤ x.gain

instance (s : IncrementalSolver) (input : IncrementalInput) (budget : Nat) (st : Batch) (x : Potential) :
    Decidable (Takes s input budget st x) := inferInstanceAs (Decidable (_ < _))

instance (edges : List RelationEdge) (st : Batch) (x : Potential) : Decidable (Related edges st x) :=
  inferInstanceAs (Decidable (∃ a ∈ x.actions, ∃ b ∈ st.actions, ∃ e ∈ edges, _ ∧ _ ∨ _ ∧ _))

instance (s : IncrementalSolver) (input : IncrementalInput) (budget : Nat) : Decidable (TakesApart s input budget) :=
  decidable_of_iff (Greedy.Along (selects s input budget)
    (fun st x => Takes s input budget st x → ¬ Related (s.edges.entries.map Prod.snd) st x) (choices s input budget)
    { loads := currentLoads s input.hardware }) Greedy.along_iff

instance (s : IncrementalSolver) (input : IncrementalInput) (budget : Nat) : Decidable (TakesGaining s input budget) :=
  decidable_of_iff (Greedy.Along (selects s input budget) (fun st x => Takes s input budget st x → 0 ≤ x.gain)
    (choices s input budget) { loads := currentLoads s input.hardware }) Greedy.along_iff

/-- What the choices that are taken gain, each at the placement before the batch. -/
def gained (s : IncrementalSolver) (input : IncrementalInput) (budget : Nat) : List Potential → Batch → ℚ
  | [], _ => 0
  | x :: l, st => (if Takes s input budget st x then x.gain else 0) + gained s input budget l (selects s input budget st x)

section Batch

variable {s : IncrementalSolver} {input : IncrementalInput} {loads : Loads} {budget : Nat} {st : Batch} {x : Potential}

theorem applyActions_append (placement : OrdMap Tid Int) (l₁ l₂ : List PlacementAction) :
    applyActions placement (l₁ ++ l₂) = applyActions (applyActions placement l₁) l₂ := by
  unfold applyActions
  rw [List.foldl_append]

theorem find?_applyActions {placement : OrdMap Tid Int} {actions : List PlacementAction} {t : Tid}
    (h : ∀ a ∈ actions, a.identity.tid ≠ t) : (applyActions placement actions).find? t = placement.find? t :=
  OrdMap.find?_foldl_insert_of_notMem (fun a : PlacementAction => a.identity.tid) (fun a => a.targetCpu) actions placement h

theorem potential_nonempty {adjacency : OrdMap Tid (List RelationEdge)} {candidates : List Dissatisfaction}
    (h : x ∈ potentials s input adjacency loads candidates) : x.actions ≠ [] := by
  rcases mem_potentials h with ⟨d, -, hx⟩ | ⟨pair, -, hx⟩
  · unfold singleMove at hx
    obtain ⟨m, -, rfl⟩ := Option.map_eq_some_iff.1 hx
    exact List.cons_ne_nil _ _
  · rw [(pairSwap_some hx).2.1]
    exact List.cons_ne_nil _ _

theorem choices_zero (s : IncrementalSolver) (input : IncrementalInput) : choices s input 0 = [] := by
  unfold choices ranked
  simp [potentials, rankedPairs]

theorem optimize_selection {proposal : SolverProposal} (h : proposal.migrationBudget ≠ 0) :
    (optimize s input proposal).1.actions =
      (selection s input proposal.migrationBudget (choices s input proposal.migrationBudget)).actions ∧
    (optimize s input proposal).2.actionConfirmations =
      nextConfirmations s (choices s input proposal.migrationBudget) := by
  unfold optimize
  dsimp only
  rw [if_neg h]
  refine ⟨rfl, ?_⟩
  unfold offer
  dsimp only
  split <;> rfl

/-- **A choice that is unrelated to the batch meets the placement the solver scored it on.** -/
theorem undisturbed_of_not_related {E : List RelationEdge} (hrelated : ¬ Related E st x)
    (hnew : ∀ a ∈ x.actions, ∀ b ∈ st.actions, b.identity.tid ≠ a.identity.tid) :
    Undisturbed s E (applyActions s.placement st.actions) x where
  moved a ha := find?_applyActions (hnew a ha)
  ends a ha e he hat := by
    refine find?_applyActions (fun b hb hbt => hrelated ⟨a, ha, b, hb, e, he, ?_⟩)
    unfold otherEnd at hbt
    by_cases hfrom : e.fromTid = a.identity.tid
    · rw [if_pos hfrom] at hbt
      exact Or.inl ⟨hfrom, hbt.symm⟩
    · rw [if_neg hfrom] at hbt
      exact Or.inr ⟨hbt.symm, hat.resolve_left hfrom⟩

/-- **A choice changes the cost of the placement it was scored on by its gain.** -/
theorem potential_gain {E : List RelationEdge} (hsym : ∀ a b, input.hardware.latency a b = input.hardware.latency b a)
    (hloop : ∀ e ∈ E, e.fromTid ≠ e.toTid) (hids : ∀ t ∈ s.threads, (identityOf s t).tid = t)
    (hx : x ∈ potentials s input (adjacencyOf E) loads (ranked s input (adjacencyOf E) loads budget))
    {placement : OrdMap Tid Int} (hag : Undisturbed s E placement x) :
    hotspotCost input.hardware E (applyActions placement x.actions) = hotspotCost input.hardware E placement - x.gain := by
  rcases mem_potentials hx with ⟨d, hd, hs⟩ | ⟨⟨d, e⟩, hpair, hs⟩
  · obtain ⟨ht, hp⟩ := mem_ranked hd
    exact singleMove_gain hsym hloop (hids _ ht) hp hs hag
  · obtain ⟨hd, he⟩ := mem_rankedPairs hpair
    exact pairSwap_gain hsym hloop (hids _ (mem_ranked hd).1) (hids _ (mem_ranked he).1) (mem_ranked hd).2 (mem_ranked he).2
      hs hag

/-- **The selection**: what is taken apart from the batch lowers the cost by its gain. -/
theorem selects_cost (hsym : ∀ a b, input.hardware.latency a b = input.hardware.latency b a)
    (hloop : ∀ e ∈ s.edges.entries.map Prod.snd, e.fromTid ≠ e.toTid) (hids : ∀ t ∈ s.threads, (identityOf s t).tid = t) :
    ∀ (l : List Potential) (st : Batch), l ⊆ choices s input budget →
    Greedy.Along (selects s input budget)
      (fun st x => Takes s input budget st x → ¬ Related (s.edges.entries.map Prod.snd) st x) l st →
    hotspotCost input.hardware (s.edges.entries.map Prod.snd)
        (applyActions s.placement (l.foldl (selects s input budget) st).actions) =
      hotspotCost input.hardware (s.edges.entries.map Prod.snd) (applyActions s.placement st.actions) -
        gained s input budget l st
  | [], st, _, _ => by
    unfold gained
    rw [sub_zero]
    rfl
  | x :: l, st, hl, hapart => by
    have hx := hl List.mem_cons_self
    rw [List.foldl_cons, selects_cost hsym hloop hids l _ (fun y hy => hl (List.mem_cons_of_mem x hy)) hapart.2, gained]
    rcases selectPotential_cases s input (nextConfirmations s (choices s input budget)) budget st x with
      hpassed | ⟨htaken, -, hnew⟩
    · have hsame : selects s input budget st x = st := hpassed
      have hnot : ¬ Takes s input budget st x := by
        unfold Takes
        rw [hsame]
        exact lt_irrefl _
      rw [if_neg hnot, hsame, zero_add]
    · have hadded : (selects s input budget st x).actions = st.actions ++ x.actions := htaken
      have htakes : Takes s input budget st x := by
        unfold Takes
        rw [hadded, List.length_append]
        exact Nat.lt_add_of_pos_right (List.length_pos_of_ne_nil (potential_nonempty hx))
      have hgain := potential_gain hsym hloop hids hx (undisturbed_of_not_related (hapart.1 htakes) hnew)
      rw [if_pos htakes, hadded, applyActions_append, hgain]
      ring

theorem gained_nonneg : ∀ {l : List Potential} {st : Batch},
    Greedy.Along (selects s input budget) (fun st x => Takes s input budget st x → 0 ≤ x.gain) l st →
    0 ≤ gained s input budget l st
  | [], _, _ => le_refl _
  | x :: l, st, h => by
    unfold gained
    refine add_nonneg ?_ (gained_nonneg h.2)
    split
    · rename_i htakes
      exact h.1 htakes
    · exact le_refl _

/-- What the choices that a window takes gain. -/
def windowGain (s : IncrementalSolver) (input : IncrementalInput) (budget : Nat) : ℚ :=
  gained s input budget (choices s input budget) { loads := currentLoads s input.hardware }

theorem optimize_cost (hsym : ∀ a b, input.hardware.latency a b = input.hardware.latency b a)
    (hloop : ∀ e ∈ s.edges.entries.map Prod.snd, e.fromTid ≠ e.toTid) (hb : Booked input.hardware s)
    {proposal : SolverProposal} (hno : proposal.actions = []) (hapart : TakesApart s input proposal.migrationBudget) :
    hotspotCost input.hardware (s.edges.entries.map Prod.snd)
        (applyActions s.placement (optimize s input proposal).1.actions) =
      hotspotCost input.hardware (s.edges.entries.map Prod.snd) s.placement -
        windowGain s input proposal.migrationBudget := by
  by_cases hzero : proposal.migrationBudget = 0
  · have hnone : (optimize s input proposal).1.actions = [] := by
      unfold optimize
      dsimp only
      rw [if_pos hzero]
      exact hno
    unfold windowGain
    rw [hnone, hzero, choices_zero, gained, sub_zero]
    rfl
  · rw [(optimize_selection hzero).1]
    exact selects_cost hsym hloop (fun t ht => (hb.identityOf ht).2) _ _ (fun _ hx => hx) (Greedy.along_iff.2 hapart)

end Batch

/-! ## Every run -/

section Main

variable {hardware : HardwareGraph} {s s' : IncrementalSolver} {input : IncrementalInput} {p : SolverProposal}

/-- **A batch of choices taken apart from one another** lowers the latency of the hotspot edges by what they gain: it does
not raise it exactly when the gains are not negative in sum, and so when none is negative. -/
theorem migration_lowers_cost (hd : hardware.Discovered) (h : Reachable hardware s) (hin : input.hardware = hardware)
    (hsym : ∀ a b, hardware.latency a b = hardware.latency b a) (hnone : s.outstanding = none)
    (hr : propose s input = .ok (p, s')) (hphase : p.phase = .optimizing)
    (hapart : TakesApart (intake s input).1 input (intake s input).2.migrationBudget) :
    (hotspotCost hardware (s'.edges.entries.map Prod.snd) (applyActions s'.placement p.actions) ≤
        hotspotCost hardware (s'.edges.entries.map Prod.snd) s'.placement ↔
      0 ≤ windowGain (intake s input).1 input (intake s input).2.migrationBudget) ∧
    (TakesGaining (intake s input).1 input (intake s input).2.migrationBudget →
      hotspotCost hardware (s'.edges.entries.map Prod.snd) (applyActions s'.placement p.actions) ≤
        hotspotCost hardware (s'.edges.entries.map Prod.snd) s'.placement) := by
  subst hin
  have hk := h.kept hd
  obtain hout | ⟨-, hcpus, hphases⟩ := propose_cases hr
  · rw [hnone] at hout
    cases hout.1
  obtain ⟨hib, -⟩ := intake_booked hd (cpus_ne_nil_of_online hcpus) hk.booked hk.settled
  rcases hphases with ⟨-, rfl, -⟩ | ⟨-, hr⟩ | ⟨-, hr⟩ | ⟨-, hr⟩
  · cases hphase
  · exact absurd hphase (nodePlanning_phase hr)
  · rw [(initialPinning_header hr).1] at hphase
    cases hphase
  · have hsame := optimize_same (intake s input).1 input (intake s input).2
    have hcost := optimize_cost hsym (fun e he => ends_ne_of_mem_edges he) hib (intake_actions s input) hapart
    rw [hr] at hsame hcost
    dsimp only at hsame hcost
    rw [hsame, hcost]
    exact ⟨⟨fun hle => by linarith, fun hgain => by linarith⟩, fun hgaining =>
      sub_le_self _ (gained_nonneg (Greedy.along_iff.2 hgaining))⟩

/-- Three nodes of one CPU: node 0 is near both others, and they are far apart. -/
def threeNodes : HardwareGraph where
  cpus := [⟨0, 0, true⟩, ⟨1, 1, true⟩, ⟨2, 2, true⟩]
  nodeDistance := OrdMap.ofList [(toLex (0, 1), 12), (toLex (1, 0), 12), (toLex (0, 2), 12), (toLex (2, 0), 12),
    (toLex (1, 2), 40), (toLex (2, 1), 40)]

theorem threeNodes_discovered : threeNodes.Discovered := ⟨by decide, by decide⟩

theorem threeNodes_latency_symm (a b : Int) : threeNodes.latency a b = threeNodes.latency b a := by
  let nodeOf := threeNodes.lastNode
  let distance (n m : Int) : ℚ := (threeNodes.nodeDistance.find? (toLex (n, m))).getD (if n = m then 10 else 20)
  have hlat : ∀ x y, threeNodes.latency x y = if x = y then 0 else distance (nodeOf x) (nodeOf y) := threeNodes.latency_eq
  have hnode : ∀ x, nodeOf x ∈ [-1, 0, 1, 2] := by
    intro x
    by_cases h0 : x = 0
    · subst h0
      decide
    · by_cases h1 : x = 1
      · subst h1
        decide
      · by_cases h2 : x = 2
        · subst h2
          decide
        · have hnil : threeNodes.cpus.filter (fun c => decide (c.id = x)) = [] := by
            simp [threeNodes, Ne.symm h0, Ne.symm h1, Ne.symm h2]
          show (threeNodes.cpus.filter (fun c => decide (c.id = x))).getLast?.elim (-1) (·.node) ∈ _
          rw [hnil]
          decide
  have hsymm : ∀ n ∈ [-1, 0, 1, 2], ∀ m ∈ [-1, 0, 1, 2], distance n m = distance m n := by decide +kernel
  rw [hlat, hlat]
  by_cases hab : a = b
  · rw [if_pos hab, if_pos hab.symm]
  · rw [if_neg hab, if_neg (Ne.symm hab), hsymm _ (hnode a) _ (hnode b)]

/-- A chain of three threads, one on each node; `share` of them may move in a window. -/
def chain (share : ℚ) (edges : List RelationEdge) : IncrementalInput where
  hardware := threeNodes
  threads := [⟨⟨1, 1, 0⟩, "g", 1 / 100, 1, 0⟩, ⟨⟨1, 2, 0⟩, "g", 1 / 100, 1, 1⟩, ⟨⟨1, 3, 0⟩, "g", 1 / 100, 1, 2⟩]
  edges := edges
  options := { maximumThreadsPerCpu := 2, proposalConfirmations := 1, maximumMigratedThreadsRatio := share }

def chainEdges : List RelationEdge :=
  [{ fromTid := 1, toTid := 2, score := 1 }, { fromTid := 2, toTid := 3, score := 2 }]

def chainRun (share : ℚ) : List Call := [.propose (chain share []), .propose (chain share []), .commit 1 ∅]

/-- One thread moves, and takes 80 off the cost. -/
theorem migration_lowers_cost_single : ∃ s p s', Run.exec step {} (chainRun (1 / 3)) = some s ∧
    propose s (chain (1 / 3) chainEdges) = .ok (p, s') ∧
    p.actions.map (fun a => (a.identity.tid, a.fromCpu, a.targetCpu)) = [(2, 1, 2)] ∧
    hotspotCost threeNodes (s'.edges.entries.map Prod.snd) s'.placement = 92 ∧
    hotspotCost threeNodes (s'.edges.entries.map Prod.snd) (applyActions s'.placement p.actions) ≤
      hotspotCost threeNodes (s'.edges.entries.map Prod.snd) s'.placement := by
  have hobeys : Run.Obeys step (Protocol threeNodes) {} (chainRun (1 / 3)) := by decide +kernel
  have hsome : (Run.exec step {} (chainRun (1 / 3))).any (fun s => decide (s.outstanding.isNone = true ∧
      TakesApart (intake s (chain (1 / 3) chainEdges)).1 (chain (1 / 3) chainEdges)
        (intake s (chain (1 / 3) chainEdges)).2.migrationBudget ∧
      TakesGaining (intake s (chain (1 / 3) chainEdges)).1 (chain (1 / 3) chainEdges)
        (intake s (chain (1 / 3) chainEdges)).2.migrationBudget) &&
      (match propose s (chain (1 / 3) chainEdges) with
        | .ok r => decide (r.1.phase = .optimizing ∧
            r.1.actions.map (fun a => (a.identity.tid, a.fromCpu, a.targetCpu)) = [(2, 1, 2)] ∧
            hotspotCost threeNodes (r.2.edges.entries.map Prod.snd) r.2.placement = 92)
        | .error _ => false)) = true := by decide +kernel
  obtain ⟨s, hexec, hs⟩ := (Option.any_eq_true _ _).1 hsome
  rw [Bool.and_eq_true, decide_eq_true_eq] at hs
  obtain ⟨⟨hnone, hapart, hgaining⟩, hr⟩ := hs
  cases hp : propose s (chain (1 / 3) chainEdges) with
  | error e =>
    rw [hp] at hr
    cases hr
  | ok r =>
    rw [hp] at hr
    obtain ⟨hphase, hactions, hcost⟩ := of_decide_eq_true hr
    exact ⟨s, r.1, r.2, hexec, hp, hactions, hcost, (migration_lowers_cost threeNodes_discovered
      ⟨false, _, hobeys, hexec⟩ rfl threeNodes_latency_symm (Option.isNone_iff_eq_none.1 hnone) hp hphase hapart).2
      hgaining⟩

/-- **Three moves that each gain, and cost 28 together**: thread 2 goes to its heavier neighbour, that one to where
thread 2 was, and thread 1 too. -/
theorem migration_raises_cost : threeNodes.Discovered ∧ (∀ a b, threeNodes.latency a b = threeNodes.latency b a) ∧
    (chain 1 chainEdges).options.Accepted ∧ ∃ s p s', Reachable threeNodes s ∧ s.outstanding = none ∧
    propose s (chain 1 chainEdges) = .ok (p, s') ∧ p.phase = .optimizing ∧ (∀ a ∈ p.actions, a.emergency = false) ∧
    p.actions.map (fun a => (a.identity.tid, a.fromCpu, a.targetCpu)) = [(2, 1, 2), (3, 2, 1), (1, 0, 1)] ∧
    hotspotCost threeNodes (s'.edges.entries.map Prod.snd) s'.placement = 92 ∧
    hotspotCost threeNodes (s'.edges.entries.map Prod.snd) (applyActions s'.placement p.actions) = 120 := by
  have hobeys : Run.Obeys step (Protocol threeNodes) {} (chainRun 1) := by decide +kernel
  have hsome : (Run.exec step {} (chainRun 1)).any (fun s => s.outstanding.isNone &&
      (match propose s (chain 1 chainEdges) with
        | .ok r => decide (r.1.phase = .optimizing ∧ (∀ a ∈ r.1.actions, a.emergency = false) ∧
            r.1.actions.map (fun a => (a.identity.tid, a.fromCpu, a.targetCpu)) = [(2, 1, 2), (3, 2, 1), (1, 0, 1)] ∧
            hotspotCost threeNodes (r.2.edges.entries.map Prod.snd) r.2.placement = 92 ∧
            hotspotCost threeNodes (r.2.edges.entries.map Prod.snd) (applyActions r.2.placement r.1.actions) = 120)
        | .error _ => false)) = true := by decide +kernel
  obtain ⟨s, hexec, hs⟩ := (Option.any_eq_true _ _).1 hsome
  rw [Bool.and_eq_true] at hs
  obtain ⟨hnone, hr⟩ := hs
  cases hp : propose s (chain 1 chainEdges) with
  | error e =>
    rw [hp] at hr
    cases hr
  | ok r =>
    rw [hp] at hr
    obtain ⟨hphase, hem, hactions, hbefore, hafter⟩ := of_decide_eq_true hr
    exact ⟨threeNodes_discovered, threeNodes_latency_symm, by constructor <;> decide +kernel, s, r.1, r.2,
      ⟨false, _, hobeys, hexec⟩, Option.isNone_iff_eq_none.1 hnone, hp, hphase, hem, hactions, hbefore, hafter⟩

end Main

end IncrementalSolver
end AffinityGraph
