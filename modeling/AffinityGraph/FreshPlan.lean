import AffinityGraph.BatchLoads
import AffinityGraph.Replan
/-!
# FreshPlan — a node plan that is made anew

What the four stages of a node plan and the choice of the CPUs hand on to each other.  The caps of the nodes have room for
every thread, so the greedy assignment ends within them; the repair takes a thread only where one may be taken and puts it
where one more fits; a swap changes no count; and a node that is within its cap has a free slot for each of its threads.
With one confirmation no plan waits, so the plan that is made is the plan that is used.
-/
namespace AffinityGraph
namespace IncrementalSolver

/-! ## The caps -/

/-- No node has more threads than its cap. -/
def Capped (s : IncrementalSolver) (input : IncrementalInput) (p : NodePlan) : Prop :=
  ∀ n ∈ input.hardware.nodes, p.count n ≤ threadCap s input n

section Caps

variable {s : IncrementalSolver} {input : IncrementalInput} {T : Finset Tid} {p p' : NodePlan}

/-- **The caps have room for all threads.** -/
theorem size_le_sum_threadCap (h : Planable s input) :
    (s.threads.size : Int) ≤ ∑ n ∈ nodeSet input.hardware, threadCap s input n := by
  have hle : ∑ n ∈ nodeSet input.hardware, nodeShare s input.hardware n ≤
      ∑ n ∈ nodeSet input.hardware, (threadCap s input n : ℚ) :=
    Finset.sum_le_sum (fun n _ => nodeShare_le_threadCap h n)
  rw [sum_nodeShare h] at hle
  exact_mod_cast hle

/-- **The greedy assignment takes a node with room while there is one.** -/
theorem count_bestNode_lt (adjacency : OrdMap Tid (List RelationEdge)) (seeds : OrdSet Tid) (tid : Tid) {n : Int}
    (hn : n ∈ input.hardware.nodes) (hlt : p.count n < threadCap s input n) :
    p.count (bestNode s input adjacency seeds p tid) < threadCap s input (bestNode s input adjacency seeds p tid) := by
  have hbest := foldl_pick_le (planScore s input adjacency seeds p tid) input.hardware.nodes
    (input.hardware.nodes.headD 0) n (List.mem_cons_of_mem _ hn)
  change planScore s input adjacency seeds p tid (bestNode s input adjacency seeds p tid) ≤ _ at hbest
  unfold planScore at hbest
  dsimp only at hbest
  have hfirst : max 0 (p.count (bestNode s input adjacency seeds p tid) + 1 -
      threadCap s input (bestNode s input adjacency seeds p tid)) ≤ max 0 (p.count n + 1 - threadCap s input n) := by
    rcases Prod.Lex.le_iff.1 hbest with h | ⟨h, -⟩
    · exact h.le
    · exact h.le
  omega

theorem Capped.greedy (h : Planable s input) (adjacency : OrdMap Tid (List RelationEdge)) (seeds : OrdSet Tid) :
    ∀ (l : List Tid) {T : Finset Tid} {p : NodePlan}, l.Nodup → (∀ t ∈ l, t ∉ T) →
      (T.card + l.length ≤ s.threads.size) → Tallies s input.hardware T p → Capped s input p →
      Capped s input (l.foldl (assignThread s input adjacency seeds) p)
  | [], T, p, _, _, _, _, hcap => hcap
  | t :: l, T, p, hn, hfresh, hsize, ht, hcap => by
    rw [List.nodup_cons] at hn
    rw [List.length_cons] at hsize
    have hnew := hfresh t List.mem_cons_self
    have hplace := ht.place hnew (bestNode_mem s h.cpus adjacency seeds p t)
    -- fewer threads are seated than the caps have room for
    have hroom : ∃ n ∈ input.hardware.nodes, p.count n < threadCap s input n := by
      by_contra hno
      have hle : ∑ n ∈ nodeSet input.hardware, threadCap s input n ≤ ∑ n ∈ nodeSet input.hardware, p.count n :=
        Finset.sum_le_sum (fun n hn => not_lt.1 (fun hlt => hno ⟨n, List.mem_toFinset.1 hn, hlt⟩))
      have hcaps := size_le_sum_threadCap h
      rw [ht.sum_count] at hle
      omega
    obtain ⟨n, hnode, hlt⟩ := hroom
    have hbest := count_bestNode_lt adjacency seeds t hnode hlt
    refine Capped.greedy h adjacency seeds l hn.2 (fun u hu hmem => ?_) ?_ hplace (fun m hm => ?_)
    · rcases Finset.mem_insert.1 hmem with rfl | hmem
      · exact hn.1 hu
      · exact hfresh u (List.mem_cons_of_mem _ hu) hmem
    · rw [Finset.card_insert_of_notMem hnew]
      omega
    · unfold assignThread
      rw [NodePlan.count_place]
      split
      · rename_i he
        rw [← he]
        omega
      · rw [add_zero]
        exact hcap m hm

theorem Capped.repairNode {adjacency : OrdMap Tid (List RelationEdge)} {target : Int} : ∀ {fuel : Nat} {p p' : NodePlan},
    Capped s input p → repairNode s input adjacency target fuel p = .ok p' → Capped s input p'
  | 0, p, p', h, hr => by
    cases hr
    exact h
  | fuel + 1, p, p', h, hr => by
    unfold IncrementalSolver.repairNode at hr
    split at hr
    · rcases bestMove_cases s input adjacency p target with ⟨hb, -⟩ | ⟨m, hb, -, hmov⟩
      · rw [hb] at hr
        cases hr
      · rw [hb] at hr
        unfold Movable at hmov
        rw [not_or, not_or, not_or] at hmov
        refine Capped.repairNode (p := p.move m.tid (demandOf s m.tid) m.source target) (fun n hn => ?_) hr
        have hcap := h n hn
        have hfits := hmov.2.2.1
        rw [NodePlan.count_move]
        by_cases ht : target = n
        · rw [if_pos ht, ← ht]
          split <;> omega
        · rw [if_neg ht]
          split <;> omega
    · cases hr
      exact h

theorem Capped.repairFloors {adjacency : OrdMap Tid (List RelationEdge)} : ∀ {nodes : List Int} {p p' : NodePlan},
    Capped s input p → repairFloors s input adjacency nodes p = .ok p' → Capped s input p'
  | [], p, p', h, hr => by
    cases hr
    exact h
  | n :: nodes, p, p', h, hr => by
    unfold IncrementalSolver.repairFloors at hr
    cases hone : IncrementalSolver.repairNode s input adjacency n (threadFloor s input n).toNat p with
    | error e =>
      rw [hone] at hr
      cases hr
    | ok q =>
      rw [hone] at hr
      exact Capped.repairFloors (h.repairNode hone) hr

/-- **The plan before the swaps**: every thread on a node, and every node between its floor and its cap. -/
theorem planNodes_bounded (h : Planable s input) (hloop : ∀ e ∈ s.edges.entries.map Prod.snd, e.fromTid ≠ e.toTid)
    (hr : planNodes s input = .ok p) :
    Tallies s input.hardware s.threads.keys.toFinset p ∧ Capped s input p ∧
      ∀ n ∈ input.hardware.nodes, threadFloor s input n ≤ p.count n := by
  have hperm := communityOrder_perm hloop
  have hcapped : Capped s input p := by
    unfold planNodes at hr
    refine Capped.repairFloors ?_ hr
    refine Capped.greedy h _ _ _ (hperm.nodup_iff.2 (OrdMap.nodup_keys _)) (fun t _ => Finset.notMem_empty t) ?_
      (Tallies.empty s input.hardware) (fun n _ => ?_)
    · rw [Finset.card_empty, zero_add, hperm.length_eq, OrdMap.size_eq_length_keys]
    · exact (threadFloor_nonneg h n).trans (threadFloor_le_threadCap h n)
  obtain ⟨greedy, hspec⟩ := planNodes_spec h hloop
  rw [hr] at hspec
  cases hspec with
  | done _ ht hfloor _ => exact ⟨ht, hcapped, hfloor⟩

end Caps

/-! ## The swaps -/

/-- The threads a plan has on a node. -/
def NodePlan.threadsOn (p : NodePlan) (n : Int) : Nat := p.assigned.entries.countP (fun e => decide (e.2 = n))

/-- What the threads demand that a plan has on a node. -/
def NodePlan.demandOn (p : NodePlan) (s : IncrementalSolver) (n : Int) : ℚ :=
  ((p.assigned.entries.filter (fun e => decide (e.2 = n))).map (fun e => demandOf s e.1)).sum

/-- The relation cost of a plan. -/
def NodePlan.cost (p : NodePlan) (s : IncrementalSolver) (hardware : HardwareGraph) : ℚ :=
  edgeCost hardware (s.edges.entries.map Prod.snd) p.seat

/-- **What an accepted swap does**: the two threads change nodes, the counts stay, the relations cost less, and the two
nodes' demand is within their CPUs. -/
structure Improves (s : IncrementalSolver) (input : IncrementalInput) (p p' : NodePlan) (first second : Tid) : Prop where
  apart : p.seat first ≠ p.seat second
  exchanged : p'.seat first = p.seat second ∧ p'.seat second = p.seat first ∧
    ∀ t, t ≠ first → t ≠ second → p'.seat t = p.seat t
  counts : ∀ n, p'.threadsOn n = p.threadsOn n
  cheaper : p'.cost s input.hardware < p.cost s input.hardware
  fits : p'.demandOn s (p.seat first) ≤ nodeCpuCount input.hardware (p.seat first) + 1 / 10 ^ 12 ∧
    p'.demandOn s (p.seat second) ≤ nodeCpuCount input.hardware (p.seat second) + 1 / 10 ^ 12

section Swaps

variable {s : IncrementalSolver} {input : IncrementalInput} {hardware : HardwareGraph} {T : Finset Tid} {p p' : NodePlan}

theorem Tallies.keys_toFinset (h : Tallies s hardware T p) : p.assigned.keys.toFinset = T := by
  ext t
  rw [List.mem_toFinset, OrdMap.mem_keys, h.keys]

theorem Tallies.threadsOn (h : Tallies s hardware T p) (n : Int) : (p.threadsOn n : Int) = p.count n := by
  have hsum := sum_entries p.assigned (· = n) (fun _ => (1 : Int))
  rw [h.count, Seating.weight, ← h.keys_toFinset]
  unfold NodePlan.threadsOn NodePlan.seat
  rw [← hsum, List.countP_eq_length_filter]
  simp

theorem Tallies.demandOn (h : Tallies s hardware T p) (n : Int) : p.demandOn s n = p.load n := by
  rw [h.load, Seating.weight, ← h.keys_toFinset]
  exact sum_entries p.assigned (· = n) (demandOf s)

/-- The seats and the counters decide. -/
theorem Tallies.of_eq (h : Tallies s hardware T p) (ha : p'.assigned = p.assigned) (hc : ∀ n, p'.count n = p.count n)
    (hl : ∀ n, p'.load n = p.load n) : Tallies s hardware T p' := by
  have hseat : p'.seat = p.seat := by
    unfold NodePlan.seat
    rw [ha]
  refine ⟨fun t => ?_, fun t ht => ?_, fun n => ?_, fun n => ?_⟩
  · rw [ha]
    exact h.keys t
  · rw [hseat]
    exact h.onNode t ht
  · rw [hc, hseat]
    exact h.count n
  · rw [hl, hseat]
    exact h.load n

theorem edgeCost_filter (hardware : HardwareGraph) (P : RelationEdge → Bool) (seat : Tid → Int) :
    ∀ edges : List RelationEdge, edgeCost hardware edges seat =
      edgeCost hardware (edges.filter P) seat + edgeCost hardware (edges.filter (fun e => !P e)) seat
  | [] => by simp [edgeCost]
  | e :: edges => by
    have ih := edgeCost_filter hardware P seat edges
    unfold edgeCost at ih ⊢
    rw [List.filter_cons, List.filter_cons]
    cases hP : P e with
    | true =>
      simp only [if_true, Bool.not_true, Bool.false_eq_true, if_false, List.map_cons, List.sum_cons, ih]
      ring
    | false =>
      simp only [Bool.false_eq_true, if_false, Bool.not_false, if_true, List.map_cons, List.sum_cons, ih]
      ring

/-- The edges a change touches decide whether it is cheaper. -/
theorem edgeCost_lt (hardware : HardwareGraph) {edges : List RelationEdge} (touched : RelationEdge → Bool)
    {seat seat' : Tid → Int}
    (hrest : ∀ e ∈ edges, touched e = false → seat' e.fromTid = seat e.fromTid ∧ seat' e.toTid = seat e.toTid)
    (h : edgeCost hardware (edges.filter touched) seat' < edgeCost hardware (edges.filter touched) seat) :
    edgeCost hardware edges seat' < edgeCost hardware edges seat := by
  have hsame : edgeCost hardware (edges.filter (fun e => !touched e)) seat' =
      edgeCost hardware (edges.filter (fun e => !touched e)) seat := by
    unfold edgeCost
    congr 1
    refine List.map_congr_left (fun e he => ?_)
    obtain ⟨hmem, huntouched⟩ := List.mem_filter.1 he
    obtain ⟨hfrom, hto⟩ := hrest e hmem (by simpa using huntouched)
    rw [hfrom, hto]
  rw [edgeCost_filter hardware touched seat' edges, edgeCost_filter hardware touched seat edges, hsame]
  exact add_lt_add_left h _

/-- Two threads change nodes. -/
def NodePlan.exchange (p : NodePlan) (s : IncrementalSolver) (first second : Tid) : NodePlan :=
  { p with
    assigned := (p.assigned.insert first (p.seat second)).insert second (p.seat first)
    nodeLoad := (p.nodeLoad.insert (p.seat first) (p.load (p.seat first) - demandOf s first + demandOf s second)).insert
      (p.seat second) (p.load (p.seat second) - demandOf s second + demandOf s first) }

theorem NodePlan.seat_exchange (p : NodePlan) (s : IncrementalSolver) {first second : Tid} (hne : first ≠ second) (t : Tid) :
    (p.exchange s first second).seat t =
      if t = first then p.seat second else if t = second then p.seat first else p.seat t := by
  show ((p.assigned.insert first (p.seat second)).insert second (p.seat first)).getD t 0 = _
  rw [OrdMap.getD_insert, OrdMap.getD_insert]
  by_cases ht₁ : t = first
  · subst ht₁
    rw [if_neg (Ne.symm hne), if_pos rfl, if_pos rfl]
  · by_cases ht₂ : t = second
    · subst ht₂
      rw [if_pos rfl, if_neg ht₁, if_pos rfl]
    · rw [if_neg (Ne.symm ht₂), if_neg (Ne.symm ht₁), if_neg ht₁, if_neg ht₂]
      rfl

theorem NodePlan.load_exchange (p : NodePlan) (s : IncrementalSolver) {first second : Tid}
    (hapart : p.seat first ≠ p.seat second) (n : Int) :
    (p.exchange s first second).load n = p.load n - (if p.seat first = n then demandOf s first else 0) +
      (if p.seat second = n then demandOf s first else 0) - (if p.seat second = n then demandOf s second else 0) +
      (if p.seat first = n then demandOf s second else 0) := by
  show ((p.nodeLoad.insert (p.seat first) _).insert (p.seat second) _).getD n 0 = _
  rw [OrdMap.getD_insert, OrdMap.getD_insert]
  by_cases hn₂ : p.seat second = n
  · subst hn₂
    rw [if_pos rfl, if_neg hapart, if_pos rfl, if_pos rfl, if_neg hapart]
    ring
  · by_cases hn₁ : p.seat first = n
    · subst hn₁
      rw [if_neg hn₂, if_pos rfl, if_pos rfl, if_neg hn₂, if_neg hn₂, if_pos rfl]
      ring
    · rw [if_neg hn₂, if_neg hn₁, if_neg hn₁, if_neg hn₂, if_neg hn₂, if_neg hn₁]
      show p.load n = _
      ring

/-- An exchange is one move and the other back. -/
theorem Tallies.exchange (h : Tallies s hardware T p) {first second : Tid} (h₁ : first ∈ T) (h₂ : second ∈ T)
    (hne : first ≠ second) (hapart : p.seat first ≠ p.seat second) :
    Tallies s hardware T (p.exchange s first second) := by
  have hsecond : (p.move first (demandOf s first) (p.seat first) (p.seat second)).seat second = p.seat second := by
    rw [NodePlan.seat_move, if_neg hne]
  have hmoves := (h.move h₁ rfl (h.onNode second h₂)).move h₂ hsecond (h.onNode first h₁)
  refine hmoves.of_eq rfl (fun n => ?_) (fun n => ?_)
  · rw [NodePlan.count_move, NodePlan.count_move]
    show p.count n = _
    ring
  · rw [NodePlan.load_move, NodePlan.load_move, NodePlan.load_exchange p s hapart]

/-- **One turn of the refinement**: the pair stays, or its exchange improves the plan. -/
theorem trySwap_cases (st : NodePlan × Bool) (h : Tallies s input.hardware T st.1) {first second : Tid}
    (h₁ : first ∈ T) (h₂ : second ∈ T) (hne : first ≠ second) :
    trySwap s input st (first, second) = st ∨
    (trySwap s input st (first, second) = (st.1.exchange s first second, true) ∧
      Tallies s input.hardware T (st.1.exchange s first second) ∧
      Improves s input st.1 (st.1.exchange s first second) first second) := by
  obtain ⟨p, changed⟩ := st
  unfold trySwap
  dsimp only
  split
  · exact Or.inl rfl
  · rename_i hapart
    split
    · exact Or.inl rfl
    · rename_i hkeeps
      rw [not_or, not_or, not_le, not_lt, not_lt] at hkeeps
      obtain ⟨hcheaper, hload₁, hload₂⟩ := hkeeps
      have hapart' : p.seat first ≠ p.seat second := hapart
      have hseat := p.seat_exchange s hne
      have hload := p.load_exchange s hapart'
      have htallies := h.exchange h₁ h₂ hne hapart'
      refine Or.inr ⟨rfl, htallies, hapart', ⟨?_, ?_, fun t ht₁ ht₂ => ?_⟩, fun n => ?_, ?_, ?_, ?_⟩
      · rw [hseat, if_pos rfl]
      · rw [hseat, if_neg (Ne.symm hne), if_pos rfl]
      · rw [hseat, if_neg ht₁, if_neg ht₂]
      · have hn : ((p.exchange s first second).threadsOn n : Int) = p.count n := htallies.threadsOn n
        rw [← h.threadsOn n] at hn
        exact_mod_cast hn
      · have hswapped : (fun t => if t = first then p.assigned.getD second 0 else if t = second then p.assigned.getD first 0
            else p.assigned.getD t 0) = (p.exchange s first second).seat := (funext hseat).symm
        rw [hswapped] at hcheaper
        refine edgeCost_lt input.hardware (fun e =>
          decide (e.fromTid = first ∨ e.toTid = first ∨ e.fromTid = second ∨ e.toTid = second)) (fun e _ he => ?_)
          (lt_trans (lt_add_of_pos_right _ (by norm_num)) hcheaper)
        rw [decide_eq_false_iff_not, not_or, not_or, not_or] at he
        obtain ⟨hf₁, ht₁, hf₂, ht₂⟩ := he
        rw [hseat, hseat, if_neg hf₁, if_neg hf₂, if_neg ht₁, if_neg ht₂]
        exact ⟨rfl, rfl⟩
      · rw [htallies.demandOn, hload, if_pos rfl, if_neg (Ne.symm hapart'), if_neg (Ne.symm hapart'), if_pos rfl]
        refine le_of_eq_of_le ?_ hload₁
        show p.load (p.seat first) - _ + _ - _ + _ = p.load (p.seat first) - _ + _
        ring
      · rw [htallies.demandOn, hload, if_neg hapart', if_pos rfl, if_pos rfl, if_neg hapart']
        refine le_of_eq_of_le ?_ hload₂
        show p.load (p.seat second) - _ + _ - _ + _ = p.load (p.seat second) - _ + _
        ring

theorem ne_of_mem_laterPairs {t u : Tid} : ∀ {l : List Tid}, l.Nodup → (t, u) ∈ laterPairs l → t ≠ u
  | x :: l, hn, h => by
    rw [List.nodup_cons] at hn
    unfold laterPairs at h
    rcases List.mem_append.1 h with h | h
    · obtain ⟨v, hv, he⟩ := List.mem_map.1 h
      cases he
      rintro rfl
      exact hn.1 hv
    · exact ne_of_mem_laterPairs hn.2 h

/-- The turns of a pass keep the counters right and the counts as they are. -/
theorem trySwap_foldl {ordered : List Tid} (hn : ordered.Nodup) (ho : ∀ t ∈ ordered, t ∈ T) :
    ∀ (turns : List (Tid × Tid)) (st : NodePlan × Bool), turns ⊆ laterPairs ordered → Tallies s input.hardware T st.1 →
      Tallies s input.hardware T (turns.foldl (trySwap s input) st).1 ∧
      ∀ n, (turns.foldl (trySwap s input) st).1.count n = st.1.count n
  | [], st, _, h => ⟨h, fun n => rfl⟩
  | (t, u) :: turns, st, hsub, h => by
    have hpair := hsub List.mem_cons_self
    have hrest : turns ⊆ laterPairs ordered := fun x hx => hsub (List.mem_cons_of_mem _ hx)
    obtain ⟨ht, hu⟩ := mem_laterPairs hpair
    rw [List.foldl_cons]
    rcases trySwap_cases st h (ho t ht) (ho u hu) (ne_of_mem_laterPairs hn hpair) with he | ⟨he, htallies, -⟩
    · rw [he]
      exact trySwap_foldl hn ho turns st hrest h
    · rw [he]
      exact trySwap_foldl hn ho turns _ hrest htallies

/-- A pass of the refinement over all pairs. -/
def swapPass (s : IncrementalSolver) (input : IncrementalInput) (ordered : List Tid) (p : NodePlan) : NodePlan :=
  ((laterPairs ordered).foldl (trySwap s input) (p, false)).1

theorem swapPasses_bounded {ordered : List Tid} (hn : ordered.Nodup) (ho : ∀ t ∈ ordered, t ∈ T) :
    ∀ (passes : Nat) {p : NodePlan}, Tallies s input.hardware T p →
      Tallies s input.hardware T (swapPasses s input ordered passes p) ∧
      ∀ n, (swapPasses s input ordered passes p).count n = p.count n
  | 0, p, h => ⟨h, fun n => rfl⟩
  | passes + 1, p, h => by
    obtain ⟨htallies, hcount⟩ := trySwap_foldl hn ho (laterPairs ordered) (p, false) (List.Subset.refl _) h
    unfold swapPasses
    dsimp only
    split
    · obtain ⟨hrest, hsame⟩ := swapPasses_bounded hn ho passes htallies
      exact ⟨hrest, fun n => (hsame n).trans (hcount n)⟩
    · exact ⟨htallies, hcount⟩

/-- **Every turn of every pass**, from a plan whose counters are right. -/
theorem swaps_improve {ordered : List Tid} (hn : ordered.Nodup) (ho : ∀ t ∈ ordered, t ∈ T)
    (h : Tallies s input.hardware T p) (pass : Nat) {turns later : List (Tid × Tid)} {first second : Tid}
    (hsplit : laterPairs ordered = turns ++ (first, second) :: later) :
    let st := turns.foldl (trySwap s input) ((swapPass s input ordered)^[pass] p, false)
    trySwap s input st (first, second) = st ∨
      Improves s input st.1 (trySwap s input st (first, second)).1 first second := by
  have hstart : Tallies s input.hardware T ((swapPass s input ordered)^[pass] p) := by
    induction pass with
    | zero => exact h
    | succ pass ih =>
      rw [Function.iterate_succ_apply']
      exact (trySwap_foldl hn ho (laterPairs ordered) (_, false) (List.Subset.refl _) ih).1
  have hpair : (first, second) ∈ laterPairs ordered := by
    rw [hsplit]
    exact List.mem_append_right _ List.mem_cons_self
  have hturns : turns ⊆ laterPairs ordered := by
    intro x hx
    rw [hsplit]
    exact List.mem_append_left _ hx
  have hst := (trySwap_foldl hn ho turns ((swapPass s input ordered)^[pass] p, false) hturns hstart).1
  obtain ⟨ht, hu⟩ := mem_laterPairs hpair
  rcases trySwap_cases _ hst (ho first ht) (ho second hu) (ne_of_mem_laterPairs hn hpair) with he | ⟨he, -, himproves⟩
  · exact Or.inl he
  · refine Or.inr ?_
    rw [he]
    exact himproves

/-- The passes are those of the loop, which ends early when one changes nothing. -/
theorem swapPasses_eq (s : IncrementalSolver) (input : IncrementalInput) (ordered : List Tid) :
    ∀ (passes : Nat) (p : NodePlan),
    ∃ k ≤ passes, swapPasses s input ordered passes p = (swapPass s input ordered)^[k] p
  | 0, p => ⟨0, le_refl _, rfl⟩
  | passes + 1, p => by
    unfold swapPasses
    dsimp only
    split
    · obtain ⟨k, hk, he⟩ := swapPasses_eq s input ordered passes (swapPass s input ordered p)
      exact ⟨k + 1, Nat.succ_le_succ hk, he⟩
    · exact ⟨1, Nat.le_add_left 1 passes, rfl⟩

end Swaps

/-! ## The CPUs of the threads -/

/-- The threads of `T` have a CPU of their node each, the counts are theirs, and none is above the cap. -/
structure Slotting (input : IncrementalInput) (nodes : OrdMap Tid Int) (T : Finset Tid) (c : CpuTargets) : Prop where
  keys : ∀ t, t ∈ c.targets ↔ t ∈ T
  home : ∀ t ∈ T, c.targets.getD t 0 ∈ input.hardware.cpusInNode (nodes.getD t 0)
  count : ∀ x, c.cpuCount.getD x 0 = Seating.weight T (fun t => c.targets.getD t 0) (fun _ => (1 : Int)) x
  capped : ∀ x, c.cpuCount.getD x 0 ≤ cpuSlotCap input

/-- The slots of each node are enough for its threads. -/
def Roomy (input : IncrementalInput) (nodes : OrdMap Tid Int) (A : Finset Tid) : Prop :=
  ∀ n ∈ input.hardware.nodes,
    ((A.filter (fun t => nodes.getD t 0 = n)).card : Int) ≤ cpuSlotCap input * nodeCpuCount input.hardware n

section Targets

variable {s : IncrementalSolver} {input : IncrementalInput} {nodes : OrdMap Tid Int} {A T : Finset Tid} {c : CpuTargets}

theorem cpuSlotCap_pos (input : IncrementalInput) : 0 < cpuSlotCap input := by
  unfold cpuSlotCap
  dsimp only
  split
  · assumption
  · omega

theorem cpusInNode_nodup {hardware : HardwareGraph} (hd : hardware.Discovered) (n : Int) : (hardware.cpusInNode n).Nodup := by
  unfold HardwareGraph.cpusInNode
  exact (List.perm_insertionSort _ _).nodup_iff.2 (hd.distinct.sublist (List.filter_sublist.map _))

/-- **A node with a thread to come has a CPU with a slot to give.** -/
theorem Slotting.exists_free (hd : input.hardware.Discovered) (hroom : Roomy input nodes A) (h : Slotting input nodes T c)
    (hsub : T ⊆ A) {t : Tid} (ht : t ∈ A) (hnew : t ∉ T) (hnode : nodes.getD t 0 ∈ input.hardware.nodes) :
    ∃ x ∈ input.hardware.cpusInNode (nodes.getD t 0), c.cpuCount.getD x 0 < cpuSlotCap input := by
  set n := nodes.getD t 0 with hn
  by_contra hfull
  have hge : ∀ x ∈ (input.hardware.cpusInNode n).toFinset, cpuSlotCap input ≤ c.cpuCount.getD x 0 :=
    fun x hx => not_lt.1 (fun hlt => hfull ⟨x, List.mem_toFinset.1 hx, hlt⟩)
  have hsum : cpuSlotCap input * nodeCpuCount input.hardware n ≤
      ∑ x ∈ (input.hardware.cpusInNode n).toFinset, c.cpuCount.getD x 0 := by
    have hcard := Finset.card_nsmul_le_sum _ _ _ hge
    rw [List.toFinset_card_of_nodup (cpusInNode_nodup hd n), nsmul_eq_mul, mul_comm] at hcard
    exact hcard
  -- the threads on the CPUs of the node are threads of the node, and `t` is not among them
  have hcount : ∑ x ∈ (input.hardware.cpusInNode n).toFinset, c.cpuCount.getD x 0 ≤
      ((T.filter (fun u => nodes.getD u 0 = n)).card : Int) := by
    rw [Finset.sum_congr rfl (fun x _ => (h.count x).trans (Seating.weight_one_eq_card T _ x)), ← Nat.cast_sum,
      ← Finset.card_biUnion]
    · refine Nat.cast_le.2 (Finset.card_le_card (fun u hu => ?_))
      obtain ⟨x, hx, hu⟩ := Finset.mem_biUnion.1 hu
      obtain ⟨huT, hseat⟩ := Finset.mem_filter.1 hu
      have hhome := h.home u huT
      rw [hseat] at hhome
      refine Finset.mem_filter.2 ⟨huT, ?_⟩
      rw [← cpuNode_of_mem hd hhome, cpuNode_of_mem hd (List.mem_toFinset.1 hx)]
    · intro x _ y _ hxy
      refine Finset.disjoint_left.2 (fun u hux huy => hxy ?_)
      exact (Finset.mem_filter.1 hux).2.symm.trans (Finset.mem_filter.1 huy).2
  have hlt : (T.filter (fun u => nodes.getD u 0 = n)).card < (A.filter (fun u => nodes.getD u 0 = n)).card := by
    refine Finset.card_lt_card (Finset.ssubset_iff_of_subset (Finset.filter_subset_filter _ hsub) |>.2 ⟨t, ?_, ?_⟩)
    · exact Finset.mem_filter.2 ⟨ht, rfl⟩
    · exact fun hmem => hnew (Finset.mem_filter.1 hmem).1
  have := hroom n hnode
  omega

/-- **One thread gets its CPU.** -/
theorem Slotting.targetCpu (hd : input.hardware.Discovered) (hroom : Roomy input nodes A) (h : Slotting input nodes T c)
    (hsub : T ⊆ A) {t : Tid} (ht : t ∈ A) (hnew : t ∉ T) (hnode : nodes.getD t 0 ∈ input.hardware.nodes)
    (adjacency : OrdMap Tid (List RelationEdge)) :
    Slotting input nodes (insert t T) (targetCpu s input adjacency nodes c t) := by
  obtain ⟨x, hx, hfree⟩ := h.exists_free hd hroom hsub ht hnew hnode
  obtain ⟨cpu, hmin⟩ := Community.minElement_isSome (fun a b => decide (targetScore s input adjacency c t a <
    targetScore s input adjacency c t b)) (List.ne_nil_of_mem hx)
  have hstep : IncrementalSolver.targetCpu s input adjacency nodes c t =
      { targets := c.targets.insert t cpu
        cpuLoad := c.cpuLoad.update cpu 0 (· + demandOf s t)
        cpuCount := c.cpuCount.update cpu 0 (· + 1) } := by
    unfold IncrementalSolver.targetCpu
    dsimp only
    rw [hmin]
  have hbest : c.cpuCount.getD cpu 0 < cpuSlotCap input := by
    have hle := minElement_le hmin x hx
    unfold targetScore at hle
    dsimp only at hle
    have hflag : decide (cpuSlotCap input ≤ c.cpuCount.getD cpu 0) ≤ decide (cpuSlotCap input ≤ c.cpuCount.getD x 0) := by
      rcases Prod.Lex.le_iff.1 hle with hlt | ⟨he, -⟩
      · exact hlt.le
      · exact he.le
    rw [decide_eq_false (not_le.2 hfree)] at hflag
    have hfalse : decide (cpuSlotCap input ≤ c.cpuCount.getD cpu 0) = false := le_bot_iff.1 hflag
    exact not_le.1 (of_decide_eq_false hfalse)
  have hseat : ∀ u ∈ T, (c.targets.insert t cpu).getD u 0 = c.targets.getD u 0 := by
    intro u hu
    rw [OrdMap.getD_insert, if_neg]
    rintro rfl
    exact hnew hu
  have hself : (c.targets.insert t cpu).getD t 0 = cpu := by rw [OrdMap.getD_insert, if_pos rfl]
  have hcount : ∀ y, (c.cpuCount.update cpu 0 (· + 1)).getD y 0 = c.cpuCount.getD y 0 + if cpu = y then 1 else 0 := by
    intro y
    unfold OrdMap.update
    rw [OrdMap.getD_insert]
    split
    · rename_i he
      rw [he]
    · rw [add_zero]
  rw [hstep]
  refine ⟨fun u => ?_, fun u hu => ?_, fun y => ?_, fun y => ?_⟩
  · rw [OrdMap.mem_insert, h.keys, Finset.mem_insert, eq_comm]
  · dsimp only
    rcases Finset.mem_insert.1 hu with rfl | hu
    · rw [hself]
      exact Community.minElement_mem hmin
    · rw [hseat u hu]
      exact h.home u hu
  · dsimp only
    rw [hcount, h.count, Seating.weight_seated _ hnew hseat, hself]
  · dsimp only
    rw [hcount]
    split
    · rename_i he
      rw [← he]
      omega
    · rw [add_zero]
      exact h.capped y

theorem Slotting.foldl (hd : input.hardware.Discovered) (hroom : Roomy input nodes A)
    (hnodes : ∀ t ∈ A, nodes.getD t 0 ∈ input.hardware.nodes) (adjacency : OrdMap Tid (List RelationEdge)) :
    ∀ (l : List Tid) {T : Finset Tid} {c : CpuTargets}, l.Nodup → (∀ t ∈ l, t ∈ A ∧ t ∉ T) → T ⊆ A →
      Slotting input nodes T c →
      Slotting input nodes (T ∪ l.toFinset) (l.foldl (IncrementalSolver.targetCpu s input adjacency nodes) c)
  | [], T, c, _, _, _, h => by simpa using h
  | t :: l, T, c, hn, hl, hsub, h => by
    rw [List.nodup_cons] at hn
    obtain ⟨ht, hnew⟩ := hl t List.mem_cons_self
    have hstep := h.targetCpu (s := s) hd hroom hsub ht hnew (hnodes t ht) adjacency
    have hrest := Slotting.foldl hd hroom hnodes adjacency l hn.2 (fun u hu => ⟨(hl u (List.mem_cons_of_mem _ hu)).1, fun hmem => by
      rcases Finset.mem_insert.1 hmem with rfl | hmem
      · exact hn.1 hu
      · exact (hl u (List.mem_cons_of_mem _ hu)).2 hmem⟩) (Finset.insert_subset ht hsub) hstep
    have hset : insert t T ∪ l.toFinset = T ∪ (t :: l).toFinset := by
      ext u
      simp
    rw [← hset]
    exact hrest

/-- No CPU is the target of more threads than its slots. -/
theorem Slotting.targets_le (h : Slotting input nodes T c) (x : Int) :
    (c.targets.entries.countP (fun e => decide (e.2 = x)) : Int) ≤ cpuSlotCap input := by
  have hkeys : c.targets.keys.toFinset = T := by
    ext t
    rw [List.mem_toFinset, OrdMap.mem_keys, h.keys]
  have hsum := sum_entries c.targets (· = x) (fun _ => (1 : Int))
  rw [hkeys] at hsum
  have hcap := h.capped x
  rw [h.count, Seating.weight, ← hsum] at hcap
  rw [List.countP_eq_length_filter]
  simpa using hcap

/-- **The CPUs of a plan within its caps.** -/
theorem Tallies.slotting {q : NodePlan} (h : Tallies s input.hardware s.threads.keys.toFinset q)
    (hd : input.hardware.Discovered) (hcap : Capped s input q) (adjacency : OrdMap Tid (List RelationEdge)) :
    Slotting input q.assigned s.threads.keys.toFinset
      ((s.threads.keys.insertionSort (fun a b => !(Community.seedBefore s b a) = true)).foldl
        (IncrementalSolver.targetCpu s input adjacency q.assigned) {}) := by
  have hperm := List.perm_insertionSort (fun a b => !(Community.seedBefore s b a) = true) s.threads.keys
  have hroom : Roomy input q.assigned s.threads.keys.toFinset := by
    intro n hn
    have hcount := h.count n
    rw [Seating.weight_one_eq_card] at hcount
    exact (hcount.symm.le.trans (hcap n hn)).trans (min_le_right _ _)
  have hnodes : ∀ t ∈ s.threads.keys.toFinset, q.assigned.getD t 0 ∈ input.hardware.nodes :=
    fun t ht => List.mem_toFinset.1 (h.onNode t ht)
  have hempty : Slotting input q.assigned ∅ {} := by
    refine ⟨fun t => ?_, fun t ht => ?_, fun x => ?_, fun x => ?_⟩
    · simp
    · simp at ht
    · simp [Seating.weight, OrdMap.getD]
    · exact (cpuSlotCap_pos input).le
  have hfold := hempty.foldl (s := s) hd hroom hnodes adjacency _ (hperm.nodup_iff.2 (OrdMap.nodup_keys _))
    (fun t ht => ⟨List.mem_toFinset.2 (hperm.mem_iff.1 ht), Finset.notMem_empty t⟩) (Finset.empty_subset _)
  rw [Finset.empty_union, List.toFinset_eq_of_perm _ _ hperm] at hfold
  exact hfold

end Targets

/-! ## No plan waits -/

/-- Between two calls, when one confirmation is enough: a plan was made for threads that are still known or are gone. -/
structure Unwaiting (s : IncrementalSolver) : Prop where
  known : ∀ t, t ∈ s.identities ↔ t ∈ s.threads
  candidates : ∀ t ∈ s.initialCandidateIdentities, t ∈ s.identities
  idle : s.phase = .uninitialized → ∀ t, t ∉ s.identities
  planned : s.phase ≠ .nodePlanning

section Runs

variable {s s' : IncrementalSolver} {input : IncrementalInput} {p : SolverProposal}

theorem Unwaiting.new (shadow : Bool) : Unwaiting { shadow := shadow } where
  known _ := Iff.rfl
  candidates t ht := absurd ht (OrdMap.notMem_empty t)
  idle _ t := OrdMap.notMem_empty t
  planned h := by cases h

/-- The part of it that every turn of the intake keeps. -/
def Listed (s₀ s : IncrementalSolver) : Prop :=
  (∀ t, t ∈ s.identities ↔ t ∈ s.threads) ∧ (∀ t ∈ s.initialCandidateIdentities, t ∈ s.identities) ∧
    ∀ t ∈ s.initialCandidateIdentities, t ∈ s₀.initialCandidateIdentities

theorem Listed.removeThread {s₀ : IncrementalSolver} (h : Listed s₀ s) (tid : Tid) : Listed s₀ (s.removeThread tid) := by
  refine ⟨fun t => ?_, fun t ht => ?_, fun t ht => ?_⟩
  · show t ∈ s.identities.erase tid ↔ t ∈ s.threads.erase tid
    rw [OrdMap.mem_erase, OrdMap.mem_erase, h.1]
  · obtain ⟨hne, hmem⟩ := OrdMap.mem_erase.1 (show t ∈ s.initialCandidateIdentities.erase tid from ht)
    exact OrdMap.mem_erase.2 ⟨hne, h.2.1 t hmem⟩
  · exact h.2.2 t (OrdMap.mem_erase.1 (show t ∈ s.initialCandidateIdentities.erase tid from ht)).2

theorem Listed.takeIn {s₀ : IncrementalSolver} {st : Intake} (h : Listed s₀ st.solver)
    (adjacency : OrdMap Tid (List RelationEdge)) (th : ThreadDemand) :
    Listed s₀ (takeIn input adjacency st th).solver := by
  have hforget : Listed s₀ (forgetReused st.solver th.identity) := by
    rcases forgetReused_cases st.solver th.identity with ⟨he, -⟩ | ⟨he, -⟩
    · rw [he]
      exact h
    · rw [he]
      exact h.removeThread _
  generalize hs : forgetReused st.solver th.identity = s at hforget
  -- both maps have the thread afterwards
  have hadd : ∀ t, t ∈ s.identities.insert th.identity.tid th.identity ↔ t ∈ s.threads.insert th.identity.tid th := by
    intro t
    rw [OrdMap.mem_insert, OrdMap.mem_insert, hforget.1]
  have hcand : ∀ t ∈ s.initialCandidateIdentities, t ∈ s.identities.insert th.identity.tid th.identity :=
    fun t ht => OrdMap.mem_insert.2 (Or.inr (hforget.2.1 t ht))
  unfold IncrementalSolver.takeIn
  dsimp only
  rw [hs]
  split
  · rename_i hmem
    refine ⟨fun t => ?_, hforget.2.1, hforget.2.2⟩
    show t ∈ s.identities ↔ t ∈ s.threads.insert th.identity.tid th
    rw [← hadd, OrdMap.mem_insert]
    constructor
    · exact Or.inr
    · rintro (rfl | ht)
      · exact hmem
      · exact ht
  · split
    · exact ⟨hadd, hcand, hforget.2.2⟩
    · exact ⟨hadd, hcand, hforget.2.2⟩

theorem listed_takenIn (h : Unwaiting s) (input : IncrementalInput) : Listed s (takenIn s input).solver := by
  unfold takenIn
  refine Loop.foldl_keeps (fun st : Intake => Listed s st.solver) (fun st th hst => hst.takeIn _ th) _ ?_
  exact dropStale_keeps (P := Listed s) (fun t tid ht => ht.removeThread tid) _ _ ⟨h.known, h.candidates, fun t ht => ht⟩

/-- What the phase changes keep: only a replan starts planning, and it forgets the plan that waits. -/
def Settling (s₀ s : IncrementalSolver) : Prop :=
  Listed s₀ s ∧ (s.phase = .nodePlanning → ∀ t, t ∉ s.initialCandidateIdentities) ∧
    (s.phase = .uninitialized → s₀.phase = .uninitialized)

theorem Listed.startReplan {s₀ : IncrementalSolver} (h : Listed s₀ s) : Settling s₀ (startReplan s) := by
  have hnone : ∀ t, t ∉ (IncrementalSolver.startReplan s).initialCandidateIdentities := fun t => OrdMap.notMem_empty t
  exact ⟨⟨h.1, fun t ht => absurd ht (hnone t), fun t ht => absurd ht (hnone t)⟩, fun _ => hnone,
    fun hno => (by cases hno)⟩

theorem settlePhase_unwaiting (h : Unwaiting s) (input : IncrementalInput) :
    Settling s (settlePhase input (takenIn s input)) := by
  have htaken := listed_takenIn h input
  have hphase : (takenIn s input).solver.phase = s.phase := (takenIn_flags s input).1
  have harrivals : Settling s (afterArrivals input (takenIn s input)) := by
    unfold afterArrivals
    split
    · exact htaken.startReplan
    · split
      · exact ⟨htaken, fun hno => (by cases hno), fun hno => (by cases hno)⟩
      · exact ⟨htaken, fun hno => absurd (hphase.symm.trans hno) h.planned, fun hidle => hphase.symm.trans hidle⟩
  rw [settlePhase_eq]
  split
  · exact ⟨harrivals.1, fun hno => (by cases hno), fun hno => (by cases hno)⟩
  · exact harrivals

theorem settleHotspots_unwaiting {s₀ : IncrementalSolver} (input : IncrementalInput) (h : Settling s₀ s) :
    Settling s₀ (settleHotspots input s).1 := by
  unfold settleHotspots
  dsimp only
  split
  · split
    · split
      · exact Listed.startReplan (s := { s with edges := _, previousHotspotKeys := _, hotspotStabilityConfirmation := _ }) h.1
      · exact h
    · split
      · exact Listed.startReplan (s := { s with edges := _, previousHotspotKeys := _, hotspotStabilityConfirmation := _ }) h.1
      · exact h
  · exact h

/-- **What the intake leaves to a node plan**: no plan that waits, and a thread to plan. -/
theorem intake_unwaiting (h : Unwaiting s) (input : IncrementalInput) :
    (∀ t, t ∈ (intake s input).1.identities ↔ t ∈ (intake s input).1.threads) ∧
    (∀ t ∈ (intake s input).1.initialCandidateIdentities, t ∈ (intake s input).1.identities) ∧
    ((intake s input).1.phase = .uninitialized → ∀ t, t ∉ (intake s input).1.identities) ∧
    ((intake s input).1.phase = .nodePlanning → (∀ t, t ∉ (intake s input).1.initialCandidateIdentities) ∧
      ∃ t, t ∈ (intake s input).1.identities) := by
  obtain ⟨hlisted, hplan, hidle⟩ := settleHotspots_unwaiting input (settlePhase_unwaiting h input)
  rw [intake_eq]
  dsimp only
  split
  · rename_i hempty
    have hnone : ∀ t, t ∉ (settleHotspots input (settlePhase input (takenIn s input))).1.identities := by
      intro t ht
      exact OrdMap.notMem_iff.2 (OrdMap.isEmpty_iff.1 hempty t) ((hlisted.1 t).1 ht)
    exact ⟨hlisted.1, hlisted.2.1, fun _ => hnone, fun hphase => by cases hphase⟩
  · rename_i hsome
    have hthread : ∃ t, t ∈ (settleHotspots input (settlePhase input (takenIn s input))).1.identities := by
      by_contra hno
      refine hsome (OrdMap.isEmpty_iff.2 (fun t => OrdMap.notMem_iff.1 (fun ht => hno ⟨t, (hlisted.1 t).2 ht⟩)))
    split
    · rename_i hphase
      refine ⟨hlisted.1, hlisted.2.1, fun hno => (by cases hno), fun _ => ⟨fun t ht => ?_, hthread⟩⟩
      exact h.idle (hidle hphase) t (h.candidates t (hlisted.2.2 t ht))
    · rename_i hphase
      exact ⟨hlisted.1, hlisted.2.1, fun hno => absurd hno hphase, fun hplanning => ⟨hplan hplanning, hthread⟩⟩

theorem keepsPlan_of_unwaiting (hnone : ∀ t, t ∉ s.initialCandidateIdentities) (hsome : ∃ t, t ∈ s.identities) :
    keepsPlan s = false := by
  by_contra hkeeps
  rw [Bool.not_eq_false] at hkeeps
  unfold keepsPlan at hkeeps
  rw [Bool.and_eq_true, decide_eq_true_eq] at hkeeps
  obtain ⟨t, ht⟩ := hsome
  rw [← OrdMap.mem_keys, OrdMap.keys, ← hkeeps.2] at ht
  exact hnone t (OrdMap.mem_keys.1 ht)

/-- **A plan that waits for nothing is used as it is made.** -/
theorem confirmNodes_fresh (hkeeps : keepsPlan s = false) (hone : input.options.initialProposalConfirmations = 1)
    (proposal : SolverProposal) (plan : NodePlan) :
    (confirmNodes s input proposal plan).2 = { s with
      initialConfirmation := 1
      previousInitialTargetNode := plan.assigned
      initialCandidateIdentities := s.identities
      initialTargetNode := plan.assigned
      lastNodePlanPopulation := s.threads.size
      initialTargetCpu := ((s.threads.keys.insertionSort (fun a b => !(Community.seedBefore s b a) = true)).foldl
        (targetCpu s input (adjacencyOf (s.edges.entries.map Prod.snd)) plan.assigned) {}).targets
      phase := .initialPinning } := by
  unfold confirmNodes
  dsimp only
  rw [show (!s.previousInitialTargetNode.isEmpty &&
    decide (s.initialCandidateIdentities.entries = s.identities.entries)) = keepsPlan s from rfl, hkeeps]
  simp only [Bool.false_eq_true, if_false, hone]
  rfl

/-- A node plan that does not throw. -/
theorem nodePlanning_ok {proposal : SolverProposal} {r : SolverProposal × IncrementalSolver} (hr : nodePlanning s input proposal = .ok r) :
    ∃ plan, planNodes s input = .ok plan ∧ r.2 = (confirmNodes s input proposal
      (swapPasses s input (communityOrder s).ordered input.options.initialNodePasses plan)).2 := by
  unfold nodePlanning at hr
  cases hplan : planNodes s input with
  | error e =>
    rw [hplan] at hr
    cases hr
  | ok plan =>
    rw [hplan] at hr
    cases hr
    exact ⟨plan, rfl, rfl⟩

theorem Unwaiting.propose (h : Unwaiting s) (hone : input.options.initialProposalConfirmations = 1)
    (hr : propose s input = .ok (p, s')) : Unwaiting s' := by
  rcases propose_cases hr with ⟨-, rfl⟩ | ⟨-, -, hphases⟩
  · exact h
  · obtain ⟨hknown, hcand, hidle, hplanning⟩ := intake_unwaiting h input
    rcases hphases with ⟨hphase, -, rfl⟩ | ⟨hphase, hr⟩ | ⟨hphase, hr⟩ | ⟨hphase, hr⟩
    · exact ⟨hknown, hcand, hidle, fun hno => by rw [hphase] at hno; cases hno⟩
    · have hkeeps := keepsPlan_of_unwaiting (hplanning hphase).1 (hplanning hphase).2
      obtain ⟨plan, -, he⟩ := nodePlanning_ok hr
      rw [confirmNodes_fresh hkeeps hone] at he
      dsimp only at he
      rw [he]
      exact ⟨hknown, fun t ht => ht, fun hno => (by cases hno), fun hno => by cases hno⟩
    · have hsame := (initialPinning_same hr).1
      dsimp only at hsame
      rw [hsame]
      exact ⟨hknown, hcand, hidle, fun hno => by rw [show (intake s input).1.phase = _ from hno] at hphase; cases hphase⟩
    · have hsame := optimize_same (intake s input).1 input (intake s input).2
      rw [hr] at hsame
      dsimp only at hsame
      rw [hsame]
      exact ⟨hknown, hcand, hidle, fun hno => by rw [show (intake s input).1.phase = _ from hno] at hphase; cases hphase⟩

/-- One confirmation is enough for a node plan. -/
def OneConfirmation : Call → Prop
  | .propose input => input.options.initialProposalConfirmations = 1
  | _ => True

instance OneConfirmation.decidable : ∀ call, Decidable (OneConfirmation call)
  | .propose _ => inferInstanceAs (Decidable (_ = _))
  | .commit _ _ => isTrue trivial
  | .discard => isTrue trivial
  | .removeThread _ => isTrue trivial
  | .reset => isTrue trivial

/-- **Every call keeps it that no plan waits.** -/
theorem Unwaiting.step (h : Unwaiting s) {call : Call} (hone : OneConfirmation call) (hstep : step s call = some s') :
    Unwaiting s' := by
  cases call with
  | propose input =>
    cases hr : s.propose input with
    | error e =>
      rw [IncrementalSolver.step, hr] at hstep
      cases hstep
    | ok r =>
      rw [IncrementalSolver.step, hr] at hstep
      cases hstep
      exact h.propose (p := r.1) hone hr
  | commit nowNs tids =>
    obtain ⟨p, hout, rfl⟩ := Option.map_eq_some_iff.1 hstep
    have hsettle : ∀ s : IncrementalSolver, Unwaiting s → Unwaiting (settlePinning s) := by
      intro s hs
      unfold settlePinning
      split
      · exact ⟨hs.known, hs.candidates, fun hno => (by cases hno), fun hno => by cases hno⟩
      · exact hs
    have hcommitted : Unwaiting (committed s nowNs tids p.actions) := by
      rw [committed_same]
      exact ⟨h.known, h.candidates, h.idle, h.planned⟩
    have hs := hsettle _ hcommitted
    rw [commit_eq hout]
    exact ⟨hs.known, hs.candidates, hs.idle, hs.planned⟩
  | discard =>
    obtain ⟨p, hout, rfl⟩ := Option.map_eq_some_iff.1 hstep
    unfold discard
    split
    · exact ⟨h.known, h.candidates, h.idle, h.planned⟩
    · exact h
  | removeThread tid =>
    cases hstep
    have hlisted : Listed s s := ⟨h.known, h.candidates, fun t ht => ht⟩
    obtain ⟨hknown, hcand, -⟩ := hlisted.removeThread tid
    refine ⟨hknown, hcand, fun hphase t ht => ?_, h.planned⟩
    exact h.idle hphase t (OrdMap.mem_erase.1 (show t ∈ s.identities.erase tid from ht)).2
  | reset =>
    cases hstep
    exact Unwaiting.new s.shadow

end Runs

/-! ## Every fresh plan -/

/-- The threads whose node the plan has settled on a node. -/
def plannedOn (s : IncrementalSolver) (n : Int) : Nat := s.initialTargetNode.entries.countP (fun e => decide (e.2 = n))

/-- The threads a CPU is the initial target of. -/
def targetedOn (s : IncrementalSolver) (cpu : Int) : Nat := s.initialTargetCpu.entries.countP (fun e => decide (e.2 = cpu))

section Main

variable {s s' : IncrementalSolver} {input : IncrementalInput} {p : SolverProposal}

/-- **A fresh node plan**: the order has every thread once, every node ends between its floor and its cap, every swap that
is accepted improves the plan, and no CPU is the target of more threads than its slots. -/
theorem fresh_node_plan (hd : input.hardware.Discovered) {shadow : Bool} {run : List Call}
    (hone : ∀ call ∈ run, OneConfirmation call) (hrun : Run.exec step { shadow := shadow } run = some s)
    (hn : (tids input.threads).Nodup) (hopt : input.options.Accepted) (hcap : input.options.maximumThreadsPerCpu = 0)
    (hconf : input.options.initialProposalConfirmations = 1) (hnone : s.outstanding = none)
    (hphase : (intake s input).1.phase = .nodePlanning) (hr : propose s input = .ok (p, s')) :
    let window := (intake s input).1
    let ordered := (communityOrder window).ordered
    (communityOrder window).remaining.isEmpty = true ∧ ordered.Perm window.threads.keys ∧
    (∀ t, t ∈ s'.initialTargetNode ↔ t ∈ window.threads) ∧
    (∀ n ∈ input.hardware.nodes,
      threadFloor window input n ≤ plannedOn s' n ∧ (plannedOn s' n : Int) ≤ threadCap window input n) ∧
    (∃ plan, planNodes window input = .ok plan ∧
      (∃ passes ≤ input.options.initialNodePasses,
        s'.initialTargetNode = ((swapPass window input ordered)^[passes] plan).assigned) ∧
      ∀ pass turns later first second, laterPairs ordered = turns ++ (first, second) :: later →
        let st := turns.foldl (trySwap window input) ((swapPass window input ordered)^[pass] plan, false)
        trySwap window input st (first, second) = st ∨
          Improves window input st.1 (trySwap window input st (first, second)).1 first second) ∧
    ∀ cpu, (targetedOn s' cpu : Int) ≤ cpuSlotCap input := by
  have hunwaiting : Unwaiting s := by
    have hobeys : Run.Obeys step (fun _ call => OneConfirmation call) { shadow := shadow } run :=
      Run.Obeys.of_mem (fun _ _ h => h) _ hone
    exact hobeys.invariant Unwaiting (fun _ _ _ h hok hstep => h.step hok hstep) (Unwaiting.new shadow) hrun
  obtain hout | ⟨-, hcpus, hphases⟩ := propose_cases hr
  · rw [hnone] at hout
    cases hout.1
  obtain ⟨-, -, -, hplanning⟩ := intake_unwaiting hunwaiting input
  have hkeeps := keepsPlan_of_unwaiting (hplanning hphase).1 (hplanning hphase).2
  have hloop : ∀ e ∈ (intake s input).1.edges.entries.map Prod.snd, e.fromTid ≠ e.toTid :=
    fun e he => ends_ne_of_mem_edges he
  have hplanable := planable_intake (s := s) (cpus_ne_nil_of_online hcpus) hd.online hopt hcap hn
  rcases hphases with ⟨hno, -, -⟩ | ⟨-, hr⟩ | ⟨hno, -⟩ | ⟨hno, -⟩
  · rw [hphase] at hno
    cases hno
  · obtain ⟨plan, hplan, hs'⟩ := nodePlanning_ok hr
    rw [confirmNodes_fresh hkeeps hconf] at hs'
    dsimp only at hs' ⊢
    generalize (intake s input).1 = window at hloop hplanable hplan hs' ⊢
    have hperm := communityOrder_perm hloop
    have hnodup : (communityOrder window).ordered.Nodup := hperm.nodup_iff.2 (OrdMap.nodup_keys _)
    have hmem : ∀ t ∈ (communityOrder window).ordered, t ∈ window.threads.keys.toFinset :=
      fun t ht => List.mem_toFinset.2 (hperm.mem_iff.1 ht)
    obtain ⟨htallies, hcapped, hfloors⟩ := planNodes_bounded hplanable hloop hplan
    obtain ⟨hrefined, hcounts⟩ := swapPasses_bounded hnodup hmem input.options.initialNodePasses htallies
    obtain ⟨passes, hpasses, hiter⟩ := swapPasses_eq window input (communityOrder window).ordered
      input.options.initialNodePasses plan
    have hplanned : ∀ n, (plannedOn s' n : Int) = plan.count n := by
      intro n
      rw [← hcounts n, ← hrefined.threadsOn n, hs']
      rfl
    refine ⟨(communityOrder_splits hloop).2, hperm, fun t => ?_, fun n hnode => ?_, ⟨plan, hplan, ⟨passes, hpasses, ?_⟩,
      fun pass turns later first second hsplit => swaps_improve hnodup hmem htallies pass hsplit⟩, fun cpu => ?_⟩
    · rw [hs']
      exact hrefined.covers.keys t
    · rw [hplanned]
      exact ⟨hfloors n hnode, hcapped n hnode⟩
    · rw [hs', ← hiter]
    · have hbounded : Capped window input (swapPasses window input (communityOrder window).ordered
          input.options.initialNodePasses plan) := by
        intro n hnode
        rw [hcounts]
        exact hcapped n hnode
      have hslots := hrefined.slotting hd hbounded (adjacencyOf (window.edges.entries.map Prod.snd))
      have hle := hslots.targets_le cpu
      unfold targetedOn
      rw [hs']
      exact hle
  · rw [hphase] at hno
    cases hno
  · rw [hphase] at hno
    cases hno

/-- Two nodes of two CPUs and two pairs of threads that talk to each other. -/
def pairedInput : IncrementalInput where
  hardware := { cpus := [⟨0, 0, true⟩, ⟨1, 0, true⟩, ⟨2, 1, true⟩, ⟨3, 1, true⟩] }
  threads := [⟨⟨1, 1, 0⟩, "g", 1 / 10, 1, 0⟩, ⟨⟨1, 2, 0⟩, "g", 1 / 10, 1, 1⟩, ⟨⟨1, 3, 0⟩, "g", 1 / 10, 1, 2⟩,
    ⟨⟨1, 4, 0⟩, "g", 1 / 10, 1, 3⟩]
  edges := [{ fromTid := 1, toTid := 3, score := 3 }, { fromTid := 2, toTid := 4, score := 2 }]

/-- Each pair gets a node, and each thread a CPU of its own. -/
theorem fresh_node_plan_pairs : pairedInput.hardware.Discovered ∧ pairedInput.options.Accepted ∧
    ∃ p s', propose {} pairedInput = .ok (p, s') ∧ s'.initialTargetNode.entries = [(1, 0), (2, 1), (3, 0), (4, 1)] ∧
      (∀ n ∈ pairedInput.hardware.nodes, threadFloor (intake {} pairedInput).1 pairedInput n ≤ plannedOn s' n ∧
        (plannedOn s' n : Int) ≤ threadCap (intake {} pairedInput).1 pairedInput n) ∧
      ∀ cpu, (targetedOn s' cpu : Int) ≤ cpuSlotCap pairedInput := by
  have hd : pairedInput.hardware.Discovered := ⟨by decide, by decide⟩
  have hopt : pairedInput.options.Accepted := by constructor <;> decide +kernel
  have hphase : (intake {} pairedInput).1.phase = .nodePlanning := by decide +kernel
  have hplan : (match propose {} pairedInput with
      | .ok r => decide (r.2.initialTargetNode.entries = [(1, 0), (2, 1), (3, 0), (4, 1)])
      | .error _ => false) = true := by decide +kernel
  cases hp : propose {} pairedInput with
  | error e =>
    rw [hp] at hplan
    cases hplan
  | ok r =>
    rw [hp] at hplan
    have hfresh := fresh_node_plan hd (fun call hcall => absurd hcall List.not_mem_nil)
      (show Run.exec step { shadow := false } [] = some {} from rfl) (by decide) hopt rfl rfl rfl hphase hp
    exact ⟨hd, hopt, r.1, r.2, rfl, of_decide_eq_true hplan, hfresh.2.2.2.1, hfresh.2.2.2.2.2⟩

end Main

end IncrementalSolver
end AffinityGraph
