import AffinityGraph.FreshPlan
import AffinityGraph.ReplaySolver
import AffinityGraph.SlotCap
/-!
# ReplaySlots — the slots of the CPUs in a replayed placement

With as many slots as threads there is always a node, and on a thread's node always a CPU, that has one left.  A stage that
takes the least place therefore keeps to the slots exactly as long as no full place outranks the open ones.  For a node the
penalty of a full place is in the component that is compared first; for a CPU the load and the relations are compared before
it, and outrank it.
-/
namespace AffinityGraph
namespace Solver

open Greedy (least Outranked Along Passes refine)
open IncrementalSolver (nodeSet nodeCpuCount)

/-- The hardware is discovered, the threads have TIDs of their own, and the cap is the dynamic one. -/
structure DynamicCap (i : SolveInput) : Prop where
  hardware : i.hardware.Discovered
  distinct : (i.threads.map (·.identity.tid)).Nodup
  strategy : i.options.strategyId ≠ "legacy-v1"
  dynamic : i.options.maxThreadsPerCpu = 0

/-! ## Seats -/

/-- How many of the threads a map has on a place. -/
def crowd (m : OrdMap Tid Int) (T : Finset Tid) (x : Int) : Int :=
  Seating.weight T (fun t => m.getD t 0) (fun _ => (1 : Int)) x

section Seats

variable {m : OrdMap Tid Int} {T : Finset Tid} {t : Tid} {x y : Int}

theorem crowd_eq_card : crowd m T x = (T.filter (fun t => m.getD t 0 = x)).card := Seating.weight_one_eq_card T _ x

theorem crowd_seated (ht : t ∉ T) : crowd (m.insert t x) (insert t T) y = crowd m T y + if x = y then 1 else 0 := by
  unfold crowd
  have hrest : ∀ u ∈ T, (m.insert t x).getD u 0 = m.getD u 0 := by
    intro u hu
    rw [OrdMap.getD_insert, if_neg]
    rintro rfl
    exact ht hu
  rw [Seating.weight_seated (fun _ => (1 : Int)) ht hrest y, OrdMap.getD_insert, if_pos rfl]

theorem crowd_moved (ht : t ∈ T) :
    crowd (m.insert t x) T y = crowd m T y - (if m.getD t 0 = y then 1 else 0) + if x = y then 1 else 0 := by
  unfold crowd
  have hrest : ∀ u ∈ T, u ≠ t → (m.insert t x).getD u 0 = m.getD u 0 := by
    intro u _ hu
    rw [OrdMap.getD_insert, if_neg (Ne.symm hu)]
  rw [Seating.weight_moved (fun _ => (1 : Int)) ht hrest y, OrdMap.getD_insert, if_pos rfl]

theorem sum_crowd {P : Finset Int} (h : ∀ t ∈ T, m.getD t 0 ∈ P) : ∑ x ∈ P, crowd m T x = T.card := by
  unfold crowd
  rw [Seating.sum_weight (fun _ => (1 : Int)) h, Finset.sum_const, nsmul_eq_mul, mul_one]

theorem getD_put (count : OrdMap Int Int) (a x : Int) :
    (count.update a 0 (· + 1)).getD x 0 = count.getD x 0 + if a = x then 1 else 0 := by
  rw [OrdMap.getD_update]
  split
  · rfl
  · rw [add_zero]

theorem getD_moved (count : OrdMap Int Int) (a b x : Int) :
    ((count.update a 0 (· - 1)).update b 0 (· + 1)).getD x 0 =
      count.getD x 0 - (if a = x then 1 else 0) + if b = x then 1 else 0 := by
  rw [getD_put, OrdMap.getD_update]
  split
  · rfl
  · rw [sub_zero]

/-- A count stays below its bound when a thread moves to a place that was below it. -/
theorem moved_le {count bound a b x : Int} (h : count ≤ bound) (hfree : b = x → count < bound) :
    count - (if a = x then 1 else 0) + (if b = x then 1 else 0) ≤ bound := by
  by_cases hb : b = x
  · have hlt := hfree hb
    rw [if_pos hb]
    split
    · omega
    · omega
  · rw [if_neg hb]
    split
    · omega
    · omega

/-- The entries of a map that has exactly these threads. -/
theorem countP_eq_crowd (hknown : ∀ t, t ∈ m ↔ t ∈ T) (x : Int) : (m.entries.countP (fun e => decide (e.2 = x)) : Int) = crowd m T x := by
  have hkeys : m.keys.toFinset = T := by
    ext t
    rw [List.mem_toFinset, OrdMap.mem_keys, hknown]
  rw [IncrementalSolver.countP_entries, crowd_eq_card, hkeys]
  congr 2
  refine Finset.filter_congr (fun t ht => ?_)
  obtain ⟨c, hc⟩ := OrdMap.mem_iff.1 ((hknown t).2 ht)
  rw [OrdMap.getD, hc, Option.getD_some, Option.some.injEq]

end Seats

/-! ## The threads -/

section Threads

variable {i : SolveInput}

def tids (l : List ThreadDemand) : Finset Tid := (l.map (·.identity.tid)).toFinset

theorem effective_identity (i : SolveInput) (t : ThreadDemand) : (i.effective t).identity = t.identity := by
  unfold SolveInput.effective
  split
  · rfl
  · rfl

theorem ordered_perm (i : SolveInput) : (i.ordered.map (·.identity.tid)).Perm (i.threads.map (·.identity.tid)) := by
  have hsort : (i.ordered.map (·.identity.tid)).Perm ((i.threads.map i.effective).map (·.identity.tid)) :=
    (List.perm_insertionSort _ _).map _
  rw [List.map_map] at hsort
  have heff : i.threads.map ((·.identity.tid) ∘ i.effective) = i.threads.map (·.identity.tid) :=
    List.map_congr_left (fun t _ => by rw [Function.comp_apply, effective_identity])
  rwa [heff] at hsort

theorem DynamicCap.nodup (h : DynamicCap i) : (i.ordered.map (·.identity.tid)).Nodup :=
  (ordered_perm i).nodup_iff.2 h.distinct

theorem tids_ordered (i : SolveInput) : tids i.ordered = tids i.threads := by
  ext t
  unfold tids
  rw [List.mem_toFinset, List.mem_toFinset]
  exact (ordered_perm i).mem_iff

theorem card_tids {l : List ThreadDemand} (h : (l.map (·.identity.tid)).Nodup) : (tids l).card = l.length := by
  unfold tids
  rw [List.toFinset_card_of_nodup h, List.length_map]

/-- A thread in its turn is not among those before it, and these are fewer than all. -/
theorem DynamicCap.turn (h : DynamicCap i) {pre post : List ThreadDemand} {t : ThreadDemand}
    (hsplit : i.ordered = pre ++ t :: post) : t.identity.tid ∉ tids pre ∧ insert t.identity.tid (tids pre) = tids (pre ++ [t]) ∧
      (tids pre).card < i.threads.length ∧ t.identity.tid ∈ tids i.threads ∧ tids pre ⊆ tids i.threads := by
  have hn := h.nodup
  have hlen : i.ordered.length = i.threads.length := by
    have := (ordered_perm i).length_eq
    rwa [List.length_map, List.length_map] at this
  have hall := tids_ordered i
  rw [hsplit] at hn hlen hall
  rw [List.map_append, List.map_cons] at hn
  have hpre : (pre.map (·.identity.tid)).Nodup := hn.of_append_left
  refine ⟨fun hmem => ?_, ?_, ?_, ?_, fun u hu => ?_⟩
  · rw [tids, List.mem_toFinset] at hmem
    exact (List.nodup_append.1 hn).2.2 _ hmem _ List.mem_cons_self rfl
  · unfold tids
    rw [List.map_append, List.toFinset_append, List.map_singleton]
    ext u
    simp
  · rw [card_tids hpre, ← hlen, List.length_append, List.length_cons]
    omega
  · rw [← hall, tids, List.mem_toFinset]
    simp
  · rw [← hall]
    rw [tids, List.mem_toFinset] at hu ⊢
    rw [List.map_append]
    exact List.mem_append_left _ hu

theorem DynamicCap.constraints (h : DynamicCap i) : i.legacy = false ∧ i.slotConstraints = true := by
  have hlegacy : i.legacy = false := decide_eq_false h.strategy
  refine ⟨hlegacy, ?_⟩
  unfold SolveInput.slotConstraints
  rw [hlegacy, h.dynamic]
  rfl

theorem DynamicCap.cpuCap_eq (h : DynamicCap i) :
    i.cpuCap = ⌈(i.threads.length : ℚ) / i.hardware.cpus.length⌉ + i.options.slotSlack := by
  unfold SolveInput.cpuCap
  rw [h.dynamic, if_neg (lt_irrefl 0)]

/-- The slots are enough for the threads exactly when the slack takes none away. -/
theorem DynamicCap.slots_iff (h : DynamicCap i) (hc : i.hardware.cpus ≠ []) :
    (i.threads.length : Int) ≤ i.cpuCap * i.hardware.cpus.length ↔ 0 ≤ i.options.slotSlack := by
  have hpos : (0 : ℚ) < i.hardware.cpus.length := by
    have := List.length_pos_of_ne_nil hc
    exact_mod_cast this
  rw [h.cpuCap_eq]
  set share := ⌈(i.threads.length : ℚ) / i.hardware.cpus.length⌉ with hshare
  have henough : (i.threads.length : Int) ≤ share * i.hardware.cpus.length := by
    have hceil : (i.threads.length : ℚ) / i.hardware.cpus.length ≤ share := Int.le_ceil _
    rw [div_le_iff₀ hpos] at hceil
    exact_mod_cast hceil
  have hfew : (share - 1) * i.hardware.cpus.length < (i.threads.length : Int) := by
    have hceil : (share : ℚ) < (i.threads.length : ℚ) / i.hardware.cpus.length + 1 := Int.ceil_lt_add_one _
    have hless : ((share : ℚ) - 1) * i.hardware.cpus.length < i.threads.length := by
      rw [← lt_div_iff₀ hpos]
      linarith
    exact_mod_cast hless
  have hcpus : (0 : Int) ≤ i.hardware.cpus.length := Int.natCast_nonneg _
  constructor
  · intro hle
    by_contra hneg
    have hlost : (share + i.options.slotSlack) * i.hardware.cpus.length ≤ (share - 1) * i.hardware.cpus.length :=
      mul_le_mul_of_nonneg_right (by omega) hcpus
    omega
  · intro hslack
    exact henough.trans (mul_le_mul_of_nonneg_right (by omega) hcpus)

theorem cpuCap_nonneg (h : DynamicCap i) (hslack : 0 ≤ i.options.slotSlack) : 0 ≤ i.cpuCap := by
  rw [h.cpuCap_eq]
  have hshare : 0 ≤ ⌈(i.threads.length : ℚ) / i.hardware.cpus.length⌉ := Int.ceil_nonneg (by positivity)
  omega

/-- The slots of the nodes are those of the CPUs. -/
theorem DynamicCap.sum_nodeSlots (h : DynamicCap i) :
    ∑ n ∈ nodeSet i.hardware, i.nodeSlots n = i.cpuCap * i.hardware.cpus.length := by
  unfold SolveInput.nodeSlots
  rw [← Finset.mul_sum, ← IncrementalSolver.sum_nodeCpuCount h.hardware.online, Nat.cast_sum]
  rfl

end Threads

/-! ## The nodes -/

section Nodes

variable {i : SolveInput} {T : Finset Tid} {st : NodeState} {t : ThreadDemand}

/-- A node with a thread for every slot. -/
def FullNode (i : SolveInput) (st : NodeState) (n : Int) : Prop := i.nodeSlots n ≤ st.count.getD n 0

/-- A node the thread can move to, with a thread for every slot. -/
def FullTarget (i : SolveInput) (st : NodeState) (t : ThreadDemand) (n : Int) : Prop :=
  n ≠ st.tidNode.getD t.identity.tid 0 ∧ FullNode i st n

/-- The counts of the nodes are those of the threads. -/
structure NodesKept (i : SolveInput) (T : Finset Tid) (st : NodeState) : Prop where
  count : ∀ n, st.count.getD n 0 = crowd st.tidNode T n
  home : ∀ t ∈ T, st.tidNode.getD t 0 ∈ i.hardware.nodes

/-- No node has more threads than slots. -/
def NodesFit (i : SolveInput) (st : NodeState) : Prop := ∀ n ∈ i.hardware.nodes, st.count.getD n 0 ≤ i.nodeSlots n

theorem NodesKept.empty : NodesKept i ∅ {} where
  count _ := rfl
  home t ht := absurd ht (Finset.notMem_empty t)

theorem NodesFit.empty (hslots : 0 ≤ i.cpuCap) : NodesFit i {} := fun _ _ => mul_nonneg hslots (Int.natCast_nonneg _)

theorem objective_inj {a b c a' b' c' : ℚ} {x y : Int} (h : objective a b c x = objective a' b' c' y) : x = y := by
  have h' := congrArg (fun o => (ofLex (ofLex (ofLex o).2).2).2) h
  exact h'

theorem nodeObjective_inj {x y : Int} (h : nodeObjective i st t x = nodeObjective i st t y) : x = y := objective_inj h

theorem fmObjective_inj {original x y : Int} (h : fmObjective i st t original x = fmObjective i st t original y) : x = y :=
  objective_inj h

/-- With threads to come there are slots left. -/
theorem NodesKept.exists_open (hcap : DynamicCap i) (h : NodesKept i T st)
    (hmore : (T.card : Int) < i.cpuCap * i.hardware.cpus.length) : ∃ n ∈ i.hardware.nodes, ¬ FullNode i st n := by
  by_contra hfull
  have hall : ∀ n ∈ nodeSet i.hardware, i.nodeSlots n ≤ crowd st.tidNode T n := by
    intro n hn
    by_contra hnot
    refine hfull ⟨n, List.mem_toFinset.1 hn, fun hf => hnot ?_⟩
    rw [← h.count]
    exact hf
  have hsum := Finset.sum_le_sum hall
  have hseated : ∀ u ∈ T, st.tidNode.getD u 0 ∈ nodeSet i.hardware := fun u hu => List.mem_toFinset.2 (h.home u hu)
  rw [hcap.sum_nodeSlots, sum_crowd hseated] at hsum
  omega

theorem headD_mem {l : List Int} (h : l ≠ []) : l.headD 0 ∈ l := by
  cases l with
  | nil => exact absurd rfl h
  | cons x l => exact List.mem_cons_self

/-- The node a thread is given. -/
def nodeFor (i : SolveInput) (st : NodeState) (t : ThreadDemand) : Int :=
  least (nodeObjective i st t) (i.hardware.nodes.headD 0) i.hardware.nodes

theorem count_assignNode (n : Int) : (assignNode i st t).count.getD n 0 =
    st.count.getD n 0 + if nodeFor i st t = n then 1 else 0 := getD_put _ _ _

theorem full_nodeFor_iff (hopen : ∃ n ∈ i.hardware.nodes, ¬ FullNode i st n) : FullNode i st (nodeFor i st t) ↔
    Outranked (nodeObjective i st t) (FullNode i st) i.hardware.nodes := by
  obtain ⟨o, ho, hfree⟩ := hopen
  exact Greedy.full_least_iff (fun _ _ he => nodeObjective_inj he) (headD_mem (List.ne_nil_of_mem ho)) ⟨o, ho, hfree⟩

theorem NodesKept.assignNode (hne : i.hardware.nodes ≠ []) (h : NodesKept i T st) (ht : t.identity.tid ∉ T) :
    NodesKept i (insert t.identity.tid T) (assignNode i st t) := by
  have hmem : nodeFor i st t ∈ i.hardware.nodes := Greedy.least_mem_of_mem (headD_mem hne)
  have hseat : (Solver.assignNode i st t).tidNode = st.tidNode.insert t.identity.tid (nodeFor i st t) := rfl
  refine ⟨fun n => ?_, fun u hu => ?_⟩
  · rw [hseat, count_assignNode, crowd_seated ht, h.count]
  · rw [hseat, OrdMap.getD_insert]
    split
    · exact hmem
    · rename_i hne'
      rcases Finset.mem_insert.1 hu with rfl | hu
      · exact absurd rfl hne'
      · exact h.home u hu

/-- **A thread gets a node with a slot left**, when no full one outranks these. -/
theorem NodesFit.assignNode (h : NodesFit i st) (hopen : ∃ n ∈ i.hardware.nodes, ¬ FullNode i st n)
    (hout : ¬ Outranked (nodeObjective i st t) (FullNode i st) i.hardware.nodes) : NodesFit i (assignNode i st t) := by
  have hfree : st.count.getD (nodeFor i st t) 0 < i.nodeSlots (nodeFor i st t) :=
    not_le.1 (fun hfull => hout ((full_nodeFor_iff hopen).1 hfull))
  intro n hn
  have hold := h n hn
  rw [count_assignNode]
  split
  · rename_i he
    rw [← he]
    omega
  · omega

/-- The node a pass would have for a thread. -/
def nodeBest (i : SolveInput) (st : NodeState) (t : ThreadDemand) : Int :=
  least (fmObjective i st t (st.tidNode.getD t.identity.tid 0)) (st.tidNode.getD t.identity.tid 0) i.hardware.nodes

theorem fmStep_cases (s : NodeState × Bool) (t : ThreadDemand) : fmStep i s t = s ∨
    nodeBest i s.1 t ≠ s.1.tidNode.getD t.identity.tid 0 ∧
      (∀ n, (fmStep i s t).1.count.getD n 0 = s.1.count.getD n 0 -
        (if s.1.tidNode.getD t.identity.tid 0 = n then 1 else 0) + if nodeBest i s.1 t = n then 1 else 0) ∧
      (fmStep i s t).1.tidNode = s.1.tidNode.insert t.identity.tid (nodeBest i s.1 t) := by
  unfold fmStep nodeBest
  dsimp only
  split
  · rename_i hmove
    exact Or.inr ⟨hmove, fun n => getD_moved _ _ _ _, rfl⟩
  · exact Or.inl rfl

theorem NodesKept.fmStep {s : NodeState × Bool} (h : NodesKept i T s.1) (ht : t.identity.tid ∈ T) :
    NodesKept i T (fmStep i s t).1 := by
  have hmem : nodeBest i s.1 t ∈ i.hardware.nodes := Greedy.least_mem_of_mem (h.home _ ht)
  rcases fmStep_cases (i := i) s t with he | ⟨-, hcount, hseat⟩
  · rw [he]
    exact h
  · refine ⟨fun n => ?_, fun u hu => ?_⟩
    · rw [hseat, hcount, crowd_moved ht, h.count]
    · rw [hseat, OrdMap.getD_insert]
      split
      · exact hmem
      · exact h.home u hu

/-- **A pass moves a thread to a node with a slot left**, or not at all. -/
theorem NodesFit.fmStep {s : NodeState × Bool} (hfit : NodesFit i s.1) (h : NodesKept i T s.1) (ht : t.identity.tid ∈ T)
    (hout : ¬ Outranked (fmObjective i s.1 t (s.1.tidNode.getD t.identity.tid 0)) (FullTarget i s.1 t) i.hardware.nodes) :
    NodesFit i (fmStep i s t).1 := by
  have hhome := h.home _ ht
  rcases fmStep_cases (i := i) s t with he | ⟨hmove, hcount, -⟩
  · rw [he]
    exact hfit
  · have hopen : ¬ FullTarget i s.1 t (nodeBest i s.1 t) := fun hfull => hout
      ((Greedy.full_least_iff (fun _ _ he => fmObjective_inj he) hhome ⟨_, hhome, fun hf => hf.1 rfl⟩).1 hfull)
    have hfree : s.1.count.getD (nodeBest i s.1 t) 0 < i.nodeSlots (nodeBest i s.1 t) :=
      not_le.1 (fun hfull => hopen ⟨hmove, hfull⟩)
    intro n hn
    rw [hcount]
    exact moved_le (hfit n hn) (fun he => he ▸ hfree)

end Nodes

/-! ## The CPUs -/

section Cpus

variable {i : SolveInput} {tidNode : OrdMap Tid Int} {A T : Finset Tid} {st : CpuState} {t : ThreadDemand}

/-- A CPU with as many threads as the cap. -/
def FullCpu (i : SolveInput) (st : CpuState) (c : Int) : Prop := i.cpuCap ≤ st.count.getD c 0

/-- A CPU the thread can move to, with as many threads as the cap. -/
def FullCpuTarget (i : SolveInput) (st : CpuState) (t : ThreadDemand) (c : Int) : Prop :=
  c ≠ st.tidToCpu.getD t.identity.tid 0 ∧ FullCpu i st c

/-- The nodes of the threads have slots for them. -/
structure Roomy (i : SolveInput) (tidNode : OrdMap Tid Int) (A : Finset Tid) : Prop where
  node : ∀ t ∈ A, tidNode.getD t 0 ∈ i.hardware.nodes
  fits : ∀ n ∈ i.hardware.nodes, crowd tidNode A n ≤ i.nodeSlots n

/-- The counts of the CPUs are those of the threads. -/
structure Seated (T : Finset Tid) (st : CpuState) : Prop where
  count : ∀ c, st.count.getD c 0 = crowd st.tidToCpu T c
  known : ∀ t, t ∈ st.tidToCpu ↔ t ∈ T

/-- Every thread is on a CPU of its node. -/
def Home (i : SolveInput) (tidNode : OrdMap Tid Int) (T : Finset Tid) (st : CpuState) : Prop :=
  ∀ t ∈ T, st.tidToCpu.getD t 0 ∈ i.hardware.cpusInNode (tidNode.getD t 0)

/-- No CPU has more threads than the cap. -/
def CpusFit (i : SolveInput) (st : CpuState) : Prop := ∀ c, st.count.getD c 0 ≤ i.cpuCap

theorem Seated.empty : Seated ∅ {} where
  count _ := rfl
  known t := iff_of_false (OrdMap.notMem_empty t) (Finset.notMem_empty t)

theorem Home.empty : Home i tidNode ∅ {} := fun t ht => absurd ht (Finset.notMem_empty t)

theorem cpuObjective_inj {x y : Int} (h : cpuObjective i st t x = cpuObjective i st t y) : x = y := objective_inj h

theorem lptObjective_inj {original x y : Int} (h : lptObjective i st t original x = lptObjective i st t original y) : x = y :=
  objective_inj h

/-- The threads on the CPUs of a node are those of the node. -/
theorem Home.sum_crowd (hd : i.hardware.Discovered) (h : Home i tidNode T st) (n : Int) :
    ∑ c ∈ (i.hardware.cpusInNode n).toFinset, crowd st.tidToCpu T c = crowd tidNode T n := by
  have hnode : ∀ c ∈ (i.hardware.cpusInNode n).toFinset,
      crowd st.tidToCpu T c = crowd st.tidToCpu (T.filter (fun u => tidNode.getD u 0 = n)) c := by
    intro c hc
    rw [crowd_eq_card, crowd_eq_card, Finset.filter_filter]
    congr 2
    refine Finset.filter_congr (fun u hu => ⟨fun hseat => ⟨?_, hseat⟩, And.right⟩)
    have hhome := h u hu
    rw [hseat] at hhome
    rw [← IncrementalSolver.cpuNode_of_mem hd hhome, IncrementalSolver.cpuNode_of_mem hd (List.mem_toFinset.1 hc)]
  have hseated : ∀ u ∈ T.filter (fun u => tidNode.getD u 0 = n),
      st.tidToCpu.getD u 0 ∈ (i.hardware.cpusInNode n).toFinset := by
    intro u hu
    obtain ⟨huT, hun⟩ := Finset.mem_filter.1 hu
    rw [List.mem_toFinset, ← hun]
    exact h u huT
  rw [Finset.sum_congr rfl hnode, Solver.sum_crowd hseated, crowd_eq_card]

/-- A thread to come has a CPU with a slot left on its node. -/
theorem Seated.exists_open (hd : i.hardware.Discovered) (hroom : Roomy i tidNode A) (h : Seated T st)
    (hhome : Home i tidNode T st) (hsub : T ⊆ A) (ht : t.identity.tid ∈ A) (hnew : t.identity.tid ∉ T) :
    ∃ c ∈ candidates i tidNode t, ¬ FullCpu i st c := by
  unfold candidates
  set n := tidNode.getD t.identity.tid 0 with hn
  by_contra hfull
  have hall : ∀ c ∈ (i.hardware.cpusInNode n).toFinset, i.cpuCap ≤ crowd st.tidToCpu T c := by
    intro c hc
    by_contra hnot
    refine hfull ⟨c, List.mem_toFinset.1 hc, fun hf => hnot ?_⟩
    rw [← h.count]
    exact hf
  have hsum := Finset.card_nsmul_le_sum _ _ _ hall
  rw [List.toFinset_card_of_nodup (IncrementalSolver.cpusInNode_nodup hd n), nsmul_eq_mul, mul_comm,
    hhome.sum_crowd hd n] at hsum
  have hlt : crowd tidNode T n < crowd tidNode A n := by
    rw [crowd_eq_card, crowd_eq_card, Nat.cast_lt]
    refine Finset.card_lt_card (Finset.ssubset_iff_of_subset (Finset.filter_subset_filter _ hsub) |>.2 ⟨t.identity.tid, ?_, ?_⟩)
    · exact Finset.mem_filter.2 ⟨ht, rfl⟩
    · exact fun hmem => hnew (Finset.mem_filter.1 hmem).1
  have hfits : crowd tidNode A n ≤ i.cpuCap * (i.hardware.cpusInNode n).length := hroom.fits n (hroom.node _ ht)
  omega

/-- The CPU a thread is given. -/
def cpuFor (i : SolveInput) (tidNode : OrdMap Tid Int) (st : CpuState) (t : ThreadDemand) : Int :=
  least (cpuObjective i st t) ((candidates i tidNode t).headD 0) (candidates i tidNode t)

theorem count_seatCpu (c : Int) : (seatCpu i tidNode st t).count.getD c 0 =
    st.count.getD c 0 + if cpuFor i tidNode st t = c then 1 else 0 := getD_put _ _ _

theorem full_cpuFor_iff (hopen : ∃ c ∈ candidates i tidNode t, ¬ FullCpu i st c) :
    FullCpu i st (cpuFor i tidNode st t) ↔ Outranked (cpuObjective i st t) (FullCpu i st) (candidates i tidNode t) := by
  obtain ⟨o, ho, hfree⟩ := hopen
  exact Greedy.full_least_iff (fun _ _ he => cpuObjective_inj he) (headD_mem (List.ne_nil_of_mem ho)) ⟨o, ho, hfree⟩

theorem Seated.seatCpu (h : Seated T st) (hhome : Home i tidNode T st) (hne : candidates i tidNode t ≠ [])
    (hnew : t.identity.tid ∉ T) : Seated (insert t.identity.tid T) (seatCpu i tidNode st t) ∧
      Home i tidNode (insert t.identity.tid T) (Solver.seatCpu i tidNode st t) := by
  have hmem : cpuFor i tidNode st t ∈ candidates i tidNode t := Greedy.least_mem_of_mem (headD_mem hne)
  have hseat : (Solver.seatCpu i tidNode st t).tidToCpu = st.tidToCpu.insert t.identity.tid (cpuFor i tidNode st t) := rfl
  refine ⟨⟨fun c => ?_, fun u => ?_⟩, fun u hu => ?_⟩
  · rw [hseat, count_seatCpu, crowd_seated hnew, h.count]
  · rw [hseat, OrdMap.mem_insert, h.known, Finset.mem_insert, eq_comm]
  · rw [hseat, OrdMap.getD_insert]
    split
    · rename_i he
      rw [← he]
      exact hmem
    · rename_i hne'
      rcases Finset.mem_insert.1 hu with rfl | hu
      · exact absurd rfl hne'
      · exact hhome u hu

/-- **A thread gets a CPU with a slot left**, when no full one outranks these. -/
theorem CpusFit.seatCpu (h : CpusFit i st) (hopen : ∃ c ∈ candidates i tidNode t, ¬ FullCpu i st c)
    (hout : ¬ Outranked (cpuObjective i st t) (FullCpu i st) (candidates i tidNode t)) :
    CpusFit i (seatCpu i tidNode st t) := by
  have hfree : st.count.getD (cpuFor i tidNode st t) 0 < i.cpuCap :=
    not_le.1 (fun hfull => hout ((full_cpuFor_iff hopen).1 hfull))
  intro c
  have hold := h c
  rw [count_seatCpu]
  split
  · rename_i he
    rw [← he]
    omega
  · omega

theorem known_insert {m : OrdMap Tid Int} {u : Tid} {c : Int} (h : ∀ t, t ∈ m ↔ t ∈ T) (hu : u ∈ T) (t : Tid) :
    t ∈ m.insert u c ↔ t ∈ T := by
  rw [OrdMap.mem_insert, h]
  exact ⟨fun ht => ht.elim (fun he => he ▸ hu) id, Or.inr⟩

/-- **A pass moves a thread to a CPU with a slot left**, or not at all. -/
theorem Seated.lptStep {s : CpuState × Bool} (h : Seated T s.1) (hhome : Home i tidNode T s.1) (hfit : CpusFit i s.1)
    (ht : t.identity.tid ∈ T)
    (hout : ¬ Outranked (lptObjective i s.1 t (s.1.tidToCpu.getD t.identity.tid 0)) (FullCpuTarget i s.1 t)
      (candidates i tidNode t)) :
    Seated T (lptStep i tidNode s t).1 ∧ Home i tidNode T (Solver.lptStep i tidNode s t).1 ∧
      CpusFit i (Solver.lptStep i tidNode s t).1 := by
  set original := s.1.tidToCpu.getD t.identity.tid 0 with horiginal
  have hold : original ∈ candidates i tidNode t := hhome _ ht
  set best := least (lptObjective i s.1 t original) original (candidates i tidNode t) with hbest
  have hmem : best ∈ candidates i tidNode t := Greedy.least_mem_of_mem hold
  have hopen : ¬ FullCpuTarget i s.1 t best := fun hfull => hout
    ((Greedy.full_least_iff (fun _ _ he => lptObjective_inj he) hold ⟨original, hold, fun hf => hf.1 rfl⟩).1 hfull)
  unfold Solver.lptStep
  dsimp only
  rw [← horiginal, ← hbest]
  split
  · rename_i hmove
    have hfree : s.1.count.getD best 0 < i.cpuCap := not_le.1 (fun hfull => hopen ⟨hmove, hfull⟩)
    refine ⟨⟨fun c => ?_, known_insert h.known ht⟩, fun u hu => ?_, fun c => ?_⟩
    · dsimp only
      rw [crowd_moved ht, ← h.count, getD_moved, ← horiginal]
    · rw [OrdMap.getD_insert]
      split
      · rename_i he
        rw [← he]
        exact hmem
      · exact hhome u hu
    · dsimp only
      rw [getD_moved]
      exact moved_le (hfit c) (fun he => he ▸ hfree)
  · exact ⟨h, hhome, hfit⟩

/-- **A thread goes back only where a slot is left.** -/
theorem Seated.moveBack (hcap : DynamicCap i) (h : Seated T st) (hfit : CpusFit i st) (ht : t.identity.tid ∈ T) :
    Seated T (moveBack i st t) ∧ CpusFit i (Solver.moveBack i st t) := by
  obtain ⟨hlegacy, hslots⟩ := hcap.constraints
  unfold Solver.moveBack
  dsimp only
  rw [hlegacy, hslots]
  split
  · rename_i hgo
    have hroom := hgo.2
    simp only [Bool.not_true, Bool.false_or, Bool.or_eq_true, decide_eq_true_eq] at hroom
    by_cases hsame : st.tidToCpu.getD t.identity.tid 0 = t.currentCpu
    · rw [if_neg (fun hc => hc.2 hsame)]
      refine ⟨⟨fun c => ?_, known_insert h.known ht⟩, hfit⟩
      dsimp only
      rw [crowd_moved ht, hsame, h.count]
      omega
    · rw [if_pos ⟨rfl, hsame⟩]
      refine ⟨⟨fun c => ?_, known_insert h.known ht⟩, fun c => ?_⟩
      · dsimp only
        rw [crowd_moved ht, ← h.count, getD_moved]
      · have hfree := hroom.resolve_right hsame
        dsimp only
        rw [getD_moved]
        exact moved_le (hfit c) (fun he => he ▸ hfree)
  · exact ⟨h, hfit⟩

end Cpus

/-! ## The stages -/

/-- No full node outranks the open ones, at any step of the seed and of the passes after it. -/
def NodesClear (i : SolveInput) : Prop :=
  Along (assignNode i) (fun st t => ¬ Outranked (nodeObjective i st t) (FullNode i st) i.hardware.nodes) i.ordered {} ∧
  Passes (fmPass i) (fun st => Along (fmStep i) (fun s t =>
      ¬ Outranked (fmObjective i s.1 t (s.1.tidNode.getD t.identity.tid 0)) (FullTarget i s.1 t) i.hardware.nodes)
    i.ordered (st, false)) i.options.fmPasses.toNat (i.ordered.foldl (assignNode i) {})

/-- No full CPU of a thread's node outranks the open ones, at any step of the assignment and of the passes after it. -/
def CpusClear (i : SolveInput) (tidNode : OrdMap Tid Int) : Prop :=
  Along (seatCpu i tidNode) (fun st t => ¬ Outranked (cpuObjective i st t) (FullCpu i st) (candidates i tidNode t))
    i.ordered {} ∧
  Passes (lptPass i tidNode) (fun st => Along (lptStep i tidNode) (fun s t =>
      ¬ Outranked (lptObjective i s.1 t (s.1.tidToCpu.getD t.identity.tid 0)) (FullCpuTarget i s.1 t) (candidates i tidNode t))
    i.ordered (st, false)) i.options.lptRefinementPasses.toNat (i.ordered.foldl (seatCpu i tidNode) {})

/-- At no step is a full place taken before an open one. -/
def Clear (i : SolveInput) : Prop := NodesClear i ∧ CpusClear i (nodesOf i).tidNode

instance (i : SolveInput) : Decidable (Clear i) :=
  have (st : NodeState) : DecidablePred (FullNode i st) := fun n => inferInstanceAs (Decidable (i.nodeSlots n ≤ _))
  have (st : NodeState) (t : ThreadDemand) : DecidablePred (FullTarget i st t) :=
    fun n => inferInstanceAs (Decidable (n ≠ _ ∧ FullNode i st n))
  have (st : CpuState) : DecidablePred (FullCpu i st) := fun _ => inferInstanceAs (Decidable (i.cpuCap ≤ _))
  have (st : CpuState) (t : ThreadDemand) : DecidablePred (FullCpuTarget i st t) :=
    fun c => inferInstanceAs (Decidable (c ≠ _ ∧ FullCpu i st c))
  inferInstanceAs (Decidable ((_ ∧ _) ∧ _ ∧ _))

/-- The threads a placement has on a CPU. -/
def threadsOn (p : Placement) (cpu : Int) : Nat := p.tidToCpu.entries.countP (fun e => decide (e.2 = cpu))

/-- **The slot cap**: no CPU has more threads than its share and the slack. -/
def Capped (i : SolveInput) : Prop := ∀ p, solve i = .ok p → ∀ cpu,
  (threadsOn p cpu : Int) ≤ ⌈(i.threads.length : ℚ) / i.hardware.cpus.length⌉ + i.options.slotSlack

/-- Nothing is refined, and nothing is moved back. -/
def Unrefined (o : SolveOptions) : Prop :=
  o.fmPasses ≤ 0 ∧ o.lptRefinementPasses ≤ 0 ∧ 1 ≤ o.maximumMigratedActiveThreadsRatio

section Stages

variable {i : SolveInput} {tidNode : OrdMap Tid Int}

theorem nodes_ne_nil (hc : i.hardware.cpus ≠ []) : i.hardware.nodes ≠ [] := by
  obtain ⟨c, hmem⟩ := List.exists_mem_of_ne_nil _ hc
  exact List.ne_nil_of_mem (HardwareGraph.mem_nodes.2 ⟨c, hmem, rfl⟩)

theorem mem_tids_ordered {t : ThreadDemand} (ht : t ∈ i.ordered) : t.identity.tid ∈ tids i.threads := by
  rw [← tids_ordered, tids, List.mem_toFinset]
  exact List.mem_map_of_mem ht

/-- The seed gives every thread a node. -/
theorem nodesKept_seed (hcap : DynamicCap i) (hc : i.hardware.cpus ≠ []) :
    NodesKept i (tids i.threads) (i.ordered.foldl (assignNode i) {}) := by
  rw [← tids_ordered]
  refine Greedy.foldl_turns (fun done st => NodesKept i (tids done) st) .empty (fun pre t post hsplit h => ?_)
  obtain ⟨hnew, hnext, -⟩ := hcap.turn hsplit
  rw [← hnext]
  exact h.assignNode (nodes_ne_nil hc) hnew

/-- The passes leave every thread on a node. -/
theorem nodesKept_nodesOf (hcap : DynamicCap i) (hc : i.hardware.cpus ≠ []) : NodesKept i (tids i.threads) (nodesOf i) := by
  have hpass : ∀ st, NodesKept i (tids i.threads) st → True → NodesKept i (tids i.threads) (fmPass i st).1 := by
    intro st h _
    unfold fmPass
    exact Greedy.foldl_turns (fun _ (s : NodeState × Bool) => NodesKept i (tids i.threads) s.1) h (fun pre t post hsplit hs =>
      hs.fmStep (hcap.turn hsplit).2.2.2.1)
  have hall : ∀ (n : Nat) (st : NodeState), Passes (fmPass i) (fun _ => True) n st := by
    intro n
    induction n with
    | zero => exact fun _ => trivial
    | succ n ih => exact fun st => ⟨trivial, fun _ => ih _⟩
  exact Greedy.refine_passes (NodesKept i (tids i.threads)) hpass (hall _ _) (nodesKept_seed hcap hc)

/-- **Clear steps keep the nodes within their slots.** -/
theorem nodesFit_nodesOf (hcap : DynamicCap i) (hc : i.hardware.cpus ≠ []) (hslack : 0 ≤ i.options.slotSlack)
    (hclear : NodesClear i) : NodesFit i (nodesOf i) := by
  have hslots := (hcap.slots_iff hc).2 hslack
  have hseed : NodesKept i (tids i.ordered) (i.ordered.foldl (assignNode i) {}) ∧
      NodesFit i (i.ordered.foldl (assignNode i) {}) := by
    refine Greedy.foldl_turns (fun done st => NodesKept i (tids done) st ∧ NodesFit i st)
      ⟨.empty, .empty (cpuCap_nonneg hcap hslack)⟩ (fun pre t post hsplit h => ?_)
    obtain ⟨hnew, hnext, hfew, -⟩ := hcap.turn hsplit
    have hmore : ((tids pre).card : Int) < i.cpuCap * i.hardware.cpus.length := by omega
    rw [← hnext]
    exact ⟨h.1.assignNode (nodes_ne_nil hc) hnew,
      h.2.assignNode (h.1.exists_open hcap hmore) (Greedy.along_iff.1 hclear.1 pre t post hsplit)⟩
  rw [tids_ordered] at hseed
  refine (Greedy.refine_passes (fun st => NodesKept i (tids i.threads) st ∧ NodesFit i st) (fun st h hpass => ?_)
    hclear.2 hseed).2
  unfold fmPass
  refine Greedy.foldl_turns (fun _ (s : NodeState × Bool) => NodesKept i (tids i.threads) s.1 ∧ NodesFit i s.1) h (fun pre t post hsplit hs => ?_)
  have ht := (hcap.turn hsplit).2.2.2.1
  exact ⟨hs.1.fmStep ht, hs.2.fmStep hs.1 ht (Greedy.along_iff.1 hpass pre t post hsplit)⟩

theorem candidates_ne_nil (hd : i.hardware.Discovered) (hkept : NodesKept i (tids i.threads) (nodesOf i)) {t : ThreadDemand}
    (ht : t.identity.tid ∈ tids i.threads) : candidates i (nodesOf i).tidNode t ≠ [] := by
  obtain ⟨c, hc⟩ := IncrementalSolver.exists_cpuInNode hd (hkept.home _ ht)
  exact List.ne_nil_of_mem hc

theorem foldlM_assignCpu : ∀ {l : List ThreadDemand} {st : CpuState}, (∀ t ∈ l, candidates i tidNode t ≠ []) →
    l.foldlM (assignCpu i tidNode) st = .ok (l.foldl (seatCpu i tidNode) st)
  | [], _, _ => rfl
  | t :: l, st, h => by
    have hstep : assignCpu i tidNode st t = .ok (seatCpu i tidNode st t) := by
      unfold assignCpu
      rw [if_neg]
      simpa using h t List.mem_cons_self
    rw [List.foldlM_cons, hstep]
    exact foldlM_assignCpu (fun u hu => h u (List.mem_cons_of_mem _ hu))

/-- Every thread is given a CPU. -/
theorem cpusOf_eq (hcap : DynamicCap i) (hc : i.hardware.cpus ≠ []) : cpusOf i (nodesOf i).tidNode =
    .ok (refine (lptPass i (nodesOf i).tidNode) i.options.lptRefinementPasses.toNat
      (i.ordered.foldl (seatCpu i (nodesOf i).tidNode) {})) := by
  have hkept := nodesKept_nodesOf hcap hc
  unfold cpusOf
  rw [foldlM_assignCpu (fun t ht => candidates_ne_nil hcap.hardware hkept (mem_tids_ordered ht)), hcap.constraints.1]
  rfl

theorem seated_seed (hcap : DynamicCap i) (hc : i.hardware.cpus ≠ []) :
    Seated (tids i.threads) (i.ordered.foldl (seatCpu i (nodesOf i).tidNode) {}) ∧
      Home i (nodesOf i).tidNode (tids i.threads) (i.ordered.foldl (seatCpu i (nodesOf i).tidNode) {}) := by
  have hkept := nodesKept_nodesOf hcap hc
  rw [← tids_ordered]
  refine Greedy.foldl_turns (fun done st => Seated (tids done) st ∧ Home i (nodesOf i).tidNode (tids done) st)
    ⟨.empty, .empty⟩ (fun pre t post hsplit h => ?_)
  obtain ⟨hnew, hnext, -, ht, -⟩ := hcap.turn hsplit
  rw [← hnext]
  exact h.1.seatCpu h.2 (candidates_ne_nil hcap.hardware hkept ht) hnew

/-- **Clear steps keep the CPUs within the cap.** -/
theorem cpusFit_refined (hcap : DynamicCap i) (hc : i.hardware.cpus ≠ []) (hslack : 0 ≤ i.options.slotSlack)
    (hclear : Clear i) :
    Seated (tids i.threads) (refine (lptPass i (nodesOf i).tidNode) i.options.lptRefinementPasses.toNat
        (i.ordered.foldl (seatCpu i (nodesOf i).tidNode) {})) ∧
      CpusFit i (refine (lptPass i (nodesOf i).tidNode) i.options.lptRefinementPasses.toNat
        (i.ordered.foldl (seatCpu i (nodesOf i).tidNode) {})) := by
  have hkept := nodesKept_nodesOf hcap hc
  have hroom : Roomy i (nodesOf i).tidNode (tids i.threads) := by
    refine ⟨hkept.home, fun n hn => ?_⟩
    rw [← hkept.count]
    exact nodesFit_nodesOf hcap hc hslack hclear.1 n hn
  have hseed : CpusFit i (i.ordered.foldl (seatCpu i (nodesOf i).tidNode) {}) := by
    refine (Greedy.foldl_turns (fun done st => (Seated (tids done) st ∧ Home i (nodesOf i).tidNode (tids done) st) ∧ CpusFit i st)
      ⟨⟨.empty, .empty⟩, fun _ => cpuCap_nonneg hcap hslack⟩ (fun pre t post hsplit h => ?_)).2
    obtain ⟨hnew, hnext, -, ht, hsub⟩ := hcap.turn hsplit
    rw [← hnext]
    exact ⟨h.1.1.seatCpu h.1.2 (candidates_ne_nil hcap.hardware hkept ht) hnew,
      h.2.seatCpu (h.1.1.exists_open hcap.hardware hroom h.1.2 hsub ht hnew)
        (Greedy.along_iff.1 hclear.2.1 pre t post hsplit)⟩
  obtain ⟨hseated, hhome⟩ := seated_seed hcap hc
  have hrefined := Greedy.refine_passes (fun st => Seated (tids i.threads) st ∧
    Home i (nodesOf i).tidNode (tids i.threads) st ∧ CpusFit i st) (fun st h hpass => ?_) hclear.2.2 ⟨hseated, hhome, hseed⟩
  · exact ⟨hrefined.1, hrefined.2.2⟩
  unfold lptPass
  refine Greedy.foldl_turns (fun _ (s : CpuState × Bool) => Seated (tids i.threads) s.1 ∧ Home i (nodesOf i).tidNode (tids i.threads) s.1 ∧
    CpusFit i s.1) h (fun pre t post hsplit hs => ?_)
  exact hs.1.lptStep hs.2.1 hs.2.2 (hcap.turn hsplit).2.2.2.1 (Greedy.along_iff.1 hpass pre t post hsplit)

/-- The budget keeps the cap. -/
theorem cpusFit_withinBudget (hcap : DynamicCap i) {st : CpuState} (h : Seated (tids i.threads) st) (hfit : CpusFit i st) :
    Seated (tids i.threads) (withinBudget i st) ∧ CpusFit i (withinBudget i st) := by
  unfold withinBudget
  dsimp only
  have hmoved : ∀ t ∈ (migrations i st.tidToCpu).take ((migrations i st.tidToCpu).length - budget i),
      t.identity.tid ∈ tids i.threads := by
    intro t ht
    have hmem := List.mem_of_mem_take ht
    unfold migrations at hmem
    rw [List.mem_insertionSort] at hmem
    rw [tids, List.mem_toFinset]
    exact List.mem_map_of_mem (List.mem_of_mem_filter hmem)
  refine Greedy.foldl_turns (fun _ s => Seated (tids i.threads) s ∧ CpusFit i s) ⟨h, hfit⟩ (fun pre t post hsplit hs => ?_)
  refine hs.1.moveBack hcap hs.2 (hmoved t ?_)
  rw [hsplit]
  simp

/-- With threads and CPUs, `solve` returns. -/
theorem solve_eq (hcap : DynamicCap i) (hc : i.hardware.cpus ≠ []) (hthreads : i.threads ≠ []) :
    solve i = .ok (measured i (withinBudget i (refine (lptPass i (nodesOf i).tidNode)
      i.options.lptRefinementPasses.toNat (i.ordered.foldl (seatCpu i (nodesOf i).tidNode) {}))).tidToCpu) := by
  unfold solve
  rw [if_neg (by simpa using hthreads), if_neg (by simpa using nodes_ne_nil hc), cpusOf_eq hcap hc]
  rfl

theorem solve_nil (hthreads : i.threads = []) : solve i = .ok {} := by
  unfold solve
  rw [hthreads]
  rfl

theorem cpus_of_solve {p : Placement} (h : solve i = .ok p) (hthreads : i.threads ≠ []) : i.hardware.cpus ≠ [] := by
  intro hnil
  unfold solve at h
  have hnodes : i.hardware.nodes = [] := by
    unfold HardwareGraph.nodes
    rw [hnil]
    rfl
  rw [if_neg (by simpa using hthreads), if_pos (by rw [hnodes]; rfl)] at h
  cases h

theorem threadsOn_measured {m : OrdMap Tid Int} {T : Finset Tid} (hknown : ∀ t, t ∈ m ↔ t ∈ T) (cpu : Int) :
    (threadsOn (measured i m) cpu : Int) = crowd m T cpu := countP_eq_crowd hknown cpu

/-- Clear steps are enough. -/
theorem capped_of_clear (hcap : DynamicCap i) (hslack : 0 ≤ i.options.slotSlack) (hclear : Clear i) : Capped i := by
  intro p hp cpu
  rw [← hcap.cpuCap_eq]
  by_cases hthreads : i.threads = []
  · rw [solve_nil hthreads] at hp
    cases hp
    exact cpuCap_nonneg hcap hslack
  · have hc := cpus_of_solve hp hthreads
    rw [solve_eq hcap hc hthreads] at hp
    cases hp
    obtain ⟨hseated, hfit⟩ := cpusFit_refined hcap hc hslack hclear
    obtain ⟨hseated', hfit'⟩ := cpusFit_withinBudget hcap hseated hfit
    rw [threadsOn_measured hseated'.known, ← hseated'.count]
    exact hfit' cpu

/-! ## Without refinement -/

/-- A budget for all active threads moves none back. -/
theorem withinBudget_unrefined (ho : 1 ≤ i.options.maximumMigratedActiveThreadsRatio) (st : CpuState) :
    withinBudget i st = st := by
  set active := (i.threads.filter (fun t => decide (i.options.activeThreshold ≤ t.demand))).length with hactive
  have hmoved : (migrations i st.tidToCpu).length ≤ active := by
    unfold migrations
    rw [List.length_insertionSort]
    exact (List.monotone_filter_right i.threads (fun t ht => (Bool.and_eq_true_iff.1 ht).1)).length_le
  have hbudget : active ≤ budget i := by
    have hfloor : (active : Int) ≤ ⌊(active : ℚ) * i.options.maximumMigratedActiveThreadsRatio⌋ := by
      rw [Int.le_floor]
      push_cast
      exact le_mul_of_one_le_right (Nat.cast_nonneg _) ho
    unfold budget
    rw [← hactive]
    omega
  unfold withinBudget
  dsimp only
  rw [Nat.sub_eq_zero_of_le (hmoved.trans hbudget), List.take_zero, List.foldl_nil]

/-- A count that has gone over a bound stays over it. -/
theorem over_seatCpu {bound c : Int} (l : List ThreadDemand) {st : CpuState} (h : bound ≤ st.count.getD c 0) :
    bound ≤ (l.foldl (seatCpu i tidNode) st).count.getD c 0 := by
  refine Loop.foldl_keeps (fun st : CpuState => bound ≤ st.count.getD c 0) (fun st t hst => ?_) l h
  rw [count_seatCpu]
  split
  · omega
  · omega

theorem over_assignNode {bound n : Int} (l : List ThreadDemand) {st : NodeState} (h : bound ≤ st.count.getD n 0) :
    bound ≤ (l.foldl (assignNode i) st).count.getD n 0 := by
  refine Loop.foldl_keeps (fun st : NodeState => bound ≤ st.count.getD n 0) (fun st t hst => ?_) l h
  rw [count_assignNode]
  split
  · omega
  · omega

/-- What the placement of an unrefined run counts is what its assignment of the CPUs counts. -/
theorem cpusFit_of_capped (hcap : DynamicCap i) (hc : i.hardware.cpus ≠ []) (hthreads : i.threads ≠ [])
    (ho : Unrefined i.options) (h : Capped i) : CpusFit i (i.ordered.foldl (seatCpu i (nodesOf i).tidNode) {}) := by
  intro c
  have hp := h _ (solve_eq hcap hc hthreads) c
  rw [withinBudget_unrefined ho.2.2, Int.toNat_of_nonpos ho.2.1] at hp
  obtain ⟨hseated, -⟩ := seated_seed hcap hc
  rw [hcap.cpuCap_eq, hseated.count, ← threadsOn_measured (i := i) hseated.known]
  exact hp

/-- The slots of a placement within the cap are enough for its threads. -/
theorem slots_of_fit (hcap : DynamicCap i) (hc : i.hardware.cpus ≠ [])
    (hfit : CpusFit i (i.ordered.foldl (seatCpu i (nodesOf i).tidNode) {})) : 0 ≤ i.options.slotSlack := by
  obtain ⟨hseated, hhome⟩ := seated_seed hcap hc
  set ids := (i.hardware.cpus.map (·.id)).toFinset with hids
  have hin : ∀ t ∈ tids i.threads, (i.ordered.foldl (seatCpu i (nodesOf i).tidNode) {}).tidToCpu.getD t 0 ∈ ids := by
    intro t ht
    obtain ⟨c, hc', -, -, hid⟩ := IncrementalSolver.mem_cpusInNode.1 (hhome t ht)
    rw [hids, List.mem_toFinset, ← hid]
    exact List.mem_map_of_mem hc'
  have hsum : ∑ c ∈ ids, crowd (i.ordered.foldl (seatCpu i (nodesOf i).tidNode) {}).tidToCpu (tids i.threads) c ≤
      ∑ _c ∈ ids, i.cpuCap := Finset.sum_le_sum (fun c _ => by rw [← hseated.count]; exact hfit c)
  rw [sum_crowd hin, Finset.sum_const, nsmul_eq_mul, mul_comm, card_tids hcap.distinct, hids,
    List.toFinset_card_of_nodup hcap.hardware.distinct, List.length_map] at hsum
  exact (hcap.slots_iff hc).1 hsum

/-- A node of a placement within the cap has no more threads than slots. -/
theorem node_of_fit (hcap : DynamicCap i) (hc : i.hardware.cpus ≠ [])
    (hfit : CpusFit i (i.ordered.foldl (seatCpu i (nodesOf i).tidNode) {})) (n : Int) :
    (nodesOf i).count.getD n 0 ≤ i.nodeSlots n := by
  obtain ⟨hseated, hhome⟩ := seated_seed hcap hc
  rw [(nodesKept_nodesOf hcap hc).count, ← hhome.sum_crowd hcap.hardware n]
  have hsum := Finset.sum_le_card_nsmul (i.hardware.cpusInNode n).toFinset
    (crowd (i.ordered.foldl (seatCpu i (nodesOf i).tidNode) {}).tidToCpu (tids i.threads)) i.cpuCap
    (fun c _ => by rw [← hseated.count]; exact hfit c)
  rw [List.toFinset_card_of_nodup (IncrementalSolver.cpusInNode_nodup hcap.hardware n), nsmul_eq_mul, mul_comm] at hsum
  exact hsum

/-- **Without refinement the condition is exact.** -/
theorem clear_of_capped (hcap : DynamicCap i) (hc : i.hardware.cpus ≠ []) (ho : Unrefined i.options) (h : Capped i) :
    0 ≤ i.options.slotSlack ∧ Clear i := by
  have hfm : i.options.fmPasses.toNat = 0 := Int.toNat_of_nonpos ho.1
  have hlpt : i.options.lptRefinementPasses.toNat = 0 := Int.toNat_of_nonpos ho.2.1
  by_cases hthreads : i.threads = []
  · have hnone : i.ordered = [] := by
      unfold SolveInput.ordered
      rw [hthreads]
      rfl
    refine ⟨?_, ?_⟩
    · have hempty : (0 : Int) ≤ ⌈(i.threads.length : ℚ) / i.hardware.cpus.length⌉ + i.options.slotSlack :=
        h {} (solve_nil hthreads) 0
      simpa [hthreads] using hempty
    · unfold Clear NodesClear CpusClear
      rw [hnone, hfm, hlpt]
      exact ⟨⟨trivial, trivial⟩, trivial, trivial⟩
  · have hfit := cpusFit_of_capped hcap hc hthreads ho h
    refine ⟨slots_of_fit hcap hc hfit, ⟨Greedy.along_iff.2 (fun pre t post hsplit hout => ?_), by rw [hfm]; trivial⟩,
      Greedy.along_iff.2 (fun pre t post hsplit hout => ?_), by rw [hlpt]; trivial⟩
    · have hfull := (full_nodeFor_iff hout.1).2 hout
      set n := nodeFor i (pre.foldl (assignNode i) {}) t with hn
      have hover : i.nodeSlots n + 1 ≤ (nodesOf i).count.getD n 0 := by
        unfold nodesOf
        rw [hfm, refine, hsplit, List.foldl_append, List.foldl_cons]
        refine over_assignNode post ?_
        rw [count_assignNode, if_pos hn.symm]
        exact Int.add_le_add_right hfull 1
      have hwithin := node_of_fit hcap hc hfit n
      omega
    · have hfull := (full_cpuFor_iff hout.1).2 hout
      set c := cpuFor i (nodesOf i).tidNode (pre.foldl (seatCpu i (nodesOf i).tidNode) {}) t with hcpu
      have hover : i.cpuCap + 1 ≤ (i.ordered.foldl (seatCpu i (nodesOf i).tidNode) {}).count.getD c 0 := by
        rw [hsplit, List.foldl_append, List.foldl_cons]
        refine over_seatCpu post ?_
        rw [count_seatCpu, if_pos hcpu.symm]
        exact Int.add_le_add_right hfull 1
      have hwithin := hfit c
      omega

/-- **The slot cap holds when no full place outranks an open one**, at any step of any stage; where nothing is refined or
moved back, it holds only then. -/
theorem slot_cap (hcap : DynamicCap i) : (0 ≤ i.options.slotSlack ∧ Clear i → Capped i) ∧
    (Unrefined i.options → i.hardware.cpus ≠ [] → (Capped i ↔ 0 ≤ i.options.slotSlack ∧ Clear i)) :=
  ⟨fun h => capped_of_clear hcap h.1 h.2,
    fun ho hc => ⟨clear_of_capped hcap hc ho, fun h => capped_of_clear hcap h.1 h.2⟩⟩

end Stages

/-! ## A level and a lopsided load -/

/-- Two CPUs of one node. -/
def pairOfCpus : HardwareGraph := { cpus := [⟨0, 0, true⟩, ⟨1, 0, true⟩] }

def dynamicSlotCap : SolveOptions := { strategyId := "dynamic-slot-cap", maxThreadsPerCpu := 0, lptRefinementPasses := 2 }

def thread (tid : Tid) (demand : ℚ) : ThreadDemand :=
  { identity := ⟨1, tid, 1⟩, group := "pool", demand := demand, confidence := 1, currentCpu := 0 }

/-- Four threads with a demand of one half each, two of them related. -/
def level : SolveInput where
  hardware := pairOfCpus
  threads := [thread 1 (1 / 2), thread 2 (1 / 2), thread 3 (1 / 2), thread 4 (1 / 2)]
  edges := [{ fromTid := 1, toTid := 2, score := 1 }]
  options := { dynamicSlotCap with slotSlack := 0 }

/-- One busy thread and seven idle ones. -/
def lopsided : SolveInput where
  hardware := pairOfCpus
  threads := thread 1 1 :: [2, 3, 4, 5, 6, 7, 8].map (fun tid => thread tid 0)
  edges := []
  options := dynamicSlotCap

theorem slot_cap_level : DynamicCap level ∧ Clear level ∧ Capped level := by
  have hcap : DynamicCap level := ⟨⟨by decide, by decide⟩, by decide, by decide, rfl⟩
  have hclear : Clear level := by decide +kernel
  exact ⟨hcap, hclear, (slot_cap hcap).1 ⟨by decide, hclear⟩⟩

/-- How many threads are put on a CPU, when `solve` returns. -/
def crowded (i : SolveInput) (cpu : Int) : Option Nat :=
  match solve i with
  | .ok p => some (threadsOn p cpu)
  | .error _ => none

/-- **The load outranks the cap**: the idle threads are all put on the CPU that has nothing to do. -/
theorem slot_cap_lopsided : DynamicCap lopsided ∧ lopsided.options.slotSlack = 2 ∧ ¬ Capped lopsided := by
  have hcap : DynamicCap lopsided := ⟨⟨by decide, by decide⟩, by decide, by decide, rfl⟩
  refine ⟨hcap, rfl, fun h => ?_⟩
  have hseven : crowded lopsided 1 = some 7 := by decide +kernel
  have hsix : ⌈(lopsided.threads.length : ℚ) / lopsided.hardware.cpus.length⌉ + lopsided.options.slotSlack = 6 := by
    decide +kernel
  unfold crowded at hseven
  cases hsolve : solve lopsided with
  | error e =>
    rw [hsolve] at hseven
    cases hseven
  | ok p =>
    rw [hsolve] at hseven
    have hp := h p hsolve 1
    rw [hsix, Option.some.inj hseven] at hp
    omega

end Solver
end AffinityGraph
