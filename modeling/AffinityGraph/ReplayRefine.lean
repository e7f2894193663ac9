import AffinityGraph.Descent
import AffinityGraph.RelationCost
import AffinityGraph.ReplaySlots
import Mathlib.Data.Fintype.BigOperators
/-!
# ReplayRefine — what the passes over the nodes make of a plan

A pass looks at one thread and compares nodes by what is local to it.  Each component of that objective changes from one node
to another as a measure of the whole plan does: the overload with the penalty of the slots, the latency of the edges, the
distance of the threads from where they were sampled, the names of the nodes (`quality_moved`).  So every move makes the plan
better, the refined plan is no worse than the seed, and with passes enough no thread has a better node
(`refined_nodes`).  Of the threads that the placement then moves, the budget takes back those above it (`solve_migrations`).
-/
namespace AffinityGraph
namespace Solver

open SolveInput (other slotPenalty)
open Greedy (least)
open IncrementalSolver (nodeSet)

/-! ## The quality of a plan -/

/-- Which node each thread has. -/
abbrev Plan := Tid → Option Int

section Measures

variable (i : SolveInput) (p : Plan)

def loadOn (n : Int) : ℚ := (i.ordered.map (fun t => if p t.identity.tid = some n then t.demand else 0)).sum

def countOn (n : Int) : Int := (i.ordered.map (fun t => if p t.identity.tid = some n then (1 : Int) else 0)).sum

/-- The demand above the capacity of the nodes. -/
def overload : ℚ := (i.hardware.nodes.map (fun n => max 0 (loadOn i p n - i.capacity n))).sum

/-- The threads above the slots of the nodes, at the price of one. -/
def slotExcess : ℚ :=
  if i.slotConstraints = true then
    slotPenalty * ((i.hardware.nodes.map (fun n => max 0 (countOn i p n - i.nodeSlots n))).sum : Int)
  else 0

/-- The latency between two threads, nothing for one that has no node. -/
def nodeGap : Option Int → Option Int → ℚ
  | some a, some b => i.nodeLatency a b
  | _, _ => 0

def relation : ℚ := Layout.cost RelationEdge.fromTid RelationEdge.toTid RelationEdge.score (nodeGap i) i.edges p

/-- What a thread on a node has moved, by its demand. -/
def farFrom (t : ThreadDemand) (n : Int) : ℚ :=
  (i.hardware.cpus.filter (fun c => decide (c.id = t.currentCpu))).getLast?.elim 0 (fun c => t.demand * i.nodeLatency c.node n)

def distance : ℚ := (i.ordered.map (fun t => (p t.identity.tid).elim 0 (farFrom i t))).sum

def names : Int := (i.ordered.map (fun t => (p t.identity.tid).getD 0)).sum

/-- The measures of a plan, the first that differs decides. -/
def quality : Objective := objective (overload i p + slotExcess i p) (relation i p) (distance i p) (names i p)

end Measures

/-! ## One thread moves -/

/-- A sum in which the term of one key changes. -/
theorem sum_moved {α κ M : Type} [AddCommGroup M] (key : α → κ) {f g : α → M} {x : α} :
    ∀ {l : List α}, (l.map key).Nodup → x ∈ l → (∀ y ∈ l, key y ≠ key x → g y = f y) →
      (l.map g).sum = (l.map f).sum - f x + g x
  | y :: l, hn, hx, h => by
    rw [List.map_cons, List.nodup_cons] at hn
    rw [List.map_cons, List.sum_cons, List.map_cons, List.sum_cons]
    rcases List.mem_cons.1 hx with rfl | hx
    · have hrest : l.map g = l.map f := List.map_congr_left (fun z hz => h z (List.mem_cons_of_mem _ hz)
        (fun he => hn.1 (he ▸ List.mem_map_of_mem hz)))
      rw [hrest]
      abel
    · have hne : key y ≠ key x := fun he => hn.1 (he ▸ List.mem_map_of_mem hx)
      rw [sum_moved key hn.2 hx (fun z hz => h z (List.mem_cons_of_mem _ hz)), h y List.mem_cons_self hne]
      abel

theorem objective_lt_iff {a b c x y z : ℚ} {m n : Int} : objective a b c m < objective x y z n ↔
    a < x ∨ a = x ∧ (b < y ∨ b = y ∧ (c < z ∨ c = z ∧ m < n)) := by
  unfold objective
  simp only [Prod.Lex.toLex_lt_toLex]

/-- **Objectives that change alike compare alike.** -/
theorem objective_lt_iff_of_sub {a b c a' b' c' x y z x' y' z' : ℚ} {m n m' n' : Int} (h₁ : a' - a = x' - x)
    (h₂ : b' - b = y' - y) (h₃ : c' - c = z' - z) (h₄ : m' - m = n' - n) :
    objective a' b' c' m' < objective a b c m ↔ objective x' y' z' n' < objective x y z n := by
  have hlt : ∀ {u v u' v' : ℚ}, u' - u = v' - v → (u' < u ↔ v' < v) := fun h => by
    rw [← sub_neg, h, sub_neg]
  have heq : ∀ {u v u' v' : ℚ}, u' - u = v' - v → (u' = u ↔ v' = v) := fun h => by
    rw [← sub_eq_zero, h, sub_eq_zero]
  have hplace : m' < m ↔ n' < n := by omega
  rw [objective_lt_iff, objective_lt_iff, hlt h₁, heq h₁, hlt h₂, heq h₂, hlt h₃, heq h₃, hplace]

/-- The threads have TIDs of their own, an edge joins two of them, the latency has no direction, and every node has an online
CPU, so that the latencies between the nodes are finite. -/
structure Plain (i : SolveInput) : Prop where
  distinct : (i.threads.map (·.identity.tid)).Nodup
  noLoops : ∀ e ∈ i.edges, e.fromTid ≠ e.toTid
  symmetric : ∀ a b, i.hardware.latency a b = i.hardware.latency b a
  online : ∀ n ∈ i.hardware.nodes, i.hardware.cpusInNode n ≠ []

theorem Plain.nodup {i : SolveInput} (h : Plain i) : (i.ordered.map (·.identity.tid)).Nodup :=
  (ordered_perm i).nodup_iff.2 h.distinct

section Moves

variable {i : SolveInput} {p : Plan} {t : ThreadDemand} {o n : Int}

/-- A thread on another node. -/
def moved (p : Plan) (u : Tid) (n : Int) : Plan := Function.update p u (some n)

theorem moved_self (p : Plan) (u : Tid) (n : Int) : moved p u n u = some n := Function.update_self _ _ _

theorem moved_of_ne {u v : Tid} (h : v ≠ u) (p : Plan) (n : Int) : moved p u n v = p v := Function.update_of_ne h _ _

/-- A sum over the threads in which the moved one has another term. -/
theorem Plain.sum_threads {M : Type} [AddCommGroup M] (h : Plain i) (ht : t ∈ i.ordered) (term : ThreadDemand → Option Int → M)
    (p : Plan) (n : Int) :
    (i.ordered.map (fun u => term u (moved p t.identity.tid n u.identity.tid))).sum =
      (i.ordered.map (fun u => term u (p u.identity.tid))).sum - term t (p t.identity.tid) + term t (some n) := by
  rw [sum_moved (fun u : ThreadDemand => u.identity.tid) (f := fun u => term u (p u.identity.tid)) h.nodup ht
    (fun u _ hne => by rw [moved_of_ne hne]), moved_self]

theorem Plain.loadOn_moved (h : Plain i) (ht : t ∈ i.ordered) (p : Plan) (n m : Int) :
    loadOn i (moved p t.identity.tid n) m =
      loadOn i p m - (if p t.identity.tid = some m then t.demand else 0) + if n = m then t.demand else 0 := by
  have hsum := h.sum_threads ht (fun u x => if x = some m then u.demand else 0) p n
  unfold loadOn
  simpa only [Option.some.injEq] using hsum

theorem Plain.countOn_moved (h : Plain i) (ht : t ∈ i.ordered) (p : Plan) (n m : Int) :
    countOn i (moved p t.identity.tid n) m =
      countOn i p m - (if p t.identity.tid = some m then 1 else 0) + if n = m then 1 else 0 := by
  have hsum := h.sum_threads ht (fun _ x => if x = some m then (1 : Int) else 0) p n
  unfold countOn
  simpa only [Option.some.injEq] using hsum

theorem Plain.distance_moved (h : Plain i) (ht : t ∈ i.ordered) (ho : p t.identity.tid = some o) :
    distance i (moved p t.identity.tid n) - distance i p = farFrom i t n - farFrom i t o := by
  have hsum := h.sum_threads ht (fun u x => x.elim 0 (farFrom i u)) p n
  unfold distance
  rw [hsum, ho]
  simp only [Option.elim_some]
  ring

theorem Plain.names_moved (h : Plain i) (ht : t ∈ i.ordered) (ho : p t.identity.tid = some o) :
    names i (moved p t.identity.tid n) - names i p = n - o := by
  have hsum := h.sum_threads ht (fun _ x => x.getD 0) p n
  unfold names
  rw [hsum, ho]
  simp only [Option.getD_some]
  ring

/-! ### The edges -/

theorem min?_congr {l l' : List ℚ} (h : ∀ x, x ∈ l ↔ x ∈ l') : l.min? = l'.min? := by
  cases hl : l'.min? with
  | none =>
    rw [List.min?_eq_none_iff] at hl ⊢
    rw [List.eq_nil_iff_forall_not_mem]
    intro x hx
    rw [h, hl] at hx
    exact absurd hx List.not_mem_nil
  | some m =>
    rw [List.min?_eq_some_iff] at hl ⊢
    exact ⟨(h m).2 hl.1, fun b hb => hl.2 b ((h b).1 hb)⟩

theorem Plain.nodeLatency_comm (h : Plain i) (a b : Int) : i.nodeLatency a b = i.nodeLatency b a := by
  unfold SolveInput.nodeLatency
  congr 1
  refine min?_congr (fun x => ?_)
  simp only [List.mem_flatMap, List.mem_map]
  constructor
  · rintro ⟨c, hc, d, hd, rfl⟩
    exact ⟨d, hd, c, hc, h.symmetric d c⟩
  · rintro ⟨c, hc, d, hd, rfl⟩
    exact ⟨d, hd, c, hc, h.symmetric d c⟩

theorem Plain.nodeGap_comm (h : Plain i) : ∀ a b, nodeGap i a b = nodeGap i b a
  | some a, some b => h.nodeLatency_comm a b
  | some _, none => rfl
  | none, some _ => rfl
  | none, none => rfl

theorem adjacency_eq_filter (hloops : ∀ e ∈ i.edges, e.fromTid ≠ e.toTid) (u : Tid) :
    i.adjacency u = i.edges.filter (fun e => decide (e.fromTid = u ∨ e.toTid = u)) := by
  unfold SolveInput.adjacency
  generalize i.edges = l at hloops
  induction l with
  | nil => rfl
  | cons e l ih =>
    have hl := hloops e List.mem_cons_self
    rw [List.flatMap_cons, List.filter_cons, ih (fun x hx => hloops x (List.mem_cons_of_mem _ hx))]
    by_cases hf : e.fromTid = u
    · rw [if_pos hf, if_neg (fun ht => hl (hf.trans ht.symm)), if_pos (by simp [hf])]
      rfl
    · by_cases ht : e.toTid = u
      · rw [if_neg hf, if_pos ht, if_pos (by simp [ht])]
        rfl
      · rw [if_neg hf, if_neg ht, if_neg (by simp [hf, ht])]
        rfl

/-- What a thread's edges cost on a node, as a pass reckons it. -/
theorem Plain.nodeRelation_eq (h : Plain i) (m : OrdMap Tid Int) (u : Tid) (n : Int) :
    nodeRelation i m u n =
      Layout.incident RelationEdge.fromTid RelationEdge.toTid RelationEdge.score (nodeGap i) i.edges (moved m.find? u n) u := by
  unfold nodeRelation Layout.incident
  rw [adjacency_eq_filter h.noLoops]
  refine congrArg List.sum (List.map_congr_left (fun e he => ?_))
  obtain ⟨hmem, hat⟩ := List.mem_filter.1 he
  rw [decide_eq_true_eq] at hat
  have hne : other u e ≠ u := by
    unfold SolveInput.other
    split
    · rename_i hf
      exact fun ht => h.noLoops e hmem (hf.trans ht.symm)
    · rename_i hf
      exact hf
  have hfar : Layout.far RelationEdge.fromTid RelationEdge.toTid e u = other u e := rfl
  rw [hfar, moved_self, moved_of_ne hne]
  cases m.find? (other u e) with
  | none => exact (mul_zero _).symm
  | some c => rfl

theorem Plain.relation_moved (h : Plain i) {m : OrdMap Tid Int} {u : Tid} (ho : m.find? u = some o) :
    relation i (moved m.find? u n) - relation i m.find? = nodeRelation i m u n - nodeRelation i m u o := by
  have hsame : moved m.find? u o = m.find? := by
    funext v
    by_cases hv : v = u
    · rw [hv, moved_self, ho]
    · exact moved_of_ne hv _ _
  rw [h.nodeRelation_eq, h.nodeRelation_eq, hsame]
  unfold relation
  rw [Layout.cost_moved h.nodeGap_comm (fun v hv => moved_of_ne hv m.find? n)]
  ring

/-! ### The slots -/

/-- Whether a candidate is above its slots, as a pass reckons it. -/
def violates (i : SolveInput) (p : Plan) (o n : Int) : ℚ :=
  if i.slotConstraints = true ∧ i.nodeSlots n < countOn i p n - (if n = o then 1 else 0) + 1 then slotPenalty else 0

theorem nodes_nodup (h : HardwareGraph) : h.nodes.Nodup := OrdMap.nodup_keys _

/-- One place more or less, above the slots. -/
theorem excess_changes (c s : Int) : max 0 (c + 1 - s) - max 0 (c - s) = (if s < c + 1 then 1 else 0) ∧
    max 0 (c - 1 - s) - max 0 (c - s) = -(if s < c then 1 else 0) := by
  constructor
  · split <;> omega
  · split <;> omega

theorem Plain.slotExcess_moved (h : Plain i) (ht : t ∈ i.ordered) (ho : p t.identity.tid = some o) (hno : n ≠ o)
    (hn : n ∈ i.hardware.nodes) (hon : o ∈ i.hardware.nodes) :
    slotExcess i (moved p t.identity.tid n) - slotExcess i p = violates i p o n - violates i p o o := by
  unfold slotExcess violates
  by_cases hs : i.slotConstraints = true
  · have hnd := nodes_nodup i.hardware
    -- the counts change at the two nodes, first at the one that is left
    have hcount : ∀ m, countOn i (moved p t.identity.tid n) m =
        countOn i p m - (if o = m then 1 else 0) + if n = m then 1 else 0 := by
      intro m
      rw [h.countOn_moved ht, ho]
      simp only [Option.some.injEq]
    have hsum : (i.hardware.nodes.map (fun m => max 0 (countOn i (moved p t.identity.tid n) m - i.nodeSlots m))).sum =
        (i.hardware.nodes.map (fun m => max 0 (countOn i p m - i.nodeSlots m))).sum -
          (if i.nodeSlots o < countOn i p o then 1 else 0) + if i.nodeSlots n < countOn i p n + 1 then 1 else 0 := by
      rw [sum_moved id (x := n) (f := fun m => max 0 (countOn i p m - (if o = m then 1 else 0) - i.nodeSlots m))
        (by simpa using hnd) hn (fun m _ hm => by rw [hcount, if_neg (show ¬ n = m from fun he => hm he.symm), add_zero])]
      rw [sum_moved id (x := o) (f := fun m => max 0 (countOn i p m - i.nodeSlots m)) (by simpa using hnd) hon
        (fun m _ hm => by rw [if_neg (show ¬ o = m from fun he => hm he.symm), sub_zero])]
      rw [hcount, if_neg (Ne.symm hno), if_pos rfl, if_pos rfl, sub_zero]
      have h₁ := (excess_changes (countOn i p n) (i.nodeSlots n)).1
      have h₂ := (excess_changes (countOn i p o) (i.nodeSlots o)).2
      omega
    rw [if_pos hs, if_pos hs, hsum, if_neg hno, if_pos rfl, sub_zero, sub_add_cancel]
    simp only [hs, true_and]
    split <;> split <;> push_cast <;> ring
  · simp only [hs, false_and, if_false, Bool.false_eq_true]

end Moves

/-! ## A turn of a pass -/

/-- The state is that of a plan in which these threads have a node. -/
structure Planned (i : SolveInput) (done : List ThreadDemand) (st : NodeState) : Prop where
  load : ∀ n, st.load.getD n 0 = loadOn i st.tidNode.find? n
  count : ∀ n, st.count.getD n 0 = countOn i st.tidNode.find? n
  seated : ∀ t ∈ done, ∃ n ∈ i.hardware.nodes, st.tidNode.find? t.identity.tid = some n
  known : ∀ u, u ∈ st.tidNode → u ∈ done.map (·.identity.tid)

section Turns

variable {i : SolveInput} {done : List ThreadDemand} {st : NodeState} {t : ThreadDemand} {o n : Int}

theorem find?_insert_eq (m : OrdMap Tid Int) (u : Tid) (n : Int) : (m.insert u n).find? = moved m.find? u n := by
  funext v
  rw [OrdMap.find?_insert]
  by_cases hv : v = u
  · rw [hv, moved_self, if_pos rfl]
  · rw [moved_of_ne hv, if_neg (Ne.symm hv)]

theorem moved_of_eq {p : Plan} {u : Tid} (h : p u = some o) : moved p u o = p := by
  funext v
  by_cases hv : v = u
  · rw [hv, moved_self, h]
  · exact moved_of_ne hv p o

/-- The objective of a pass, by the measures of the plans it compares. -/
theorem Planned.fmObjective_eq (hp : Plain i) (h : Planned i done st) (ht : t ∈ i.ordered)
    (ho : st.tidNode.find? t.identity.tid = some o) (n : Int) :
    fmObjective i st t o n = objective (overload i (moved st.tidNode.find? t.identity.tid n) + violates i st.tidNode.find? o n)
      (nodeRelation i st.tidNode t.identity.tid n) (farFrom i t n) n := by
  have hload : ∀ m, st.load.getD m 0 - (if m = o then t.demand else 0) + (if m = n then t.demand else 0) =
      loadOn i (moved st.tidNode.find? t.identity.tid n) m := by
    intro m
    rw [hp.loadOn_moved ht, ho, h.load]
    simp only [Option.some.injEq, eq_comm]
  unfold fmObjective overload violates
  simp only [hload, h.count]
  rfl

/-- **A pass prefers a node exactly when the plan with it is better.** -/
theorem Planned.quality_moved (hp : Plain i) (h : Planned i done st) (ht : t ∈ i.ordered)
    (ho : st.tidNode.find? t.identity.tid = some o) (hn : n ∈ i.hardware.nodes) (hon : o ∈ i.hardware.nodes) (hno : n ≠ o) :
    quality i (moved st.tidNode.find? t.identity.tid n) < quality i st.tidNode.find? ↔
      fmObjective i st t o n < fmObjective i st t o o := by
  rw [h.fmObjective_eq hp ht ho, h.fmObjective_eq hp ht ho, moved_of_eq ho]
  have hslots := hp.slotExcess_moved ht ho hno hn hon
  exact objective_lt_iff_of_sub (by linarith) (hp.relation_moved ho) (hp.distance_moved ht ho) (hp.names_moved ht ho)

/-! ### The seed -/

theorem Planned.start : Planned i [] {} where
  load n := by
    have hnone : ∀ u : Tid, (∅ : OrdMap Tid Int).find? u = none := fun _ => rfl
    simp [loadOn, hnone]
    rfl
  count n := by
    have hnone : ∀ u : Tid, (∅ : OrdMap Tid Int).find? u = none := fun _ => rfl
    simp [countOn, hnone]
    rfl
  seated t ht := absurd ht List.not_mem_nil
  known u hu := by
    obtain ⟨c, hc⟩ := OrdMap.mem_iff.1 hu
    cases hc

theorem getD_moved_load (load : OrdMap Int ℚ) (d : ℚ) (a b x : Int) :
    ((load.update a 0 (· - d)).update b 0 (· + d)).getD x 0 =
      load.getD x 0 - (if a = x then d else 0) + if b = x then d else 0 := by
  rw [OrdMap.getD_update, OrdMap.getD_update]
  split <;> split <;> ring

theorem Planned.assignNode (hp : Plain i) (hne : i.hardware.nodes ≠ []) (h : Planned i done st)
    (ht : t ∈ i.ordered) (hnew : t.identity.tid ∉ done.map (·.identity.tid)) :
    Planned i (done ++ [t]) (assignNode i st t) := by
  have hmem : nodeFor i st t ∈ i.hardware.nodes := Greedy.least_mem_of_mem (headD_mem hne)
  have hfree : st.tidNode.find? t.identity.tid = none := by
    cases hf : st.tidNode.find? t.identity.tid with
    | none => rfl
    | some c => exact absurd (h.known _ (OrdMap.mem_iff.2 ⟨c, hf⟩)) hnew
  have hseat : (Solver.assignNode i st t).tidNode.find? = moved st.tidNode.find? t.identity.tid (nodeFor i st t) :=
    find?_insert_eq _ _ _
  refine ⟨fun n => ?_, fun n => ?_, fun u hu => ?_, fun u hu => ?_⟩
  · rw [hseat, hp.loadOn_moved ht, hfree, ← h.load]
    change (st.load.update (nodeFor i st t) 0 (· + t.demand)).getD n 0 = _
    rw [OrdMap.getD_update]
    split <;> simp
  · rw [hseat, hp.countOn_moved ht, hfree, ← h.count, count_assignNode]
    simp
  · rw [hseat]
    rcases List.mem_append.1 hu with hu | hu
    · by_cases he : u.identity.tid = t.identity.tid
      · exact ⟨_, hmem, he ▸ moved_self _ _ _⟩
      · obtain ⟨n, hn, hf⟩ := h.seated u hu
        exact ⟨n, hn, (moved_of_ne he _ _).trans hf⟩
    · rw [List.mem_singleton.1 hu]
      exact ⟨_, hmem, moved_self _ _ _⟩
  · rw [List.map_append, List.mem_append]
    obtain ⟨c, hc⟩ := OrdMap.mem_iff.1 hu
    rw [hseat] at hc
    by_cases he : u = t.identity.tid
    · exact Or.inr (by simp [he])
    · rw [moved_of_ne he] at hc
      exact Or.inl (h.known u (OrdMap.mem_iff.2 ⟨c, hc⟩))

/-- **The seed gives every thread a node.** -/
theorem planned_seed (hp : Plain i) (hne : i.hardware.nodes ≠ []) :
    Planned i i.ordered (i.ordered.foldl (assignNode i) {}) := by
  refine Greedy.foldl_turns (fun done st => Planned i done st) .start (fun pre t post hsplit h => ?_)
  have hnd := hp.nodup
  rw [hsplit, List.map_append, List.map_cons] at hnd
  have hnew : t.identity.tid ∉ pre.map (·.identity.tid) := fun hmem =>
    (List.disjoint_of_nodup_append hnd) hmem List.mem_cons_self
  exact h.assignNode hp hne (hsplit ▸ List.mem_append_right _ List.mem_cons_self) hnew

/-! ### The passes -/

theorem Planned.fmStep (hp : Plain i) (h : Planned i i.ordered st) (ht : t ∈ i.ordered)
    (ho : st.tidNode.find? t.identity.tid = some o) (hn : n ∈ i.hardware.nodes) :
    Planned i i.ordered
      { load := (st.load.update o 0 (· - t.demand)).update n 0 (· + t.demand)
        count := (st.count.update o 0 (· - 1)).update n 0 (· + 1)
        tidNode := st.tidNode.insert t.identity.tid n } := by
  refine ⟨fun m => ?_, fun m => ?_, fun u hu => ?_, fun u hu => ?_⟩
  · rw [getD_moved_load, find?_insert_eq, hp.loadOn_moved ht, ho, h.load]
    simp only [Option.some.injEq]
  · rw [getD_moved, find?_insert_eq, hp.countOn_moved ht, ho, h.count]
    simp only [Option.some.injEq]
  · rw [find?_insert_eq]
    by_cases he : u.identity.tid = t.identity.tid
    · exact ⟨n, hn, he ▸ moved_self _ _ _⟩
    · obtain ⟨m, hm, hf⟩ := h.seated u hu
      exact ⟨m, hm, (moved_of_ne he _ _).trans hf⟩
  · obtain ⟨c, hc⟩ := OrdMap.mem_iff.1 hu
    rw [find?_insert_eq] at hc
    by_cases he : u = t.identity.tid
    · rw [he]
      exact List.mem_map_of_mem ht
    · rw [moved_of_ne he] at hc
      exact h.known u (OrdMap.mem_iff.2 ⟨c, hc⟩)

/-- **A turn of a pass leaves the plan alone or makes it better.** -/
theorem fmStep_lowers (hp : Plain i) (ht : t ∈ i.ordered) :
    Descent.Lowers (Planned i i.ordered) (fun st => quality i st.tidNode.find?) (fmStep i) t := by
  rintro ⟨st, flag⟩ h
  obtain ⟨o, hon, ho⟩ := h.seated t ht
  have hgetD : st.tidNode.getD t.identity.tid 0 = o := by rw [OrdMap.getD, ho, Option.getD_some]
  have hmem : least (fmObjective i st t o) o i.hardware.nodes ∈ i.hardware.nodes := Greedy.least_mem_of_mem hon
  unfold Solver.fmStep
  dsimp only
  rw [hgetD]
  split
  · rename_i hmove
    have hle : fmObjective i st t o (least (fmObjective i st t o) o i.hardware.nodes) ≤ fmObjective i st t o o :=
      Greedy.least_le _ o o List.mem_cons_self
    have hlt := lt_of_le_of_ne hle (fun he => hmove (fmObjective_inj he))
    refine Or.inr ⟨rfl, h.fmStep hp ht ho hmem, ?_⟩
    dsimp only
    rw [find?_insert_eq]
    exact (h.quality_moved hp ht ho hmem hon hmove).2 hlt
  · exact Or.inl rfl

/-- **A turn that does nothing leaves a thread on the best of the nodes.** -/
theorem Planned.settled (hp : Plain i) (h : Planned i i.ordered st) (ht : t ∈ i.ordered)
    (hturn : Solver.fmStep i (st, false) t = (st, false)) (hn : n ∈ i.hardware.nodes) :
    quality i st.tidNode.find? ≤ quality i (moved st.tidNode.find? t.identity.tid n) := by
  obtain ⟨o, hon, ho⟩ := h.seated t ht
  by_cases hno : n = o
  · rw [hno, moved_of_eq ho]
  · refine le_of_not_gt (fun hlt => ?_)
    have hpreferred := (h.quality_moved hp ht ho hn hon hno).1 hlt
    have hgetD : st.tidNode.getD t.identity.tid 0 = o := by rw [OrdMap.getD, ho, Option.getD_some]
    have hle : fmObjective i st t o (least (fmObjective i st t o) o i.hardware.nodes) ≤ fmObjective i st t o n :=
      Greedy.least_le _ o n (List.mem_cons_of_mem _ hn)
    unfold Solver.fmStep at hturn
    dsimp only at hturn
    rw [hgetD] at hturn
    split at hturn
    · exact absurd (congrArg Prod.snd hturn) Bool.true_eq_false.mp
    · rename_i hstay
      rw [not_not.1 hstay] at hle
      exact absurd hpreferred (not_lt.2 hle)

end Turns

/-! ## All passes -/

section Refined

variable {i : SolveInput}

/-- The plan that gives the threads these nodes. -/
def planOf (i : SolveInput) (f : tids i.threads → nodeSet i.hardware) : Plan :=
  fun u => if h : u ∈ tids i.threads then some (f ⟨u, h⟩) else none

/-- The qualities of the plans there are. -/
def qualities (i : SolveInput) : Finset Objective :=
  (Finset.univ : Finset (tids i.threads → nodeSet i.hardware)).image (fun f => quality i (planOf i f))

theorem Plain.card_qualities (hp : Plain i) : (qualities i).card ≤ i.hardware.nodes.length ^ i.threads.length := by
  have hnodes : (nodeSet i.hardware).card = i.hardware.nodes.length := List.toFinset_card_of_nodup (nodes_nodup _)
  have hall := Finset.card_image_le (s := (Finset.univ : Finset (tids i.threads → nodeSet i.hardware)))
    (f := fun f => quality i (planOf i f))
  rwa [Finset.card_univ, Fintype.card_fun, Fintype.card_coe, Fintype.card_coe, hnodes, card_tids hp.distinct] at hall

theorem Planned.quality_mem {st : NodeState} (h : Planned i i.ordered st) : quality i st.tidNode.find? ∈ qualities i := by
  have hseat : ∀ u : tids i.threads, ∃ n : nodeSet i.hardware, st.tidNode.find? u.1 = some n.1 := by
    rintro ⟨u, hu⟩
    rw [← tids_ordered, tids, List.mem_toFinset] at hu
    obtain ⟨t, ht, rfl⟩ := List.mem_map.1 hu
    obtain ⟨n, hn, hf⟩ := h.seated t ht
    exact ⟨⟨n, List.mem_toFinset.2 hn⟩, hf⟩
  choose f hf using hseat
  refine Finset.mem_image.2 ⟨f, Finset.mem_univ _, congrArg (quality i) ?_⟩
  funext u
  unfold planOf
  split
  · rename_i hu
    exact (hf ⟨u, hu⟩).symm
  · rename_i hu
    cases hnone : st.tidNode.find? u with
    | none => rfl
    | some c =>
      have hmem := h.known u (OrdMap.mem_iff.2 ⟨c, hnone⟩)
      rw [← tids_ordered, tids, List.mem_toFinset] at hu
      exact absurd hmem hu

/-- **The passes over the nodes improve the seed, and come to rest.**  The plan they leave is no worse than the seed; and
with passes enough, as many as there are plans, moving any one thread to any node makes it no better. -/
theorem refined_nodes (hp : Plain i) (hc : i.hardware.cpus ≠ []) :
    quality i (nodesOf i).tidNode.find? ≤ quality i (i.ordered.foldl (assignNode i) {}).tidNode.find? ∧
      (i.hardware.nodes.length ^ i.threads.length ≤ i.options.fmPasses.toNat →
        ∀ t ∈ i.ordered, ∀ n ∈ i.hardware.nodes,
          quality i (nodesOf i).tidNode.find? ≤ quality i (moved (nodesOf i).tidNode.find? t.identity.tid n)) := by
  have hseed := planned_seed hp (nodes_ne_nil hc)
  have hturns : ∀ t ∈ i.ordered, Descent.Lowers (Planned i i.ordered) (fun st => quality i st.tidNode.find?) (fmStep i) t :=
    fun t ht => fmStep_lowers hp ht
  refine ⟨Descent.refine_le hturns hseed, fun hmany t ht n hn => ?_⟩
  have hrest := Descent.refine_stable hturns (fun st h => Planned.quality_mem h) hseed (hp.card_qualities.trans hmany)
  exact (Descent.refine_keeps hturns hseed).settled hp ht (hrest t ht) hn

/-- Three threads on three nodes, the third after the two it talks to. -/
def threeThreads : SolveInput where
  hardware := IncrementalSolver.threeNodes
  threads := [⟨⟨1, 1, 0⟩, "g", 3 / 5, 1, 0⟩, ⟨⟨1, 2, 0⟩, "g", 1 / 2, 1, 2⟩, ⟨⟨1, 3, 0⟩, "g", 2 / 5, 1, 1⟩]
  edges := [{ fromTid := 1, toTid := 3, score := 1 }, { fromTid := 3, toTid := 2, score := 5 }]
  options := { fmPasses := 27 }

theorem refined_nodes_threeThreads :
    quality threeThreads (nodesOf threeThreads).tidNode.find? ≤
        quality threeThreads (threeThreads.ordered.foldl (assignNode threeThreads) {}).tidNode.find? ∧
      ∀ t ∈ threeThreads.ordered, ∀ n ∈ threeThreads.hardware.nodes,
        quality threeThreads (nodesOf threeThreads).tidNode.find? ≤
          quality threeThreads (moved (nodesOf threeThreads).tidNode.find? t.identity.tid n) := by
  have h := refined_nodes (i := threeThreads) ⟨by decide, by decide, IncrementalSolver.threeNodes_latency_symm, by decide⟩
    (by decide)
  exact ⟨h.1, h.2 (by decide +kernel)⟩

end Refined

/-! ## The migration budget -/

section Budget

variable {i : SolveInput} {st : CpuState} {t : ThreadDemand} {m : OrdMap Tid Int}

/-- An active thread that a placement has away from the CPU it was sampled on. -/
def isAway (i : SolveInput) (m : OrdMap Tid Int) (t : ThreadDemand) : Bool :=
  decide (i.options.activeThreshold ≤ t.demand) && decide (m.getD t.identity.tid 0 ≠ t.currentCpu)

def away (i : SolveInput) (m : OrdMap Tid Int) : List ThreadDemand := i.threads.filter (isAway i m)

/-- The CPU a thread was sampled on takes it back. -/
def takesBack (i : SolveInput) (st : CpuState) (t : ThreadDemand) : Prop :=
  (∃ c ∈ i.hardware.cpus, c.id = t.currentCpu) ∧
    (i.slotConstraints = true → st.count.getD t.currentCpu 0 < i.cpuCap ∨ st.tidToCpu.getD t.identity.tid 0 = t.currentCpu)

instance (i : SolveInput) (st : CpuState) (t : ThreadDemand) : Decidable (takesBack i st t) :=
  inferInstanceAs (Decidable ((∃ c ∈ i.hardware.cpus, c.id = t.currentCpu) ∧ (_ → _ ∨ _)))

/-- How many of the threads that go back in their turn are refused. -/
def refusals (i : SolveInput) : CpuState → List ThreadDemand → Nat
  | _, [] => 0
  | st, t :: l => (if takesBack i st t then 0 else 1) + refusals i (moveBack i st t) l

/-- The threads over the budget, the smallest demand first. -/
def overBudget (i : SolveInput) (st : CpuState) : List ThreadDemand :=
  (migrations i st.tidToCpu).take ((migrations i st.tidToCpu).length - budget i)

theorem migrations_perm (i : SolveInput) (m : OrdMap Tid Int) : (migrations i m).Perm (away i m) := List.perm_insertionSort _ _

theorem moveBack_cases (i : SolveInput) (st : CpuState) (t : ThreadDemand) :
    ¬ takesBack i st t ∧ moveBack i st t = st ∨
      takesBack i st t ∧ (moveBack i st t).tidToCpu = st.tidToCpu.insert t.identity.tid t.currentCpu := by
  have hiff : (i.hardware.cpus.any (fun c => decide (c.id = t.currentCpu)) = true ∧
      (!i.slotConstraints || decide (st.count.getD t.currentCpu 0 < i.cpuCap) ||
        decide (st.tidToCpu.getD t.identity.tid 0 = t.currentCpu)) = true) ↔ takesBack i st t := by
    unfold takesBack
    cases i.slotConstraints <;> simp
  unfold moveBack
  dsimp only
  split
  · rename_i h
    exact Or.inr ⟨hiff.1 h, rfl⟩
  · rename_i h
    exact Or.inl ⟨fun ht => h (hiff.2 ht), rfl⟩

theorem length_filter_eq_sum {α : Type} (p : α → Bool) (l : List α) :
    ((l.filter p).length : Int) = (l.map (fun x => if p x = true then (1 : Int) else 0)).sum := by
  induction l with
  | nil => rfl
  | cons x l ih =>
    rw [List.map_cons, List.sum_cons, List.filter_cons, ← ih]
    split
    · rw [List.length_cons]
      push_cast
      ring
    · rw [zero_add]

/-- A thread that goes back is away no more; the others stay as they were. -/
theorem length_away_insert (hd : (i.threads.map (·.identity.tid)).Nodup) (ht : t ∈ away i m) :
    (away i (m.insert t.identity.tid t.currentCpu)).length + 1 = (away i m).length := by
  obtain ⟨hmem, haway⟩ := List.mem_filter.1 ht
  have hback : isAway i (m.insert t.identity.tid t.currentCpu) t = false := by
    unfold isAway
    rw [OrdMap.getD_insert, if_pos rfl]
    simp
  have hsum : (((away i (m.insert t.identity.tid t.currentCpu)).length : Nat) : Int) = (away i m).length - 1 := by
    unfold away
    rw [length_filter_eq_sum, length_filter_eq_sum,
      sum_moved (fun u : ThreadDemand => u.identity.tid) (f := fun u => if isAway i m u = true then (1 : Int) else 0) hd hmem]
    · rw [haway, hback]
      simp
    · intro u _ hne
      unfold isAway
      rw [OrdMap.getD_insert, if_neg (Ne.symm hne)]
  omega

theorem mem_away_insert {u : ThreadDemand} (hu : u ∈ away i m) (hne : u.identity.tid ≠ t.identity.tid) :
    u ∈ away i (m.insert t.identity.tid t.currentCpu) := by
  obtain ⟨hmem, haway⟩ := List.mem_filter.1 hu
  refine List.mem_filter.2 ⟨hmem, ?_⟩
  unfold isAway at haway ⊢
  rwa [OrdMap.getD_insert, if_neg (Ne.symm hne)]

/-- **Going back in turns.**  Those that are still away are those that were, less the ones that were taken back. -/
theorem length_away_foldl (hd : (i.threads.map (·.identity.tid)).Nodup) : ∀ {l : List ThreadDemand} {st : CpuState},
    (l.map (·.identity.tid)).Nodup → (∀ t ∈ l, t ∈ away i st.tidToCpu) →
      (away i (l.foldl (moveBack i) st).tidToCpu).length + l.length = (away i st.tidToCpu).length + refusals i st l
  | [], _, _, _ => rfl
  | t :: l, st, hn, hl => by
    rw [List.map_cons, List.nodup_cons] at hn
    rw [List.foldl_cons, List.length_cons, refusals]
    rcases moveBack_cases i st t with ⟨hno, hsame⟩ | ⟨hyes, hmap⟩
    · rw [if_neg hno, hsame]
      have ih := length_away_foldl hd hn.2 (fun u hu => hl u (List.mem_cons_of_mem _ hu))
      omega
    · rw [if_pos hyes]
      have hrest : ∀ u ∈ l, u ∈ away i (moveBack i st t).tidToCpu := by
        intro u hu
        rw [hmap]
        exact mem_away_insert (hl u (List.mem_cons_of_mem _ hu)) (fun he => hn.1 (he ▸ List.mem_map_of_mem hu))
      have ih := length_away_foldl hd hn.2 hrest
      have hone := length_away_insert hd (hl t List.mem_cons_self)
      rw [← hmap] at hone
      omega

/-- **The budget of a replayed placement.**  Of the active threads that the stages moved, as many stay away from where they
were sampled as the budget allows, and those that were refused when they were to go back. -/
theorem solve_migrations (hd : (i.threads.map (·.identity.tid)).Nodup) (hthreads : i.threads ≠ []) {p : Placement}
    (h : solve i = .ok p) : ∃ st, cpusOf i (nodesOf i).tidNode = .ok st ∧
      (away i p.tidToCpu).length = min (away i st.tidToCpu).length (budget i) + refusals i st (overBudget i st) := by
  have hempty : i.threads.isEmpty = false := by
    cases hc : i.threads with
    | nil => exact absurd hc hthreads
    | cons _ _ => rfl
  unfold solve at h
  rw [hempty, if_neg Bool.false_ne_true] at h
  split at h
  · cases h
  · cases hcpus : cpusOf i (nodesOf i).tidNode with
    | error e =>
      rw [hcpus] at h
      cases h
    | ok st =>
      rw [hcpus] at h
      cases h
      refine ⟨st, rfl, ?_⟩
      have hperm := migrations_perm i st.tidToCpu
      have hnd : ((overBudget i st).map (·.identity.tid)).Nodup := by
        have hsub : ((away i st.tidToCpu).map (·.identity.tid)).Nodup := hd.sublist (List.filter_sublist.map _)
        exact ((hperm.map _).nodup_iff.2 hsub).sublist ((List.take_sublist _ _).map _)
      have hmem : ∀ t ∈ overBudget i st, t ∈ away i st.tidToCpu := fun t ht => hperm.mem_iff.1 (List.mem_of_mem_take ht)
      have hcount := length_away_foldl hd hnd hmem
      have hlen : (overBudget i st).length = (away i st.tidToCpu).length - budget i := by
        unfold overBudget
        rw [List.length_take, hperm.length_eq]
        omega
      change (away i ((overBudget i st).foldl (moveBack i) st).tidToCpu).length = _
      omega

theorem solve_migrations_threeThreads : ∃ p st, solve threeThreads = .ok p ∧
    cpusOf threeThreads (nodesOf threeThreads).tidNode = .ok st ∧ (away threeThreads st.tidToCpu).length = 1 ∧
    (away threeThreads p.tidToCpu).length = 0 := by
  have hsolves : (solve threeThreads).toBool = true := by decide +kernel
  cases hp : solve threeThreads with
  | error e =>
    rw [hp] at hsolves
    cases hsolves
  | ok p =>
    obtain ⟨st, hst, hcount⟩ := solve_migrations (by decide) (by decide) hp
    have hseen : (cpusOf threeThreads (nodesOf threeThreads).tidNode).toOption.any (fun st =>
        decide ((away threeThreads st.tidToCpu).length = 1 ∧
          min 1 (budget threeThreads) + refusals threeThreads st (overBudget threeThreads st) = 0)) = true := by
      decide +kernel
    rw [hst] at hseen
    obtain ⟨hone, hnone⟩ := of_decide_eq_true hseen
    exact ⟨p, st, rfl, hst, hone, by rw [hcount, hone]; exact hnone⟩

end Budget

end Solver
end AffinityGraph
