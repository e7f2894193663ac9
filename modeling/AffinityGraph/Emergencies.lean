import AffinityGraph.BatchLoads
import AffinityGraph.Replan
/-!
# Emergencies — what the migration phase takes for an emergency

A move is an emergency when the placement it leads to has a smaller slot violation, a smaller overload, or balances the
nodes (`RealEmergency`).  The flag is computed from the two CPUs and their nodes alone.  Between two nodes the terms
cancel and the flag is right.  Inside one node the overload of the node is among the terms before the move and not among
those after it, so an overloaded node makes every move inside it look like a relief (`Hidden`).
-/
namespace AffinityGraph
namespace IncrementalSolver

/-! ## What a move does to the placement -/

/-- What `node_balance_cost` is of a placement. -/
def balanceOf (s : IncrementalSolver) (hardware : HardwareGraph) : ℚ :=
  (hardware.nodes.map (fun n =>
    nodeLoadOn s hardware n * nodeLoadOn s hardware n / max (nodeCpuCount hardware n) 1)).sum

/-- The cross-node balance condition: to a node used less by more than the threshold, with a better balance and no worse
relations. -/
def BalanceEmergency (s : IncrementalSolver) (input : IncrementalInput) (t : Tid) (target : Cpu) : Prop :=
  let hardware := input.hardware
  let source := s.placement.getD t 0
  let node := cpuNode hardware source
  let cost := incidentCost s hardware (adjacencyOf (s.edges.entries.map Prod.snd)) ∅ t
  node ≠ target.node ∧
  nodeLoadOn s hardware target.node / max (nodeCpuCount hardware target.node) 1 + input.options.nodeBalanceThreshold <
    nodeLoadOn s hardware node / max (nodeCpuCount hardware node) 1 ∧
  balanceOf (s.moved t target.id) hardware + 1 / 10 ^ 12 < balanceOf s hardware ∧ cost target.id ≤ cost source + 1 / 10 ^ 12

/-- **An emergency**: the move alone lowers the slot violation of all CPUs or the overload of all CPUs and nodes, or
balances the nodes. -/
def RealEmergency (s : IncrementalSolver) (input : IncrementalInput) (t : Tid) (target : Cpu) : Prop :=
  slotViolationOf (s.moved t target.id) input < slotViolationOf s input ∨
  overloadOf (s.moved t target.id) input.hardware + 1 / 10 ^ 12 < overloadOf s input.hardware ∨
  BalanceEmergency s input t target

/-- The overload the two CPUs of a move get rid of. -/
def relief (s : IncrementalSolver) (t : Tid) (source target : Int) : ℚ :=
  max 0 (loadOn s source - 1) + max 0 (loadOn s target - 1) -
    (max 0 (loadOn s source - demandOf s t - 1) + max 0 (loadOn s target + demandOf s t - 1))

/-- **A move that only looks like an emergency**: it stays in its node, frees no slot of a CPU above the cap and relieves
the two CPUs by no more than the tolerance, but would do so if the overload of the node went away with it. -/
def Hidden (s : IncrementalSolver) (input : IncrementalInput) (t : Tid) (target : Cpu) : Prop :=
  let source := s.placement.getD t 0
  cpuNode input.hardware source = target.node ∧
  ¬ (cpuSlotCap input < placedOn s source ∧ (placedOn s target.id : Int) < cpuSlotCap input) ∧
  relief s t source target.id ≤ 1 / 10 ^ 12 ∧
  1 / 10 ^ 12 < relief s t source target.id +
    max 0 (nodeLoadOn s input.hardware target.node - nodeCpuCount input.hardware target.node)

instance BalanceEmergency.decidable (s : IncrementalSolver) (input : IncrementalInput) (t : Tid) (target : Cpu) :
    Decidable (BalanceEmergency s input t target) :=
  inferInstanceAs (Decidable (_ ∧ _ ∧ _ ∧ _))

instance RealEmergency.decidable (s : IncrementalSolver) (input : IncrementalInput) (t : Tid) (target : Cpu) :
    Decidable (RealEmergency s input t target) :=
  inferInstanceAs (Decidable (_ ∨ _ ∨ _))

section Move

variable {s : IncrementalSolver} {hardware : HardwareGraph} {input : IncrementalInput} {t : Tid} {source : Int} {c : Cpu}

theorem cpuNode_cpu (hd : hardware.Discovered) (hc : c ∈ hardware.cpus) : cpuNode hardware c.id = c.node :=
  cpuNode_of_mem hd (mem_cpusInNode.2 ⟨c, hc, rfl, hd.online c hc, rfl⟩)

theorem cpuNode_mem (hd : hardware.Discovered) {cpu : Int} (h : hardware.HasCpu cpu) :
    cpuNode hardware cpu ∈ hardware.nodes := by
  obtain ⟨c, hc, rfl, -⟩ := h
  rw [cpuNode_cpu hd hc]
  exact HardwareGraph.mem_nodes.2 ⟨c, hc, rfl⟩

variable {loads : Loads}

theorem loadOn_moved (h : Tracks hardware s loads) (ht : s.placement.find? t = some source) (cpu x : Int) :
    loadOn (s.moved t cpu) x =
      loadOn s x - (if source = x then demandOf s t else 0) + if cpu = x then demandOf s t else 0 := by
  rw [← (h.move ht cpu).cpu, Loads.onCpu_move, h.cpu]

theorem placedOn_moved (h : Tracks hardware s loads) (ht : s.placement.find? t = some source) (cpu x : Int) :
    (placedOn (s.moved t cpu) x : Int) = placedOn s x - (if source = x then 1 else 0) + if cpu = x then 1 else 0 := by
  rw [← (h.move ht cpu).count, Loads.threadsOn_move, h.count]

theorem nodeLoadOn_moved (h : Tracks hardware s loads) (ht : s.placement.find? t = some source) (cpu n : Int) :
    nodeLoadOn (s.moved t cpu) hardware n = nodeLoadOn s hardware n -
      (if cpuNode hardware source = n then demandOf s t else 0) + if cpuNode hardware cpu = n then demandOf s t else 0 := by
  rw [← (h.move ht cpu).node, Loads.onNode_move, h.node]

/-- A sum over the CPUs when the terms of two of them change. -/
theorem sum_cpus_moved {M : Type*} [AddCommGroup M] (hd : hardware.Discovered) (hs : hardware.HasCpu source)
    (hc : c ∈ hardware.cpus) (hne : c.id ≠ source) {f g : Int → M} (h : ∀ x, x ≠ source → x ≠ c.id → g x = f x) :
    (hardware.cpus.map (fun x => g x.id)).sum =
      (hardware.cpus.map (fun x => f x.id)).sum - (f source + f c.id) + (g source + g c.id) := by
  have hsum : ∀ f : Int → M, (hardware.cpus.map (fun x => f x.id)).sum = ∑ x ∈ (hardware.cpus.map (·.id)).toFinset, f x := by
    intro f
    rw [List.sum_toFinset _ hd.distinct, List.map_map]
    rfl
  rw [hsum, hsum]
  exact Seating.sum_moved ((hasCpu_iff hd).1 hs) (List.mem_toFinset.2 (List.mem_map_of_mem hc)) (Ne.symm hne)
    (fun x _ => h x)

/-- A move changes the slot violation at its two CPUs. -/
theorem slotViolationOf_moved (hd : input.hardware.Discovered) (h : Tracks input.hardware s loads)
    (ht : s.placement.find? t = some source) (hs : input.hardware.HasCpu source) (hc : c ∈ input.hardware.cpus)
    (hne : c.id ≠ source) :
    slotViolationOf (s.moved t c.id) input = slotViolationOf s input -
      (max 0 ((placedOn s source : Int) - cpuSlotCap input) + max 0 ((placedOn s c.id : Int) - cpuSlotCap input)) +
      (max 0 ((placedOn s source : Int) - 1 - cpuSlotCap input) + max 0 ((placedOn s c.id : Int) + 1 - cpuSlotCap input)) := by
  have hother : ∀ x, x ≠ source → x ≠ c.id → max 0 ((placedOn (s.moved t c.id) x : Int) - cpuSlotCap input) =
      max 0 ((placedOn s x : Int) - cpuSlotCap input) := by
    intro x hx hx'
    rw [placedOn_moved h ht, if_neg hx.symm, if_neg hx'.symm, sub_zero, add_zero]
  unfold slotViolationOf
  rw [sum_cpus_moved hd hs hc hne hother, placedOn_moved h ht, placedOn_moved h ht, if_pos rfl, if_neg hne,
    if_neg (Ne.symm hne), if_pos rfl, add_zero, sub_zero]

/-- A move changes the overload of the CPUs by what it relieves its two CPUs of. -/
theorem sum_overload_moved (hd : hardware.Discovered) (h : Tracks hardware s loads)
    (ht : s.placement.find? t = some source) (hs : hardware.HasCpu source) (hc : c ∈ hardware.cpus) (hne : c.id ≠ source) :
    (hardware.cpus.map (fun x => max 0 (loadOn (s.moved t c.id) x.id - 1))).sum =
      (hardware.cpus.map (fun x => max 0 (loadOn s x.id - 1))).sum - relief s t source c.id := by
  have hother : ∀ x, x ≠ source → x ≠ c.id → max 0 (loadOn (s.moved t c.id) x - 1) = max 0 (loadOn s x - 1) := by
    intro x hx hx'
    rw [loadOn_moved h ht, if_neg hx.symm, if_neg hx'.symm, sub_zero, add_zero]
  rw [sum_cpus_moved hd hs hc hne hother, loadOn_moved h ht, loadOn_moved h ht, if_pos rfl, if_neg hne,
    if_neg (Ne.symm hne), if_pos rfl, add_zero, sub_zero]
  unfold relief
  ring

theorem overloadOf_moved_inside (hd : hardware.Discovered) (h : Tracks hardware s loads)
    (ht : s.placement.find? t = some source) (hs : hardware.HasCpu source) (hc : c ∈ hardware.cpus) (hne : c.id ≠ source)
    (hnode : cpuNode hardware source = c.node) :
    overloadOf (s.moved t c.id) hardware = overloadOf s hardware - relief s t source c.id := by
  have hsame : ∀ n, nodeLoadOn (s.moved t c.id) hardware n = nodeLoadOn s hardware n := by
    intro n
    rw [nodeLoadOn_moved h ht, cpuNode_cpu hd hc, hnode, sub_add_cancel]
  unfold overloadOf
  rw [sum_overload_moved hd h ht hs hc hne]
  simp only [hsame]
  ring

/-- Between two nodes the overload of the nodes changes at these two. -/
theorem overloadOf_moved_across (hd : hardware.Discovered) (h : Tracks hardware s loads)
    (ht : s.placement.find? t = some source) (hs : hardware.HasCpu source) (hc : c ∈ hardware.cpus) (hne : c.id ≠ source)
    (hnode : cpuNode hardware source ≠ c.node) :
    overloadOf (s.moved t c.id) hardware = overloadOf s hardware - relief s t source c.id -
      (max 0 (nodeLoadOn s hardware (cpuNode hardware source) - nodeCpuCount hardware (cpuNode hardware source)) +
        max 0 (nodeLoadOn s hardware c.node - nodeCpuCount hardware c.node)) +
      (max 0 (nodeLoadOn s hardware (cpuNode hardware source) - demandOf s t -
          nodeCpuCount hardware (cpuNode hardware source)) +
        max 0 (nodeLoadOn s hardware c.node + demandOf s t - nodeCpuCount hardware c.node)) := by
  set room : IncrementalSolver → Int → ℚ := fun s n => max 0 (nodeLoadOn s hardware n - nodeCpuCount hardware n) with hroom
  have hsum : ∀ f : Int → ℚ, (hardware.nodes.map f).sum = ∑ n ∈ hardware.nodes.toFinset, f n :=
    fun f => (List.sum_toFinset f (OrdMap.nodup_keys _)).symm
  have hother : ∀ n, n ≠ cpuNode hardware source → n ≠ c.node → room (s.moved t c.id) n = room s n := by
    intro n hn hn'
    rw [hroom]
    dsimp only
    rw [nodeLoadOn_moved h ht, cpuNode_cpu hd hc, if_neg hn.symm, if_neg hn'.symm, sub_zero, add_zero]
  have hnodes : (hardware.nodes.map (room (s.moved t c.id))).sum = (hardware.nodes.map (room s)).sum -
      (room s (cpuNode hardware source) + room s c.node) +
      (room (s.moved t c.id) (cpuNode hardware source) + room (s.moved t c.id) c.node) := by
    rw [hsum, hsum]
    exact Seating.sum_moved (List.mem_toFinset.2 (cpuNode_mem hd hs))
      (List.mem_toFinset.2 (HardwareGraph.mem_nodes.2 ⟨c, hc, rfl⟩)) hnode (fun n _ => hother n)
  have hsource : room (s.moved t c.id) (cpuNode hardware source) =
      max 0 (nodeLoadOn s hardware (cpuNode hardware source) - demandOf s t -
        nodeCpuCount hardware (cpuNode hardware source)) := by
    rw [hroom]
    dsimp only
    rw [nodeLoadOn_moved h ht, cpuNode_cpu hd hc, if_pos rfl, if_neg hnode.symm, add_zero]
  have htarget : room (s.moved t c.id) c.node =
      max 0 (nodeLoadOn s hardware c.node + demandOf s t - nodeCpuCount hardware c.node) := by
    rw [hroom]
    dsimp only
    rw [nodeLoadOn_moved h ht, cpuNode_cpu hd hc, if_neg hnode, if_pos rfl, sub_zero]
  rw [hsource, htarget] at hnodes
  unfold overloadOf
  rw [sum_overload_moved hd h ht hs hc hne, hnodes]
  ring

theorem balanceOf_eq (h : Tracks hardware s loads) : nodeBalanceCost hardware loads.nodeLoad = balanceOf s hardware := by
  unfold nodeBalanceCost balanceOf
  congr 1
  refine List.map_congr_left (fun n _ => ?_)
  rw [← h.node]
  rfl

/-- The balance condition of the code is that of the placement. -/
theorem balanceEmergency_iff (hd : input.hardware.Discovered) (h : Tracks input.hardware s loads)
    (ht : s.placement.find? t = some source) (hc : c ∈ input.hardware.cpus)
    (hnode : cpuNode input.hardware source ≠ c.node) :
    BalanceEmergency s input t c ↔
      utilization input.hardware loads.nodeLoad c.node + input.options.nodeBalanceThreshold <
        utilization input.hardware loads.nodeLoad (cpuNode input.hardware source) ∧
      nodeBalanceCost input.hardware ((loads.nodeLoad.update (cpuNode input.hardware source) 0 (· - demandOf s t)).update
        c.node 0 (· + demandOf s t)) + 1 / 10 ^ 12 < nodeBalanceCost input.hardware loads.nodeLoad ∧
      incidentCost s input.hardware (adjacencyOf (s.edges.entries.map Prod.snd)) ∅ t c.id ≤
        incidentCost s input.hardware (adjacencyOf (s.edges.entries.map Prod.snd)) ∅ t source + 1 / 10 ^ 12 := by
  have hsource : s.placement.getD t 0 = source := by rw [OrdMap.getD, ht]; rfl
  have hafter : (loads.nodeLoad.update (cpuNode input.hardware source) 0 (· - demandOf s t)).update
      c.node 0 (· + demandOf s t) = (loads.move input.hardware (demandOf s t) source c.id).nodeLoad := by
    unfold Loads.move
    dsimp only
    rw [cpuNode_cpu hd hc, if_neg hnode]
  have hload : ∀ n, nodeLoadOn s input.hardware n = loads.nodeLoad.getD n 0 := fun n => (h.node n).symm
  unfold BalanceEmergency utilization
  dsimp only
  rw [hafter, balanceOf_eq h, balanceOf_eq (h.move ht c.id), hsource, hload, hload]
  exact and_iff_right hnode

/-- The slots are fewer after a move exactly when it leaves a CPU above the cap for one below it. -/
theorem slots_lowered_iff (a b cap : Int) :
    max 0 (a - 1 - cap) + max 0 (b + 1 - cap) < max 0 (a - cap) + max 0 (b - cap) ↔ cap < a ∧ b < cap := by
  omega

/-- **The flag of a move**: an emergency, or one that only looks like it. -/
theorem emergency_iff (hd : input.hardware.Discovered) (hnodes : ∀ n ∈ input.hardware.nodes, 0 ≤ n)
    (h : Tracks input.hardware s loads) (ht : s.placement.find? t = some source) (hs : input.hardware.HasCpu source)
    (hc : c ∈ input.hardware.cpus) (hne : c.id ≠ source) :
    (moveEffect s input (adjacencyOf (s.edges.entries.map Prod.snd)) loads t source c).emergency = true ↔
      RealEmergency s input t c ∨ Hidden s input t c := by
  have hsource : s.placement.getD t 0 = source := by rw [OrdMap.getD, ht]; rfl
  have hpos : 0 ≤ cpuNode input.hardware source := hnodes _ (cpuNode_mem hd hs)
  have hslots : slotViolationOf (s.moved t c.id) input < slotViolationOf s input ↔
      cpuSlotCap input < placedOn s source ∧ (placedOn s c.id : Int) < cpuSlotCap input := by
    rw [slotViolationOf_moved hd h ht hs hc hne, ← slots_lowered_iff]
    omega
  unfold moveEffect
  dsimp only
  simp only [h.count, h.cpu, h.node]
  rw [Bool.or_eq_true, Bool.or_eq_true, Bool.or_eq_true, decide_eq_true_eq, decide_eq_true_eq, decide_eq_true_eq,
    slots_lowered_iff, if_pos hpos]
  unfold RealEmergency
  rw [hslots]
  by_cases hnode : cpuNode input.hardware source = c.node
  · have hno : ¬ BalanceEmergency s input t c := fun hb => hb.1 (by rw [hsource]; exact hnode)
    have hcross : (decide (0 ≤ cpuNode input.hardware source) && decide (cpuNode input.hardware source ≠ c.node)) = false := by
      simp [hnode]
    rw [overloadOf_moved_inside hd h ht hs hc hne hnode, hcross, if_neg (by simp), if_neg (not_not.2 hnode.symm)]
    unfold Hidden relief
    dsimp only
    rw [hsource, hnode, Bool.false_and, Bool.false_and, Bool.false_and]
    rw [hnode] at hpos
    generalize max 0 (loadOn s source - demandOf s t - 1) + max 0 (loadOn s c.id + demandOf s t - 1) = after
    generalize max 0 (loadOn s source - 1) + max 0 (loadOn s c.id - 1) = before
    have hroom : 0 ≤ max 0 (nodeLoadOn s input.hardware c.node - nodeCpuCount input.hardware c.node) := le_max_left _ _
    generalize max 0 (nodeLoadOn s input.hardware c.node - nodeCpuCount input.hardware c.node) = room at hroom ⊢
    constructor
    · rintro (((hneg | hslot) | hover) | hfalse)
      · omega
      · exact Or.inl (Or.inl hslot)
      · by_cases hslot : cpuSlotCap input < placedOn s source ∧ (placedOn s c.id : Int) < cpuSlotCap input
        · exact Or.inl (Or.inl hslot)
        · by_cases hreal : 1 / 10 ^ 12 < before - after
          · exact Or.inl (Or.inr (Or.inl (by linarith)))
          · exact Or.inr ⟨rfl, hslot, not_lt.1 hreal, by linarith⟩
      · cases hfalse
    · rintro ((hslot | hreal | hbalance) | ⟨-, -, -, hhidden⟩)
      · exact Or.inl (Or.inl (Or.inr hslot))
      · exact Or.inl (Or.inr (by linarith))
      · exact absurd hbalance hno
      · exact Or.inl (Or.inr (by linarith))
  · have hno : ¬ Hidden s input t c := fun hh => hnode (by rw [← hsource]; exact hh.1)
    have hcross : (decide (0 ≤ cpuNode input.hardware source) && decide (cpuNode input.hardware source ≠ c.node)) = true := by
      simp [hnode, hpos]
    rw [overloadOf_moved_across hd h ht hs hc hne hnode, hcross, if_pos rfl, if_pos (Ne.symm hnode),
      balanceEmergency_iff hd h ht hc hnode]
    unfold relief
    generalize max 0 (loadOn s source - demandOf s t - 1) + max 0 (loadOn s c.id + demandOf s t - 1) = after
    generalize max 0 (loadOn s source - 1) + max 0 (loadOn s c.id - 1) = before
    generalize max 0 (nodeLoadOn s input.hardware (cpuNode input.hardware source) -
      nodeCpuCount input.hardware (cpuNode input.hardware source)) = sourceBefore
    generalize max 0 (nodeLoadOn s input.hardware c.node - nodeCpuCount input.hardware c.node) = targetBefore
    generalize max 0 (nodeLoadOn s input.hardware (cpuNode input.hardware source) - demandOf s t -
      nodeCpuCount input.hardware (cpuNode input.hardware source)) = sourceAfter
    generalize max 0 (nodeLoadOn s input.hardware c.node + demandOf s t - nodeCpuCount input.hardware c.node) = targetAfter
    rw [if_pos rfl, Bool.true_and, Bool.and_eq_true, Bool.and_eq_true, decide_eq_true_eq, decide_eq_true_eq,
      decide_eq_true_eq, and_assoc]
    constructor
    · rintro (((hneg | hslot) | hover) | hbalance)
      · omega
      · exact Or.inl (Or.inl hslot)
      · exact Or.inl (Or.inr (Or.inl (by linarith)))
      · exact Or.inl (Or.inr (Or.inr hbalance))
    · rintro ((hslot | hreal | hbalance) | hhidden)
      · exact Or.inl (Or.inl (Or.inr hslot))
      · exact Or.inl (Or.inr (by linarith))
      · exact Or.inr hbalance
      · exact absurd hhidden hno

/-- What only looks like an emergency is none. -/
theorem Hidden.not_real (hd : input.hardware.Discovered) (h : Tracks input.hardware s loads)
    (ht : s.placement.find? t = some source) (hs : input.hardware.HasCpu source) (hc : c ∈ input.hardware.cpus)
    (hne : c.id ≠ source) (hh : Hidden s input t c) : ¬ RealEmergency s input t c := by
  have hsource : s.placement.getD t 0 = source := by rw [OrdMap.getD, ht]; rfl
  obtain ⟨hnode, hslots, hrelief, -⟩ := hh
  rw [hsource] at hnode hslots hrelief
  rintro (hreal | hreal | hreal)
  · rw [slotViolationOf_moved hd h ht hs hc hne] at hreal
    exact hslots ((slots_lowered_iff _ _ _).1 (by omega))
  · rw [overloadOf_moved_inside hd h ht hs hc hne hnode] at hreal
    linarith
  · exact hreal.1 (by rw [hsource]; exact hnode)

end Move

/-! ## Every thread is on a CPU of the envelope -/

/-- The placement and what waits to be committed are on the CPUs of the envelope. -/
structure Homed (hardware : HardwareGraph) (s : IncrementalSolver) : Prop where
  placed : ∀ t cpu, s.placement.find? t = some cpu → hardware.HasCpu cpu
  offered : ∀ p, s.outstanding = some p → ∀ a ∈ p.actions, hardware.HasCpu a.targetCpu

section Homed

variable {hardware : HardwareGraph} {s s' : IncrementalSolver} {input : IncrementalInput} {p : SolverProposal}

theorem Homed.new (hardware : HardwareGraph) (shadow : Bool) : Homed hardware { shadow := shadow } where
  placed t cpu h := by cases h
  offered p h := by cases h

theorem find?_placement_takenIn {t : Tid} {cpu : Int} (h : (takenIn s input).solver.placement.find? t = some cpu) :
    s.placement.find? t = some cpu := by
  revert h
  unfold takenIn
  refine Loop.foldl_keeps (fun st : Intake => st.solver.placement.find? t = some cpu → s.placement.find? t = some cpu)
    (fun st th hkeep h => hkeep ?_) _ ?_
  · have hforget : (forgetReused st.solver th.identity).placement.find? t = some cpu →
        st.solver.placement.find? t = some cpu := by
      rcases forgetReused_cases st.solver th.identity with ⟨he, -⟩ | ⟨he, -⟩
      · rw [he]
        exact id
      · rw [he]
        exact OrdMap.find?_of_erase
    unfold takeIn at h
    dsimp only at h
    split at h
    · exact hforget h
    · split at h <;> exact hforget h
  · refine dropStale_keeps (P := fun u => u.placement.find? t = some cpu → s.placement.find? t = some cpu)
      (fun u tid hkeep h => hkeep (OrdMap.find?_of_erase h)) _ _ id

/-- The intake places nobody. -/
theorem find?_placement_intake {t : Tid} {cpu : Int} (h : (intake s input).1.placement.find? t = some cpu) :
    s.placement.find? t = some cpu := by
  have hrec := records_intake s input
  unfold records at hrec
  simp only [Prod.mk.injEq] at hrec
  rw [hrec.2.2.1] at h
  exact find?_placement_takenIn h

/-- **A migration goes to a CPU of the envelope.** -/
theorem optimize_homed (hplaced : ∀ t cpu, s.placement.find? t = some cpu → input.hardware.HasCpu cpu)
    {proposal : SolverProposal} (hno : proposal.actions = []) {a : PlacementAction}
    (ha : a ∈ (optimize s input proposal).1.actions) : input.hardware.HasCpu a.targetCpu := by
  have hhome : ∀ {d : Dissatisfaction} {adjacency : OrdMap Tid (List RelationEdge)} {loads : Loads} {budget : Nat},
      d ∈ ranked s input adjacency loads budget → input.hardware.HasCpu (s.placement.getD d.tid 0) := by
    intro d adjacency loads budget hd
    obtain ⟨cpu, hcpu⟩ := OrdMap.mem_iff.1 (mem_ranked hd).2
    rw [OrdMap.getD, hcpu]
    exact hplaced _ _ hcpu
  unfold optimize at ha
  dsimp only at ha
  split at ha
  · rw [hno] at ha
    cases ha
  · rcases mem_select (show a ∈ (List.foldl (selectPotential s input _ proposal.migrationBudget)
      { loads := currentLoads s input.hardware } _).actions from ha) with h | ⟨x, hx, ha⟩
    · cases h
    · rcases mem_potentials hx with ⟨d, -, hx⟩ | ⟨⟨d, e⟩, hpair, hx⟩
      · unfold singleMove at hx
        obtain ⟨m, hm, rfl⟩ := Option.map_eq_some_iff.1 hx
        obtain ⟨c, hc, hm⟩ := List.mem_map.1 (List.mem_filter.1 (Community.minElement_mem hm)).1
        rw [List.mem_singleton] at ha
        subst ha hm
        have honline := (List.mem_filter.1 hc).2
        rw [Bool.and_eq_true] at honline
        exact ⟨c, (List.mem_filter.1 hc).1, rfl, honline.1⟩
      · obtain ⟨hd, he⟩ := mem_rankedPairs hpair
        rw [(pairSwap_some hx).2.1] at ha
        rcases List.mem_pair.1 ha with rfl | rfl
        · exact hhome he
        · exact hhome hd

theorem propose_homed (hd : input.hardware.Discovered) (hk : Kept input.hardware s) (hh : Homed input.hardware s)
    (h : propose s input = .ok (p, s')) : Homed input.hardware s' := by
  obtain hsame | ⟨hnone, hcpus, hphases⟩ := propose_cases h
  · rw [hsame.2]
    exact hh
  · obtain ⟨hib, his⟩ := intake_booked hd (cpus_ne_nil_of_online hcpus) hk.booked hk.settled
    have hout : (intake s input).1.outstanding = none := (intake_outstanding s input).trans hnone
    have hplaced : ∀ t cpu, (intake s input).1.placement.find? t = some cpu → input.hardware.HasCpu cpu :=
      fun t cpu hf => hh.placed t cpu (find?_placement_intake hf)
    rcases hphases with ⟨-, -, rfl⟩ | ⟨-, hr⟩ | ⟨hphase, hr⟩ | ⟨-, hr⟩
    · refine ⟨hplaced, fun q hq => ?_⟩
      rw [hout] at hq
      cases hq
    · obtain ⟨-, ho, -, -, hp, -⟩ := nodePlanning_same hr
      refine ⟨by rw [hp]; exact hplaced, fun q hq => ?_⟩
      rw [ho, hout] at hq
      cases hq
    · obtain ⟨hsame, ho⟩ := initialPinning_same hr
      dsimp only at hsame ho
      refine ⟨by rw [hsame]; exact hplaced, fun q hq a ha => ?_⟩
      rcases ho with ho | ho
      · rw [ho, hout] at hq
        cases hq
      · rw [ho] at hq
        cases hq
        obtain ⟨t, ht, -, -, -, htarget, -⟩ := initialPinning_actions hib hphase (intake_actions s input) hr ha
        have hbooked := (initialPinning_booked hib hphase hr).1
        have hphase' : s'.phase = .initialPinning := by rw [hsame]; exact hphase
        have ht' : t ∈ s'.threads := by rw [hsame]; exact ht
        obtain ⟨cpu, hcpu, hhas, -⟩ := hbooked.targets (Or.inl hphase') t ht'
        rw [htarget, OrdMap.getD, hcpu]
        exact hhas
    · have hsame := optimize_same (intake s input).1 input (intake s input).2
      have ho := optimize_outstanding (intake s input).1 input (intake s input).2
      have hhomed : ∀ a ∈ p.actions, input.hardware.HasCpu a.targetCpu := by
        intro a ha
        refine optimize_homed hplaced (intake_actions s input) ?_
        rw [hr]
        exact ha
      rw [hr] at hsame ho
      dsimp only at hsame ho
      refine ⟨by rw [hsame]; exact hplaced, fun q hq => ?_⟩
      rcases ho with ho | ho
      · rw [ho, hout] at hq
        cases hq
      · rw [ho] at hq
        cases hq
        exact hhomed

theorem committed_homed (nowNs : Nat) (tids : OrdSet Tid) : ∀ (actions : List PlacementAction) {s : IncrementalSolver},
    (∀ t cpu, s.placement.find? t = some cpu → hardware.HasCpu cpu) → (∀ a ∈ actions, hardware.HasCpu a.targetCpu) →
    ∀ t cpu, (committed s nowNs tids actions).placement.find? t = some cpu → hardware.HasCpu cpu
  | [], _, hs, _ => hs
  | a :: actions, s, hs, ha => by
    refine committed_homed nowNs tids actions (s := commitAction nowNs tids s a) (fun t cpu hf => ?_)
      (fun b hb => ha b (List.mem_cons_of_mem _ hb))
    unfold commitAction at hf
    dsimp only at hf
    split at hf
    · rw [OrdMap.find?_insert] at hf
      split at hf
      · cases hf
        exact ha a List.mem_cons_self
      · exact hs t cpu hf
    · exact hs t cpu hf

theorem Reachable.homed (hd : hardware.Discovered) (h : Reachable hardware s) : Homed hardware s := by
  refine (Reachable.induct hd (P := Homed hardware) (Homed.new hardware) (fun s call s' hk hh hp hstep => ?_) h).2
  cases call with
  | propose input =>
    obtain ⟨rfl, -⟩ := hp
    cases hr : s.propose input with
    | error e =>
      rw [step, hr] at hstep
      cases hstep
    | ok r =>
      rw [step, hr] at hstep
      cases hstep
      exact propose_homed hd hk hh hr
  | commit nowNs tids =>
    obtain ⟨p, hout, rfl⟩ := Option.map_eq_some_iff.1 hstep
    refine ⟨?_, fun q hq => ?_⟩
    · rw [placement_commit hout]
      exact committed_homed nowNs tids p.actions hh.placed (hh.offered p hout)
    · rw [commit_eq hout] at hq
      cases hq
  | discard =>
    obtain ⟨p, hout, rfl⟩ := Option.map_eq_some_iff.1 hstep
    unfold discard
    rw [if_pos (by rw [hout]; rfl)]
    exact ⟨hh.placed, fun q hq => by cases hq⟩
  | removeThread tid =>
    cases hstep
    exact ⟨fun t cpu hf => hh.placed t cpu (OrdMap.find?_of_erase hf), hh.offered⟩
  | reset =>
    cases hstep
    exact Homed.new hardware s.shadow

end Homed

/-! ## Every evaluation -/

section Main

variable {hardware : HardwareGraph} {s s' : IncrementalSolver} {input : IncrementalInput} {p : SolverProposal}

/-- An emergency among the choices is a single move whose flag is set. -/
theorem emergency_choice {budget : Nat} {x : Potential} (hx : x ∈ choices s input budget) (hem : x.emergency = true) :
    ∃ d c, d.tid ∈ s.threads ∧ d.tid ∈ s.placement ∧ c ∈ input.hardware.cpus ∧ c.id ≠ s.placement.getD d.tid 0 ∧
      x.actions = [moveAction s d (s.placement.getD d.tid 0) c.id true] ∧
      (moveEffect s input (adjacencyOf (s.edges.entries.map Prod.snd)) (currentLoads s input.hardware) d.tid
        (s.placement.getD d.tid 0) c).emergency = true := by
  rcases mem_potentials hx with ⟨d, hd, hx⟩ | ⟨⟨d, e⟩, -, hx⟩
  · unfold singleMove at hx
    obtain ⟨m, hm, rfl⟩ := Option.map_eq_some_iff.1 hx
    obtain ⟨c, hc, rfl⟩ := List.mem_map.1 (List.mem_filter.1 (Community.minElement_mem hm)).1
    obtain ⟨hcpu, htests⟩ := List.mem_filter.1 hc
    rw [Bool.and_eq_true, decide_eq_true_eq] at htests
    refine ⟨d, c, (mem_ranked hd).1, (mem_ranked hd).2, hcpu, htests.2, ?_, hem⟩
    dsimp only at hem ⊢
    rw [hem]
    rfl
  · -- a swap is never one
    unfold pairSwap at hx
    dsimp only at hx
    split at hx
    · cases hx
    · split at hx
      · cases hx
      · split at hx
        · cases hx
          cases hem
        · cases hx

/-- **When the emergencies are real**: the flag of a move says what it should exactly when the move is not one inside an
overloaded node that relieves nothing; and so an emergency among the choices is one exactly then. -/
theorem emergency_real_iff (hd : hardware.Discovered) (hnodes : ∀ n ∈ hardware.nodes, 0 ≤ n) (h : Reachable hardware s)
    (hin : input.hardware = hardware) (hnone : s.outstanding = none) (hr : propose s input = .ok (p, s'))
    (hphase : p.phase = .optimizing) :
    let window := (intake s input).1
    (∀ t ∈ window.threads, ∀ c ∈ hardware.cpus, c.id ≠ window.placement.getD t 0 →
      (((moveEffect window input (adjacencyOf (window.edges.entries.map Prod.snd)) (currentLoads window hardware) t
        (window.placement.getD t 0) c).emergency = true → RealEmergency window input t c) ↔ ¬ Hidden window input t c)) ∧
    ∀ x ∈ choices window input (intake s input).2.migrationBudget, x.emergency = true →
      ∃ a c, x.actions = [a] ∧ c ∈ hardware.cpus ∧ c.id = a.targetCpu ∧ c.id ≠ a.fromCpu ∧
        window.placement.find? a.identity.tid = some a.fromCpu ∧
        (RealEmergency window input a.identity.tid c ↔ ¬ Hidden window input a.identity.tid c) := by
  obtain ⟨hib, hplaced, -⟩ := optimizing_propose hd (h.kept hd) hin hnone hr hphase
  subst hin
  have hhomed : ∀ t cpu, (intake s input).1.placement.find? t = some cpu → input.hardware.HasCpu cpu :=
    fun t cpu hf => (h.homed hd).placed t cpu (find?_placement_intake hf)
  dsimp only
  generalize (intake s input).1 = window at hib hplaced hhomed ⊢
  have htracks := currentLoads_tracks hplaced input.hardware
  have hfind : ∀ t ∈ window.placement, window.placement.find? t = some (window.placement.getD t 0) := by
    intro t ht
    obtain ⟨cpu, hcpu⟩ := OrdMap.mem_iff.1 ht
    rw [OrdMap.getD, hcpu]
    rfl
  have hflag : ∀ t ∈ window.placement, ∀ c ∈ input.hardware.cpus, c.id ≠ window.placement.getD t 0 →
      ((moveEffect window input (adjacencyOf (window.edges.entries.map Prod.snd)) (currentLoads window input.hardware) t
        (window.placement.getD t 0) c).emergency = true ↔ RealEmergency window input t c ∨ Hidden window input t c) ∧
      (Hidden window input t c → ¬ RealEmergency window input t c) := by
    intro t ht c hc hne
    have hsource := hhomed t _ (hfind t ht)
    exact ⟨emergency_iff hd hnodes htracks (hfind t ht) hsource hc hne,
      Hidden.not_real hd htracks (hfind t ht) hsource hc hne⟩
  refine ⟨fun t ht c hc hne => ?_, fun x hx hem => ?_⟩
  · obtain ⟨hiff, hnot⟩ := hflag t ((hplaced t).1 ht) c hc hne
    exact ⟨fun hreal hh => hnot hh (hreal (hiff.2 (Or.inr hh))), fun hno he => (hiff.1 he).resolve_right hno⟩
  · obtain ⟨d, c, ht, hp, hc, hne, hactions, he⟩ := emergency_choice hx hem
    have htid : (moveAction window d (window.placement.getD d.tid 0) c.id true).identity.tid = d.tid := (hib.identityOf ht).2
    obtain ⟨hiff, hnot⟩ := hflag d.tid hp c hc hne
    refine ⟨_, c, hactions, hc, rfl, hne, ?_, ?_⟩
    · rw [htid]
      exact hfind d.tid hp
    · rw [htid]
      exact ⟨fun hreal hh => hnot hh hreal, fun hno => (hiff.1 he).resolve_right hno⟩

/-- Three threads that want nine tenths of a CPU each, on the two CPUs of one node. -/
def busyPair : List Call :=
  [.propose (cohort [1, 2, 3] (9 / 10)), .propose (cohort [1, 2, 3] (9 / 10)), .commit 1 ∅]

/-- The second of them has nearly gone to sleep. -/
def dozing : IncrementalInput :=
  { cohort [1, 2, 3] (9 / 10) with
    threads := [⟨⟨1, 1, 0⟩, "g", 9 / 10, 1, 0⟩, ⟨⟨1, 2, 0⟩, "g", 1 / 20, 1, 1⟩, ⟨⟨1, 3, 0⟩, "g", 9 / 10, 1, 0⟩] }

/-- What the move of thread 1 to the CPU of the second does to the window. -/
def dozingEffect (s : IncrementalSolver) : MoveEffect :=
  let window := (intake s dozing).1
  moveEffect window dozing (adjacencyOf (window.edges.entries.map Prod.snd)) (currentLoads window onePair) 1
    (window.placement.getD 1 0) ⟨1, 0, true⟩

/-- Two busy threads share a CPU and the other one is free again: the move apart is flagged, and it is an emergency. -/
theorem emergency_real_iff_dozing : onePair.Discovered ∧ (∀ n ∈ onePair.nodes, 0 ≤ n) ∧
    ∃ s p s', Run.exec step {} busyPair = some s ∧ propose s dozing = .ok (p, s') ∧ (dozingEffect s).emergency = true ∧
      RealEmergency (intake s dozing).1 dozing 1 ⟨1, 0, true⟩ := by
  have hobeys : Run.Obeys step (Protocol onePair) {} busyPair := by decide +kernel
  have hsome : (Run.exec step {} busyPair).any (fun s => s.outstanding.isNone &&
      (match propose s dozing with
        | .ok r => decide (r.1.phase = .optimizing ∧ 1 ∈ (intake s dozing).1.threads ∧
            1 ≠ (intake s dozing).1.placement.getD 1 0 ∧ (dozingEffect s).emergency = true ∧
            ¬ relief (intake s dozing).1 1 ((intake s dozing).1.placement.getD 1 0) 1 ≤ 1 / 10 ^ 12)
        | .error _ => false)) = true := by decide +kernel
  have hd : onePair.Discovered := ⟨by decide, by decide⟩
  have hnodes : ∀ n ∈ onePair.nodes, 0 ≤ n := by decide
  obtain ⟨s, hexec, hs⟩ := (Option.any_eq_true _ _).1 hsome
  rw [Bool.and_eq_true] at hs
  obtain ⟨hnone, hr⟩ := hs
  cases hp : propose s dozing with
  | error e =>
    rw [hp] at hr
    cases hr
  | ok r =>
    rw [hp] at hr
    obtain ⟨hphase, ht, hne, hflag, hrelief⟩ := of_decide_eq_true hr
    have hiff := (emergency_real_iff hd hnodes ⟨false, _, hobeys, hexec⟩ rfl
      (Option.isNone_iff_eq_none.1 hnone) hp hphase).1 1 ht ⟨1, 0, true⟩ (by decide) hne
    exact ⟨hd, hnodes, s, r.1, r.2, hexec, hp, hflag, hiff.2 (fun hh => hrelief hh.2.2.1) hflag⟩

/-- **A move for nothing that is flagged**: the node has more demand than CPUs, and moving a thread between its two CPUs
takes away no overload and no slot. -/
theorem emergency_for_nothing : onePair.Discovered ∧ (∀ n ∈ onePair.nodes, 0 ≤ n) ∧
    Run.Obeys step (Protocol onePair) {} busyPair ∧ ∃ s, Run.exec step {} busyPair = some s ∧ s.outstanding = none ∧
      ∃ p s', propose s (cohort [1, 2, 3] (9 / 10)) = .ok (p, s') ∧ p.phase = .optimizing ∧
        ∃ x ∈ choices (intake s (cohort [1, 2, 3] (9 / 10))).1 (cohort [1, 2, 3] (9 / 10)) p.migrationBudget,
          x.emergency = true ∧ x.actions.map (fun a => (a.identity.tid, a.fromCpu, a.targetCpu)) = [(1, 0, 1)] ∧
          ¬ RealEmergency (intake s (cohort [1, 2, 3] (9 / 10))).1 (cohort [1, 2, 3] (9 / 10)) 1 ⟨1, 0, true⟩ := by
  have hobeys : Run.Obeys step (Protocol onePair) {} busyPair := by decide +kernel
  have hsome : (Run.exec step {} busyPair).any (fun s => s.outstanding.isNone &&
      (match propose s (cohort [1, 2, 3] (9 / 10)) with
        | .ok r => decide (r.1.phase = .optimizing) &&
          (choices (intake s (cohort [1, 2, 3] (9 / 10))).1 (cohort [1, 2, 3] (9 / 10)) r.1.migrationBudget).any (fun x =>
            x.emergency && decide (x.actions.map (fun a => (a.identity.tid, a.fromCpu, a.targetCpu)) = [(1, 0, 1)] ∧
              ¬ RealEmergency (intake s (cohort [1, 2, 3] (9 / 10))).1 (cohort [1, 2, 3] (9 / 10)) 1 ⟨1, 0, true⟩))
        | .error _ => false)) = true := by decide +kernel
  obtain ⟨s, hexec, hs⟩ := (Option.any_eq_true _ _).1 hsome
  rw [Bool.and_eq_true] at hs
  obtain ⟨hnone, hr⟩ := hs
  refine ⟨⟨by decide, by decide⟩, by decide, hobeys, s, hexec, Option.isNone_iff_eq_none.1 hnone, ?_⟩
  cases hp : propose s (cohort [1, 2, 3] (9 / 10)) with
  | error e =>
    rw [hp] at hr
    cases hr
  | ok r =>
    rw [hp] at hr
    dsimp only at hr
    rw [Bool.and_eq_true] at hr
    obtain ⟨x, hx, hmove⟩ := List.any_eq_true.1 hr.2
    rw [Bool.and_eq_true] at hmove
    obtain ⟨hactions, hreal⟩ := of_decide_eq_true hmove.2
    exact ⟨r.1, r.2, rfl, of_decide_eq_true hr.1, x, hx, hmove.1, hactions, hreal⟩

end Main

end IncrementalSolver
end AffinityGraph
