import AffinityGraph.RelationCost
import AffinityGraph.SlotCap
/-!
# BatchLoads — what a migration batch does to the loads

The selection of a batch carries the loads of the CPUs and the nodes and the threads of each CPU along.  They are those of
the placement that the batch so far leads to (`Tracks`), so what the selection asks of each choice it asks of the placement
itself: no choice raises the slot violation, and none raises the overload by more than the tolerance.
-/
namespace AffinityGraph
namespace IncrementalSolver

/-! ## What a placement asks of the CPUs -/

/-- What the threads on a CPU demand. -/
def loadOn (s : IncrementalSolver) (cpu : Int) : ℚ :=
  ((s.placement.entries.filter (fun e => decide (e.2 = cpu))).map (fun e => demandOf s e.1)).sum

/-- What the threads on the CPUs of a node demand. -/
def nodeLoadOn (s : IncrementalSolver) (hardware : HardwareGraph) (node : Int) : ℚ :=
  ((s.placement.entries.filter (fun e => decide (cpuNode hardware e.2 = node))).map (fun e => demandOf s e.1)).sum

/-- The threads above the slot cap, over all CPUs. -/
def slotViolationOf (s : IncrementalSolver) (input : IncrementalInput) : Int :=
  (input.hardware.cpus.map (fun c => max 0 ((placedOn s c.id : Int) - cpuSlotCap input))).sum

/-- The demand above what they have, over all CPUs and all nodes. -/
def overloadOf (s : IncrementalSolver) (hardware : HardwareGraph) : ℚ :=
  (hardware.cpus.map (fun c => max 0 (loadOn s c.id - 1))).sum +
    (hardware.nodes.map (fun n => max 0 (nodeLoadOn s hardware n - nodeCpuCount hardware n))).sum

/-- The loads are those of the placement. -/
structure Tracks (hardware : HardwareGraph) (s : IncrementalSolver) (loads : Loads) : Prop where
  cpu : ∀ c, loads.onCpu c = loadOn s c
  count : ∀ c, loads.threadsOn c = placedOn s c
  node : ∀ n, loads.onNode n = nodeLoadOn s hardware n

section Placement

variable {s : IncrementalSolver} {hardware : HardwareGraph} {loads : Loads}

/-- A sum over the entries of a placement, thread by thread. -/
theorem sum_entries {M : Type*} [AddCommMonoid M] (m : OrdMap Tid Int) (P : Int → Prop) [DecidablePred P] (w : Tid → M) :
    ((m.entries.filter (fun e => decide (P e.2))).map (fun e => w e.1)).sum =
      ∑ t ∈ m.keys.toFinset, if P (m.getD t 0) then w t else 0 := by
  rw [List.sum_toFinset _ m.nodup_keys, OrdMap.keys, List.map_map]
  have hget : ∀ e ∈ m.entries, m.getD e.1 0 = e.2 := by
    intro e he
    rw [OrdMap.getD, OrdMap.mem_entries.1 (show (e.1, e.2) ∈ m.entries from he)]
    rfl
  have hlist : ∀ l : List (Tid × Int), (∀ e ∈ l, m.getD e.1 0 = e.2) →
      ((l.filter (fun e => decide (P e.2))).map (fun e => w e.1)).sum =
        (l.map ((fun t => if P (m.getD t 0) then w t else 0) ∘ Prod.fst)).sum := by
    intro l
    induction l with
    | nil => exact fun _ => rfl
    | cons e l ih =>
      intro hl
      have hrest := ih (fun x hx => hl x (List.mem_cons_of_mem _ hx))
      rw [List.filter_cons, List.map_cons, List.sum_cons, ← hrest, Function.comp_apply, hl e List.mem_cons_self]
      by_cases hp : P e.2
      · simp [hp]
      · simp [hp]
  exact hlist m.entries hget

theorem loadOn_eq (s : IncrementalSolver) (cpu : Int) :
    loadOn s cpu = Seating.weight s.placement.keys.toFinset (fun t => s.placement.getD t 0) (demandOf s) cpu :=
  sum_entries s.placement (· = cpu) (demandOf s)

theorem nodeLoadOn_eq (s : IncrementalSolver) (hardware : HardwareGraph) (node : Int) :
    nodeLoadOn s hardware node =
      Seating.weight s.placement.keys.toFinset (fun t => cpuNode hardware (s.placement.getD t 0)) (demandOf s) node :=
  sum_entries s.placement (fun cpu => cpuNode hardware cpu = node) (demandOf s)

theorem placedOn_eq (s : IncrementalSolver) (cpu : Int) :
    (placedOn s cpu : Int) =
      Seating.weight s.placement.keys.toFinset (fun t => s.placement.getD t 0) (fun _ => (1 : Int)) cpu := by
  unfold placedOn Seating.weight
  rw [← sum_entries s.placement (· = cpu) (fun _ => (1 : Int)), List.countP_eq_length_filter]
  simp

theorem keys_insert_of_mem {m : OrdMap Tid Int} {t : Tid} (ht : t ∈ m) (cpu : Int) :
    (m.insert t cpu).keys.toFinset = m.keys.toFinset := by
  ext u
  rw [List.mem_toFinset, List.mem_toFinset, OrdMap.mem_keys, OrdMap.mem_keys, OrdMap.mem_insert]
  constructor
  · rintro (rfl | hu)
    · exact ht
    · exact hu
  · exact Or.inr

/-! ### The loads of the window -/

/-- What a loop that adds up per key leaves under a key. -/
theorem getD_foldl_update {α M : Type} [AddCommMonoid M] (key : α → Int) (amount : α → M) (k : Int) :
    ∀ (l : List α) (m : OrdMap Int M), (l.foldl (fun m e => m.update (key e) 0 (· + amount e)) m).getD k 0 =
      m.getD k 0 + (l.map (fun e => if key e = k then amount e else 0)).sum
  | [], m => by simp
  | e :: l, m => by
    rw [List.foldl_cons, getD_foldl_update key amount k l, List.map_cons, List.sum_cons, OrdMap.update, OrdMap.getD_insert]
    by_cases hk : key e = k
    · rw [if_pos hk, if_pos hk, hk, add_assoc]
    · rw [if_neg hk, if_neg hk, zero_add]

theorem foldl_add_eq (s : IncrementalSolver) (hardware : HardwareGraph) : ∀ (l : List (Tid × ThreadDemand)) (loads : Loads),
    l.foldl (fun loads e => loads.add hardware (homeCpu s e.1) e.2.demand) loads =
      { cpuLoad := l.foldl (fun m e => m.update (homeCpu s e.1) 0 (· + e.2.demand)) loads.cpuLoad
        cpuCount := l.foldl (fun m e => m.update (homeCpu s e.1) 0 (· + 1)) loads.cpuCount
        nodeLoad := l.foldl (fun m e => m.update (cpuNode hardware (homeCpu s e.1)) 0 (· + e.2.demand)) loads.nodeLoad }
  | [], _ => rfl
  | e :: l, loads => foldl_add_eq s hardware l (loads.add hardware (homeCpu s e.1) e.2.demand)

/-- A sum over the threads of a solver that has placed them all. -/
theorem sum_threads {M : Type*} [AddCommGroup M] (hsame : ∀ t, t ∈ s.threads ↔ t ∈ s.placement) (seat : Int → Int)
    (w : Tid → M) (amount : Tid × ThreadDemand → M) (hw : ∀ e ∈ s.threads.entries, amount e = w e.1) (k : Int) :
    (s.threads.entries.map (fun e => if seat (homeCpu s e.1) = k then amount e else 0)).sum =
      Seating.weight s.placement.keys.toFinset (fun t => seat (s.placement.getD t 0)) w k := by
  have hkeys : s.placement.keys.toFinset = s.threads.keys.toFinset := by
    ext t
    rw [List.mem_toFinset, List.mem_toFinset, OrdMap.mem_keys, OrdMap.mem_keys, hsame]
  have hhome : ∀ t ∈ s.threads, homeCpu s t = s.placement.getD t 0 := by
    intro t ht
    obtain ⟨cpu, hcpu⟩ := OrdMap.mem_iff.1 ((hsame t).1 ht)
    simp [homeCpu, OrdMap.getD, hcpu]
  rw [Seating.weight, hkeys, List.sum_toFinset _ s.threads.nodup_keys, OrdMap.keys, List.map_map]
  congr 1
  refine List.map_congr_left (fun e he => ?_)
  have hmem : e.1 ∈ s.threads := OrdMap.mem_of_find (OrdMap.mem_entries.1 (show (e.1, e.2) ∈ _ from he))
  rw [Function.comp_apply, hhome e.1 hmem, hw e he]

/-- **The loads a window starts from.** -/
theorem currentLoads_tracks (hsame : ∀ t, t ∈ s.threads ↔ t ∈ s.placement) (hardware : HardwareGraph) :
    Tracks hardware s (currentLoads s hardware) := by
  have hdemand : ∀ e ∈ s.threads.entries, e.2.demand = demandOf s e.1 := by
    intro e he
    unfold demandOf
    rw [OrdMap.mem_entries.1 (show (e.1, e.2) ∈ s.threads.entries from he)]
    rfl
  unfold currentLoads
  rw [foldl_add_eq]
  refine ⟨fun c => ?_, fun c => ?_, fun n => ?_⟩
  · unfold Loads.onCpu
    rw [getD_foldl_update, loadOn_eq]
    exact (zero_add _).trans (sum_threads hsame id (demandOf s) (fun e => e.2.demand) hdemand c)
  · unfold Loads.threadsOn
    rw [getD_foldl_update, placedOn_eq]
    exact (zero_add _).trans (sum_threads hsame id (fun _ => 1) (fun _ => 1) (fun _ _ => rfl) c)
  · unfold Loads.onNode
    rw [getD_foldl_update, nodeLoadOn_eq]
    exact (zero_add _).trans (sum_threads hsame (cpuNode hardware) (demandOf s) (fun e => e.2.demand) hdemand n)

/-! ### One move -/

theorem getD_update_update {M : Type} [AddCommGroup M] (m : OrdMap Int M) (source target : Int) (amount : M) (x : Int) :
    ((m.update source 0 (· - amount)).update target 0 (· + amount)).getD x 0 =
      m.getD x 0 - (if source = x then amount else 0) + (if target = x then amount else 0) := by
  unfold OrdMap.update
  rw [OrdMap.getD_insert, OrdMap.getD_insert, OrdMap.getD_insert]
  by_cases ht : target = x
  · subst ht
    by_cases hs : source = target
    · simp [hs]
    · simp [hs]
  · by_cases hs : source = x
    · subst hs
      simp [ht]
    · simp [ht, hs]

theorem Loads.onCpu_move (l : Loads) (hardware : HardwareGraph) (demand : ℚ) (source target x : Int) :
    (l.move hardware demand source target).onCpu x =
      l.onCpu x - (if source = x then demand else 0) + (if target = x then demand else 0) :=
  getD_update_update l.cpuLoad source target demand x

theorem Loads.threadsOn_move (l : Loads) (hardware : HardwareGraph) (demand : ℚ) (source target x : Int) :
    (l.move hardware demand source target).threadsOn x =
      l.threadsOn x - (if source = x then 1 else 0) + (if target = x then 1 else 0) :=
  getD_update_update l.cpuCount source target 1 x

theorem Loads.onNode_move (l : Loads) (hardware : HardwareGraph) (demand : ℚ) (source target x : Int) :
    (l.move hardware demand source target).onNode x = l.onNode x - (if cpuNode hardware source = x then demand else 0) +
      (if cpuNode hardware target = x then demand else 0) := by
  unfold Loads.move Loads.onNode
  dsimp only
  split
  · rename_i hsame
    rw [hsame, sub_add_cancel]
  · exact getD_update_update l.nodeLoad _ _ demand x

/-- The solver with one thread on another CPU. -/
def moved (s : IncrementalSolver) (t : Tid) (cpu : Int) : IncrementalSolver :=
  { s with placement := s.placement.insert t cpu }

/-- **A thread that moves takes its load along.** -/
theorem Tracks.move (h : Tracks hardware s loads) {t : Tid} {source : Int} (ht : s.placement.find? t = some source)
    (target : Int) : Tracks hardware (s.moved t target) (loads.move hardware (demandOf s t) source target) := by
  have hmem : t ∈ s.placement := OrdMap.mem_of_find ht
  have hin : t ∈ s.placement.keys.toFinset := List.mem_toFinset.2 (OrdMap.mem_keys.2 hmem)
  have hsource : s.placement.getD t 0 = source := by rw [OrdMap.getD, ht]; rfl
  have hkeys : (s.moved t target).placement.keys.toFinset = s.placement.keys.toFinset := keys_insert_of_mem hmem target
  have hseat : ∀ u ∈ s.placement.keys.toFinset, u ≠ t →
      (s.moved t target).placement.getD u 0 = s.placement.getD u 0 := by
    intro u _ hu
    show (s.placement.insert t target).getD u 0 = _
    rw [OrdMap.getD_insert, if_neg (Ne.symm hu)]
  have htarget : (s.moved t target).placement.getD t 0 = target := by
    show (s.placement.insert t target).getD t 0 = _
    rw [OrdMap.getD_insert, if_pos rfl]
  have hdemand : demandOf (s.moved t target) = demandOf s := rfl
  refine ⟨fun c => ?_, fun c => ?_, fun n => ?_⟩
  · rw [loadOn_eq, hkeys, hdemand, Seating.weight_moved (demandOf s) hin hseat, ← loadOn_eq, Loads.onCpu_move, h.cpu,
      hsource, htarget]
  · rw [placedOn_eq, hkeys, Seating.weight_moved (fun _ => (1 : Int)) hin hseat, ← placedOn_eq, Loads.threadsOn_move,
      h.count, hsource, htarget]
  · rw [nodeLoadOn_eq, hkeys, hdemand, Seating.weight_moved (demandOf s) hin
      (fun u hu hne => congrArg (cpuNode hardware) (hseat u hu hne)), ← nodeLoadOn_eq, Loads.onNode_move, h.node, hsource,
      htarget]

/-- The demands and the placement decide everything that is added up. -/
theorem Tracks.congr {s' : IncrementalSolver} (h : Tracks hardware s loads) (ht : s'.threads = s.threads)
    (hp : s'.placement = s.placement) : Tracks hardware s' loads := by
  have hdemand : demandOf s' = demandOf s := by
    unfold demandOf
    rw [ht]
  refine ⟨fun c => ?_, fun c => ?_, fun n => ?_⟩
  · rw [h.cpu, loadOn, loadOn, hp, hdemand]
  · rw [h.count, placedOn, placedOn, hp]
  · rw [h.node, nodeLoadOn, nodeLoadOn, hp, hdemand]

theorem Tracks.slotViolation {input : IncrementalInput} (h : Tracks hardware s loads) :
    loads.slotViolation input = slotViolationOf s input := by
  unfold Loads.slotViolation slotViolationOf
  congr 1
  exact List.map_congr_left (fun c _ => by rw [h.count])

theorem Tracks.overload (h : Tracks hardware s loads) : loads.overload hardware = overloadOf s hardware := by
  unfold Loads.overload overloadOf
  congr 2
  · exact List.map_congr_left (fun c _ => by rw [h.cpu])
  · exact List.map_congr_left (fun n _ => by rw [h.node])

end Placement

/-! ## The selection -/

/-- The solver with some actions made. -/
def acted (s : IncrementalSolver) (actions : List PlacementAction) : IncrementalSolver :=
  { s with placement := applyActions s.placement actions }

section Selection

variable {s : IncrementalSolver} {input : IncrementalInput} {budget : Nat}

/-- A potential's threads are different ones, each moved from where it is. -/
structure Sourced (s : IncrementalSolver) (x : Potential) : Prop where
  distinct : (x.actions.map (·.identity.tid)).Nodup
  source : ∀ a ∈ x.actions, s.placement.find? a.identity.tid = some a.fromCpu

theorem sourced_of_mem {hardware : HardwareGraph} (hb : Booked hardware s) {x : Potential}
    (h : x ∈ choices s input budget) : Sourced s x := by
  have hone : ∀ {d : Dissatisfaction}, d ∈ ranked s input (adjacencyOf (s.edges.entries.map Prod.snd))
      (currentLoads s input.hardware) budget → ∀ target emergency,
      (moveAction s d (s.placement.getD d.tid 0) target emergency).identity.tid = d.tid ∧
      s.placement.find? d.tid = some (s.placement.getD d.tid 0) := by
    intro d hd target emergency
    obtain ⟨ht, hp⟩ := mem_ranked hd
    obtain ⟨cpu, hcpu⟩ := OrdMap.mem_iff.1 hp
    refine ⟨(hb.identityOf ht).2, ?_⟩
    rw [OrdMap.getD, hcpu]
    rfl
  rcases mem_potentials h with ⟨d, hd, hx⟩ | ⟨⟨d, e⟩, hpair, hx⟩
  · unfold singleMove at hx
    obtain ⟨m, -, rfl⟩ := Option.map_eq_some_iff.1 hx
    refine ⟨List.nodup_singleton _, fun a ha => ?_⟩
    rw [List.mem_singleton] at ha
    subst ha
    rw [(hone hd m.cpu m.emergency).1]
    exact (hone hd m.cpu m.emergency).2
  · obtain ⟨hd, he⟩ := mem_rankedPairs hpair
    obtain ⟨hne, hactions, -, -⟩ := pairSwap_some hx
    have h₁ := hone hd (s.placement.getD e.tid 0) false
    have h₂ := hone he (s.placement.getD d.tid 0) false
    refine ⟨?_, fun a ha => ?_⟩
    · rw [hactions]
      simp only [List.map_cons, List.map_nil, List.nodup_cons, List.mem_singleton, List.not_mem_nil, not_false_eq_true,
        List.nodup_nil, and_true]
      rw [h₁.1, h₂.1]
      intro hsame
      exact hne (by rw [hsame])
    · rw [hactions] at ha
      rcases List.mem_pair.1 ha with rfl | rfl
      · rw [h₁.1]
        exact h₁.2
      · rw [h₂.1]
        exact h₂.2

/-- The loads follow the actions of a potential. -/
theorem Tracks.actions {hardware : HardwareGraph} : ∀ {actions : List PlacementAction} {s : IncrementalSolver}
    {loads : Loads}, Tracks hardware s loads → (actions.map (·.identity.tid)).Nodup →
    (∀ a ∈ actions, s.placement.find? a.identity.tid = some a.fromCpu) → Tracks hardware (s.acted actions)
      (actions.foldl (fun (l : Loads) a => l.move hardware (demandOf s a.identity.tid) a.fromCpu a.targetCpu) loads)
  | [], s, loads, h, _, _ => h
  | a :: actions, s, loads, h, hn, hs => by
    rw [List.map_cons, List.nodup_cons] at hn
    refine Tracks.actions (s := s.moved a.identity.tid a.targetCpu) (h.move (hs a List.mem_cons_self) a.targetCpu) hn.2
      (fun b hb => ?_)
    have hne : a.identity.tid ≠ b.identity.tid := fun he => hn.1 (he ▸ List.mem_map_of_mem hb)
    exact (OrdMap.find?_insert_ne _ _ hne).trans (hs b (List.mem_cons_of_mem _ hb))

/-- **One turn of the selection, unpacked**: the choice is passed over, or it is taken, and then it is an emergency or
confirmed, is of other threads than the batch, and leaves the capacities no worse. -/
theorem selects_cases (s : IncrementalSolver) (input : IncrementalInput) (budget : Nat) (st : Batch) (x : Potential) :
    selects s input budget st x = st ∨
    ((selects s input budget st x).actions = st.actions ++ x.actions ∧
      (selects s input budget st x).loads = x.actions.foldl (fun (l : Loads) a =>
        l.move input.hardware (demandOf s a.identity.tid) a.fromCpu a.targetCpu) st.loads ∧
      (x.emergency = true ∨
        input.options.proposalConfirmations ≤ (nextConfirmations s (choices s input budget)).getD x.key 0) ∧
      (∀ a ∈ x.actions, ∀ b ∈ st.actions, b.identity.tid ≠ a.identity.tid) ∧
      (selects s input budget st x).loads.slotViolation input ≤ st.loads.slotViolation input ∧
      (selects s input budget st x).loads.overload input.hardware ≤ st.loads.overload input.hardware + 1 / 10 ^ 12) := by
  unfold selects selectPotential
  dsimp only
  split
  · exact Or.inl rfl
  · rename_i hconfirmed
    split
    · exact Or.inl rfl
    · split
      · exact Or.inl rfl
      · rename_i hconflict
        split
        · exact Or.inl rfl
        · rename_i hworse
          rw [not_or, not_or] at hworse
          refine Or.inr ⟨rfl, rfl, ?_, fun a ha b hb he => hconflict ?_, not_lt.1 hworse.1, not_lt.1 hworse.2.1⟩
          · cases hem : x.emergency with
            | true => exact Or.inl rfl
            | false => exact Or.inr (not_lt.1 (fun hlt => hconfirmed ⟨hem, hlt⟩))
          · exact List.any_eq_true.2 ⟨a, ha, List.any_eq_true.2 ⟨b, hb, decide_eq_true he⟩⟩

/-- What the turns of a selection have done to a batch. -/
structure Selected (s : IncrementalSolver) (input : IncrementalInput) (budget : Nat) (chosen : List Potential)
    (st st' : Batch) : Prop where
  actions : st'.actions = st.actions ++ chosen.flatMap (·.actions)
  confirmed : ∀ x ∈ chosen, x.emergency = true ∨
    input.options.proposalConfirmations ≤ (nextConfirmations s (choices s input budget)).getD x.key 0
  tracks : Tracks input.hardware (s.acted st'.actions) st'.loads
  slots : st'.loads.slotViolation input ≤ st.loads.slotViolation input
  overload : st'.loads.overload input.hardware ≤ st.loads.overload input.hardware + chosen.length * (1 / 10 ^ 12)

theorem acted_append (s : IncrementalSolver) (l₁ l₂ : List PlacementAction) :
    s.acted (l₁ ++ l₂) = (s.acted l₁).acted l₂ := by
  unfold acted
  rw [applyActions_append]

/-- **The turns of a selection.** -/
theorem selects_foldl : ∀ (turns : List Potential) (st : Batch), (∀ x ∈ turns, Sourced s x) →
    Tracks input.hardware (s.acted st.actions) st.loads →
    ∃ chosen, chosen.Sublist turns ∧ Selected s input budget chosen st (turns.foldl (selects s input budget) st)
  | [], st, _, h => by
    refine ⟨[], List.Sublist.refl _, ?_, fun x hx => ?_, h, le_refl _, ?_⟩
    · simp
    · cases hx
    · simp
  | x :: turns, st, hs, h => by
    have hx := hs x List.mem_cons_self
    have hrest : ∀ y ∈ turns, Sourced s y := fun y hy => hs y (List.mem_cons_of_mem _ hy)
    rw [List.foldl_cons]
    rcases selects_cases s input budget st x with he | ⟨hactions, hloads, hconfirmed, hnew, hslots, hover⟩
    · rw [he]
      obtain ⟨chosen, hsub, hsel⟩ := selects_foldl turns st hrest h
      exact ⟨chosen, hsub.trans (List.sublist_cons_self x turns), hsel⟩
    · have htracks : Tracks input.hardware (s.acted (selects s input budget st x).actions)
          (selects s input budget st x).loads := by
        rw [hactions, hloads, acted_append]
        refine h.actions hx.distinct (fun a ha => ?_)
        exact (find?_applyActions (hnew a ha)).trans (hx.source a ha)
      obtain ⟨chosen, hsub, hsel⟩ := selects_foldl turns (selects s input budget st x) hrest htracks
      refine ⟨x :: chosen, hsub.cons_cons x, ?_, ?_, hsel.tracks, hsel.slots.trans hslots, ?_⟩
      · rw [hsel.actions, hactions, List.flatMap_cons, List.append_assoc]
      · intro y hy
        rcases List.mem_cons.1 hy with rfl | hy
        · exact hconfirmed
        · exact hsel.confirmed y hy
      · refine hsel.overload.trans ?_
        rw [List.length_cons, Nat.cast_succ]
        linarith

/-- The selection of a window, from the placement it found. -/
theorem selection_chosen (input : IncrementalInput) (budget : Nat) {hardware : HardwareGraph} (hb : Booked hardware s)
    (hsame : ∀ t, t ∈ s.threads ↔ t ∈ s.placement) {turns : List Potential} (hturns : turns ⊆ choices s input budget) :
    ∃ chosen, chosen.Sublist turns ∧
      Selected s input budget chosen { loads := currentLoads s input.hardware } (selection s input budget turns) :=
  selects_foldl turns { loads := currentLoads s input.hardware } (fun _ hx => sourced_of_mem hb (hturns hx))
    (currentLoads_tracks hsame input.hardware)

end Selection

/-! ## Every run -/

section Main

variable {hardware : HardwareGraph} {s s' : IncrementalSolver} {input : IncrementalInput} {p : SolverProposal}

/-- A commit of every action makes them all. -/
theorem placement_commit_all {nowNs : Nat} {tids : OrdSet Tid} {p : SolverProposal} (h : s.outstanding = some p)
    (hall : ∀ a ∈ p.actions, commits tids a.identity.tid = true) :
    (s.commit p nowNs tids).placement = (s.acted p.actions).placement := by
  have hfold : ∀ (actions : List PlacementAction) (s : IncrementalSolver),
      (∀ a ∈ actions, commits tids a.identity.tid = true) →
      (actions.foldl (commitAction nowNs tids) s).placement = applyActions s.placement actions := by
    intro actions
    induction actions with
    | nil => exact fun s _ => rfl
    | cons a actions ih =>
      intro s hs
      rw [List.foldl_cons, ih _ (fun b hb => hs b (List.mem_cons_of_mem _ hb))]
      unfold commitAction
      dsimp only
      rw [if_pos (hs a List.mem_cons_self)]
      rfl
  rw [placement_commit h]
  exact hfold p.actions s hall

/-- The commit of a whole proposal, also of one that had nothing to offer. -/
theorem commit_acted {window : IncrementalSolver} (nowNs : Nat) {tids : OrdSet Tid}
    (hall : ∀ a ∈ p.actions, commits tids a.identity.tid = true) (hthreads : s.threads = window.threads)
    (hplacement : s.placement = window.placement) (hout : s.outstanding = some p ∨ s.outstanding = none ∧ p.actions = []) :
    (s.commit p nowNs tids).threads = (window.acted p.actions).threads ∧
    (s.commit p nowNs tids).placement = (window.acted p.actions).placement := by
  rcases hout with hout | ⟨hout, hnil⟩
  · refine ⟨(identities_commit hout nowNs tids).1.trans hthreads, ?_⟩
    · rw [placement_commit_all hout hall]
      unfold acted
      rw [hplacement]
  · have hsame : s.commit p nowNs tids = s := by
      unfold commit
      rw [hout, if_neg (by simp)]
    rw [hsame, hnil]
    exact ⟨hthreads, hplacement⟩

/-- **A proposal of the optimizing phase, unpacked**: the threads are all placed, and its actions are those of the
selection. -/
theorem optimizing_propose (hd : hardware.Discovered) (hk : Kept hardware s) (hin : input.hardware = hardware)
    (hnone : s.outstanding = none) (hr : propose s input = .ok (p, s')) (hphase : p.phase = .optimizing) :
    Booked hardware (intake s input).1 ∧
    (∀ t, t ∈ (intake s input).1.threads ↔ t ∈ (intake s input).1.placement) ∧
    s'.threads = (intake s input).1.threads ∧ s'.placement = (intake s input).1.placement ∧
    (s'.outstanding = some p ∨ s'.outstanding = none ∧ p.actions = []) ∧
    p.actions = (selection (intake s input).1 input (intake s input).2.migrationBudget
      (choices (intake s input).1 input (intake s input).2.migrationBudget)).actions := by
  subst hin
  obtain hout | ⟨-, hcpus, hphases⟩ := propose_cases hr
  · rw [hnone] at hout
    cases hout.1
  obtain ⟨hib, his⟩ := intake_booked hd (cpus_ne_nil_of_online hcpus) hk.booked hk.settled
  have hclosed : (intake s input).1.outstanding = none := (intake_outstanding s input).trans hnone
  rcases hphases with ⟨-, rfl, -⟩ | ⟨-, hr⟩ | ⟨-, hr⟩ | ⟨hopt, hr⟩
  · cases hphase
  · exact absurd hphase (nodePlanning_phase hr)
  · rw [(initialPinning_header hr).1] at hphase
    cases hphase
  · have hsame := optimize_same (intake s input).1 input (intake s input).2
    have hplaced : ∀ t, t ∈ (intake s input).1.threads ↔ t ∈ (intake s input).1.placement :=
      fun t => ⟨his hopt t, hib.placed t⟩
    have hactions : p.actions = (selection (intake s input).1 input (intake s input).2.migrationBudget
        (choices (intake s input).1 input (intake s input).2.migrationBudget)).actions ∧
        (s'.outstanding = some p ∨ s'.outstanding = none ∧ p.actions = []) := by
      by_cases hzero : (intake s input).2.migrationBudget = 0
      · unfold optimize at hr
        dsimp only at hr
        rw [if_pos hzero] at hr
        cases hr
        rw [hzero, choices_zero]
        exact ⟨rfl, Or.inr ⟨hclosed, rfl⟩⟩
      · have hsel : (optimize (intake s input).1 input (intake s input).2).1.actions = _ := (optimize_selection hzero).1
        rw [hr] at hsel
        refine ⟨hsel, ?_⟩
        unfold optimize at hr
        dsimp only at hr
        rw [if_neg hzero] at hr
        unfold offer at hr
        dsimp only at hr
        split at hr
        · cases hr
          exact Or.inl rfl
        · rename_i hready
          cases hr
          exact Or.inr ⟨hclosed, by simpa using hready⟩
    rw [hr] at hsame
    dsimp only at hsame
    refine ⟨hib, hplaced, ?_, ?_, hactions.2, hactions.1⟩
    · rw [hsame]
    · rw [hsame]

/-- **A migration batch keeps the capacities**: committing all of it raises the slot violation by nothing and the overload
by no more than the tolerance for each move or swap taken, and at every turn the loads that the selection carries along are
those of the placement that the batch so far leads to. -/
theorem batch_keeps_capacity (hd : hardware.Discovered) (h : Reachable hardware s) (hin : input.hardware = hardware)
    (hnone : s.outstanding = none) (hr : propose s input = .ok (p, s')) (hphase : p.phase = .optimizing) (nowNs : Nat)
    {tids : OrdSet Tid} (hall : ∀ a ∈ p.actions, commits tids a.identity.tid = true) :
    let window := (intake s input).1
    let budget := (intake s input).2.migrationBudget
    slotViolationOf (s'.commit p nowNs tids) input ≤ slotViolationOf s' input ∧
    (∃ chosen : List Potential, chosen.Sublist (choices window input budget) ∧ p.actions = chosen.flatMap (·.actions) ∧
      overloadOf (s'.commit p nowNs tids) hardware ≤ overloadOf s' hardware + chosen.length * (1 / 10 ^ 12)) ∧
    Tracks hardware (s'.commit p nowNs tids) (selection window input budget (choices window input budget)).loads ∧
    ∀ turns later, choices window input budget = turns ++ later →
      Tracks hardware (s'.acted (selection window input budget turns).actions) (selection window input budget turns).loads := by
  obtain ⟨hib, hplaced, hthreads, hplacement, hout, hactions⟩ := optimizing_propose hd (h.kept hd) hin hnone hr hphase
  subst hin
  dsimp only
  generalize (intake s input).1 = window at hib hplaced hthreads hplacement hactions ⊢
  generalize (intake s input).2.migrationBudget = budget at hactions ⊢
  have hcommitted := commit_acted nowNs hall hthreads hplacement hout
  obtain ⟨chosen, hsub, hsel⟩ := selection_chosen input budget hib hplaced (List.Subset.refl _)
  have hstart := currentLoads_tracks hplaced input.hardware
  have htracks := hsel.tracks
  rw [← hactions] at htracks
  refine ⟨?_, ⟨chosen, hsub, ?_, ?_⟩, ?_, fun turns later hsplit => ?_⟩
  · rw [← (htracks.congr hcommitted.1 hcommitted.2).slotViolation, ← (hstart.congr hthreads hplacement).slotViolation]
    exact hsel.slots
  · rw [hactions, hsel.actions, List.nil_append]
  · rw [← (htracks.congr hcommitted.1 hcommitted.2).overload, ← (hstart.congr hthreads hplacement).overload]
    exact hsel.overload
  · exact htracks.congr hcommitted.1 hcommitted.2
  · have hturns : turns ⊆ choices window input budget := fun x hx => by rw [hsplit]; exact List.mem_append_left _ hx
    obtain ⟨_, _, hsel'⟩ := selection_chosen input budget hib hplaced hturns
    refine hsel'.tracks.congr hthreads ?_
    unfold acted
    rw [hplacement]

/-- The chain of three: thread 2 moves to its neighbour, and no CPU is above its cap or its capacity. -/
theorem batch_keeps_capacity_chain : ∃ s p s', Run.exec step {} (chainRun (1 / 3)) = some s ∧
    propose s (chain (1 / 3) chainEdges) = .ok (p, s') ∧
    p.actions.map (fun a => (a.identity.tid, a.fromCpu, a.targetCpu)) = [(2, 1, 2)] ∧
    slotViolationOf (s'.commit p 2) (chain (1 / 3) chainEdges) ≤ slotViolationOf s' (chain (1 / 3) chainEdges) := by
  have hobeys : Run.Obeys step (Protocol threeNodes) {} (chainRun (1 / 3)) := by decide +kernel
  have hsome : (Run.exec step {} (chainRun (1 / 3))).any (fun s => s.outstanding.isNone &&
      (match propose s (chain (1 / 3) chainEdges) with
        | .ok r => decide (r.1.phase = .optimizing ∧
            r.1.actions.map (fun a => (a.identity.tid, a.fromCpu, a.targetCpu)) = [(2, 1, 2)])
        | .error _ => false)) = true := by decide +kernel
  obtain ⟨s, hexec, hs⟩ := (Option.any_eq_true _ _).1 hsome
  rw [Bool.and_eq_true] at hs
  obtain ⟨hnone, hr⟩ := hs
  cases hp : propose s (chain (1 / 3) chainEdges) with
  | error e =>
    rw [hp] at hr
    cases hr
  | ok r =>
    rw [hp] at hr
    obtain ⟨hphase, hactions⟩ := of_decide_eq_true hr
    exact ⟨s, r.1, r.2, hexec, hp, hactions, (batch_keeps_capacity threeNodes_discovered ⟨false, _, hobeys, hexec⟩ rfl
      (Option.isNone_iff_eq_none.1 hnone) hp hphase 2 (fun _ _ => rfl)).1⟩

end Main

end IncrementalSolver
end AffinityGraph
