import AffinityGraph.IncrementalReach
/-!
# SlotCap — the slots of the CPUs through the pinning batches

`projected_count` is the number of threads that stay on a CPU once the batch has left its sources, and grows by one with
every thread the batch puts there.  A thread is only put where a slot is free, so a batch fits exactly when the free slots
are at least as many as its threads, and a CPU that receives one ends at or below the cap.
-/
namespace AffinityGraph
namespace IncrementalSolver

/-! ## Counting -/

/-- The threads placed on a CPU. -/
def placedOn (s : IncrementalSolver) (cpu : Int) : Nat := s.placement.entries.countP (fun e => decide (e.2 = cpu))

/-- The threads of a set that a placement has on a CPU. -/
def seatedOn (placement : OrdMap Tid Int) (T : Finset Tid) (cpu : Int) : Finset Tid :=
  T.filter (fun t => placement.find? t = some cpu)

/-- The slots the CPUs have left. -/
def freeSlots (input : IncrementalInput) (p : Projected) : Int :=
  (input.hardware.cpus.map (fun c => max 0 (cpuSlotCap input - p.threadsOn c.id))).sum

section Counting

variable {s : IncrementalSolver} {placement : OrdMap Tid Int} {p : Projected} {cpu x : Int}

theorem countP_entries (m : OrdMap Tid Int) (cpu : Int) :
    m.entries.countP (fun e => decide (e.2 = cpu)) = (seatedOn m m.keys.toFinset cpu).card := by
  have hlist : seatedOn m m.keys.toFinset cpu = ((m.entries.filter (fun e => decide (e.2 = cpu))).map Prod.fst).toFinset := by
    ext t
    simp only [seatedOn, Finset.mem_filter, List.mem_toFinset, List.mem_map, List.mem_filter, decide_eq_true_eq,
      OrdMap.mem_keys]
    constructor
    · rintro ⟨-, hf⟩
      exact ⟨(t, cpu), ⟨OrdMap.mem_entries.2 hf, rfl⟩, rfl⟩
    · rintro ⟨⟨u, c⟩, ⟨he, rfl⟩, rfl⟩
      have hf := OrdMap.mem_entries.1 he
      exact ⟨OrdMap.mem_of_find hf, hf⟩
  have hnodup : ((m.entries.filter (fun e => decide (e.2 = cpu))).map Prod.fst).Nodup :=
    (List.filter_sublist.map Prod.fst).nodup m.nodup_keys
  rw [hlist, List.toFinset_card_of_nodup hnodup, List.length_map, List.countP_eq_length_filter]

@[simp] theorem Projected.threadsOn_add (p : Projected) (cpu : Int) (demand : ℚ) (x : Int) :
    (p.add cpu demand).threadsOn x = p.threadsOn x + if cpu = x then 1 else 0 := by
  unfold Projected.add Projected.threadsOn OrdMap.update
  rw [OrdMap.getD_insert]
  split
  · rename_i h
    rw [h]
  · rw [add_zero]

@[simp] theorem Projected.threadsOn_remove (p : Projected) (cpu : Int) (demand : ℚ) (x : Int) :
    (p.remove cpu demand).threadsOn x = p.threadsOn x - if cpu = x then 1 else 0 := by
  unfold Projected.remove Projected.threadsOn OrdMap.update
  rw [OrdMap.getD_insert]
  split
  · rename_i h
    rw [h]
  · rw [sub_zero]

theorem threadsOn_foldl_add {α : Type} (cpuOf : α → Int) (demandAt : α → ℚ) (x : Int) : ∀ (l : List α) (p : Projected),
    (l.foldl (fun p e => p.add (cpuOf e) (demandAt e)) p).threadsOn x =
      p.threadsOn x + l.countP (fun e => decide (cpuOf e = x))
  | [], p => by simp
  | e :: l, p => by
    rw [List.foldl_cons, threadsOn_foldl_add cpuOf demandAt x l, Projected.threadsOn_add, List.countP_cons]
    by_cases he : cpuOf e = x
    · simp only [he, if_true, decide_true, Nat.cast_add, Nat.cast_one]
      omega
    · simp only [he, if_false, decide_false, Bool.false_eq_true, add_zero]

theorem threadsOn_placedNow {hardware : HardwareGraph} (h : Booked hardware s) (x : Int) :
    (placedNow s).threadsOn x = placedOn s x := by
  have hall : s.placement.entries.filter (fun e => decide (e.1 ∈ s.threads)) = s.placement.entries := by
    refine List.filter_eq_self.2 (fun e he => decide_eq_true ?_)
    exact h.placed e.1 (OrdMap.mem_of_find (OrdMap.mem_entries.1 he))
  unfold placedNow placedOn
  rw [hall, threadsOn_foldl_add (fun e : Tid × Int => e.2) (fun e => demandOf s e.1)]
  simp [Projected.threadsOn, OrdMap.getD]

theorem seatedOn_erase (placement : OrdMap Tid Int) (T : Finset Tid) (t : Tid) (x : Int) (ht : t ∈ placement → t ∈ T) :
    ((seatedOn placement (T.erase t) x).card : Int) =
      (seatedOn placement T x).card - if placement.find? t = some x then 1 else 0 := by
  have herase : seatedOn placement (T.erase t) x = (seatedOn placement T x).erase t := by
    ext u
    simp only [seatedOn, Finset.mem_filter, Finset.mem_erase]
    tauto
  rw [herase]
  by_cases hx : placement.find? t = some x
  · have hmem : t ∈ seatedOn placement T x := Finset.mem_filter.2 ⟨ht (OrdMap.mem_of_find hx), hx⟩
    have hpos := Finset.card_pos.2 ⟨t, hmem⟩
    rw [Finset.card_erase_of_mem hmem, if_pos hx]
    omega
  · have hno : t ∉ seatedOn placement T x := fun hm => hx (Finset.mem_filter.1 hm).2
    rw [Finset.erase_eq_of_notMem hno, if_neg hx, sub_zero]

/-- **What stays**: the placed threads that are not in the batch. -/
theorem threadsOn_vacated {hardware : HardwareGraph} (h : Booked hardware s) {batch : List Tid} (hn : batch.Nodup) (x : Int) :
    (vacated s batch).threadsOn x = (seatedOn s.placement (s.placement.keys.toFinset \ batch.toFinset) x).card := by
  have hfold : ∀ {leave : Projected → Tid → Projected}, (∀ p t source, s.placement.find? t = some source →
      leave p t = p.remove source (demandOf s t)) → (∀ p t, s.placement.find? t = none → leave p t = p) →
      ∀ (l : List Tid) (T : Finset Tid) (p : Projected), l.Nodup → (∀ t ∈ l, t ∈ s.placement → t ∈ T) →
      (p.threadsOn x = (seatedOn s.placement T x).card) →
      (l.foldl leave p).threadsOn x = (seatedOn s.placement (T \ l.toFinset) x).card := by
    intro leave hplaced hunplaced l
    induction l with
    | nil => simp
    | cons t l ih =>
      intro T p hl hT hp
      rw [List.nodup_cons] at hl
      have hset : T \ (t :: l).toFinset = (T.erase t) \ l.toFinset := by
        ext u
        simp only [List.toFinset_cons, Finset.mem_sdiff, Finset.mem_insert, List.mem_toFinset, Finset.mem_erase]
        tauto
      rw [List.foldl_cons, hset]
      refine ih (T.erase t) _ hl.2 (fun u hu hup => ?_) ?_
      · refine Finset.mem_erase.2 ⟨fun he => hl.1 (he ▸ hu), hT u (List.mem_cons_of_mem _ hu) hup⟩
      · rw [seatedOn_erase s.placement T t x (hT t List.mem_cons_self)]
        cases hf : s.placement.find? t with
        | none =>
          rw [hunplaced p t hf]
          simp [hp]
        | some source =>
          rw [hplaced p t source hf]
          simp [hp]
  unfold vacated
  refine hfold (fun p t source hf => by rw [hf]) (fun p t hf => by rw [hf]) batch _ _ hn
    (fun t _ ht => List.mem_toFinset.2 (OrdMap.mem_keys.2 ht)) ?_
  rw [threadsOn_placedNow h, placedOn, countP_entries]

end Counting

/-! ## The batch fits the free slots -/

section Fits

variable {input : IncrementalInput} {st : Seats}

theorem freeSlots_eq (hd : input.hardware.Discovered) (p : Projected) :
    freeSlots input p = ∑ x ∈ (input.hardware.cpus.map (·.id)).toFinset, max 0 (cpuSlotCap input - p.threadsOn x) := by
  rw [List.sum_toFinset _ hd.distinct, List.map_map]
  rfl

theorem hasCpu_iff {hardware : HardwareGraph} (hd : hardware.Discovered) {cpu : Int} :
    hardware.HasCpu cpu ↔ cpu ∈ (hardware.cpus.map (·.id)).toFinset := by
  rw [List.mem_toFinset, List.mem_map]
  constructor
  · rintro ⟨c, hc, hid, -⟩
    exact ⟨c, hc, hid⟩
  · rintro ⟨c, hc, hid⟩
    exact ⟨c, hc, hid, hd.online c hc⟩

/-- A thread takes one free slot. -/
theorem freeSlots_add (hd : input.hardware.Discovered) {p : Projected} {cpu : Int} (hcpu : input.hardware.HasCpu cpu)
    (hfree : slotFree input p cpu = true) (demand : ℚ) : freeSlots input (p.add cpu demand) = freeSlots input p - 1 := by
  have hlt : p.threadsOn cpu < cpuSlotCap input := of_decide_eq_true hfree
  have hterm : ∀ x, max 0 (cpuSlotCap input - (p.add cpu demand).threadsOn x) =
      max 0 (cpuSlotCap input - p.threadsOn x) - if cpu = x then 1 else 0 := by
    intro x
    rw [Projected.threadsOn_add]
    by_cases hx : cpu = x
    · subst hx
      rw [if_pos rfl]
      omega
    · rw [if_neg hx]
      omega
  rw [freeSlots_eq hd, freeSlots_eq hd, Finset.sum_congr rfl (fun x _ => hterm x), Finset.sum_sub_distrib,
    Finset.sum_ite_eq, if_pos ((hasCpu_iff hd).1 hcpu)]

theorem freeSlots_nonneg (hd : input.hardware.Discovered) (p : Projected) : 0 ≤ freeSlots input p := by
  rw [freeSlots_eq hd]
  exact Finset.sum_nonneg (fun x _ => le_max_left _ _)

/-- No slot is free on any CPU. -/
theorem freeSlots_eq_zero (hd : input.hardware.Discovered) {p : Projected}
    (h : ∀ cpu, input.hardware.HasCpu cpu → slotFree input p cpu = false) : freeSlots input p = 0 := by
  rw [freeSlots_eq hd]
  refine Finset.sum_eq_zero (fun x hx => ?_)
  have hfull := of_decide_eq_false (h x ((hasCpu_iff hd).2 hx))
  omega

/-- **A batch fits exactly when the free slots are enough for it**, and otherwise the throw is the one of the slot cap. -/
theorem seatBatch_fits (hd : input.hardware.Discovered) : ∀ (batch : List Tid) (st : Seats),
    (∀ t ∈ batch, Targeted input.hardware st.solver t) →
    ((batch.length : Int) ≤ freeSlots input st.projected → ∃ st', seatBatch input batch st = .ok st') ∧
    (freeSlots input st.projected < batch.length →
      seatBatch input batch st = .error (.thrown "initial pinning has no slot-cap-feasible CPU"))
  | [], st, _ => by
    refine ⟨fun _ => ⟨st, rfl⟩, fun h => ?_⟩
    have := freeSlots_nonneg hd st.projected
    simp only [List.length_nil, Nat.cast_zero] at h
    omega
  | t :: batch, st, ht => by
    unfold seatBatch
    rw [List.length_cons, Nat.cast_add, Nat.cast_one]
    rcases seatPending_spec (ht t List.mem_cons_self) with ⟨cpu, hfree, hcpu, he⟩ | ⟨he, hfull⟩
    · have hkeep := Seats.put_reseated input.hardware st t hcpu
      obtain ⟨h1, h2⟩ := seatBatch_fits hd batch (st.put input.hardware t cpu)
        (fun u hu => hkeep.targeted u (ht u (List.mem_cons_of_mem _ hu)))
      have hslots : freeSlots input (st.put input.hardware t cpu).projected = freeSlots input st.projected - 1 :=
        freeSlots_add hd hcpu hfree _
      rw [hslots] at h1 h2
      rw [he]
      exact ⟨fun h => h1 (by omega), fun h => h2 (by omega)⟩
    · rw [he]
      have hzero := freeSlots_eq_zero hd hfull
      refine ⟨fun h => ?_, fun _ => rfl⟩
      omega

/-- What a seated batch did to the counts: one more for each thread put there, and never above the cap. -/
theorem seatBatch_counts : ∀ {batch : List Tid} {st st' : Seats}, batch.Nodup →
    (∀ t ∈ batch, Targeted input.hardware st.solver t) → seatBatch input batch st = .ok st' → ∀ x,
    st'.projected.threadsOn x = st.projected.threadsOn x +
      batch.countP (fun t => decide (st'.solver.initialTargetCpu.getD t 0 = x)) ∧
    (st'.projected.threadsOn x = st.projected.threadsOn x ∨ st'.projected.threadsOn x ≤ cpuSlotCap input)
  | [], st, st', _, _, h, x => by
    cases h
    simp
  | t :: batch, st, st', hn, ht, h, x => by
    rw [List.nodup_cons] at hn
    unfold seatBatch at h
    rcases seatPending_spec (ht t List.mem_cons_self) with ⟨cpu, hfree, hcpu, he⟩ | ⟨he, -⟩
    · rw [he] at h
      have hkeep := Seats.put_reseated input.hardware st t hcpu
      have hrest := fun u hu => hkeep.targeted u (ht u (List.mem_cons_of_mem _ hu))
      have hre := seatBatch_reseated hrest h
      obtain ⟨h1, h2⟩ := seatBatch_counts hn.2 hrest h x
      have hput : (st.put input.hardware t cpu).projected.threadsOn x = st.projected.threadsOn x + if cpu = x then 1 else 0 :=
        Projected.threadsOn_add _ _ _ _
      -- the rest of the batch leaves the target of `t`
      have htarget : st'.solver.initialTargetCpu.getD t 0 = cpu := by
        rw [OrdMap.getD, hre.kept t hn.1]
        show ((st.solver.initialTargetCpu.insert t cpu).find? t).getD 0 = cpu
        rw [OrdMap.find?_insert_self]
        rfl
      have hlt : st.projected.threadsOn cpu < cpuSlotCap input := of_decide_eq_true hfree
      rw [List.countP_cons, htarget]
      rw [hput] at h1 h2
      by_cases hx : cpu = x
      · subst hx
        simp only [if_true, decide_true] at h1 h2 ⊢
        omega
      · rw [if_neg hx] at h1 h2
        simp only [hx, decide_false, Bool.false_eq_true, if_false]
        omega
    · rw [he] at h
      cases h

end Fits

/-! ## The window's threads and the slots -/

section Window

variable {s : IncrementalSolver} {input : IncrementalInput}

theorem pendingBatch_nodup (s : IncrementalSolver) (hardware : HardwareGraph) (budget : Nat) :
    (pendingBatch s hardware budget).Nodup := by
  refine List.Nodup.sublist (List.take_sublist _ _) ?_
  unfold allPending
  exact (List.perm_insertionSort _ _).nodup_iff.2 (s.threads.nodup_keys.filter _)

/-- Each thread is on one CPU. -/
theorem sum_seatedOn_le (placement : OrdMap Tid Int) (T : Finset Tid) (cpus : Finset Int) :
    ∑ x ∈ cpus, (seatedOn placement T x).card ≤ T.card := by
  have hdisj : ∀ x ∈ cpus, ∀ y ∈ cpus, x ≠ y → Disjoint (seatedOn placement T x) (seatedOn placement T y) := by
    intro x _ y _ hxy
    refine Finset.disjoint_left.2 (fun t hx hy => hxy ?_)
    exact Option.some.inj ((Finset.mem_filter.1 hx).2.symm.trans (Finset.mem_filter.1 hy).2)
  rw [← Finset.card_biUnion hdisj]
  exact Finset.card_le_card (Finset.biUnion_subset.2 (fun x _ => Finset.filter_subset _ _))

/-- **Slots for all threads are enough for every batch.** -/
theorem batch_fits (hd : input.hardware.Discovered) (hb : Booked input.hardware s) (budget : Nat)
    (hcap : (s.threads.size : Int) ≤ cpuSlotCap input * input.hardware.cpus.length) :
    ((pendingBatch s input.hardware budget).length : Int) ≤
      freeSlots input (vacated s (pendingBatch s input.hardware budget)) := by
  set batch := pendingBatch s input.hardware budget with hbatch
  have hn : batch.Nodup := pendingBatch_nodup s input.hardware budget
  set ids := (input.hardware.cpus.map (·.id)).toFinset with hids
  have hcard : (ids.card : Int) = input.hardware.cpus.length := by
    rw [hids, List.toFinset_card_of_nodup hd.distinct, List.length_map]
  -- what stays, and the batch, are threads
  have hstay : (s.placement.keys.toFinset \ batch.toFinset).card + batch.length ≤ s.threads.size := by
    rw [← List.toFinset_card_of_nodup hn, ← Finset.card_union_of_disjoint Finset.sdiff_disjoint, OrdMap.size_eq_length_keys,
      ← List.toFinset_card_of_nodup s.threads.nodup_keys]
    refine Finset.card_le_card (fun t ht => List.mem_toFinset.2 (OrdMap.mem_keys.2 ?_))
    rcases Finset.mem_union.1 ht with ht | ht
    · exact hb.placed t (OrdMap.mem_keys.1 (List.mem_toFinset.1 (Finset.mem_sdiff.1 ht).1))
    · exact (mem_pendingBatch (List.mem_toFinset.1 ht)).1
  have hsum : (∑ x ∈ ids, (vacated s batch).threadsOn x : Int) ≤ (s.placement.keys.toFinset \ batch.toFinset).card := by
    rw [Finset.sum_congr rfl (fun x _ => threadsOn_vacated hb hn x)]
    exact_mod_cast sum_seatedOn_le s.placement _ ids
  calc (batch.length : Int) ≤ cpuSlotCap input * ids.card - ∑ x ∈ ids, (vacated s batch).threadsOn x := by
        rw [hcard]
        omega
    _ = ∑ x ∈ ids, (cpuSlotCap input - (vacated s batch).threadsOn x) := by
        rw [Finset.sum_sub_distrib, Finset.sum_const, nsmul_eq_mul, mul_comm]
    _ ≤ ∑ x ∈ ids, max 0 (cpuSlotCap input - (vacated s batch).threadsOn x) :=
        Finset.sum_le_sum (fun x _ => le_max_right _ _)
    _ = freeSlots input (vacated s batch) := (freeSlots_eq hd _).symm

/-- The window's threads fit into the slots of the envelope, by the cap that is set. -/
def WindowFits (input : IncrementalInput) : Prop :=
  input.options.maximumThreadsPerCpu = 0 ∨
    (input.threads.length : Int) ≤ input.options.maximumThreadsPerCpu * input.hardware.cpus.length

theorem WindowFits.slots (hd : input.hardware.Discovered) (hc : input.hardware.cpus ≠ []) (hopt : input.options.Accepted)
    (h : WindowFits input) : (input.threads.length : Int) ≤ cpuSlotCap input * input.hardware.cpus.length := by
  have hpos : (0 : ℚ) < input.hardware.cpus.length := by
    have := List.length_pos_of_ne_nil hc
    exact_mod_cast this
  unfold cpuSlotCap
  dsimp only
  rcases h with h | h
  · rw [if_neg (by omega), onlineCpus_eq hd.online]
    have hceil : (input.threads.length : ℚ) / input.hardware.cpus.length ≤
        ⌈(input.threads.length : ℚ) / input.hardware.cpus.length⌉ := Int.le_ceil _
    rw [div_le_iff₀ hpos] at hceil
    have hceil' : (input.threads.length : Int) ≤
        ⌈(input.threads.length : ℚ) / input.hardware.cpus.length⌉ * input.hardware.cpus.length := by exact_mod_cast hceil
    refine hceil'.trans (mul_le_mul_of_nonneg_right ?_ (by positivity))
    have := hopt.threadSlotSlack
    omega
  · split
    · exact h
    · -- a cap of zero is no cap, so there are no threads
      have := hopt.maximumThreadsPerCpu
      have hzero : input.options.maximumThreadsPerCpu = 0 := by omega
      rw [hzero, zero_mul] at h
      have hmax : (1 : Int) ≤ max 1 (⌈(input.threads.length : ℚ) / onlineCpus input.hardware⌉ +
        input.options.threadSlotSlack) := le_max_left _ _
      have : (0 : Int) ≤ max 1 (⌈(input.threads.length : ℚ) / onlineCpus input.hardware⌉ +
        input.options.threadSlotSlack) * input.hardware.cpus.length := by positivity
      omega

/-- The branch returns exactly when the batch fits, and throws over nothing else. -/
theorem initialPinning_fits (hd : input.hardware.Discovered) (hb : Booked input.hardware s)
    (hphase : s.phase = .initialPinning) (proposal : SolverProposal) :
    let batch := pendingBatch s input.hardware proposal.migrationBudget
    ((batch.length : Int) ≤ freeSlots input (vacated s batch) → ∃ r, initialPinning s input proposal = .ok r) ∧
    (freeSlots input (vacated s batch) < batch.length →
      initialPinning s input proposal = .error (.thrown "initial pinning has no slot-cap-feasible CPU")) := by
  have ht := hb.targets (Or.inl hphase)
  dsimp only
  unfold initialPinning
  dsimp only
  split
  · rename_i hzero
    refine ⟨fun _ => ⟨_, rfl⟩, fun h => ?_⟩
    have hnil : pendingBatch s input.hardware proposal.migrationBudget = [] := by
      rw [hzero]
      exact List.take_zero
    rw [hnil] at h
    have hnonneg := freeSlots_nonneg hd (vacated s [])
    simp only [List.length_nil, Nat.cast_zero] at h
    omega
  · rw [readTargets_eq ht]
    obtain ⟨h1, h2⟩ := seatBatch_fits hd (pendingBatch s input.hardware proposal.migrationBudget)
      { solver := s, projected := vacated s (pendingBatch s input.hardware proposal.migrationBudget) }
      (fun t hm => ht t (mem_pendingBatch hm).1)
    refine ⟨fun h => ?_, fun h => ?_⟩
    · obtain ⟨st', hst⟩ := h1 h
      rw [hst]
      exact ⟨_, rfl⟩
    · rw [h2 h]
      rfl

end Window

/-! ## What waits for its commit -/

/-- The slots an outstanding batch counted on: wherever it puts a thread, what stays there and what it puts there are within
its cap. -/
structure SlotsFor (s : IncrementalSolver) (p : SolverProposal) : Prop where
  distinct : (p.actions.map (·.identity.tid)).Nodup
  room : ∀ a ∈ p.actions,
    ((seatedOn s.placement (s.placement.keys.toFinset \ (p.actions.map (·.identity.tid)).toFinset) a.targetCpu).card : Int) +
      p.actions.countP (fun b => decide (b.targetCpu = a.targetCpu)) ≤ p.cpuSlotCap

/-- Every outstanding batch of the pinning phase has its slots. -/
def Slotted (s : IncrementalSolver) : Prop :=
  ∀ p, s.outstanding = some p → p.phase = .initialPinning → SlotsFor s p

section Slotted

variable {s s' : IncrementalSolver} {input : IncrementalInput} {hardware : HardwareGraph}

theorem pinAction_tid {batch : List Tid} {st st' : Seats} (hb : Booked input.hardware st.solver) {t : Tid}
    (ht : t ∈ st.solver.threads) (h : seatBatch input batch st = .ok st') :
    (pinAction st'.solver input.hardware t).identity.tid = t := by
  have hid := (hb.identityOf ht).2
  unfold pinAction identityOf
  dsimp only
  rw [seatBatch_same h]
  exact hid

/-- The actions of a seated batch are those of its threads, in the batch's order. -/
theorem seatBatch_tids {batch : List Tid} {st st' : Seats} (hb : Booked input.hardware st.solver)
    (ht : ∀ t ∈ batch, t ∈ st.solver.threads) (h : seatBatch input batch st = .ok st') :
    (batch.map (pinAction st'.solver input.hardware)).map (·.identity.tid) = batch := by
  rw [List.map_map]
  exact (List.map_congr_left (fun t hm => pinAction_tid hb (ht t hm) h)).trans (List.map_id _)

/-- **A batch of the pinning phase has its slots.** -/
theorem initialPinning_slotsFor (hb : Booked input.hardware s) (hphase : s.phase = .initialPinning)
    {proposal : SolverProposal} (hno : proposal.actions = []) (hcap : proposal.cpuSlotCap = cpuSlotCap input)
    {r : SolverProposal × IncrementalSolver} (h : initialPinning s input proposal = .ok r) : SlotsFor r.2 r.1 := by
  have ht := hb.targets (Or.inl hphase)
  have hsame := (initialPinning_same h).1
  have hplace : r.2.placement = s.placement := by rw [hsame]
  have hhead := (initialPinning_header h).2.trans hcap
  rcases initialPinning_ok ht h with ⟨-, he, -⟩ | ⟨st, hst, he, -⟩
  · rw [hno] at he
    refine ⟨by rw [he]; exact List.nodup_nil, fun a ha => ?_⟩
    rw [he] at ha
    cases ha
  · set batch := pendingBatch s input.hardware proposal.migrationBudget with hbatch
    have hn : batch.Nodup := pendingBatch_nodup s input.hardware proposal.migrationBudget
    have htids : r.1.actions.map (·.identity.tid) = batch := by
      rw [he]
      exact seatBatch_tids hb (fun t hm => (mem_pendingBatch hm).1) hst
    refine ⟨by rw [htids]; exact hn, fun a ha => ?_⟩
    obtain ⟨hcount, hle⟩ := seatBatch_counts hn (fun t hm => ht t (mem_pendingBatch hm).1) hst a.targetCpu
    have hvac : (vacated s batch).threadsOn a.targetCpu =
        (seatedOn s.placement (s.placement.keys.toFinset \ batch.toFinset) a.targetCpu).card :=
      threadsOn_vacated hb hn a.targetCpu
    have hactions : r.1.actions.countP (fun b => decide (b.targetCpu = a.targetCpu)) =
        batch.countP (fun t => decide (st.solver.initialTargetCpu.getD t 0 = a.targetCpu)) := by
      rw [he, List.countP_map]
      rfl
    -- the thread itself is counted, so the CPU did receive one
    have hpos : 0 < r.1.actions.countP (fun b => decide (b.targetCpu = a.targetCpu)) :=
      List.countP_pos_iff.2 ⟨a, ha, decide_eq_true rfl⟩
    dsimp only at hcount hle
    rw [htids, hplace, hhead, hactions]
    rw [hactions] at hpos
    rcases hle with hle | hle
    · omega
    · omega

/-- A thread that leaves gives its slot back. -/
theorem SlotsFor.removeThread {p : SolverProposal} (h : SlotsFor s p) (tid : Tid) : SlotsFor (s.removeThread tid) p where
  distinct := h.distinct
  room a ha := by
    refine le_trans ?_ (h.room a ha)
    have hsub : seatedOn (s.placement.erase tid) ((s.placement.erase tid).keys.toFinset \
        (p.actions.map (·.identity.tid)).toFinset) a.targetCpu ⊆
        seatedOn s.placement (s.placement.keys.toFinset \ (p.actions.map (·.identity.tid)).toFinset) a.targetCpu := by
      intro t ht
      obtain ⟨hm, hf⟩ := Finset.mem_filter.1 ht
      obtain ⟨hk, hno⟩ := Finset.mem_sdiff.1 hm
      rw [OrdMap.find?_erase] at hf
      split at hf
      · cases hf
      · exact Finset.mem_filter.2 ⟨Finset.mem_sdiff.2 ⟨List.mem_toFinset.2 (OrdMap.mem_keys.2 (OrdMap.mem_of_find hf)), hno⟩, hf⟩
    have hcard := Finset.card_le_card hsub
    show ((seatedOn (s.placement.erase tid) ((s.placement.erase tid).keys.toFinset \ _) a.targetCpu).card : Int) + _ ≤ _
    omega

theorem Reachable.slotted (hd : hardware.Discovered) (h : Reachable hardware s) : Slotted s := by
  refine h.outstanding hd (Q := fun s p => p.phase = .initialPinning → SlotsFor s p) ?_
    (fun s tid q hq hphase => (hq hphase).removeThread tid)
  rintro s input p s' q rfl hk hnone hr hq hphase
  obtain ⟨rfl, hcpus, ⟨hpinning, hr⟩ | ⟨-, hopt, -⟩⟩ := propose_outstanding hnone hr hq
  · obtain ⟨hib, -⟩ := intake_booked hd (cpus_ne_nil_of_online hcpus) hk.booked hk.settled
    exact initialPinning_slotsFor hib hpinning (intake_actions s input) rfl hr
  · rw [hopt] at hphase
    cases hphase

end Slotted

/-! ## The commit -/

section Commit

variable {s : IncrementalSolver} {nowNs : Nat} {tids : OrdSet Tid}

theorem placement_commit {p : SolverProposal} (h : s.outstanding = some p) (nowNs : Nat) (tids : OrdSet Tid) :
    (commit s p nowNs tids).placement = (committed s nowNs tids p.actions).placement := by
  rw [commit_eq h]
  show (settlePinning (committed s nowNs tids p.actions)).placement = _
  unfold settlePinning
  split <;> rfl

theorem commitAction_local (nowNs : Nat) (tids : OrdSet Tid) : Loop.Local
    (fun (s : IncrementalSolver) t => s.placement.find? t) (fun a : PlacementAction => a.identity.tid)
    (commitAction nowNs tids) := by
  intro s a u hu
  unfold commitAction
  dsimp only
  split
  · exact OrdMap.find?_insert_ne _ _ hu
  · rfl

/-- Where a commit leaves a thread: at the target of its action, or where it was. -/
theorem find?_committed {actions : List PlacementAction} (hn : (actions.map (·.identity.tid)).Nodup) {t : Tid} {cpu : Int}
    (h : (committed s nowNs tids actions).placement.find? t = some cpu) :
    (∃ a ∈ actions, a.identity.tid = t ∧ commits tids t = true ∧ a.targetCpu = cpu) ∨
    ((∀ a ∈ actions, a.identity.tid = t → commits tids t = false) ∧ s.placement.find? t = some cpu) := by
  by_cases hm : ∃ a ∈ actions, a.identity.tid = t
  · obtain ⟨a, ha, rfl⟩ := hm
    obtain ⟨pre, post, -, hpre, hat⟩ := (commitAction_local nowNs tids).foldl_at hn ha s
    have hfind : (commitAction nowNs tids (pre.foldl (commitAction nowNs tids) s) a).placement.find? a.identity.tid =
        some cpu := hat.symm.trans h
    unfold commitAction at hfind
    dsimp only at hfind
    split at hfind
    · rename_i hc
      refine Or.inl ⟨a, ha, rfl, hc, ?_⟩
      rw [OrdMap.find?_insert_self] at hfind
      exact Option.some.inj hfind
    · rename_i hc
      exact Or.inr ⟨fun _ _ _ => by simpa using hc, hpre.symm.trans hfind⟩
  · refine Or.inr ⟨fun a ha he => absurd ⟨a, ha, he⟩ hm, ?_⟩
    exact ((commitAction_local nowNs tids).foldl_notMem (fun a ha he => hm ⟨a, ha, he⟩)).symm.trans h

/-- The CPUs a commit puts threads on. -/
def Receives (p : SolverProposal) (tids : OrdSet Tid) (cpu : Int) : Prop :=
  ∃ a ∈ p.actions, commits tids a.identity.tid = true ∧ a.targetCpu = cpu

theorem placedOn_commit_le {p : SolverProposal} (h : s.outstanding = some p)
    (hn : (p.actions.map (·.identity.tid)).Nodup) {cpu : Int} (hno : ¬ Receives p tids cpu) :
    placedOn (commit s p nowNs tids) cpu ≤ placedOn s cpu := by
  unfold placedOn
  rw [countP_entries, countP_entries, placement_commit h]
  refine Finset.card_le_card (fun t ht => ?_)
  have hf := (Finset.mem_filter.1 ht).2
  rcases find?_committed hn hf with ⟨a, ha, rfl, hc, hcpu⟩ | ⟨-, hf⟩
  · exact absurd ⟨a, ha, hc, hcpu⟩ hno
  · exact Finset.mem_filter.2 ⟨List.mem_toFinset.2 (OrdMap.mem_keys.2 (OrdMap.mem_of_find hf)), hf⟩

theorem placedOn_commit_received {hardware : HardwareGraph} (hb : Booked hardware s) {p : SolverProposal}
    (h : s.outstanding = some p) (hsl : SlotsFor s p) (hp : Protocol hardware s (.commit nowNs tids)) {cpu : Int}
    (hr : Receives p tids cpu) : (placedOn (commit s p nowNs tids) cpu : Int) ≤ p.cpuSlotCap := by
  obtain ⟨a, ha, -, rfl⟩ := hr
  refine le_trans ?_ (hsl.room a ha)
  have hsub : seatedOn (commit s p nowNs tids).placement (commit s p nowNs tids).placement.keys.toFinset a.targetCpu ⊆
      seatedOn s.placement (s.placement.keys.toFinset \ (p.actions.map (·.identity.tid)).toFinset) a.targetCpu ∪
        ((p.actions.filter (fun b => decide (b.targetCpu = a.targetCpu))).map (·.identity.tid)).toFinset := by
    intro t ht
    have hf := (Finset.mem_filter.1 ht).2
    rw [placement_commit h] at hf
    rcases find?_committed hsl.distinct hf with ⟨b, hb', rfl, -, hcpu⟩ | ⟨hleft, hf⟩
    · refine Finset.mem_union_right _ (List.mem_toFinset.2 (List.mem_map.2 ⟨b, ?_, rfl⟩))
      exact List.mem_filter.2 ⟨hb', decide_eq_true hcpu⟩
    · refine Finset.mem_union_left _ (Finset.mem_filter.2 ⟨Finset.mem_sdiff.2 ⟨?_, fun hm => ?_⟩, hf⟩)
      · exact List.mem_toFinset.2 (OrdMap.mem_keys.2 (OrdMap.mem_of_find hf))
      · -- a thread of the batch that is still placed is still known, so its action is committed
        obtain ⟨b, hb', rfl⟩ := List.mem_map.1 (List.mem_toFinset.1 hm)
        have hc := (hp p h b hb').2 (hb.placed _ (OrdMap.mem_of_find hf))
        rw [hleft b hb' rfl] at hc
        cases hc
  have hcard := (Finset.card_le_card hsub).trans (Finset.card_union_le _ _)
  have hlist := List.toFinset_card_le ((p.actions.filter (fun b => decide (b.targetCpu = a.targetCpu))).map (·.identity.tid))
  rw [List.length_map, ← List.countP_eq_length_filter] at hlist
  unfold placedOn
  rw [countP_entries]
  omega

end Commit

/-! ## Every run -/

section Main

variable {hardware : HardwareGraph} {s : IncrementalSolver} {input : IncrementalInput}

/-- The node plan throws over its floors only. -/
theorem nodePlanning_error {proposal : SolverProposal} {e : Halt} (h : nodePlanning s input proposal = .error e) :
    e = .thrown "node thread floor is infeasible" := by
  have hnode : ∀ (target : Int) (adjacency : OrdMap Tid (List RelationEdge)) (fuel : Nat) (p : NodePlan) (e : Halt),
      repairNode s input adjacency target fuel p = .error e → e = .thrown "node thread floor is infeasible" := by
    intro target adjacency fuel
    induction fuel with
    | zero =>
      intro p e h
      cases h
    | succ fuel ih =>
      intro p e h
      unfold repairNode at h
      split at h
      · split at h
        · cases h
          rfl
        · exact ih _ _ h
      · cases h
  have hfloors : ∀ (adjacency : OrdMap Tid (List RelationEdge)) (nodes : List Int) (p : NodePlan) (e : Halt),
      repairFloors s input adjacency nodes p = .error e → e = .thrown "node thread floor is infeasible" := by
    intro adjacency nodes
    induction nodes with
    | nil =>
      intro p e h
      cases h
    | cons n nodes ih =>
      intro p e h
      unfold repairFloors at h
      cases hone : repairNode s input adjacency n (threadFloor s input n).toNat p with
      | error e' =>
        rw [hone] at h
        cases h
        exact hnode _ _ _ _ _ hone
      | ok q =>
        rw [hone] at h
        exact ih _ _ h
  unfold nodePlanning at h
  cases hplan : planNodes s input with
  | error e' =>
    rw [hplan] at h
    cases h
    exact hfloors _ _ _ _ hplan
  | ok plan =>
    rw [hplan] at h
    cases h

/-- What `propose` does once its envelope is not empty and the phase is the pinning one. -/
theorem propose_pinning (hc : onlineCpus input.hardware ≠ 0) (hnone : s.outstanding = none)
    (hphase : (intake s input).1.phase = .initialPinning) :
    propose s input = initialPinning (intake s input).1 input (intake s input).2 := by
  unfold propose
  rw [hnone]
  dsimp only
  rw [if_neg hc, hphase]

theorem propose_fits (hd : input.hardware.Discovered) (hk : Kept input.hardware s)
    (hn : (input.threads.map (·.identity.tid)).Nodup) (hopt : input.options.Accepted) (hfit : WindowFits input) :
    propose s input ≠ .error (.thrown "initial pinning has no slot-cap-feasible CPU") := by
  intro h
  by_cases hout : s.outstanding = none
  · by_cases hcpus : onlineCpus input.hardware = 0
    · unfold propose at h
      rw [hout] at h
      dsimp only at h
      rw [if_pos hcpus] at h
      exact absurd (Halt.thrown.inj (Except.error.inj h)) (by decide)
    · have hc := cpus_ne_nil_of_online hcpus
      obtain ⟨hib, -⟩ := intake_booked hd hc hk.booked hk.settled
      cases hphase : (intake s input).1.phase with
      | initialPinning =>
        rw [propose_pinning hcpus hout hphase] at h
        have hslots := hfit.slots hd hc hopt
        rw [← size_intake (s := s) hn] at hslots
        obtain ⟨r, hr⟩ := (initialPinning_fits hd hib hphase (intake s input).2).1
          (batch_fits hd hib (intake s input).2.migrationBudget hslots)
        rw [hr] at h
        cases h
      | nodePlanning =>
        unfold propose at h
        rw [hout] at h
        dsimp only at h
        rw [if_neg hcpus, hphase] at h
        exact absurd (Halt.thrown.inj (nodePlanning_error h)) (by decide)
      | uninitialized =>
        unfold propose at h
        rw [hout] at h
        dsimp only at h
        rw [if_neg hcpus, hphase] at h
        cases h
      | optimizing =>
        unfold propose at h
        rw [hout] at h
        dsimp only at h
        rw [if_neg hcpus, hphase] at h
        cases h
  · obtain ⟨p, hp⟩ := Option.ne_none_iff_exists'.1 hout
    unfold propose at h
    rw [hp] at h
    cases h

/-- **The slot cap along every run**: without a cap of its own the pinning phase never runs out of slots; and a committed
pinning batch leaves every CPU that it put a thread on within the batch's cap, and every other one no fuller. -/
theorem slotCap_kept (hd : hardware.Discovered) (h : Reachable hardware s) :
    (∀ input, input.hardware = hardware → (input.threads.map (·.identity.tid)).Nodup → input.options.Accepted →
      input.options.maximumThreadsPerCpu = 0 →
      propose s input ≠ .error (.thrown "initial pinning has no slot-cap-feasible CPU")) ∧
    ∀ p nowNs tids, s.outstanding = some p → p.phase = .initialPinning → Protocol hardware s (.commit nowNs tids) →
      (∀ cpu, Receives p tids cpu → (placedOn (commit s p nowNs tids) cpu : Int) ≤ p.cpuSlotCap) ∧
      (∀ cpu, ¬ Receives p tids cpu → placedOn (commit s p nowNs tids) cpu ≤ placedOn s cpu) ∧
      ((∀ cpu, (placedOn s cpu : Int) ≤ p.cpuSlotCap) →
        ∀ cpu, (placedOn (commit s p nowNs tids) cpu : Int) ≤ p.cpuSlotCap) := by
  have hk := h.kept hd
  refine ⟨?_, fun p nowNs tids hout hphase hp => ?_⟩
  · rintro input rfl hn hopt hcap
    exact propose_fits hd hk hn hopt (Or.inl hcap)
  · have hsl := h.slotted hd p hout hphase
    have hreceived : ∀ cpu, Receives p tids cpu → (placedOn (commit s p nowNs tids) cpu : Int) ≤ p.cpuSlotCap :=
      fun cpu hr => placedOn_commit_received hk.booked hout hsl hp hr
    have hother : ∀ cpu, ¬ Receives p tids cpu → placedOn (commit s p nowNs tids) cpu ≤ placedOn s cpu :=
      fun cpu hr => placedOn_commit_le hout hsl.distinct hr
    refine ⟨hreceived, hother, fun hbefore cpu => ?_⟩
    by_cases hr : Receives p tids cpu
    · exact hreceived cpu hr
    · have := hother cpu hr
      have := hbefore cpu
      omega

/-- Two threads on two CPUs, the batch that pins them, and its commit. -/
theorem slotCap_kept_pair : twoNodes.Discovered ∧ ∃ s p, Run.exec step {} (pinnedRun.take 2) = some s ∧
    s.outstanding = some p ∧ p.phase = .initialPinning ∧ p.actions.map (·.targetCpu) = [0, 1] ∧
    (∀ cpu, Receives p ∅ cpu → (placedOn (commit s p 5 ∅) cpu : Int) ≤ p.cpuSlotCap) ∧
    propose s (twoThreads 7) ≠ .error (.thrown "initial pinning has no slot-cap-feasible CPU") := by
  have hd : twoNodes.Discovered := ⟨by decide, by decide⟩
  have hopt : (twoThreads 7).options.Accepted := by constructor <;> decide +kernel
  have hobeys : Run.Obeys step (Protocol twoNodes) {} (pinnedRun.take 2) := by decide +kernel
  have hsome : (Run.exec step {} (pinnedRun.take 2)).any (fun s => s.outstanding.any (fun p =>
      decide (p.phase = .initialPinning ∧ p.actions.map (·.targetCpu) = [0, 1] ∧
        Protocol twoNodes s (.commit 5 ∅)))) = true := by decide +kernel
  obtain ⟨s, hexec, hs⟩ := (Option.any_eq_true _ _).1 hsome
  obtain ⟨p, hout, hp⟩ := (Option.any_eq_true _ _).1 hs
  obtain ⟨hphase, hactions, hprotocol⟩ := of_decide_eq_true hp
  obtain ⟨hpropose, hcommit⟩ := slotCap_kept hd (s := s) ⟨false, pinnedRun.take 2, hobeys, hexec⟩
  exact ⟨hd, s, p, hexec, hout, hphase, hactions, (hcommit p 5 ∅ hout hphase hprotocol).1,
    hpropose (twoThreads 7) rfl (by decide) hopt rfl⟩

/-- **When the pinning phase throws**: exactly when the batch is longer than the slots the CPUs have left; and never while
the window fits into the slots of the envelope. -/
theorem initialPinning_returns_iff (hd : hardware.Discovered) (hc : hardware.cpus ≠ []) (h : Reachable hardware s)
    (hin : input.hardware = hardware) (hn : (input.threads.map (·.identity.tid)).Nodup) (hopt : input.options.Accepted)
    (hout : s.outstanding = none) (hphase : (intake s input).1.phase = .initialPinning) :
    let batch := pendingBatch (intake s input).1 hardware (intake s input).2.migrationBudget
    ((∃ r, propose s input = .ok r) ↔ (batch.length : Int) ≤ freeSlots input (vacated (intake s input).1 batch)) ∧
    (WindowFits input → ∃ r, propose s input = .ok r) := by
  subst hin
  have hk := h.kept hd
  obtain ⟨hib, -⟩ := intake_booked hd hc hk.booked hk.settled
  have hcpus : onlineCpus input.hardware ≠ 0 := by
    rw [onlineCpus_eq hd.online]
    exact (List.length_pos_of_ne_nil hc).ne'
  obtain ⟨hfits, hthrows⟩ := initialPinning_fits hd hib hphase (intake s input).2
  dsimp only
  rw [propose_pinning hcpus hout hphase]
  refine ⟨⟨fun ⟨r, hr⟩ => ?_, hfits⟩, fun hwin => ?_⟩
  · by_contra hlong
    rw [hthrows (lt_of_not_ge hlong)] at hr
    cases hr
  · have hslots := hwin.slots hd hc hopt
    rw [← size_intake (s := s) hn] at hslots
    exact hfits (batch_fits hd hib _ hslots)

/-- One CPU, and three threads under the settings that ship: two threads a CPU, 128 managed threads. -/
def oneCpu : HardwareGraph := { cpus := [⟨0, 0, true⟩] }

def shippedOptions : IncrementalOptions where
  proposalConfirmations := 2
  initialNodePasses := 1
  candidateMultiplier := 1
  candidateHardLimit := 4
  rotatingScanSize := 4
  maximumThreadsPerCpu := 2
  maximumManagedThreads := 128

def crammed (n : Nat) : IncrementalInput where
  hardware := oneCpu
  threads := (List.range n).map (fun i => ⟨⟨1, i + 1, 0⟩, "g", 1 / 10, 1, 0⟩)
  options := shippedOptions

/-- The second window of three threads ends with the exception. -/
theorem initialPinning_throws_crammed : oneCpu.Discovered ∧ shippedOptions.Accepted ∧
    ((crammed 3).threads.length : Int) ≤ (crammed 3).options.maximumManagedThreads ∧
    ((crammed 3).threads.map (·.identity.tid)).Nodup ∧ ∃ s, Reachable oneCpu s ∧ s.outstanding = none ∧
    (intake s (crammed 3)).1.phase = .initialPinning ∧
    propose s (crammed 3) = .error (.thrown "initial pinning has no slot-cap-feasible CPU") := by
  have hobeys : Run.Obeys step (Protocol oneCpu) {} [.propose (crammed 3)] := by decide +kernel
  have hsome : (Run.exec step {} [.propose (crammed 3)]).any (fun s => s.outstanding.isNone &&
      decide ((intake s (crammed 3)).1.phase = .initialPinning) &&
      (match propose s (crammed 3) with
        | .ok _ => false
        | .error e => decide (e = .thrown "initial pinning has no slot-cap-feasible CPU"))) = true := by decide +kernel
  obtain ⟨s, hexec, hs⟩ := (Option.any_eq_true _ _).1 hsome
  rw [Bool.and_eq_true, Bool.and_eq_true] at hs
  obtain ⟨⟨hnone, hphase⟩, hthrow⟩ := hs
  refine ⟨⟨by decide, by decide⟩, by constructor <;> decide +kernel, by decide, by decide, s,
    ⟨false, _, hobeys, hexec⟩, Option.isNone_iff_eq_none.1 hnone, of_decide_eq_true hphase, ?_⟩
  cases hp : propose s (crammed 3) with
  | ok r =>
    rw [hp] at hthrow
    cases hthrow
  | error e =>
    rw [hp] at hthrow
    rw [of_decide_eq_true hthrow]

/-- Two threads are what two slots take. -/
theorem initialPinning_returns_iff_pair : ∃ s, Reachable oneCpu s ∧ WindowFits (crammed 2) ∧
    ∃ r, propose s (crammed 2) = .ok r := by
  have hd : oneCpu.Discovered := ⟨by decide, by decide⟩
  have hopt : (crammed 2).options.Accepted := by constructor <;> decide +kernel
  have hfits : WindowFits (crammed 2) := Or.inr (by decide)
  have hobeys : Run.Obeys step (Protocol oneCpu) {} [.propose (crammed 2)] := by decide +kernel
  have hsome : (Run.exec step {} [.propose (crammed 2)]).any (fun s => s.outstanding.isNone &&
      decide ((intake s (crammed 2)).1.phase = .initialPinning)) = true := by decide +kernel
  obtain ⟨s, hexec, hs⟩ := (Option.any_eq_true _ _).1 hsome
  rw [Bool.and_eq_true] at hs
  have hreach : Reachable oneCpu s := ⟨false, _, hobeys, hexec⟩
  exact ⟨s, hreach, hfits, (initialPinning_returns_iff hd (by decide) hreach rfl (by decide) hopt
    (Option.isNone_iff_eq_none.1 hs.1) (of_decide_eq_true hs.2)).2 hfits⟩

end Main

end IncrementalSolver
end AffinityGraph
