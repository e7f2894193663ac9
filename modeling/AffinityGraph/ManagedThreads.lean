import AffinityGraph.Cohort
import AffinityGraph.Hotspots
/-!
# ManagedThreads — the cohort `select_managed_threads` chooses (`solver.cpp`)

Four loops work on one set of TIDs.  The retention takes what is left of the previous cohort inside the rank band, the strongest
edge seeds an empty cohort, the growth fills it up to the limit, and the refinement exchanges its weak threads one for one.
What an exchange is said to improve is what it adds to the hotspot weight inside the cohort (`inside_exchange`), so along the
refinement that weight only rises and no cohort comes back.
-/
namespace AffinityGraph
namespace HotspotGraph

variable {g : HotspotGraph} {previous selected : OrdSet Tid} {limit : Nat}

/-- The hotspot weight between members. -/
def inside (g : HotspotGraph) (selected : OrdSet Tid) : ℚ :=
  (g.hotspots.map (fun e => if e.fromTid ∈ selected ∧ e.toTid ∈ selected then e.score else 0)).sum

/-! ## The exchange -/

def exchanged (selected : OrdSet Tid) (out inn : Tid) : OrdSet Tid := OrdSet.add (selected.erase out) inn

theorem mem_exchanged {out inn tid : Tid} : tid ∈ exchanged selected out inn ↔ inn = tid ∨ out ≠ tid ∧ tid ∈ selected := by
  unfold exchanged
  rw [OrdSet.mem_add, OrdMap.mem_erase]

/-- The weight of a thread's edges to the threads of a set. -/
theorem sum_adjacency (g : HotspotGraph) (tid : Tid) (p : Tid → Bool) :
    (((g.adjacency tid).filter (fun n => p n.1)).map Prod.snd).sum =
      (g.hotspots.map (fun e => (if e.fromTid = tid ∧ p e.toTid = true then e.score else 0) +
        (if e.toTid = tid ∧ p e.fromTid = true then e.score else 0))).sum := by
  unfold adjacency
  induction g.hotspots with
  | nil => rfl
  | cons e l ih =>
    rw [List.flatMap_cons, List.filter_append, List.map_append, List.sum_append, ih, List.map_cons, List.sum_cons]
    congr 1
    by_cases hf : e.fromTid = tid
    · by_cases ht : e.toTid = tid
      · cases hp : p tid <;> simp [hf, ht, hp]
      · cases hp : p e.toTid <;> simp [hf, ht, hp]
    · by_cases ht : e.toTid = tid
      · cases hp : p e.fromTid <;> simp [hf, ht, hp]
      · simp [hf, ht]

/-- One edge under an exchange: what it weighs inside before and after differs by what it gains and loses. -/
theorem edge_exchange {out inn a b : Tid} (hab : a ≠ b) (hout : out ∈ selected) (hinn : inn ∉ selected) (w : ℚ) :
    (if a ∈ exchanged selected out inn ∧ b ∈ exchanged selected out inn then w else 0) +
        ((if a = out ∧ b ∈ selected then w else 0) + (if b = out ∧ a ∈ selected then w else 0)) =
      (if a ∈ selected ∧ b ∈ selected then w else 0) +
        ((if a = inn ∧ b ≠ out ∧ b ∈ selected then w else 0) + (if b = inn ∧ a ≠ out ∧ a ∈ selected then w else 0)) := by
  have hne : out ≠ inn := fun h => hinn (h ▸ hout)
  simp only [mem_exchanged]
  by_cases ha : a = inn
  · subst ha
    simp [hinn, hab, hab.symm, hne.symm, eq_comm]
  by_cases hb : b = inn
  · subst hb
    simp [hinn, hab, hne, hne.symm, eq_comm]
  by_cases hao : a = out
  · subst hao
    simp [hout, hb, hab.symm, hne.symm, eq_comm]
  by_cases hbo : b = out
  · subst hbo
    simp [hout, ha, hab, hne.symm, eq_comm]
  · simp [ha, hb, hao, hbo, Ne.symm ha, Ne.symm hb, Ne.symm hao, Ne.symm hbo]

/-- **An exchange improves what it adds inside.** -/
theorem inside_exchange (hloop : ∀ e ∈ g.hotspots, e.fromTid ≠ e.toTid) {out inn : Tid} (hout : out ∈ selected)
    (hinn : inn ∉ selected) : g.inside (exchanged selected out inn) = g.inside selected + g.improvement selected out inn := by
  have hsum : g.inside (exchanged selected out inn) +
      (((g.adjacency out).filter (fun n => decide (n.1 ∈ selected))).map Prod.snd).sum =
      g.inside selected +
        (((g.adjacency inn).filter (fun n => decide (n.1 ≠ out ∧ n.1 ∈ selected))).map Prod.snd).sum := by
    unfold inside
    rw [sum_adjacency g inn (fun t => decide (t ≠ out ∧ t ∈ selected)), sum_adjacency g out (fun t => decide (t ∈ selected)),
      ← List.sum_map_add, ← List.sum_map_add]
    refine congrArg List.sum (List.map_congr_left (fun e he => ?_))
    simp only [decide_eq_true_eq]
    exact edge_exchange (hloop e he) hout hinn e.score
  unfold improvement
  linarith

/-- The exchange the refinement makes: one that is not of the previous cohort goes out, one that was excluded comes in, and the
weight inside rises. -/
structure Exchange (g : HotspotGraph) (previous before after : OrdSet Tid) : Prop where
  oneForOne : ∃ out ∈ before, ∃ inn ∈ g.ranked, inn ∉ before ∧ after = exchanged before out inn
  size : after.size = before.size
  stays : ∀ tid ∈ previous, tid ∈ before → tid ∈ after
  rises : g.inside before + 1 / 10 ^ 12 < g.inside after

theorem bestExchange_spec {x : Tid × Tid} (h : g.bestExchange previous selected = some x) :
    x.1 ∈ selected ∧ x.1 ∉ previous ∧ x.2 ∈ g.ranked ∧ x.2 ∉ selected ∧
      1 / 10 ^ 12 < g.improvement selected x.1 x.2 := by
  have hmem := Ranking.mem_of_pick (fun _ => rfl) (fun b x => by
    dsimp only
    split
    · exact .inr rfl
    · exact .inl rfl) h
  obtain ⟨hpair, hgain⟩ := List.mem_filter.1 hmem
  obtain ⟨out, hout, hpair⟩ := List.mem_flatMap.1 hpair
  obtain ⟨inn, hinn, rfl⟩ := List.mem_map.1 hpair
  obtain ⟨hout, hprev⟩ := List.mem_filter.1 hout
  obtain ⟨hranked, hex⟩ := List.mem_filter.1 hinn
  exact ⟨OrdSet.mem_toList.1 hout, by simpa using hprev, hranked, by simpa using hex, by simpa using hgain⟩

/-- **Every exchange that is chosen is one.** -/
theorem bestExchange_exchange (hloop : ∀ e ∈ g.hotspots, e.fromTid ≠ e.toTid) {x : Tid × Tid}
    (h : g.bestExchange previous selected = some x) : Exchange g previous selected (exchanged selected x.1 x.2) := by
  obtain ⟨hout, hprev, hranked, hinn, hgain⟩ := bestExchange_spec h
  refine ⟨⟨x.1, hout, x.2, hranked, hinn, rfl⟩, ?_, fun tid hp hs => ?_, ?_⟩
  · have hkept : x.2 ∉ selected.erase x.1 := fun hm => hinn (OrdMap.mem_erase.1 hm).2
    rw [exchanged, OrdSet.add, OrdMap.size_insert_of_notMem hkept, OrdMap.size_erase_of_mem hout]
  · refine mem_exchanged.2 (.inr ⟨fun he => hprev (he ▸ hp), hs⟩)
  · rw [inside_exchange hloop hout hinn]
    linarith

/-! ## The refinement -/

/-- The cohorts the refinement goes through, from the one it starts with. -/
def refinements (g : HotspotGraph) (previous : OrdSet Tid) : Nat → OrdSet Tid → List (OrdSet Tid)
  | 0, selected => [selected]
  | passes + 1, selected =>
    match g.bestExchange previous selected with
    | some (out, inn) => selected :: refinements g previous passes (exchanged selected out inn)
    | none => [selected]

/-- The refinement ends in the last of them. -/
theorem refinements_last (g : HotspotGraph) (previous : OrdSet Tid) : ∀ (passes : Nat) (selected : OrdSet Tid),
    (refinements g previous passes selected).getLast? = some (g.refine previous passes selected)
  | 0, _ => rfl
  | passes + 1, selected => by
    unfold refinements refine
    cases h : g.bestExchange previous selected with
    | none => rfl
    | some x =>
      obtain ⟨out, inn⟩ := x
      simp only [List.getLast?_cons, refinements_last g previous passes (exchanged selected out inn)]
      rfl

theorem refinements_head (g : HotspotGraph) (previous : OrdSet Tid) (passes : Nat) (selected : OrdSet Tid) :
    ∃ rest, refinements g previous passes selected = selected :: rest := by
  cases passes with
  | zero => exact ⟨[], rfl⟩
  | succ passes =>
    unfold refinements
    cases g.bestExchange previous selected with
    | none => exact ⟨[], rfl⟩
    | some x => exact ⟨_, rfl⟩

/-- **From one cohort to the next there is an exchange.** -/
theorem refinements_chain (hloop : ∀ e ∈ g.hotspots, e.fromTid ≠ e.toTid) (previous : OrdSet Tid) :
    ∀ (passes : Nat) (selected : OrdSet Tid), (refinements g previous passes selected).IsChain (Exchange g previous)
  | 0, selected => .singleton selected
  | passes + 1, selected => by
    unfold refinements
    cases h : g.bestExchange previous selected with
    | none => exact .singleton selected
    | some x =>
      obtain ⟨out, inn⟩ := x
      have hrest := refinements_chain hloop previous passes (exchanged selected out inn)
      obtain ⟨rest, hcons⟩ := refinements_head g previous passes (exchanged selected out inn)
      dsimp only
      rw [hcons] at hrest ⊢
      exact List.isChain_cons_cons.2 ⟨bestExchange_exchange hloop h, hrest⟩

/-- The weight inside only rises, so no cohort comes back. -/
theorem refinements_nodup (hloop : ∀ e ∈ g.hotspots, e.fromTid ≠ e.toTid) (previous : OrdSet Tid) (passes : Nat)
    (selected : OrdSet Tid) : (refinements g previous passes selected).Nodup := by
  have hchain : (refinements g previous passes selected).IsChain (fun a b => g.inside a < g.inside b) :=
    (refinements_chain hloop previous passes selected).imp (fun a b h => by
      have := h.rises
      have hpos : (0 : ℚ) < 1 / 10 ^ 12 := by positivity
      linarith)
  have : IsTrans (OrdSet Tid) (fun a b => g.inside a < g.inside b) := ⟨fun a b c hab hbc => lt_trans hab hbc⟩
  exact hchain.pairwise.imp (fun hab heq => absurd (congrArg g.inside heq) (ne_of_lt hab))

/-! ## The loops before it -/

/-- A cohort: threads of the graph, no more than the limit. -/
structure Cohort (g : HotspotGraph) (limit : Nat) (selected : OrdSet Tid) : Prop where
  known : ∀ tid ∈ selected, tid ∈ g.byTid
  bounded : selected.size ≤ limit

theorem mem_ranked {tid : Tid} : tid ∈ g.ranked ↔ tid ∈ g.byTid := by
  rw [ranked, List.mem_insertionSort, OrdMap.mem_keys]

theorem nodup_ranked (g : HotspotGraph) : g.ranked.Nodup :=
  (List.perm_insertionSort _ _).nodup_iff.2 g.byTid.nodup_keys

theorem length_ranked (g : HotspotGraph) : g.ranked.length = g.byTid.size := by
  rw [ranked, List.length_insertionSort, OrdMap.size_eq_length_keys]

/-- The retention loop: what it has stays, and it takes the next of the previous cohort as long as there is room. -/
theorem retain_fold (previous : OrdSet Tid) (limit : Nat) : ∀ (l : List Tid) (selected : OrdSet Tid), l.Nodup →
    (∀ tid ∈ l, tid ∉ selected) → selected.size ≤ limit →
    (l.foldl (fun (selected : OrdSet Tid) tid =>
      if selected.size < limit ∧ tid ∈ previous then selected.add tid else selected) selected).size ≤ limit ∧
    ∀ tid, (tid ∈ l.foldl (fun (selected : OrdSet Tid) tid =>
      if selected.size < limit ∧ tid ∈ previous then selected.add tid else selected) selected ↔
        tid ∈ selected ∨ tid ∈ (l.filter (fun t => decide (t ∈ previous))).take (limit - selected.size))
  | [], selected, _, _, hs => by simp [hs]
  | x :: l, selected, hnodup, hnew, hs => by
    obtain ⟨hx, hl⟩ := List.nodup_cons.1 hnodup
    have hxs := hnew x List.mem_cons_self
    have hrest : ∀ tid ∈ l, tid ∉ selected := fun tid ht => hnew tid (List.mem_cons_of_mem _ ht)
    rw [List.foldl_cons, List.filter_cons]
    by_cases hprev : x ∈ previous
    · by_cases hroom : selected.size < limit
      · have hsize : (OrdSet.add selected x).size = selected.size + 1 := OrdMap.size_insert_of_notMem hxs ()
        have hnext : ∀ tid ∈ l, tid ∉ OrdSet.add selected x := by
          intro tid ht hm
          rcases OrdSet.mem_add.1 hm with rfl | hm
          · exact hx ht
          · exact hrest tid ht hm
        obtain ⟨hle, hmem⟩ := retain_fold previous limit l (OrdSet.add selected x) hl hnext (by omega)
        rw [if_pos ⟨hroom, hprev⟩]
        refine ⟨hle, fun tid => ?_⟩
        have hsucc : limit - selected.size = (limit - (selected.size + 1)) + 1 := by omega
        rw [hmem, if_pos (by simpa using hprev), hsize, hsucc, List.take_succ_cons, List.mem_cons, OrdSet.mem_add]
        tauto
      · obtain ⟨hle, hmem⟩ := retain_fold previous limit l selected hl hrest hs
        rw [if_neg (fun h => hroom h.1)]
        refine ⟨hle, fun tid => ?_⟩
        have hfull : limit - selected.size = 0 := by omega
        rw [hmem, hfull, List.take_zero, List.take_zero]
    · obtain ⟨hle, hmem⟩ := retain_fold previous limit l selected hl hrest hs
      rw [if_neg (fun h => hprev h.2), if_neg (by simpa using hprev)]
      exact ⟨hle, hmem⟩

/-- **The retention** takes the first of the previous cohort in the rank band, up to the limit. -/
theorem retained_spec (g : HotspotGraph) (previous : OrdSet Tid) (limit retentionLimit : Nat) :
    Cohort g limit (g.retained previous limit retentionLimit) ∧
    ∀ tid, tid ∈ g.retained previous limit retentionLimit ↔
      tid ∈ ((g.ranked.take retentionLimit).filter (fun t => decide (t ∈ previous))).take limit := by
  obtain ⟨hle, hmem⟩ := retain_fold previous limit (g.ranked.take retentionLimit) ∅
    ((List.take_sublist _ _).nodup g.nodup_ranked) (fun tid _ => OrdMap.notMem_empty tid) (Nat.zero_le _)
  have hiff : ∀ tid, tid ∈ g.retained previous limit retentionLimit ↔
      tid ∈ ((g.ranked.take retentionLimit).filter (fun t => decide (t ∈ previous))).take limit := by
    intro tid
    refine (hmem tid).trans ⟨fun h => h.resolve_left (OrdMap.notMem_empty tid), .inr⟩
  refine ⟨⟨fun tid ht => ?_, hle⟩, hiff⟩
  have hin := List.mem_of_mem_take ((hiff tid).1 ht)
  exact mem_ranked.1 (List.mem_of_mem_take (List.mem_filter.1 hin).1)

/-- The seed is one of the edges. -/
theorem seed_mem : ∀ (l : List RelationEdge) (seed : RelationEdge), seed ∈ g.hotspots → (∀ e ∈ l, e ∈ g.hotspots) →
    l.foldl (fun seed e => if seedKey seed < seedKey e then e else seed) seed ∈ g.hotspots
  | [], _, hs, _ => hs
  | e :: l, seed, hs, hl => by
    have hrest : ∀ x ∈ l, x ∈ g.hotspots := fun x hx => hl x (List.mem_cons_of_mem _ hx)
    rw [List.foldl_cons]
    split
    · exact seed_mem l e (hl e List.mem_cons_self) hrest
    · exact seed_mem l seed hs hrest

/-- The seed keeps a cohort one, and takes nothing out. -/
theorem seeded_spec (hends : ∀ e ∈ g.hotspots, e.fromTid ∈ g.byTid ∧ e.toTid ∈ g.byTid)
    (hloop : ∀ e ∈ g.hotspots, e.fromTid ≠ e.toTid) (h : Cohort g limit selected) :
    Cohort g limit (g.seeded selected limit) ∧ ∀ tid ∈ selected, tid ∈ g.seeded selected limit := by
  unfold seeded
  split
  · exact ⟨h, fun _ ht => ht⟩
  · rename_i front rest hhot
    split
    · rename_i hempty
      have hmem := seed_mem g.hotspots front (by rw [hhot]; exact List.mem_cons_self) (fun e he => he)
      generalize g.hotspots.foldl (fun seed e => if seedKey seed < seedKey e then e else seed) front = seed at hmem
      have hnone : ∀ tid, tid ∉ selected := fun tid ht => by
        rw [OrdMap.mem_def, OrdMap.isEmpty_iff.1 hempty.1 tid] at ht
        cases ht
      refine ⟨⟨fun tid ht => ?_, ?_⟩, fun tid ht => absurd ht (hnone tid)⟩
      · rcases OrdSet.mem_add.1 ht with rfl | ht
        · exact (hends seed hmem).2
        · rcases OrdSet.mem_add.1 ht with rfl | ht
          · exact (hends seed hmem).1
          · exact absurd ht (hnone tid)
      · have hfrom : (OrdSet.add selected seed.fromTid).size = selected.size + 1 :=
          OrdMap.size_insert_of_notMem (hnone _) ()
        have hto : seed.toTid ∉ OrdSet.add selected seed.fromTid := by
          intro ht
          rcases OrdSet.mem_add.1 ht with he | ht
          · exact hloop seed hmem he
          · exact hnone _ ht
        have hzero : selected.size = 0 := by
          have := hempty.1
          unfold OrdMap.isEmpty at this
          rw [OrdMap.size, List.isEmpty_iff.1 this]
          rfl
        have htwo : (OrdSet.add (OrdSet.add selected seed.fromTid) seed.toTid).size = 2 := by
          rw [OrdSet.add, OrdMap.size_insert_of_notMem hto, hfrom, hzero]
        rw [htwo]
        exact hempty.2
    · exact ⟨h, fun _ ht => ht⟩

theorem bestGrowth_some {tid : Tid} (h : g.bestGrowth selected = some tid) : tid ∈ g.byTid ∧ tid ∉ selected := by
  have hmem := Ranking.mem_of_pick (fun _ => rfl) (fun b x => by
    dsimp only
    split
    · exact .inr rfl
    · exact .inl rfl) h
  obtain ⟨hranked, hex⟩ := List.mem_filter.1 hmem
  exact ⟨mem_ranked.1 hranked, by simpa using hex⟩

/-- Nothing to grow by: all threads are in. -/
theorem bestGrowth_none (h : g.bestGrowth selected = none) : g.ranked.length ≤ selected.size := by
  have hnil := Ranking.nil_of_pick (fun _ => rfl) (fun b x => by
    dsimp only
    split
    · exact .inr rfl
    · exact .inl rfl) h
  have hall : g.ranked ⊆ selected.toList := by
    intro tid ht
    have := List.filter_eq_nil_iff.1 hnil tid ht
    exact OrdSet.mem_toList.2 (by simpa using this)
  rw [OrdMap.size_eq_length_keys]
  exact (List.subperm_of_subset g.nodup_ranked hall).length_le

/-- **The growth fills the cohort**: it takes nothing out and ends with as many threads as the limit. -/
theorem grow_spec (hlimit : limit ≤ g.ranked.length) : ∀ (turns : Nat) (selected : OrdSet Tid), Cohort g limit selected →
    limit ≤ selected.size + turns →
    (∀ tid ∈ g.grow limit turns selected, tid ∈ g.byTid) ∧ (g.grow limit turns selected).size = limit ∧
      ∀ tid ∈ selected, tid ∈ g.grow limit turns selected
  | 0, selected, h, hturns => ⟨h.known, by have := h.bounded; simp only [grow]; omega, fun _ ht => ht⟩
  | turns + 1, selected, h, hturns => by
    unfold grow
    split
    · rename_i hroom
      cases hbest : g.bestGrowth selected with
      | none =>
        have := bestGrowth_none hbest
        omega
      | some tid =>
        obtain ⟨hknown, hnew⟩ := bestGrowth_some hbest
        have hsize : (OrdSet.add selected tid).size = selected.size + 1 := OrdMap.size_insert_of_notMem hnew ()
        have hnext : Cohort g limit (OrdSet.add selected tid) := by
          refine ⟨fun t ht => ?_, by omega⟩
          rcases OrdSet.mem_add.1 ht with rfl | ht
          · exact hknown
          · exact h.known t ht
        obtain ⟨h1, h2, h3⟩ := grow_spec hlimit turns (OrdSet.add selected tid) hnext (by omega)
        exact ⟨h1, h2, fun t ht => h3 t (OrdSet.mem_add.2 (.inr ht))⟩
    · rename_i hfull
      exact ⟨h.known, by have := h.bounded; omega, fun _ ht => ht⟩

/-- The cohort the refinement starts with. -/
def admitted (g : HotspotGraph) (previous : OrdSet Tid) (limit retentionLimit : Nat) : OrdSet Tid :=
  g.grow limit limit (g.seeded (g.retained previous limit retentionLimit) limit)

/-- **The three loops together.**  As many threads as the limit, the first of the previous cohort in the rank band among them. -/
theorem admitted_spec (g : HotspotGraph) (hends : ∀ e ∈ g.hotspots, e.fromTid ≠ e.toTid ∧ e.fromTid ∈ g.byTid ∧ e.toTid ∈ g.byTid)
    (hlimit : limit ≤ g.ranked.length) (previous : OrdSet Tid) (retentionLimit : Nat) :
    (∀ tid ∈ g.admitted previous limit retentionLimit, tid ∈ g.byTid) ∧
    (g.admitted previous limit retentionLimit).size = limit ∧
    ∀ tid ∈ ((g.ranked.take retentionLimit).filter (fun t => decide (t ∈ previous))).take limit,
      tid ∈ g.admitted previous limit retentionLimit := by
  obtain ⟨hretained, hfirst⟩ := g.retained_spec previous limit retentionLimit
  obtain ⟨hseeded, hkept⟩ := seeded_spec (fun e he => (hends e he).2) (fun e he => (hends e he).1) hretained
  obtain ⟨hknown, hsize, hgrown⟩ := grow_spec hlimit limit _ hseeded (Nat.le_add_left _ _)
  exact ⟨hknown, hsize, fun tid ht => hgrown tid (hkept tid ((hfirst tid).2 ht))⟩

/-- **The refinement** changes neither the size nor what is left of the previous cohort. -/
theorem refine_spec (hloop : ∀ e ∈ g.hotspots, e.fromTid ≠ e.toTid) (previous : OrdSet Tid) :
    ∀ (passes : Nat) {selected : OrdSet Tid}, (∀ tid ∈ selected, tid ∈ g.byTid) →
      (∀ tid ∈ g.refine previous passes selected, tid ∈ g.byTid) ∧
      (g.refine previous passes selected).size = selected.size ∧
      ∀ tid ∈ previous, tid ∈ selected → tid ∈ g.refine previous passes selected
  | 0, _, hknown => ⟨hknown, rfl, fun _ _ ht => ht⟩
  | passes + 1, selected, hknown => by
    unfold refine
    cases h : g.bestExchange previous selected with
    | none => exact ⟨hknown, rfl, fun _ _ ht => ht⟩
    | some x =>
      obtain ⟨out, inn⟩ := x
      have hx := bestExchange_exchange hloop h
      have hknown' : ∀ tid ∈ exchanged selected out inn, tid ∈ g.byTid := by
        intro tid ht
        rcases mem_exchanged.1 ht with rfl | ⟨-, ht⟩
        · exact mem_ranked.1 (bestExchange_spec h).2.2.1
        · exact hknown tid ht
      obtain ⟨h1, h2, h3⟩ := refine_spec hloop previous passes hknown'
      exact ⟨h1, h2.trans hx.size, fun tid hp ht => h3 tid hp (hx.stays tid hp ht)⟩

end HotspotGraph

/-! ## The selection -/

namespace HotspotGraph

/-- The graph the threads are selected in. -/
def among (threads : List ThreadDemand) (edges : List RelationEdge) (options : IncrementalOptions) : HotspotGraph :=
  let byTid := threads.foldl (fun (m : OrdMap Tid ThreadDemand) t => m.insert t.identity.tid t) ∅
  ⟨byTid, selectHotspotEdges edges byTid options⟩

variable {threads : List ThreadDemand} {edges : List RelationEdge} {options : IncrementalOptions}

/-- A hotspot edge joins two different threads of the graph. -/
theorem among_ends (threads : List ThreadDemand) (edges : List RelationEdge) (options : IncrementalOptions) :
    ∀ e ∈ (among threads edges options).hotspots, e.fromTid ≠ e.toTid ∧
      e.fromTid ∈ (among threads edges options).byTid ∧ e.toTid ∈ (among threads edges options).byTid := by
  intro e he
  unfold among at he
  dsimp only at he
  rw [Hotspots.selectHotspotEdges_eq, List.mem_insertionSort] at he
  obtain ⟨x, hx, rfl⟩ := List.mem_map.1 he
  obtain ⟨hne, -, hfrom, hto⟩ := (Hotspots.mem_eligible.1 (List.mem_filter.1 hx).1).2
  exact ⟨hne, hfrom, hto⟩

theorem mem_among {tid : Tid} : tid ∈ (among threads edges options).byTid ↔ ∃ t ∈ threads, t.identity.tid = tid := by
  constructor
  · intro h
    obtain ⟨t, ht⟩ := OrdMap.mem_iff.1 h
    rcases OrdMap.find?_foldl_insert (fun t : ThreadDemand => t.identity.tid) (fun t => t) threads ∅ ht with
      ⟨x, hx, hk, -⟩ | hnone
    · exact ⟨x, hx, hk⟩
    · cases hnone
  · rintro ⟨t, ht, rfl⟩
    exact OrdMap.mem_foldl_insert (fun t : ThreadDemand => t.identity.tid) (fun t => t) threads ∅ ht

theorem ranked_length (htids : (threads.map (fun t => t.identity.tid)).Nodup) :
    (among threads edges options).ranked.length = threads.length := by
  have hperm : (among threads edges options).byTid.keys.Perm (threads.map (fun t => t.identity.tid)) := by
    refine (List.perm_ext_iff_of_nodup (OrdMap.nodup_keys _) htids).2 (fun tid => ?_)
    rw [OrdMap.mem_keys, mem_among, List.mem_map]
  rw [length_ranked, OrdMap.size_eq_length_keys, hperm.length_eq, List.length_map]

/-- As many threads as members, when the members are threads. -/
theorem length_members (htids : (threads.map (fun t => t.identity.tid)).Nodup) {selected : OrdSet Tid}
    (hknown : ∀ tid ∈ selected, ∃ t ∈ threads, t.identity.tid = tid) :
    (threads.filter (fun t => decide (t.identity.tid ∈ selected))).length = selected.size := by
  have hperm : ((threads.filter (fun t => decide (t.identity.tid ∈ selected))).map (fun t => t.identity.tid)).Perm
      selected.keys := by
    refine (List.perm_ext_iff_of_nodup (htids.sublist (List.filter_sublist.map _)) selected.nodup_keys).2 (fun tid => ?_)
    rw [OrdMap.mem_keys, List.mem_map]
    constructor
    · rintro ⟨t, ht, rfl⟩
      simpa using (List.mem_filter.1 ht).2
    · intro ht
      obtain ⟨t, hmem, rfl⟩ := hknown tid ht
      exact ⟨t, List.mem_filter.2 ⟨hmem, by simpa using ht⟩, rfl⟩
  rw [OrdMap.size_eq_length_keys, ← hperm.length_eq, List.length_map]

end HotspotGraph

open HotspotGraph in
/-- **`select_managed_threads`.**  The cohort is a part of the threads in their order, exactly as many as the limit has room for;
it has the first of the previous cohort inside the rank band; and the refinement, from one cohort to the next, keeps the size,
takes out no member of the previous cohort and raises the weight inside, so that no cohort comes back. -/
theorem selectManagedThreads_spec (threads : List ThreadDemand) (edges : List RelationEdge) (previous : OrdSet Tid)
    (options : IncrementalOptions) (htids : (threads.map (fun t => t.identity.tid)).Nodup)
    (hm : 0 < options.maximumManagedThreads) :
    let g := among threads edges options
    let L := min options.maximumManagedThreads.toNat threads.length
    let R := min threads.length ⌈(L : ℚ) * (1 + options.managedThreadHysteresisRatio)⌉.toNat
    let result := selectManagedThreads threads edges previous options
    result.Sublist threads ∧ result.length = L ∧
    (∀ tid ∈ ((g.ranked.take R).filter (fun t => decide (t ∈ previous))).take L, ∃ t ∈ result, t.identity.tid = tid) ∧
    (options.maximumManagedThreads < threads.length →
      result = threads.filter (fun t => decide (t.identity.tid ∈ g.refine previous L (g.admitted previous L R))) ∧
      (g.refinements previous L (g.admitted previous L R)).getLast? = some (g.refine previous L (g.admitted previous L R))) ∧
    (g.refinements previous L (g.admitted previous L R)).IsChain (Exchange g previous) ∧
    (g.refinements previous L (g.admitted previous L R)).Nodup := by
  intro g L R result
  have hends := among_ends threads edges options
  have hloop : ∀ e ∈ g.hotspots, e.fromTid ≠ e.toTid := fun e he => (hends e he).1
  refine ⟨selectManagedThreads_sublist threads edges previous options, ?_⟩
  have hchain := refinements_chain hloop previous L (g.admitted previous L R)
  have hnodup := refinements_nodup hloop previous L (g.admitted previous L R)
  by_cases hsmall : (threads.length : Int) ≤ options.maximumManagedThreads
  · have hall : result = threads := if_pos (.inr hsmall)
    have hL : L = threads.length := by omega
    rw [hall]
    refine ⟨hL.symm, fun tid ht => ?_, fun hlt => absurd hsmall (not_le.2 hlt), hchain, hnodup⟩
    have hin := (List.mem_filter.1 (List.mem_of_mem_take ht)).1
    exact mem_among.1 (mem_ranked.1 (List.mem_of_mem_take hin))
  · have hlen : g.ranked.length = threads.length := ranked_length htids
    have hresult : result = threads.filter
        (fun t => decide (t.identity.tid ∈ g.refine previous L (g.admitted previous L R))) := by
      have hlimit : min g.ranked.length options.maximumManagedThreads.toNat = L := by rw [hlen, min_comm]
      have hretention : min g.ranked.length ⌈(L : ℚ) * (1 + options.managedThreadHysteresisRatio)⌉.toNat = R := by rw [hlen]
      unfold g among at hlimit hretention
      show selectManagedThreads threads edges previous options = _
      unfold selectManagedThreads
      rw [if_neg (by omega)]
      dsimp only at hlimit hretention ⊢
      rw [hlimit, hretention]
      rfl
    have hroom : L ≤ g.ranked.length := by
      rw [hlen]
      exact min_le_right _ _
    obtain ⟨hknown, hsize, hfirst⟩ := g.admitted_spec hends hroom previous R
    obtain ⟨hin, hcount, hstays⟩ := refine_spec hloop previous L hknown
    refine ⟨?_, fun tid ht => ?_, fun _ => ⟨hresult, refinements_last g previous L _⟩, hchain, hnodup⟩
    · rw [hresult, length_members htids (fun tid ht => mem_among.1 (hin tid ht))]
      exact hcount.trans hsize
    · have hprev : tid ∈ previous := by simpa using (List.mem_filter.1 (List.mem_of_mem_take ht)).2
      have hmember := hstays tid hprev (hfirst tid ht)
      obtain ⟨t, htm, rfl⟩ := mem_among.1 (hin tid hmember)
      rw [hresult]
      exact ⟨t, List.mem_filter.2 ⟨htm, by simpa using hmember⟩, rfl⟩

/-- The threads of the path, two of which are managed. -/
def pathDemands : List ThreadDemand := Hotspots.pathThreads.entries.map Prod.snd

def twoManaged : IncrementalOptions := { maximumManagedThreads := 2 }

/-- A member of the previous cohort stays and brings its heavier neighbour in. -/
theorem selectManagedThreads_spec_path :
    (selectManagedThreads pathDemands Hotspots.path (OrdSet.ofList [3]) twoManaged).map (fun t => t.identity.tid) = [3, 4] ∧
    (selectManagedThreads pathDemands Hotspots.path (OrdSet.ofList [3]) twoManaged).length = 2 :=
  ⟨by decide +kernel, (selectManagedThreads_spec pathDemands Hotspots.path (OrdSet.ofList [3]) twoManaged (by decide +kernel)
    (by decide +kernel)).2.1⟩

end AffinityGraph
