import AffinityGraph.NodePlanning
import AffinityGraph.Run
import AffinityGraph.Seating
import Mathlib.Data.List.Perm.Subperm
import Mathlib.Tactic.Linarith
import Mathlib.Algebra.BigOperators.Field
import Mathlib.Algebra.BigOperators.Ring.Finset
import Mathlib.Tactic.FieldSimp
/-!
# NodeFloors — when the floor repair of the node plan can be infeasible

The plan's tallies are the weights of a seating of the live threads (`Tallies`), kept by the greedy assignment and by
every move of the repair.  The floors ask for no more threads than there are and never exceed the caps, so a node below
its floor always has a donor; only the demand of the donors' threads can stop the repair (`repairNode_spec`).
-/
namespace AffinityGraph
namespace IncrementalSolver

/-! ## What the intake leaves -/

theorem find?_foldl_removeThread (u : Tid) : ∀ (l : List Tid) (s : IncrementalSolver),
    (l.foldl removeThread s).threads.find? u = if u ∈ l then none else s.threads.find? u
  | [], s => by simp
  | t :: l, s => by
    rw [List.foldl_cons, find?_foldl_removeThread u l]
    have h : (removeThread s t).threads = s.threads.erase t := rfl
    rw [h, OrdMap.find?_erase]
    by_cases htu : t = u
    · simp [htu]
    · simp [htu, Ne.symm htu]

/-- The departures leave only threads of the window. -/
theorem mem_of_mem_dropStale {s : IncrementalSolver} {threads : List ThreadDemand} {u : Tid}
    (h : u ∈ (dropStale s threads).threads) : ∃ t ∈ threads, t.identity.tid = u := by
  rw [OrdMap.mem_def, dropStale, find?_foldl_removeThread] at h
  split at h
  · simp at h
  · rename_i hl
    have hu : u ∈ s.threads.keys := OrdMap.mem_keys.2 h
    simpa [hu] using hl

theorem find?_forgetReused (s : IncrementalSolver) {identity : ThreadIdentity} {u : Tid} (hu : identity.tid ≠ u) :
    (forgetReused s identity).threads.find? u = s.threads.find? u := by
  unfold forgetReused
  split
  · split
    · rfl
    · exact OrdMap.find?_erase_ne _ hu
  · rfl

theorem find?_takeIn (input : IncrementalInput) (adjacency : OrdMap Tid (List RelationEdge)) (st : Intake)
    (thread : ThreadDemand) (u : Tid) :
    (takeIn input adjacency st thread).solver.threads.find? u =
      if thread.identity.tid = u then some thread else st.solver.threads.find? u := by
  unfold takeIn
  dsimp only
  rw [OrdMap.find?_insert]
  by_cases hu : thread.identity.tid = u
  · rw [if_pos hu, if_pos hu]
  · rw [if_neg hu, if_neg hu, ← find?_forgetReused st.solver hu]
    split
    · rfl
    · split <;> rfl

theorem takeIn_local (input : IncrementalInput) (adjacency : OrdMap Tid (List RelationEdge)) :
    Loop.Local (fun (st : Intake) u => st.solver.threads.find? u) (fun t : ThreadDemand => t.identity.tid)
      (takeIn input adjacency) := by
  intro st t u h
  exact (find?_takeIn input adjacency st t u).trans (if_neg h)

@[simp] theorem threads_settlePhase (input : IncrementalInput) (st : Intake) :
    (settlePhase input st).threads = st.solver.threads := by
  unfold settlePhase startReplan
  dsimp only
  repeat' split
  all_goals rfl

@[simp] theorem threads_settleHotspots (input : IncrementalInput) (s : IncrementalSolver) :
    (settleHotspots input s).1.threads = s.threads := by
  unfold settleHotspots startReplan
  dsimp only
  repeat' split
  all_goals rfl

theorem edges_settleHotspots (input : IncrementalInput) (s : IncrementalSolver) :
    (settleHotspots input s).1.edges =
      (selectHotspotEdges input.edges s.threads input.options).foldl
        (fun (m : OrdMap EdgeKey RelationEdge) e => m.insert (edgeKey e.fromTid e.toTid) e) ∅ := by
  unfold settleHotspots startReplan
  dsimp only
  repeat' split
  all_goals rfl

theorem threads_intake (s : IncrementalSolver) (input : IncrementalInput) :
    (intake s input).1.threads = (takenIn s input).solver.threads := by
  unfold intake
  dsimp only
  split
  · simp
  · split <;> simp

theorem edges_intake (s : IncrementalSolver) (input : IncrementalInput) :
    (intake s input).1.edges = (settleHotspots input (settlePhase input (takenIn s input))).1.edges := by
  unfold intake
  dsimp only
  split
  · rfl
  · split <;> rfl

def tids (threads : List ThreadDemand) : List Tid := threads.map (·.identity.tid)

theorem tids_incomingThreads (s : IncrementalSolver) (input : IncrementalInput) :
    tids (incomingThreads s input) = tids input.threads := by
  simp [tids, incomingThreads, Function.comp_def]

theorem find?_intake {s : IncrementalSolver} {input : IncrementalInput} (hd : (tids input.threads).Nodup)
    {t : ThreadDemand} (ht : t ∈ incomingThreads s input) :
    (intake s input).1.threads.find? t.identity.tid = some t := by
  rw [threads_intake]
  have hn : ((incomingThreads s input).map (fun t => t.identity.tid)).Nodup := by
    rw [← tids_incomingThreads s input] at hd
    exact hd
  obtain ⟨pre, post, -, -, hat⟩ := (takeIn_local input (incomingAdjacency s input)).foldl_at hn ht _
  rw [takenIn, hat, find?_takeIn, if_pos rfl]

theorem mem_intake {s : IncrementalSolver} {input : IncrementalInput} (hd : (tids input.threads).Nodup) {u : Tid} :
    u ∈ (intake s input).1.threads ↔ u ∈ tids input.threads := by
  constructor
  · intro h
    by_contra hu
    have hno : ∀ t ∈ incomingThreads s input, t.identity.tid ≠ u := by
      intro t ht e
      rw [← tids_incomingThreads s input] at hu
      exact hu (List.mem_map.2 ⟨t, ht, e⟩)
    rw [threads_intake, OrdMap.mem_def, takenIn, (takeIn_local input _).foldl_notMem hno] at h
    obtain ⟨t, ht, htu⟩ := mem_of_mem_dropStale h
    exact hu (List.mem_map.2 ⟨t, ht, htu⟩)
  · intro h
    rw [← tids_incomingThreads s input] at h
    obtain ⟨t, ht, rfl⟩ := List.mem_map.1 h
    exact OrdMap.mem_of_find (find?_intake hd ht)

theorem keys_intake {s : IncrementalSolver} {input : IncrementalInput} (hd : (tids input.threads).Nodup) :
    (intake s input).1.threads.keys.Perm (tids input.threads) :=
  (List.perm_ext_iff_of_nodup (OrdMap.nodup_keys _) hd).2 (fun _ => OrdMap.mem_keys.trans (mem_intake hd))

theorem size_intake {s : IncrementalSolver} {input : IncrementalInput} (hd : (tids input.threads).Nodup) :
    (intake s input).1.threads.size = input.threads.length := by
  have h := (keys_intake (s := s) hd).length_eq
  rw [tids, List.length_map, OrdMap.keys, List.length_map] at h
  exact h

/-- No hotspot edge is a loop. -/
theorem ends_ne_of_mem_edges {s : IncrementalSolver} {input : IncrementalInput} {e : RelationEdge}
    (h : e ∈ (intake s input).1.edges.entries.map Prod.snd) : e.fromTid ≠ e.toTid := by
  rw [edges_intake, edges_settleHotspots] at h
  have hsel : ∀ x ∈ selectHotspotEdges input.edges (settlePhase input (takenIn s input)).threads input.options,
      x.fromTid ≠ x.toTid := by
    intro x hx
    unfold selectHotspotEdges hotspotCandidates at hx
    simp only [List.mem_insertionSort, List.mem_map, List.mem_filter] at hx
    obtain ⟨c, ⟨⟨y, ⟨-, hy⟩, rfl⟩, -⟩, rfl⟩ := hx
    exact (of_decide_eq_true hy).1
  -- what is inserted under the edge keys are the selected edges and nothing else
  have hfold : ∀ (l : List RelationEdge) (m : OrdMap EdgeKey RelationEdge),
      (∀ x ∈ l, x.fromTid ≠ x.toTid) → (∀ k x, m.find? k = some x → x.fromTid ≠ x.toTid) →
      ∀ k x, (l.foldl (fun (m : OrdMap EdgeKey RelationEdge) e => m.insert (edgeKey e.fromTid e.toTid) e) m).find? k =
        some x → x.fromTid ≠ x.toTid := by
    intro l
    induction l with
    | nil => exact fun m _ hm => hm
    | cons a l ih =>
      intro m hl hm
      refine ih _ (fun x hx => hl x (List.mem_cons_of_mem _ hx)) (fun k x hk => ?_)
      rw [OrdMap.find?_insert] at hk
      split at hk
      · rw [← Option.some.inj hk]
        exact hl a List.mem_cons_self
      · exact hm k x hk
  obtain ⟨⟨k, x⟩, hx, rfl⟩ := List.mem_map.1 h
  exact hfold _ ∅ hsel (fun k x hk => by simp at hk) k x (OrdMap.mem_entries.1 hx)

/-! ## The community order -/

namespace Community

/-- Every thread is in the order, once, or still remaining. -/
structure Splits (s : IncrementalSolver) (c : Community) : Prop where
  nodup : c.ordered.Nodup
  covers : ∀ t, t ∈ s.threads ↔ t ∈ c.ordered ∨ t ∈ c.remaining
  apart : ∀ t ∈ c.ordered, t ∉ c.remaining

theorem Splits.append {s : IncrementalSolver} {c : Community} (h : Splits s c) {t : Tid} (ht : t ∈ c.remaining) :
    Splits s (c.append t) := by
  refine ⟨?_, fun u => ?_, fun u hu => ?_⟩
  · refine List.nodup_append.2 ⟨h.nodup, List.nodup_singleton t, fun a ha b hb e => ?_⟩
    rw [List.mem_singleton.1 hb] at e
    exact h.apart a ha (e ▸ ht)
  · rw [h.covers, Community.append, OrdMap.mem_erase, List.mem_append, List.mem_singleton]
    by_cases htu : t = u
    · subst htu
      simp [ht]
    · simp [htu, Ne.symm htu]
  · rw [Community.append, OrdMap.mem_erase]
    rintro ⟨hne, hr⟩
    rcases List.mem_append.1 hu with hu | hu
    · exact h.apart u hu hr
    · exact hne (List.mem_singleton.1 hu).symm

/-- A fold that keeps the best so far returns an element of its list, or what it began with. -/
theorem foldl_best_mem {α : Type} {pick : Option α → α → Option α}
    (hpick : ∀ best x, pick best x = some x ∨ pick best x = best ∧ best.isSome = true) :
    ∀ (l : List α) (best : Option α),
      l.foldl pick best = best ∧ (l = [] ∨ best.isSome = true) ∨ ∃ x ∈ l, l.foldl pick best = some x
  | [], best => Or.inl ⟨rfl, Or.inl rfl⟩
  | x :: l, best => by
    rw [List.foldl_cons]
    rcases foldl_best_mem hpick l (pick best x) with ⟨h, -⟩ | ⟨y, hy, h⟩
    · rcases hpick best x with hx | ⟨hx, hs⟩
      · exact Or.inr ⟨x, List.mem_cons_self, h.trans hx⟩
      · exact Or.inl ⟨h.trans hx, Or.inr hs⟩
    · exact Or.inr ⟨y, List.mem_cons_of_mem _ hy, h⟩

/-- The winner of a walk is one of those it went over. -/
theorem foldl_best_eq_some {α : Type} {pick : Option α → α → Option α} {l : List α} {e : α} (h : l.foldl pick none = some e)
    (hpick : ∀ best x, pick best x = some x ∨ pick best x = best ∧ best.isSome = true) : e ∈ l := by
  rcases foldl_best_mem hpick l none with ⟨h', -⟩ | ⟨x, hx, h'⟩
  · cases h.symm.trans h'
  · cases h.symm.trans h'
    exact hx

theorem bestPair_mem {c : Community} {edges : List RelationEdge} {e : RelationEdge} (h : c.bestPair edges = some e) :
    e ∈ edges ∧ e.fromTid ∈ c.remaining ∧ e.toTid ∈ c.remaining := by
  unfold bestPair at h
  have hmem : e ∈ edges.filter (fun e => decide (e.fromTid ∈ c.remaining ∧ e.toTid ∈ c.remaining)) := by
    refine foldl_best_eq_some h (fun best x => ?_)
    cases best with
    | none => exact Or.inl rfl
    | some b => by_cases hb : pairRank b < pairRank x <;> simp [hb]
  obtain ⟨hm, hr⟩ := List.mem_filter.1 hmem
  exact ⟨hm, of_decide_eq_true hr⟩

theorem bestFrontier_mem {c : Community} {edges : List RelationEdge} {f : ℚ × Tid}
    (h : c.bestFrontier edges = some f) : f.2 ∈ c.remaining := by
  unfold bestFrontier at h
  have hmem : f ∈ edges.filterMap (fun e => (c.frontierEnd e).map (fun t => (e.score, t))) := by
    refine foldl_best_eq_some h (fun best x => ?_)
    cases best with
    | none => exact Or.inl rfl
    | some b => by_cases hb : toLex (b.1, -b.2) < toLex (x.1, -x.2) <;> simp [hb]
  obtain ⟨e, -, he⟩ := List.mem_filterMap.1 hmem
  obtain ⟨t, ht, rfl⟩ := Option.map_eq_some_iff.1 he
  unfold frontierEnd at ht
  split at ht
  · rename_i hc
    exact Option.some.inj ht ▸ hc.1
  · split at ht
    · rename_i hc
      exact Option.some.inj ht ▸ hc.2
    · cases ht

/-- A loop that keeps the better of two keeps an element of its list, or the first. -/
theorem foldl_pick_mem {α : Type} (better : α → α → Prop) [DecidableRel better] : ∀ (l : List α) (b : α),
    l.foldl (fun best y => if better y best then y else best) b ∈ b :: l
  | [], b => by simp
  | x :: l, b => by
    rw [List.foldl_cons]
    split
    · exact List.mem_cons_of_mem _ (foldl_pick_mem better l x)
    · rcases List.mem_cons.1 (foldl_pick_mem better l b) with h | h
      · rw [h]
        exact List.mem_cons_self
      · exact List.mem_cons_of_mem _ (List.mem_cons_of_mem _ h)

theorem minElement_mem {α : Type} {lt : α → α → Bool} : ∀ {l : List α} {x : α}, minElement lt l = some x → x ∈ l
  | a :: l, x, h => by
    have hx : l.foldl (fun best y => if lt y best then y else best) a = x := by simpa [minElement] using h
    rw [← hx]
    exact foldl_pick_mem (fun y best => lt y best = true) l a

theorem minElement_isSome {α : Type} (lt : α → α → Bool) {l : List α} (h : l ≠ []) : ∃ x, minElement lt l = some x := by
  cases l with
  | nil => exact absurd rfl h
  | cons a l => exact ⟨_, rfl⟩

/-- A turn takes a remaining thread, or the two ends of a pair. -/
theorem step_cases {s : IncrementalSolver} {c : Community}
    (hloop : ∀ e ∈ s.edges.entries.map Prod.snd, e.fromTid ≠ e.toTid) (hne : c.remaining.isEmpty = false) :
    (∃ t ∈ c.remaining, (step s c).ordered = (c.append t).ordered ∧ (step s c).remaining = (c.append t).remaining) ∨
    (∃ t ∈ c.remaining, ∃ u ∈ c.remaining, t ≠ u ∧ (step s c).ordered = ((c.append t).append u).ordered ∧
      (step s c).remaining = ((c.append t).append u).remaining) := by
  have hpair : ∀ e, c.bestPair (s.edges.entries.map Prod.snd) = some e →
      (orient s e).1 ∈ c.remaining ∧ (orient s e).2 ∈ c.remaining ∧ (orient s e).1 ≠ (orient s e).2 := by
    intro e he
    obtain ⟨hm, hf, ht⟩ := bestPair_mem he
    unfold orient
    split
    · exact ⟨ht, hf, (hloop e hm).symm⟩
    · exact ⟨hf, ht, hloop e hm⟩
  unfold step
  dsimp only
  split
  · rename_i e he _
    obtain ⟨h1, h2, h3⟩ := hpair e he
    exact Or.inr ⟨_, h1, _, h2, h3, rfl, rfl⟩
  · rename_i e f he hf
    split
    · obtain ⟨h1, h2, h3⟩ := hpair e he
      exact Or.inr ⟨_, h1, _, h2, h3, rfl, rfl⟩
    · exact Or.inl ⟨_, bestFrontier_mem hf, rfl, rfl⟩
  · rename_i f _ hf
    exact Or.inl ⟨_, bestFrontier_mem hf, rfl, rfl⟩
  · have hl : c.remaining.toList ≠ [] := by
      intro hnil
      have : c.remaining.entries = [] := List.map_eq_nil_iff.1 hnil
      rw [OrdMap.isEmpty, this] at hne
      cases hne
    obtain ⟨seed, hseed⟩ := minElement_isSome (seedBefore s) hl
    rw [hseed]
    exact Or.inl ⟨seed, OrdSet.mem_toList.1 (minElement_mem hseed), rfl, rfl⟩

/-- **A turn keeps the split and leaves fewer threads.** -/
theorem Splits.step {s : IncrementalSolver} {c : Community}
    (hloop : ∀ e ∈ s.edges.entries.map Prod.snd, e.fromTid ≠ e.toTid) (h : Splits s c)
    (hne : c.remaining.isEmpty = false) :
    Splits s (Community.step s c) ∧ (Community.step s c).remaining.size < c.remaining.size := by
  rcases step_cases hloop hne with ⟨t, ht, ho, hr⟩ | ⟨t, ht, u, hu, htu, ho, hr⟩
  · have hs := h.append ht
    refine ⟨⟨ho ▸ hs.nodup, ?_, ?_⟩, ?_⟩
    · rw [ho, hr]; exact hs.covers
    · rw [ho, hr]; exact hs.apart
    · rw [hr]; exact OrdMap.size_erase_lt ht
  · have hu' : u ∈ (c.append t).remaining := OrdMap.mem_erase.2 ⟨htu, hu⟩
    have hs := (h.append ht).append hu'
    refine ⟨⟨ho ▸ hs.nodup, ?_, ?_⟩, ?_⟩
    · rw [ho, hr]; exact hs.covers
    · rw [ho, hr]; exact hs.apart
    · rw [hr]
      exact (OrdMap.size_erase_lt hu').trans (OrdMap.size_erase_lt ht)

theorem Splits.run {s : IncrementalSolver} (hloop : ∀ e ∈ s.edges.entries.map Prod.snd, e.fromTid ≠ e.toTid) :
    ∀ (fuel : Nat) {c : Community}, Splits s c → c.remaining.size ≤ fuel →
      Splits s (Community.run s fuel c) ∧ (Community.run s fuel c).remaining.isEmpty = true
  | 0, c, h, hf => by
    refine ⟨h, ?_⟩
    have : c.remaining.entries = [] := List.length_eq_zero_iff.1 (Nat.le_zero.1 hf)
    rw [Community.run, OrdMap.isEmpty, this]
    rfl
  | fuel + 1, c, h, hf => by
    rw [Community.run]
    split
    · rename_i he
      exact ⟨h, he⟩
    · rename_i he
      obtain ⟨hs, hlt⟩ := h.step hloop (by simpa using he)
      exact hs.run hloop fuel (by omega)

end Community

/-- **The ordering loop ends**: as many turns as threads leave none. -/
theorem communityOrder_splits {s : IncrementalSolver}
    (hloop : ∀ e ∈ s.edges.entries.map Prod.snd, e.fromTid ≠ e.toTid) :
    Community.Splits s (communityOrder s) ∧ (communityOrder s).remaining.isEmpty = true := by
  have hmem : ∀ t, t ∈ s.threads.mapVal (fun _ _ => ()) ↔ t ∈ s.threads := by
    intro t
    rw [OrdMap.mem_def, OrdMap.find?_mapVal, Option.isSome_map, OrdMap.mem_def]
  have hsize : (s.threads.mapVal (fun _ _ => ())).size = s.threads.size := by
    simp [OrdMap.size, OrdMap.mapVal]
  have h0 : Community.Splits s { remaining := s.threads.mapVal (fun _ _ => ()) } :=
    ⟨List.nodup_nil, fun t => by simp [hmem], fun t ht => by simp at ht⟩
  exact h0.run hloop s.threads.size hsize.le

/-- **The community order has every thread once.** -/
theorem communityOrder_perm {s : IncrementalSolver}
    (hloop : ∀ e ∈ s.edges.entries.map Prod.snd, e.fromTid ≠ e.toTid) :
    (communityOrder s).ordered.Perm s.threads.keys := by
  obtain ⟨hs, hempty⟩ := communityOrder_splits hloop
  refine (List.perm_ext_iff_of_nodup hs.nodup (OrdMap.nodup_keys _)).2 (fun t => ?_)
  have hno : t ∉ (communityOrder s).remaining := OrdMap.notMem_iff.2 (OrdMap.isEmpty_iff.1 hempty t)
  rw [OrdMap.mem_keys, hs.covers]
  simp [hno]

/-! ## The bounds -/

end IncrementalSolver

/-- The ranges `load_config` accepts. -/
structure IncrementalOptions.Accepted (o : IncrementalOptions) : Prop where
  maximumMigratedThreadsRatio : 0 ≤ o.maximumMigratedThreadsRatio ∧ o.maximumMigratedThreadsRatio ≤ 1
  initialMigratedThreadsRatio : 0 < o.initialMigratedThreadsRatio ∧ o.initialMigratedThreadsRatio ≤ 1
  initialProposalConfirmations : 1 ≤ o.initialProposalConfirmations
  initialNodePasses : 1 ≤ o.initialNodePasses ∧ o.initialNodePasses ≤ 8
  initialNodeThreadSlackRatio : 0 ≤ o.initialNodeThreadSlackRatio ∧ o.initialNodeThreadSlackRatio ≤ 1
  maximumThreadsPerCpu : 0 ≤ o.maximumThreadsPerCpu
  threadSlotSlack : 0 ≤ o.threadSlotSlack
  futureDemandFloor : 0 ≤ o.futureDemandFloor ∧ o.futureDemandFloor ≤ 1
  groupPeakDemandRatio : 0 ≤ o.groupPeakDemandRatio ∧ o.groupPeakDemandRatio ≤ 1
  groupPeakDemandCap : 0 ≤ o.groupPeakDemandCap ∧ o.groupPeakDemandCap ≤ 1
  groupPeakDecay : 0 ≤ o.groupPeakDecay ∧ o.groupPeakDecay ≤ 1
  hotspotEdgesPerThread : 1 ≤ o.hotspotEdgesPerThread
  hotspotEdgeQuantile : 0 ≤ o.hotspotEdgeQuantile ∧ o.hotspotEdgeQuantile ≤ 1
  hotspotComponentBoost : 0 ≤ o.hotspotComponentBoost
  hotspotReplanGrowthRatio : 0 ≤ o.hotspotReplanGrowthRatio ∧ o.hotspotReplanGrowthRatio ≤ 1
  hotspotReplanMinThreads : 1 ≤ o.hotspotReplanMinThreads
  hotspotStabilityThreshold : 0 ≤ o.hotspotStabilityThreshold ∧ o.hotspotStabilityThreshold ≤ 1
  hotspotStabilityConfirmations : 1 ≤ o.hotspotStabilityConfirmations

namespace IncrementalSolver

section Bounds

variable {s : IncrementalSolver} {input : IncrementalInput}

/-- What the node plan is promised: CPUs, all online, accepted options with the dynamic slot cap, and as many threads
in the solver as in the window. -/
structure Planable (s : IncrementalSolver) (input : IncrementalInput) : Prop where
  cpus : input.hardware.cpus ≠ []
  online : ∀ c ∈ input.hardware.cpus, c.online = true
  options : input.options.Accepted
  dynamicCap : input.options.maximumThreadsPerCpu = 0
  size : s.threads.size = input.threads.length

theorem nodeCpuCount_eq {hardware : HardwareGraph} (h : ∀ c ∈ hardware.cpus, c.online = true) (n : Int) :
    nodeCpuCount hardware n = (hardware.cpus.filter (fun c => decide (c.node = n))).length := by
  unfold nodeCpuCount HardwareGraph.cpusInNode
  rw [List.length_insertionSort, List.length_map]
  congr 1
  refine List.filter_congr (fun c hc => ?_)
  rw [h c hc, Bool.and_true]

theorem onlineCpus_eq (h : ∀ c ∈ input.hardware.cpus, c.online = true) :
    onlineCpus input.hardware = input.hardware.cpus.length := by
  unfold onlineCpus
  rw [List.filter_eq_self.2 h]

/-- Every CPU is counted in its node. -/
theorem sum_length_filter (f : Cpu → Int) (P : Finset Int) : ∀ (l : List Cpu), (∀ c ∈ l, f c ∈ P) →
    ∑ n ∈ P, (l.filter (fun c => decide (f c = n))).length = l.length
  | [], _ => by simp
  | c :: l, h => by
    have ih := sum_length_filter f P l (fun x hx => h x (List.mem_cons_of_mem _ hx))
    have hone : ∑ n ∈ P, (if f c = n then 1 else 0) = 1 := by
      rw [Finset.sum_ite_eq, if_pos (h c List.mem_cons_self)]
    have hcons : ∀ n, ((c :: l).filter (fun c => decide (f c = n))).length =
        (l.filter (fun c => decide (f c = n))).length + if f c = n then 1 else 0 := by
      intro n
      by_cases hn : f c = n <;> simp [hn]
    rw [Finset.sum_congr rfl (fun n _ => hcons n), Finset.sum_add_distrib, ih, hone, List.length_cons]

def nodeSet (hardware : HardwareGraph) : Finset Int := hardware.nodes.toFinset

theorem sum_nodeCpuCount {hardware : HardwareGraph} (h : ∀ c ∈ hardware.cpus, c.online = true) :
    ∑ n ∈ nodeSet hardware, nodeCpuCount hardware n = hardware.cpus.length := by
  rw [Finset.sum_congr rfl (fun n _ => nodeCpuCount_eq h n)]
  refine sum_length_filter (·.node) _ _ (fun c hc => ?_)
  exact List.mem_toFinset.2 (HardwareGraph.mem_nodes.2 ⟨c, hc, rfl⟩)

theorem cpus_pos (h : Planable s input) : (0 : ℚ) < input.hardware.cpus.length := by
  have := List.length_pos_of_ne_nil h.cpus
  exact_mod_cast this

theorem nodeShare_nonneg (s : IncrementalSolver) (hardware : HardwareGraph) (n : Int) : 0 ≤ nodeShare s hardware n := by
  unfold nodeShare
  positivity

theorem sum_nodeShare (h : Planable s input) :
    ∑ n ∈ nodeSet input.hardware, nodeShare s input.hardware n = s.threads.size := by
  have hc := cpus_pos h
  have hsum : ∑ n ∈ nodeSet input.hardware, (nodeCpuCount input.hardware n : ℚ) = input.hardware.cpus.length := by
    rw [← sum_nodeCpuCount h.online]
    push_cast
    rfl
  unfold nodeShare
  rw [← Finset.sum_div, ← Finset.mul_sum, hsum]
  field_simp

theorem threadFloor_le_nodeShare (h : Planable s input) (n : Int) :
    (threadFloor s input n : ℚ) ≤ nodeShare s input.hardware n := by
  obtain ⟨h0, h1⟩ := h.options.initialNodeThreadSlackRatio
  have hs := nodeShare_nonneg s input.hardware n
  calc (threadFloor s input n : ℚ) ≤ nodeShare s input.hardware n * (1 - input.options.initialNodeThreadSlackRatio) :=
        Int.floor_le _
    _ ≤ nodeShare s input.hardware n * 1 := by gcongr; linarith
    _ = nodeShare s input.hardware n := mul_one _

theorem threadFloor_nonneg (h : Planable s input) (n : Int) : 0 ≤ threadFloor s input n := by
  obtain ⟨-, h1⟩ := h.options.initialNodeThreadSlackRatio
  refine Int.floor_nonneg.2 (mul_nonneg (nodeShare_nonneg s _ n) ?_)
  linarith

/-- **The floors ask for no more threads than there are.** -/
theorem sum_threadFloor_le (h : Planable s input) :
    ∑ n ∈ nodeSet input.hardware, threadFloor s input n ≤ s.threads.size := by
  have hle : (∑ n ∈ nodeSet input.hardware, (threadFloor s input n : ℚ)) ≤
      ∑ n ∈ nodeSet input.hardware, nodeShare s input.hardware n :=
    Finset.sum_le_sum (fun n _ => threadFloor_le_nodeShare h n)
  rw [sum_nodeShare h] at hle
  exact_mod_cast hle

/-- **The cap of a node is at least its share.** -/
theorem nodeShare_le_threadCap (h : Planable s input) (n : Int) : nodeShare s input.hardware n ≤ threadCap s input n := by
  have hs := nodeShare_nonneg s input.hardware n
  have hup : nodeShare s input.hardware n ≤
      nodeShare s input.hardware n * (1 + input.options.initialNodeThreadSlackRatio) := by
    obtain ⟨h0, -⟩ := h.options.initialNodeThreadSlackRatio
    nlinarith
  -- a CPU's slots hold at least its even share of the threads
  have hslot : (s.threads.size : ℚ) / input.hardware.cpus.length ≤ cpuSlotCap input := by
    have hslack := h.options.threadSlotSlack
    have hcap : ⌈(input.threads.length : ℚ) / onlineCpus input.hardware⌉ ≤ cpuSlotCap input := by
      unfold cpuSlotCap
      dsimp only
      rw [if_neg (by rw [h.dynamicCap]; decide)]
      omega
    rw [onlineCpus_eq h.online, ← h.size] at hcap
    have hceil := Int.le_ceil ((s.threads.size : ℚ) / input.hardware.cpus.length)
    have hcap' : ((⌈(s.threads.size : ℚ) / input.hardware.cpus.length⌉ : Int) : ℚ) ≤ cpuSlotCap input := by
      exact_mod_cast hcap
    exact hceil.trans hcap'
  have hshare : nodeShare s input.hardware n ≤ cpuSlotCap input * nodeCpuCount input.hardware n := by
    unfold nodeShare
    rw [mul_div_right_comm]
    gcongr
  unfold threadCap
  rw [Int.cast_min]
  refine le_min (hup.trans (Int.le_ceil _)) ?_
  push_cast
  exact hshare

/-- **A floor never exceeds the cap of its node.** -/
theorem threadFloor_le_threadCap (h : Planable s input) (n : Int) : threadFloor s input n ≤ threadCap s input n := by
  have hle := (threadFloor_le_nodeShare h n).trans (nodeShare_le_threadCap h n)
  exact_mod_cast hle

end Bounds

/-! ## The tallies of a plan -/

def NodePlan.seat (p : NodePlan) (tid : Tid) : Int := p.assigned.getD tid 0

theorem NodePlan.seat_place (p : NodePlan) (tid : Tid) (d : ℚ) (n : Int) (u : Tid) :
    (p.place tid d n).seat u = if tid = u then n else p.seat u := OrdMap.getD_insert _ _ _ _ _

theorem NodePlan.count_place (p : NodePlan) (tid : Tid) (d : ℚ) (n m : Int) :
    (p.place tid d n).count m = p.count m + if n = m then 1 else 0 := by
  unfold place
  rw [count, OrdMap.getD_insert]
  by_cases h : n = m
  · simp [h]
  · simp [h, count]

theorem NodePlan.load_place (p : NodePlan) (tid : Tid) (d : ℚ) (n m : Int) :
    (p.place tid d n).load m = p.load m + if n = m then d else 0 := by
  unfold place
  rw [load, OrdMap.getD_insert]
  by_cases h : n = m
  · simp [h]
  · simp [h, load]

theorem NodePlan.seat_move (p : NodePlan) (tid : Tid) (d : ℚ) (source target : Int) (u : Tid) :
    (p.move tid d source target).seat u = if tid = u then target else p.seat u := OrdMap.getD_insert _ _ _ _ _

theorem NodePlan.count_move (p : NodePlan) (tid : Tid) (d : ℚ) (source target m : Int) :
    (p.move tid d source target).count m =
      p.count m - (if source = m then 1 else 0) + if target = m then 1 else 0 := by
  simp only [move, count, OrdMap.update, OrdMap.getD_insert]
  by_cases ht : target = m
  · subst ht
    by_cases hs : source = target <;> simp [hs]
  · by_cases hs : source = m <;> simp [hs, ht]

theorem NodePlan.load_move (p : NodePlan) (tid : Tid) (d : ℚ) (source target m : Int) :
    (p.move tid d source target).load m =
      p.load m - (if source = m then d else 0) + if target = m then d else 0 := by
  simp only [move, load, OrdMap.update, OrdMap.getD_insert]
  by_cases ht : target = m
  · subst ht
    by_cases hs : source = target <;> simp [hs]
  · by_cases hs : source = m <;> simp [hs, ht]

/-- The plan seats exactly the threads of `T`, on nodes of the machine, and its counters are the weights of the
seating. -/
structure Tallies (s : IncrementalSolver) (hardware : HardwareGraph) (T : Finset Tid) (p : NodePlan) : Prop where
  keys : ∀ t, t ∈ p.assigned ↔ t ∈ T
  onNode : ∀ t ∈ T, p.seat t ∈ nodeSet hardware
  count : ∀ n, p.count n = Seating.weight T p.seat (fun _ => (1 : Int)) n
  load : ∀ n, p.load n = Seating.weight T p.seat (demandOf s) n

section Tallies

variable {s : IncrementalSolver} {hardware : HardwareGraph} {T : Finset Tid} {p : NodePlan}

theorem Tallies.empty (s : IncrementalSolver) (hardware : HardwareGraph) : Tallies s hardware ∅ {} :=
  ⟨fun t => by simp, fun t ht => by simp at ht, fun n => by simp [NodePlan.count, Seating.weight, OrdMap.getD],
    fun n => by simp [NodePlan.load, Seating.weight, OrdMap.getD]⟩

theorem Tallies.place (h : Tallies s hardware T p) {tid : Tid} {n : Int} (ht : tid ∉ T) (hn : n ∈ nodeSet hardware) :
    Tallies s hardware (insert tid T) (p.place tid (demandOf s tid) n) := by
  have hold : ∀ u ∈ T, (p.place tid (demandOf s tid) n).seat u = p.seat u := by
    intro u hu
    rw [NodePlan.seat_place, if_neg]
    rintro rfl
    exact ht hu
  have hnew : (p.place tid (demandOf s tid) n).seat tid = n := by simp [NodePlan.seat_place]
  refine ⟨fun t => ?_, fun t hmem => ?_, fun m => ?_, fun m => ?_⟩
  · rw [NodePlan.place, OrdMap.mem_insert, h.keys, Finset.mem_insert, eq_comm]
  · rcases Finset.mem_insert.1 hmem with rfl | hmem
    · rw [hnew]; exact hn
    · rw [hold t hmem]; exact h.onNode t hmem
  · rw [NodePlan.count_place, h.count, Seating.weight_seated _ ht hold, hnew]
  · rw [NodePlan.load_place, h.load, Seating.weight_seated _ ht hold, hnew]

theorem Tallies.move (h : Tallies s hardware T p) {tid : Tid} {source target : Int} (ht : tid ∈ T)
    (hsource : p.seat tid = source) (htarget : target ∈ nodeSet hardware) :
    Tallies s hardware T (p.move tid (demandOf s tid) source target) := by
  have hold : ∀ u ∈ T, u ≠ tid → (p.move tid (demandOf s tid) source target).seat u = p.seat u := by
    intro u _ hne
    rw [NodePlan.seat_move, if_neg hne.symm]
  have hnew : (p.move tid (demandOf s tid) source target).seat tid = target := by simp [NodePlan.seat_move]
  refine ⟨fun t => ?_, fun t hmem => ?_, fun m => ?_, fun m => ?_⟩
  · rw [NodePlan.move, OrdMap.mem_insert, h.keys]
    constructor
    · rintro (rfl | hm)
      · exact ht
      · exact hm
    · exact Or.inr
  · by_cases htid : t = tid
    · rw [htid, hnew]; exact htarget
    · rw [hold t hmem htid]; exact h.onNode t hmem
  · rw [NodePlan.count_move, h.count, Seating.weight_moved _ ht hold, hnew, hsource]
  · rw [NodePlan.load_move, h.load, Seating.weight_moved _ ht hold, hnew, hsource]

theorem Tallies.sum_count (h : Tallies s hardware T p) : ∑ n ∈ nodeSet hardware, p.count n = T.card := by
  rw [Finset.sum_congr rfl (fun n _ => h.count n), Seating.sum_weight _ h.onNode]
  simp

theorem Tallies.seat_of_entry (h : Tallies s hardware T p) {e : Tid × Int} (he : e ∈ p.assigned.entries) :
    e.1 ∈ T ∧ p.seat e.1 = e.2 := by
  have hf : p.assigned.find? e.1 = some e.2 := OrdMap.mem_entries.1 he
  refine ⟨(h.keys _).1 (OrdMap.mem_of_find hf), ?_⟩
  rw [NodePlan.seat, OrdMap.getD, hf]
  rfl

theorem Tallies.entry_of_mem (h : Tallies s hardware T p) {t : Tid} (ht : t ∈ T) :
    (t, p.seat t) ∈ p.assigned.entries := by
  obtain ⟨n, hn⟩ := OrdMap.mem_iff.1 ((h.keys t).2 ht)
  rw [OrdMap.mem_entries, NodePlan.seat, OrdMap.getD, hn]
  rfl

end Tallies

/-! ## The greedy assignment and the repair -/

theorem bestNode_mem (s : IncrementalSolver) {input : IncrementalInput} (hc : input.hardware.cpus ≠ [])
    (adjacency : OrdMap Tid (List RelationEdge)) (seeds : OrdSet Tid) (p : NodePlan) (tid : Tid) :
    bestNode s input adjacency seeds p tid ∈ nodeSet input.hardware := by
  unfold bestNode
  dsimp only
  have hne : input.hardware.nodes ≠ [] := by
    obtain ⟨c, cs, hcs⟩ := List.exists_cons_of_ne_nil hc
    have : c.node ∈ input.hardware.nodes := HardwareGraph.mem_nodes.2 ⟨c, by simp [hcs], rfl⟩
    exact List.ne_nil_of_mem this
  obtain ⟨n, ns, hns⟩ := List.exists_cons_of_ne_nil hne
  have hhead : input.hardware.nodes.headD 0 ∈ input.hardware.nodes := by simp [hns]
  refine List.mem_toFinset.2 ?_
  rcases List.mem_cons.1 (Community.foldl_pick_mem (fun n best => planScore s input adjacency seeds p tid n <
    planScore s input adjacency seeds p tid best) input.hardware.nodes (input.hardware.nodes.headD 0)) with h | h
  · rw [h]
    exact hhead
  · exact h

/-- **The greedy assignment seats every thread of its order.** -/
theorem Tallies.greedy (s : IncrementalSolver) {input : IncrementalInput} (hc : input.hardware.cpus ≠ [])
    (adjacency : OrdMap Tid (List RelationEdge)) (seeds : OrdSet Tid) :
    ∀ (l : List Tid) {T : Finset Tid} {p : NodePlan}, l.Nodup → (∀ t ∈ l, t ∉ T) →
      Tallies s input.hardware T p →
      Tallies s input.hardware (T ∪ l.toFinset) (l.foldl (assignThread s input adjacency seeds) p)
  | [], T, p, _, _, h => by simpa using h
  | t :: l, T, p, hn, hfresh, h => by
    rw [List.nodup_cons] at hn
    have hstep : Tallies s input.hardware (insert t T) (assignThread s input adjacency seeds p t) :=
      h.place (hfresh t List.mem_cons_self) (bestNode_mem s hc adjacency seeds p t)
    have hrest := Tallies.greedy s hc adjacency seeds l hn.2 (fun u hu hmem => by
      rcases Finset.mem_insert.1 hmem with rfl | hmem
      · exact hn.1 hu
      · exact hfresh u (List.mem_cons_of_mem _ hu) hmem) hstep
    have hset : insert t T ∪ l.toFinset = T ∪ (t :: l).toFinset := by
      ext u
      simp
    rw [← hset]
    exact hrest

/-- What the repair of a node finds: nothing can be moved to it, or a thread that can. -/
theorem bestMove_cases (s : IncrementalSolver) (input : IncrementalInput) (adjacency : OrdMap Tid (List RelationEdge))
    (p : NodePlan) (target : Int) :
    (bestMove s input adjacency p target = none ∧ ∀ e ∈ p.assigned.entries, ¬ Movable s input p target e) ∨
    ∃ m, bestMove s input adjacency p target = some m ∧ (m.tid, m.source) ∈ p.assigned.entries ∧
      Movable s input p target (m.tid, m.source) := by
  unfold bestMove
  -- the fold over a part of the entries, from a best move that satisfies the same alternative
  have hfold : ∀ (l : List (Tid × Int)) (best : Option Move),
      (∀ m, best = some m → (m.tid, m.source) ∈ p.assigned.entries ∧ Movable s input p target (m.tid, m.source)) →
      (∀ e ∈ l, e ∈ p.assigned.entries) →
      (l.foldl (considerMove s input adjacency p target) best = none ∧ best = none ∧
        ∀ e ∈ l, ¬ Movable s input p target e) ∨
      ∃ m, l.foldl (considerMove s input adjacency p target) best = some m ∧
        (m.tid, m.source) ∈ p.assigned.entries ∧ Movable s input p target (m.tid, m.source) := by
    intro l
    induction l with
    | nil =>
      intro best hbest _
      cases best with
      | none => exact Or.inl ⟨rfl, rfl, fun e he => absurd he List.not_mem_nil⟩
      | some m => exact Or.inr ⟨m, rfl, hbest m rfl⟩
    | cons e l ih =>
      intro best hbest hl
      have he := hl e List.mem_cons_self
      have hl' := fun x hx => hl x (List.mem_cons_of_mem e hx)
      rw [List.foldl_cons]
      by_cases hm : Movable s input p target e
      · have hnext : ∃ m, considerMove s input adjacency p target best e = some m ∧
            (m.tid, m.source) ∈ p.assigned.entries ∧ Movable s input p target (m.tid, m.source) := by
          unfold considerMove
          rw [if_pos hm]
          dsimp only
          split
          · exact ⟨_, rfl, he, hm⟩
          · split
            · exact ⟨_, rfl, he, hm⟩
            · exact ⟨_, rfl, hbest _ rfl⟩
        obtain ⟨m, hsome, hmem⟩ := hnext
        rcases ih (considerMove s input adjacency p target best e)
          (fun m' hm' => by rw [hsome] at hm'; cases hm'; exact hmem) hl' with ⟨-, hnone, -⟩ | h
        · rw [hsome] at hnone
          cases hnone
        · exact Or.inr h
      · have hskip : considerMove s input adjacency p target best e = best := by
          unfold considerMove
          rw [if_neg hm]
        rw [hskip]
        rcases ih best hbest hl' with ⟨h1, h2, h3⟩ | h
        · refine Or.inl ⟨h1, h2, fun x hx => ?_⟩
          rcases List.mem_cons.1 hx with rfl | hx
          · exact hm
          · exact h3 x hx
        · exact Or.inr h
  rcases hfold p.assigned.entries none (fun m hm => by cases hm) (fun e he => he) with ⟨h1, -, h3⟩ | h
  · exact Or.inl ⟨h1, h3⟩
  · exact Or.inr h

/-- Threads no more than the node's floor asks for, and already too much demand for its CPUs. -/
structure Overloads (s : IncrementalSolver) (input : IncrementalInput) (T : Finset Tid) (n : Int) (A : Finset Tid) :
    Prop where
  threads : A ⊆ T
  few : (A.card : Int) ≤ threadFloor s input n
  heavy : nodeCpuCount input.hardware n + 1 / 10 ^ 12 < ∑ t ∈ A, demandOf s t

section Repair

variable {s : IncrementalSolver} {input : IncrementalInput} {T : Finset Tid}

/-- **A node below its floor that nothing can be moved to is overloaded by its own threads and one more.** -/
theorem overloads_of_stuck (h : Planable s input) (hT : T.card = s.threads.size) {p : NodePlan}
    (hp : Tallies s input.hardware T p) {n : Int} (hn : n ∈ nodeSet input.hardware)
    (hlt : p.count n < threadFloor s input n) (hstuck : ∀ e ∈ p.assigned.entries, ¬ Movable s input p n e) :
    ∃ A, Overloads s input T n A := by
  have hsum : ∑ m ∈ nodeSet input.hardware, threadFloor s input m ≤ ∑ m ∈ nodeSet input.hardware, p.count m := by
    rw [hp.sum_count, hT]
    exact sum_threadFloor_le h
  obtain ⟨m, -, hmn, hm⟩ := Seating.exists_donor hn hsum hlt
  have hpos : 0 < p.count m := lt_of_le_of_lt (threadFloor_nonneg h m) hm
  rw [hp.count, Seating.weight_one_eq_card] at hpos
  obtain ⟨t, ht⟩ := Finset.card_pos.1 (Int.natCast_pos.1 hpos)
  obtain ⟨htT, hseat⟩ := Finset.mem_filter.1 ht
  -- of the four reasons not to take `t`, only its demand is left
  have hno := hstuck _ (hp.entry_of_mem htT)
  unfold Movable at hno
  rw [not_not, hseat] at hno
  dsimp only at hno
  have hcap := threadFloor_le_threadCap h n
  have hheavy : nodeCpuCount input.hardware n + 1 / 10 ^ 12 < p.load n + demandOf s t := by
    rcases hno with hno | hno | hno | hno
    · exact absurd hno hmn
    · omega
    · omega
    · exact hno
  have hnew : t ∉ T.filter (fun u => p.seat u = n) := by
    intro hmem
    exact hmn (hseat.symm.trans (Finset.mem_filter.1 hmem).2)
  refine ⟨insert t (T.filter (fun u => p.seat u = n)), ?_, ?_, ?_⟩
  · exact Finset.insert_subset htT (Finset.filter_subset _ _)
  · have hcount := hp.count n
    rw [Seating.weight_one_eq_card] at hcount
    rw [Finset.card_insert_of_notMem hnew]
    push_cast
    omega
  · rw [Finset.sum_insert hnew, ← Seating.weight_eq_sum_filter, ← hp.load, add_comm (demandOf s t)]
    exact hheavy

/-- How the repair of one node, or of several, ends. -/
inductive Repaired (s : IncrementalSolver) (input : IncrementalInput) (T : Finset Tid) (p : NodePlan)
    (fixed : NodePlan → Prop) : Outcome NodePlan → Prop
  | infeasible (n : Int) (A : Finset Tid) (hn : n ∈ nodeSet input.hardware) (hA : Overloads s input T n A) :
    Repaired s input T p fixed (.error (.thrown "node thread floor is infeasible"))
  | done (p' : NodePlan) (tallies : Tallies s input.hardware T p') (reached : fixed p')
    (kept : ∀ n, threadFloor s input n ≤ p.count n → threadFloor s input n ≤ p'.count n) :
    Repaired s input T p fixed (.ok p')

theorem repairNode_spec (h : Planable s input) (hT : T.card = s.threads.size)
    (adjacency : OrdMap Tid (List RelationEdge)) {n : Int} (hn : n ∈ nodeSet input.hardware) :
    ∀ (fuel : Nat) {p : NodePlan}, Tallies s input.hardware T p → threadFloor s input n ≤ p.count n + fuel →
      Repaired s input T p (fun p' => threadFloor s input n ≤ p'.count n) (repairNode s input adjacency n fuel p)
  | 0, p, hp, hf => .done p hp (by simpa using hf) (fun _ hm => hm)
  | fuel + 1, p, hp, hf => by
    rw [repairNode]
    split
    · rename_i hlt
      rcases bestMove_cases s input adjacency p n with ⟨hnone, hstuck⟩ | ⟨m, hsome, hmem, hmov⟩
      · rw [hnone]
        obtain ⟨A, hA⟩ := overloads_of_stuck h hT hp hn hlt hstuck
        exact .infeasible n A hn hA
      · rw [hsome]
        dsimp only
        obtain ⟨htT, hseat⟩ := hp.seat_of_entry hmem
        have hnext := hp.move htT hseat hn
        unfold Movable at hmov
        rw [not_or, not_or] at hmov
        obtain ⟨hsource, habove, -⟩ := hmov
        dsimp only at hsource habove
        have hcount := p.count_move m.tid (demandOf s m.tid) m.source n
        have hfuel : threadFloor s input n ≤ (p.move m.tid (demandOf s m.tid) m.source n).count n + fuel := by
          rw [hcount, if_neg hsource, if_pos rfl]
          push_cast at hf
          omega
        -- the donor was above its own floor, and no other node loses a thread
        have hkept : ∀ k, threadFloor s input k ≤ p.count k →
            threadFloor s input k ≤ (p.move m.tid (demandOf s m.tid) m.source n).count k := by
          intro k hk
          rw [hcount]
          by_cases hsk : m.source = k
          · rw [hsk] at habove
            rw [if_pos hsk]
            split <;> omega
          · rw [if_neg hsk]
            split <;> omega
        have hrec := repairNode_spec h hT adjacency hn fuel hnext hfuel
        revert hrec
        generalize repairNode s input adjacency n fuel (p.move m.tid (demandOf s m.tid) m.source n) = r
        rintro (⟨k, A, hk, hA⟩ | ⟨p', ht', hr', hk'⟩)
        · exact .infeasible k A hk hA
        · exact .done p' ht' hr' (fun k hk => hk' k (hkept k hk))
    · rename_i hge
      exact .done p hp (not_lt.1 hge) (fun _ hm => hm)

/-- **The repair throws only over an overloaded node, and otherwise brings every node to its floor.** -/
theorem repairFloors_spec (h : Planable s input) (hT : T.card = s.threads.size)
    (adjacency : OrdMap Tid (List RelationEdge)) :
    ∀ (ns : List Int) {p : NodePlan}, (∀ n ∈ ns, n ∈ nodeSet input.hardware) → Tallies s input.hardware T p →
      Repaired s input T p (fun p' => ∀ n ∈ ns, threadFloor s input n ≤ p'.count n)
        (repairFloors s input adjacency ns p)
  | [], p, _, hp => .done p hp (fun n hn => absurd hn List.not_mem_nil) (fun _ hm => hm)
  | n :: ns, p, hns, hp => by
    have hn := hns n List.mem_cons_self
    have hfuel : threadFloor s input n ≤ p.count n + (threadFloor s input n).toNat := by
      have hc : 0 ≤ p.count n := by
        rw [hp.count, Seating.weight_one_eq_card]
        exact Int.natCast_nonneg _
      omega
    have hnode := repairNode_spec h hT adjacency hn _ hp hfuel
    rw [repairFloors]
    revert hnode
    generalize repairNode s input adjacency n (threadFloor s input n).toNat p = r
    rintro (⟨k, A, hk, hA⟩ | ⟨p₁, ht₁, hr₁, hk₁⟩)
    · exact .infeasible k A hk hA
    · have hrest := repairFloors_spec h hT adjacency ns (fun m hm => hns m (List.mem_cons_of_mem _ hm)) ht₁
      change Repaired s input T p _ (repairFloors s input adjacency ns p₁)
      revert hrest
      generalize repairFloors s input adjacency ns p₁ = r
      rintro (⟨k, A, hk, hA⟩ | ⟨p₂, ht₂, hr₂, hk₂⟩)
      · exact .infeasible k A hk hA
      · refine .done p₂ ht₂ (fun m hm => ?_) (fun m hm => hk₂ m (hk₁ m hm))
        rcases List.mem_cons.1 hm with rfl | hm
        · exact hk₂ _ hr₁
        · exact hr₂ m hm

theorem planNodes_spec (h : Planable s input) (hloop : ∀ e ∈ s.edges.entries.map Prod.snd, e.fromTid ≠ e.toTid) :
    ∃ greedy, Repaired s input s.threads.keys.toFinset greedy
      (fun p' => ∀ n ∈ input.hardware.nodes, threadFloor s input n ≤ p'.count n) (planNodes s input) := by
  have hperm := communityOrder_perm hloop
  have hgreedy := Tallies.greedy s h.cpus (adjacencyOf (s.edges.entries.map Prod.snd)) (communityOrder s).seeds
    (communityOrder s).ordered (hperm.nodup_iff.2 (OrdMap.nodup_keys _)) (fun t _ => Finset.notMem_empty t)
    (Tallies.empty s input.hardware)
  rw [Finset.empty_union, List.toFinset_eq_of_perm _ _ hperm] at hgreedy
  have hcard : s.threads.keys.toFinset.card = s.threads.size := by
    rw [List.toFinset_card_of_nodup (OrdMap.nodup_keys _), OrdMap.size_eq_length_keys]
  exact ⟨_, repairFloors_spec h hcard (adjacencyOf (s.edges.entries.map Prod.snd)) input.hardware.nodes
    (fun n hn => List.mem_toFinset.2 hn) hgreedy⟩

end Repair

/-! ## The branch on the state the intake leaves -/

theorem planable_intake {s : IncrementalSolver} {input : IncrementalInput} (hcpus : input.hardware.cpus ≠ [])
    (honline : ∀ c ∈ input.hardware.cpus, c.online = true) (hopt : input.options.Accepted)
    (hcap : input.options.maximumThreadsPerCpu = 0) (hd : (tids input.threads).Nodup) :
    Planable (intake s input).1 input :=
  ⟨hcpus, honline, hopt, hcap, size_intake hd⟩

/-- Threads of the window that are no more than the floor of a node and have more demand than its CPUs. -/
structure Crowds (s : IncrementalSolver) (input : IncrementalInput) (n : Int) (A : List ThreadDemand) : Prop where
  threads : A.Sublist (incomingThreads s input)
  few : (A.length : Int) ≤ ⌊(input.threads.length : ℚ) * nodeCpuCount input.hardware n / input.hardware.cpus.length *
    (1 - input.options.initialNodeThreadSlackRatio)⌋
  heavy : nodeCpuCount input.hardware n + 1 / 10 ^ 12 < (A.map (·.demand)).sum

theorem demandOf_intake {s : IncrementalSolver} {input : IncrementalInput} (hd : (tids input.threads).Nodup)
    {t : ThreadDemand} (ht : t ∈ incomingThreads s input) : demandOf (intake s input).1 t.identity.tid = t.demand := by
  rw [demandOf, find?_intake hd ht]
  rfl

theorem Overloads.crowds {s : IncrementalSolver} {input : IncrementalInput} (hd : (tids input.threads).Nodup) {n : Int}
    {A : Finset Tid} (h : Overloads (intake s input).1 input (intake s input).1.threads.keys.toFinset n A) :
    Crowds s input n ((incomingThreads s input).filter (fun t => decide (t.identity.tid ∈ A))) := by
  have hn : (tids ((incomingThreads s input).filter (fun t => decide (t.identity.tid ∈ A)))).Nodup := by
    rw [← tids_incomingThreads s input] at hd
    exact hd.sublist (List.filter_sublist.map _)
  have hset : (tids ((incomingThreads s input).filter (fun t => decide (t.identity.tid ∈ A)))).toFinset = A := by
    ext u
    simp only [tids, List.mem_toFinset, List.mem_map, List.mem_filter, decide_eq_true_eq]
    constructor
    · rintro ⟨t, ⟨-, hA⟩, rfl⟩
      exact hA
    · intro hu
      have hmem := (mem_intake hd).1 (OrdMap.mem_keys.1 (List.mem_toFinset.1 (h.threads hu)))
      rw [← tids_incomingThreads s input] at hmem
      obtain ⟨t, ht, rfl⟩ := List.mem_map.1 hmem
      exact ⟨t, ⟨ht, hu⟩, rfl⟩
  refine ⟨List.filter_sublist, ?_, ?_⟩
  · have hlen := List.toFinset_card_of_nodup hn
    rw [hset, tids, List.length_map] at hlen
    rw [← hlen, ← size_intake (s := s) hd]
    exact h.few
  · have hsum : ∑ u ∈ A, demandOf (intake s input).1 u =
        (((incomingThreads s input).filter (fun t => decide (t.identity.tid ∈ A))).map (·.demand)).sum := by
      have hlist := List.sum_toFinset (demandOf (intake s input).1) hn
      rw [hset, tids, List.map_map] at hlist
      rw [hlist]
      congr 1
      refine List.map_congr_left (fun t ht => ?_)
      exact demandOf_intake hd (List.mem_of_mem_filter ht)
    rw [← hsum]
    exact h.heavy

theorem demand_le_one {s : IncrementalSolver} {input : IncrementalInput} {t : ThreadDemand}
    (ht : t ∈ incomingThreads s input) : t.demand ≤ 1 := by
  obtain ⟨u, -, rfl⟩ := List.mem_map.1 ht
  exact min_le_left _ _

/-- No node is crowded while the floors ask for at most one thread a CPU. -/
theorem not_crowds_of_few {s : IncrementalSolver} {input : IncrementalInput} (hcpus : input.hardware.cpus ≠ [])
    (hfew : (input.threads.length : ℚ) * (1 - input.options.initialNodeThreadSlackRatio) ≤ input.hardware.cpus.length)
    {n : Int} {A : List ThreadDemand} : ¬ Crowds s input n A := by
  intro h
  have hc : (0 : ℚ) < input.hardware.cpus.length := by
    have := List.length_pos_of_ne_nil hcpus
    exact_mod_cast this
  have hsum : (A.map (·.demand)).sum ≤ A.length := by
    have hle := List.sum_le_card_nsmul (A.map (·.demand)) 1 (by
      intro d hd
      obtain ⟨t, ht, rfl⟩ := List.mem_map.1 hd
      exact demand_le_one (h.threads.subset ht))
    simpa using hle
  have hlen : (A.length : ℚ) ≤ nodeCpuCount input.hardware n := by
    calc (A.length : ℚ) ≤ ((⌊(input.threads.length : ℚ) * nodeCpuCount input.hardware n / input.hardware.cpus.length *
            (1 - input.options.initialNodeThreadSlackRatio)⌋ : Int) : ℚ) := by exact_mod_cast h.few
      _ ≤ (input.threads.length : ℚ) * nodeCpuCount input.hardware n / input.hardware.cpus.length *
            (1 - input.options.initialNodeThreadSlackRatio) := Int.floor_le _
      _ = ((input.threads.length : ℚ) * (1 - input.options.initialNodeThreadSlackRatio) / input.hardware.cpus.length) *
            nodeCpuCount input.hardware n := by ring
      _ ≤ 1 * nodeCpuCount input.hardware n := by
          gcongr
          exact (div_le_one hc).2 hfew
      _ = nodeCpuCount input.hardware n := one_mul _
  have := h.heavy
  linarith

/-- **The node plan throws only when a node's floor cannot be filled within its CPUs.**  Whatever the solver's state,
the counts never stop the repair: it throws only if some node has a floor's worth of the window's threads with more
demand than its CPUs, it then throws this and nothing else, and where it does not throw every node reaches its floor.
In particular it never throws while there is at least a CPU for every thread the floors ask for. -/
theorem nodePlanning_infeasible_only_when_crowded (s : IncrementalSolver) (input : IncrementalInput)
    (hcpus : input.hardware.cpus ≠ []) (honline : ∀ c ∈ input.hardware.cpus, c.online = true)
    (hopt : input.options.Accepted) (hcap : input.options.maximumThreadsPerCpu = 0)
    (hd : (tids input.threads).Nodup) :
    (∀ halt, nodePlanning (intake s input).1 input (intake s input).2 = .error halt →
      halt = .thrown "node thread floor is infeasible" ∧ ∃ n ∈ input.hardware.nodes, ∃ A, Crowds s input n A) ∧
    (∀ r, nodePlanning (intake s input).1 input (intake s input).2 = .ok r →
      ∃ plan, planNodes (intake s input).1 input = .ok plan ∧
        ∀ n ∈ input.hardware.nodes, threadFloor (intake s input).1 input n ≤ plan.count n) ∧
    ((input.threads.length : ℚ) * (1 - input.options.initialNodeThreadSlackRatio) ≤ input.hardware.cpus.length →
      ∃ r, nodePlanning (intake s input).1 input (intake s input).2 = .ok r) := by
  have hplan := planable_intake (s := s) hcpus honline hopt hcap hd
  obtain ⟨greedy, hspec⟩ := planNodes_spec hplan (fun e he => ends_ne_of_mem_edges he)
  unfold nodePlanning
  revert hspec
  generalize planNodes (intake s input).1 input = r
  rintro (⟨n, A, hn, hA⟩ | ⟨p, -, hr, -⟩)
  · refine ⟨fun halt hhalt => ?_, fun r hr => ?_, fun hfew => ?_⟩
    · cases hhalt
      exact ⟨rfl, n, List.mem_toFinset.1 hn, _, hA.crowds hd⟩
    · cases hr
    · exact absurd (hA.crowds hd) (not_crowds_of_few hcpus hfew)
  · refine ⟨fun halt hhalt => ?_, fun r _ => ⟨p, rfl, hr⟩, fun _ => ⟨_, rfl⟩⟩
    cases hhalt

/-- Three CPUs and one: a thread that fills the single CPU of node 1, and twelve light ones. -/
def crowdedInput : IncrementalInput where
  hardware := { cpus := [⟨0, 0, true⟩, ⟨1, 0, true⟩, ⟨2, 0, true⟩, ⟨3, 1, true⟩] }
  threads := ⟨⟨1, 1, 0⟩, "g", 1, 1, 3⟩ :: (List.range 12).map (fun i => ⟨⟨1, i + 2, 0⟩, "g", 1 / 10, 1, 0⟩)
  options := { initialNodeThreadSlackRatio := 3 / 10 }

theorem crowdedInput_accepted : crowdedInput.options.Accepted := by
  constructor <;> decide +kernel

theorem nodePlanning_crowdedInput :
    nodePlanning (intake {} crowdedInput).1 crowdedInput (intake {} crowdedInput).2 =
      .error (.thrown "node thread floor is infeasible") := by
  have hrun : (match nodePlanning (intake {} crowdedInput).1 crowdedInput (intake {} crowdedInput).2 with
      | .error halt => decide (halt = .thrown "node thread floor is infeasible")
      | .ok _ => false) = true := by decide +kernel
  split at hrun
  · rename_i halt heq
    rw [heq, of_decide_eq_true hrun]
  · cases hrun

theorem nodePlanning_infeasible_only_when_crowded_at :
    ∃ n ∈ crowdedInput.hardware.nodes, ∃ A, Crowds {} crowdedInput n A := by
  have h := nodePlanning_infeasible_only_when_crowded {} crowdedInput (by decide) (by decide) crowdedInput_accepted
    (by decide) (by decide +kernel)
  exact (h.1 _ nodePlanning_crowdedInput).2

/-- The repair throws although every promise is kept: node 1 must have two threads, has one that fills its CPU, and
no other thread fits beside it. -/
theorem nodePlanning_crowdedInput_infeasible :
    crowdedInput.hardware.cpus ≠ [] ∧ (∀ c ∈ crowdedInput.hardware.cpus, c.online = true) ∧
    crowdedInput.options.Accepted ∧ crowdedInput.options.maximumThreadsPerCpu = 0 ∧
    (tids crowdedInput.threads).Nodup ∧ (∀ t ∈ crowdedInput.threads, 0 ≤ t.demand ∧ t.demand ≤ 1) ∧
    (intake {} crowdedInput).1.phase = .nodePlanning ∧
    nodePlanning (intake {} crowdedInput).1 crowdedInput (intake {} crowdedInput).2 =
      .error (.thrown "node thread floor is infeasible") := by
  refine ⟨by decide, by decide, crowdedInput_accepted, by decide, by decide +kernel, by decide +kernel,
    by decide +kernel, nodePlanning_crowdedInput⟩

end IncrementalSolver
end AffinityGraph
