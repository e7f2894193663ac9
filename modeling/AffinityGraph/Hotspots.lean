import AffinityGraph.GraphDelta
import AffinityGraph.Incremental
import AffinityGraph.Ranking
/-!
# Hotspots — the edges `select_hotspot_edges` keeps (`solver.cpp`)

An edge between two known threads weighs its score, boosted by its synchronisation or its sharing.  Kept is what weighs as much
as the quantile of the weights, and beside it the best few edges of every thread, so that no thread loses all it has.  The
specification counts: an edge is among the `K` best of a thread when fewer than `K` edges of the thread are better
(`mem_selectHotspotEdges`).
-/
namespace AffinityGraph
namespace Hotspots

/-- An edge between two different known threads, with a score. -/
def Eligible (threads : OrdMap Tid ThreadDemand) (e : RelationEdge) : Prop :=
  e.fromTid ≠ e.toTid ∧ 0 < e.score ∧ e.fromTid ∈ threads ∧ e.toTid ∈ threads

instance (threads : OrdMap Tid ThreadDemand) (e : RelationEdge) : Decidable (Eligible threads e) :=
  inferInstanceAs (Decidable (_ ∧ _))

def weight (options : IncrementalOptions) (e : RelationEdge) : ℚ :=
  e.score * (1 + options.hotspotComponentBoost * max e.sync e.share)

def eligible (edges : List RelationEdge) (threads : OrdMap Tid ThreadDemand) : List RelationEdge :=
  edges.filter (fun e => decide (Eligible threads e))

def quantileIndex (options : IncrementalOptions) (n : Nat) : Int := ⌊options.hotspotEdgeQuantile * ((n - 1 : Nat) : ℚ)⌋

/-- The weight at the quantile. -/
def quantileWeight (edges : List RelationEdge) (threads : OrdMap Tid ThreadDemand) (options : IncrementalOptions) : ℚ :=
  (((eligible edges threads).map (weight options)).insertionSort (· ≤ ·)).getD
    (quantileIndex options (eligible edges threads).length).toNat 0

/-- Heavier, or as heavy with a smaller pair. -/
def Better (options : IncrementalOptions) (a b : RelationEdge) : Prop :=
  weight options b < weight options a ∨ weight options a = weight options b ∧ a.key < b.key

instance (options : IncrementalOptions) (a b : RelationEdge) : Decidable (Better options a b) :=
  inferInstanceAs (Decidable (_ ∨ _))

def touches (tid : Tid) (e : RelationEdge) : Prop := e.fromTid = tid ∨ e.toTid = tid

instance (tid : Tid) (e : RelationEdge) : Decidable (touches tid e) := inferInstanceAs (Decidable (_ ∨ _))

/-- Among the `K` best edges of a thread: fewer than `K` of its edges are better. -/
def AmongBest (edges : List RelationEdge) (threads : OrdMap Tid ThreadDemand) (options : IncrementalOptions) (tid : Tid)
    (e : RelationEdge) : Prop :=
  ((eligible edges threads).filter (fun x => decide (touches tid x ∧ Better options x e))).length <
    options.hotspotEdgesPerThread

/-- The edges kept. -/
def Kept (edges : List RelationEdge) (threads : OrdMap Tid ThreadDemand) (options : IncrementalOptions) (e : RelationEdge) :
    Prop :=
  Eligible threads e ∧ (quantileWeight edges threads options - 1 / 10 ^ 12 ≤ weight options e ∨
    AmongBest edges threads options e.fromTid e ∨ AmongBest edges threads options e.toTid e)

/-- An edge as it is returned: its score is its weight. -/
def weighted (options : IncrementalOptions) (e : RelationEdge) : RelationEdge := { e with score := weight options e }

/-! ## The candidates -/

section Candidates

variable {edges : List RelationEdge} {threads : OrdMap Tid ThreadDemand} {options : IncrementalOptions}

/-- The candidates: the eligible edges, each with its weight. -/
theorem hotspotCandidates_eq (edges : List RelationEdge) (threads : OrdMap Tid ThreadDemand) (options : IncrementalOptions) :
    hotspotCandidates edges threads options = (eligible edges threads).map (fun e => (e, weight options e)) := rfl

/-- What a candidate is sorted by. -/
def rank (c : RelationEdge × ℚ) : ℚ ×ₗ EdgeKey := toLex (-c.2, c.1.key)

theorem hotspotBefore_iff (a b : RelationEdge × ℚ) : hotspotBefore a b = true ↔ rank a ≤ rank b := by
  unfold hotspotBefore rank
  rw [Prod.Lex.toLex_le_toLex]
  by_cases h : a.2 = b.2
  · simp [h, RelationEdge.key]
  · simp [h]

theorem rank_lt_iff (options : IncrementalOptions) (a b : RelationEdge) :
    rank (a, weight options a) < rank (b, weight options b) ↔ Better options a b := by
  unfold rank Better
  rw [Prod.Lex.toLex_lt_toLex]
  simp

theorem mem_eligible {e : RelationEdge} : e ∈ eligible edges threads ↔ e ∈ edges ∧ Eligible threads e := by
  simp [eligible]

theorem eligible_keys (hpairs : (edges.map RelationEdge.key).Nodup) : ((eligible edges threads).map RelationEdge.key).Nodup :=
  hpairs.sublist (List.filter_sublist.map _)

theorem incidentHotspots_getD (edges : List RelationEdge) (threads : OrdMap Tid ThreadDemand) (options : IncrementalOptions)
    (tid : Tid) :
    (incidentHotspots (hotspotCandidates edges threads options)).getD tid [] =
      ((eligible edges threads).filter (fun e => decide (touches tid e))).map (fun e => (e, weight options e)) := by
  unfold incidentHotspots
  rw [OrdMap.getD_foldl_ends (fun c : RelationEdge × ℚ => c.1.fromTid) (fun c => c.1.toTid) tid, hotspotCandidates_eq,
    List.filter_map]
  · rfl
  · intro c hc
    rw [hotspotCandidates_eq] at hc
    obtain ⟨e, he, rfl⟩ := List.mem_map.1 hc
    exact (mem_eligible.1 he).2.1

/-- A thread's best candidates. -/
def best (edges : List RelationEdge) (threads : OrdMap Tid ThreadDemand) (options : IncrementalOptions) (tid : Tid) :
    List (RelationEdge × ℚ) :=
  (((incidentHotspots (hotspotCandidates edges threads options)).getD tid []).insertionSort
    (fun a b => hotspotBefore a b = true)).take options.hotspotEdgesPerThread

/-- **A thread's best candidates are those it has fewer than `K` better ones of.** -/
theorem mem_best (hpairs : (edges.map RelationEdge.key).Nodup) {tid : Tid} {c : RelationEdge × ℚ} :
    c ∈ best edges threads options tid ↔
      ∃ e ∈ eligible edges threads, touches tid e ∧ c = (e, weight options e) ∧ AmongBest edges threads options tid e := by
  have hranks : ((((eligible edges threads).filter (fun e => decide (touches tid e))).map
      (fun e => (e, weight options e))).map rank).Nodup := by
    rw [List.map_map]
    refine List.Nodup.of_map (fun k => (ofLex k).2) ?_
    rw [List.map_map]
    exact (eligible_keys hpairs).sublist (List.filter_sublist.map _)
  have hcount : ∀ {e : RelationEdge}, e ∈ eligible edges threads → touches tid e →
      ((e, weight options e) ∈ best edges threads options tid ↔ AmongBest edges threads options tid e) := by
    intro e he ht
    unfold best
    rw [incidentHotspots_getD, Ranking.mem_take_sort hotspotBefore_iff hranks
      (List.mem_map_of_mem (List.mem_filter.2 ⟨he, by simpa using ht⟩)), List.filter_map, List.length_map,
      List.filter_filter]
    unfold AmongBest
    simp only [Function.comp_def, rank_lt_iff, Bool.decide_and, Bool.and_comm]
  constructor
  · intro hc
    have hin : c ∈ (incidentHotspots (hotspotCandidates edges threads options)).getD tid [] :=
      (List.mem_insertionSort _).1 (List.mem_of_mem_take hc)
    rw [incidentHotspots_getD] at hin
    obtain ⟨e, he, rfl⟩ := List.mem_map.1 hin
    obtain ⟨he, ht⟩ := List.mem_filter.1 he
    have ht : touches tid e := by simpa using ht
    exact ⟨e, he, ht, rfl, (hcount he ht).1 hc⟩
  · rintro ⟨e, he, ht, rfl, hbest⟩
    exact (hcount he ht).2 hbest

/-- The pairs of the threads' best candidates. -/
def selected (edges : List RelationEdge) (threads : OrdMap Tid ThreadDemand) (options : IncrementalOptions) : OrdSet EdgeKey :=
  (incidentHotspots (hotspotCandidates edges threads options)).entries.foldl (fun s e =>
    ((e.2.insertionSort (fun a b => hotspotBefore a b = true)).take options.hotspotEdgesPerThread).foldl
      (fun s c => OrdSet.add s (edgeKey c.1.fromTid c.1.toTid)) s) ∅

theorem mem_selected {k : EdgeKey} :
    k ∈ selected edges threads options ↔ ∃ tid, ∃ c ∈ best edges threads options tid, c.1.key = k := by
  have hfold : ∀ (l : List (Tid × List (RelationEdge × ℚ))) (s : OrdSet EdgeKey),
      k ∈ l.foldl (fun s e => ((e.2.insertionSort (fun a b => hotspotBefore a b = true)).take
        options.hotspotEdgesPerThread).foldl (fun s c => OrdSet.add s (edgeKey c.1.fromTid c.1.toTid)) s) s ↔
      k ∈ s ∨ ∃ e ∈ l, ∃ c ∈ (e.2.insertionSort (fun a b => hotspotBefore a b = true)).take
        options.hotspotEdgesPerThread, c.1.key = k := by
    intro l
    induction l with
    | nil => simp
    | cons e l ih =>
      intro s
      rw [List.foldl_cons, ih, ← List.foldl_map, OrdSet.mem_foldl_add, List.mem_map]
      simp only [List.mem_cons, exists_eq_or_imp, or_assoc]
      rfl
  unfold selected
  rw [hfold]
  constructor
  · rintro (h | ⟨⟨tid, cs⟩, he, c, hc, hk⟩)
    · exact absurd h (OrdMap.notMem_empty k)
    · have hcs : (incidentHotspots (hotspotCandidates edges threads options)).getD tid [] = cs := by
        unfold OrdMap.getD
        rw [OrdMap.mem_entries.1 he]
        rfl
      exact ⟨tid, c, by unfold best; rwa [hcs], hk⟩
  · rintro ⟨tid, c, hc, hk⟩
    right
    cases hf : (incidentHotspots (hotspotCandidates edges threads options)).find? tid with
    | none =>
      unfold best OrdMap.getD at hc
      rw [hf] at hc
      simp at hc
    | some cs =>
      refine ⟨(tid, cs), OrdMap.mem_entries.2 hf, c, ?_, hk⟩
      unfold best OrdMap.getD at hc
      rwa [hf] at hc

/-- The pair of an eligible edge is selected for one of its two ends. -/
theorem key_mem_selected (hpairs : (edges.map RelationEdge.key).Nodup) {e : RelationEdge} (he : e ∈ eligible edges threads) :
    e.key ∈ selected edges threads options ↔
      AmongBest edges threads options e.fromTid e ∨ AmongBest edges threads options e.toTid e := by
  rw [mem_selected]
  constructor
  · rintro ⟨tid, c, hc, hk⟩
    obtain ⟨x, hx, ht, rfl, hbest⟩ := (mem_best hpairs).1 hc
    have hxe : x = e := List.inj_on_of_nodup_map (eligible_keys hpairs) hx he hk
    subst hxe
    rcases ht with rfl | rfl
    · exact .inl hbest
    · exact .inr hbest
  · rintro (h | h)
    · exact ⟨e.fromTid, _, (mem_best hpairs).2 ⟨e, he, .inl rfl, rfl, h⟩, rfl⟩
    · exact ⟨e.toTid, _, (mem_best hpairs).2 ⟨e, he, .inr rfl, rfl, h⟩, rfl⟩

end Candidates

/-! ## The selection -/

section Selection

variable {edges edges' : List RelationEdge} {threads : OrdMap Tid ThreadDemand} {options : IncrementalOptions}

@[simp] theorem weighted_key (options : IncrementalOptions) (e : RelationEdge) : (weighted options e).key = e.key := rfl

/-- The edges kept, in the order given. -/
def keptEdges (edges : List RelationEdge) (threads : OrdMap Tid ThreadDemand) (options : IncrementalOptions) :
    List RelationEdge :=
  (eligible edges threads).filter (fun e =>
    !(decide (weight options e + 1 / 10 ^ 12 < quantileWeight edges threads options) &&
      decide (e.key ∉ selected edges threads options)))

theorem selectHotspotEdges_eq (edges : List RelationEdge) (threads : OrdMap Tid ThreadDemand) (options : IncrementalOptions) :
    selectHotspotEdges edges threads options =
      ((keptEdges edges threads options).map (weighted options)).insertionSort
        (fun a b => edgeKey a.fromTid a.toTid ≤ edgeKey b.fromTid b.toTid) := by
  have hweights : ((hotspotCandidates edges threads options).map Prod.snd) = (eligible edges threads).map (weight options) := by
    rw [hotspotCandidates_eq, List.map_map]
    rfl
  have hquantile : quantileWeight edges threads options =
      (((hotspotCandidates edges threads options).map Prod.snd).insertionSort (· ≤ ·)).getD
        (⌊options.hotspotEdgeQuantile * (((((hotspotCandidates edges threads options).map Prod.snd).insertionSort
          (· ≤ ·)).length - 1 : Nat) : ℚ)⌋.toNat) 0 := by
    unfold quantileWeight quantileIndex
    rw [hweights, List.length_insertionSort, List.length_map]
  unfold selectHotspotEdges
  simp only [← hquantile]
  rw [hotspotCandidates_eq, List.filter_map, List.map_map]
  rfl

theorem mem_keptEdges (hpairs : (edges.map RelationEdge.key).Nodup) {e : RelationEdge} :
    e ∈ keptEdges edges threads options ↔ e ∈ edges ∧ Kept edges threads options e := by
  unfold keptEdges
  rw [List.mem_filter, mem_eligible]
  constructor
  · rintro ⟨⟨he, hel⟩, hkeep⟩
    refine ⟨he, hel, ?_⟩
    rw [← key_mem_selected hpairs (mem_eligible.2 ⟨he, hel⟩)]
    by_cases hsel : e.key ∈ selected edges threads options
    · exact .inr hsel
    · left
      simp only [hsel, not_false_eq_true, decide_true, Bool.and_true, Bool.not_eq_true', decide_eq_false_iff_not, not_lt] at hkeep
      linarith
  · rintro ⟨he, hel, hkeep⟩
    refine ⟨⟨he, hel⟩, ?_⟩
    rw [← key_mem_selected hpairs (mem_eligible.2 ⟨he, hel⟩)] at hkeep
    rcases hkeep with h | h
    · have : ¬ weight options e + 1 / 10 ^ 12 < quantileWeight edges threads options := by
        rw [not_lt]
        linarith
      simp only [this, decide_false, Bool.false_and, Bool.not_false]
    · simp [h]

/-- **What is kept.** -/
theorem mem_selectHotspotEdges (hpairs : (edges.map RelationEdge.key).Nodup) {x : RelationEdge} :
    x ∈ selectHotspotEdges edges threads options ↔ ∃ e ∈ edges, Kept edges threads options e ∧ x = weighted options e := by
  rw [selectHotspotEdges_eq, List.mem_insertionSort, List.mem_map]
  constructor
  · rintro ⟨e, he, rfl⟩
    obtain ⟨he, hkept⟩ := (mem_keptEdges hpairs).1 he
    exact ⟨e, he, hkept, rfl⟩
  · rintro ⟨e, he, hkept, rfl⟩
    exact ⟨e, (mem_keptEdges hpairs).2 ⟨he, hkept⟩, rfl⟩

/-- The result is strictly sorted by pair. -/
theorem selectHotspotEdges_strict (hpairs : (edges.map RelationEdge.key).Nodup) :
    (selectHotspotEdges edges threads options).Pairwise (fun a b => a.key < b.key) := by
  rw [selectHotspotEdges_eq]
  refine Ranking.sort_strict (fun a b => Iff.rfl) ?_
  rw [List.map_map]
  exact (eligible_keys hpairs).sublist (List.filter_sublist.map _)

/-! ## The order of the input -/

theorem eligible_perm (hperm : edges.Perm edges') (threads : OrdMap Tid ThreadDemand) :
    (eligible edges threads).Perm (eligible edges' threads) := hperm.filter _

theorem quantileWeight_perm (hperm : edges.Perm edges') (threads : OrdMap Tid ThreadDemand) (options : IncrementalOptions) :
    quantileWeight edges threads options = quantileWeight edges' threads options := by
  have heligible := eligible_perm hperm threads
  have hsorted : ((eligible edges threads).map (weight options)).insertionSort (· ≤ ·) =
      ((eligible edges' threads).map (weight options)).insertionSort (· ≤ ·) := by
    refine List.Perm.eq_of_pairwise (fun a b _ _ hab hba => le_antisymm hab hba) (List.pairwise_insertionSort _ _)
      (List.pairwise_insertionSort _ _) ?_
    exact (List.perm_insertionSort _ _).trans ((heligible.map _).trans (List.perm_insertionSort _ _).symm)
  unfold quantileWeight
  rw [hsorted, heligible.length_eq]

theorem kept_perm (hperm : edges.Perm edges') (e : RelationEdge) :
    Kept edges threads options e ↔ Kept edges' threads options e := by
  have hbest : ∀ tid, AmongBest edges threads options tid e ↔ AmongBest edges' threads options tid e := by
    intro tid
    unfold AmongBest
    rw [((eligible_perm hperm threads).filter _).length_eq]
  unfold Kept
  rw [quantileWeight_perm hperm, hbest, hbest]

/-! ## The specification -/

/-- The quantile of at least one weight is one of them. -/
theorem quantileIndex_range {options : IncrementalOptions} (h0 : 0 ≤ options.hotspotEdgeQuantile)
    (h1 : options.hotspotEdgeQuantile ≤ 1) {n : Nat} (hn : 0 < n) :
    0 ≤ quantileIndex options n ∧ quantileIndex options n < n := by
  have hpos : (0 : ℚ) ≤ ((n - 1 : Nat) : ℚ) := Nat.cast_nonneg _
  unfold quantileIndex
  constructor
  · exact Int.floor_nonneg.2 (mul_nonneg h0 hpos)
  · have hle : ⌊options.hotspotEdgeQuantile * ((n - 1 : Nat) : ℚ)⌋ ≤ ((n - 1 : Nat) : Int) := by
      refine Int.floor_le_iff.2 ?_
      have := mul_le_mul_of_nonneg_right h1 hpos
      push_cast
      linarith
    omega

/-- **`select_hotspot_edges`.**  The quantile is read inside the weights; what is returned is strictly sorted by pair and is
exactly the edges kept, each with its weight for a score; and it does not depend on the order of the input. -/
theorem selectHotspotEdges_spec (edges : List RelationEdge) (threads : OrdMap Tid ThreadDemand) (options : IncrementalOptions)
    (hpairs : (edges.map RelationEdge.key).Nodup) (h0 : 0 ≤ options.hotspotEdgeQuantile)
    (h1 : options.hotspotEdgeQuantile ≤ 1) :
    (eligible edges threads ≠ [] → 0 ≤ quantileIndex options (eligible edges threads).length ∧
      quantileIndex options (eligible edges threads).length < (eligible edges threads).length) ∧
    (selectHotspotEdges edges threads options).Pairwise (fun a b => a.key < b.key) ∧
    (∀ x, x ∈ selectHotspotEdges edges threads options ↔
      ∃ e ∈ edges, Kept edges threads options e ∧ x = { e with score := weight options e }) ∧
    ∀ edges', edges.Perm edges' →
      selectHotspotEdges edges' threads options = selectHotspotEdges edges threads options := by
  refine ⟨fun hne => quantileIndex_range h0 h1 (List.length_pos_of_ne_nil hne), selectHotspotEdges_strict hpairs,
    fun x => mem_selectHotspotEdges hpairs, fun edges' hperm => ?_⟩
  have hpairs' : (edges'.map RelationEdge.key).Nodup := (hperm.map _).nodup_iff.1 hpairs
  refine Ranking.eq_of_strict (selectHotspotEdges_strict hpairs') (selectHotspotEdges_strict hpairs) (fun x => ?_)
  rw [mem_selectHotspotEdges hpairs', mem_selectHotspotEdges hpairs]
  refine exists_congr (fun e => ?_)
  rw [hperm.mem_iff, kept_perm hperm]

/-- Four threads on a path, the middle edge the lightest. -/
def path : List RelationEdge :=
  [{ fromTid := 2, toTid := 1, score := 5 }, { fromTid := 2, toTid := 3, score := 1 },
    { fromTid := 4, toTid := 3, score := 2, sync := 1 }]

def pathThreads : OrdMap Tid ThreadDemand :=
  OrdMap.ofList ([1, 2, 3, 4].map (fun tid : Int =>
    (tid, { identity := ⟨9, tid, 0⟩, group := "", demand := 1, confidence := 1, currentCpu := 0 })))

def onePerThread : IncrementalOptions := { hotspotEdgesPerThread := 1 }

/-- With one edge a thread, both ends of the path stay and the middle goes: no thread has it for its best. -/
theorem selectHotspotEdges_spec_path :
    (selectHotspotEdges path pathThreads onePerThread).map (fun e => (e.fromTid, e.toTid, e.score)) = [(2, 1, 5), (4, 3, 10)] ∧
    selectHotspotEdges path.reverse pathThreads onePerThread = selectHotspotEdges path pathThreads onePerThread :=
  ⟨by decide +kernel, (selectHotspotEdges_spec path pathThreads onePerThread (by decide) (by decide +kernel)
    (by decide +kernel)).2.2.2 path.reverse (List.reverse_perm path).symm⟩

end Selection
end Hotspots
end AffinityGraph
