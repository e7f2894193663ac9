import AffinityGraph.GraphDelta
/-!
# GraphRuns — any interleaving of calls on the window

`GraphWindow.step` is one call, with the two lookups and the decrement that can go wrong left partial: an `.at` without its key
throws, and a count below zero wraps.  No run reaches either, and after every run the sums are those of the histories and both
readers return what they would compute from nothing (`GraphWindow.recomputes`).  `Feed` has the deltas that were taken beside
the window; whoever has followed them is close to it after the last (`Feed.follows`).
-/
namespace AffinityGraph

namespace RelationAggregate

/-- `drop`, where the count can go down. -/
def drop? (a : RelationAggregate) (key : EdgeKey) (o : RelationObservation) : Option RelationAggregate :=
  if a.count = 0 then none else some (a.drop key o)

theorem foldlM_drop?_ofHistory (key : EdgeKey) : ∀ (old rest : List RelationObservation),
    old.foldlM (fun a o => drop? a key o) (ofHistory key (old ++ rest)) = some (ofHistory key rest)
  | [], _ => rfl
  | o :: old, rest => by
    have hcount : (ofHistory key (o :: old ++ rest)).count ≠ 0 := by simp [ofHistory]
    rw [List.foldlM_cons, drop?, if_neg hcount, List.cons_append, drop_ofHistory]
    exact foldlM_drop?_ofHistory key old rest

end RelationAggregate

namespace GraphWindow

open AffinityGraph.RelationAggregate (ofHistory)

variable {g : GraphWindow}

/-! ## Calls that could fail -/

/-- The loop of the aging over the sums: `relation_aggregates_.at(history->first)` and `--aggregate.count`. -/
def ageAggregates? (cut : Nat) (histories : List (EdgeKey × List RelationObservation))
    (aggregates : OrdMap EdgeKey RelationAggregate) : Option (OrdMap EdgeKey RelationAggregate) :=
  histories.foldlM (fun (m : OrdMap EdgeKey RelationAggregate) e => (m.find? e.1).bind (fun a =>
    ((expired cut e.2).foldlM (fun (a : RelationAggregate) o => a.drop? e.1 o) a).map (fun a => m.insert e.1 a))) aggregates

def ageRelations? (g : GraphWindow) (cut : Nat) : Option GraphWindow :=
  (ageAggregates? cut g.relationHistories.entries g.relationAggregates).map (fun aggregates =>
    let histories := g.relationHistories.mapVal (fun _ h => agedHistory cut h)
    { g with
      relationHistories := histories.filter (fun _ h => !h.isEmpty)
      relationAggregates := aggregates.filter (fun k _ => !decide (histories.getD k [] = [] ∧ k ∈ histories)) })

def observeThreads? (g : GraphWindow) (samples : List ThreadSample) : Option GraphWindow :=
  let g₁ := samples.foldl observeSample { g with demandCache := none, edgeCache := none }
  let cut := cutoff g.horizonSeconds (newest samples)
  ageRelations? { g₁ with threads := agedThreads g₁.threads cut } cut

/-- The loop of `thread_records`, with `demand_by_tid.at(tid)`. -/
def recordsOf? (ds : List ThreadDemand) : List (Tid × List ThreadSample) → Option (List ThreadWindowRecord)
  | [] => some []
  | e :: l =>
    if e.2.isEmpty then recordsOf? ds l
    else (recordOf ds e.1 e.2).bind (fun r => (recordsOf? ds l).map (r :: ·))

def threadRecords? (g : GraphWindow) : Option (List ThreadWindowRecord × GraphWindow) :=
  (recordsOf? g.demands.1 g.threads.entries).map (fun records =>
    (records.insertionSort (fun a b => a.identity.tid ≤ b.identity.tid), g.demands.2))

theorem ageAggregates?_eq (cut : Nat) : ∀ (l : List (EdgeKey × List RelationObservation))
    (m : OrdMap EdgeKey RelationAggregate), (l.map Prod.fst).Nodup → (∀ e ∈ l, m.find? e.1 = some (ofHistory e.1 e.2)) →
    ageAggregates? cut l m = some (l.foldl (fun (m : OrdMap EdgeKey RelationAggregate) e =>
      m.insert e.1 ((expired cut e.2).foldl (fun a o => a.drop e.1 o) (m.getD e.1 {}))) m)
  | [], _, _, _ => rfl
  | e :: l, m, hn, hm => by
    rw [List.map_cons, List.nodup_cons] at hn
    have hsplit : e.2 = expired cut e.2 ++ agedHistory cut e.2 := (List.takeWhile_append_dropWhile).symm
    have hfind := hm e List.mem_cons_self
    have hdrop : (expired cut e.2).foldlM (fun (a : RelationAggregate) o => a.drop? e.1 o) (ofHistory e.1 e.2) =
        some ((expired cut e.2).foldl (fun a o => a.drop e.1 o) (m.getD e.1 {})) := by
      rw [OrdMap.getD, hfind, Option.getD_some]
      conv_lhs => rw [hsplit, expired_self, RelationAggregate.foldlM_drop?_ofHistory]
      conv_rhs => rw [hsplit, expired_self, RelationAggregate.foldl_drop_ofHistory]
    unfold ageAggregates?
    rw [List.foldlM_cons, hfind, Option.bind_some, hdrop, List.foldl_cons]
    refine ageAggregates?_eq cut l _ hn.2 (fun x hx => ?_)
    have hne : e.1 ≠ x.1 := fun heq => hn.1 (heq ▸ List.mem_map_of_mem hx)
    rw [OrdMap.find?_insert_ne _ _ hne]
    exact hm x (List.mem_cons_of_mem _ hx)

/-- **The aging finds every sum it needs**, and no count goes below zero. -/
theorem Summed.ageRelations? (h : g.Summed) (cut : Nat) : g.ageRelations? cut = some (g.ageRelations cut) := by
  have hall : ∀ e ∈ g.relationHistories.entries, g.relationAggregates.find? e.1 = some (ofHistory e.1 e.2) := by
    intro e he
    rw [h.sums, OrdMap.mem_entries.1 (show (e.1, e.2) ∈ _ from he)]
    rfl
  unfold GraphWindow.ageRelations?
  rw [ageAggregates?_eq cut _ _ g.relationHistories.nodup_keys hall]
  rfl

theorem Summed.observeSample (h : g.Summed) (x : ThreadSample) : (g.observeSample x).Summed := by
  have hkept := h.keepRelations (fun k => !touches x.identity.tid k)
  unfold GraphWindow.observeSample
  dsimp only
  split
  · split
    · exact ⟨h.sums, h.filled⟩
    · exact ⟨hkept.sums, hkept.filled⟩
  · exact ⟨h.sums, h.filled⟩

theorem Summed.observeThreads? (h : g.Summed) (samples : List ThreadSample) :
    g.observeThreads? samples = some (g.observeThreads samples) ∧ (g.observeThreads samples).Summed := by
  have hclear : Summed { g with demandCache := none, edgeCache := none } := ⟨h.sums, h.filled⟩
  have hloop : (samples.foldl GraphWindow.observeSample { g with demandCache := none, edgeCache := none }).Summed :=
    Loop.foldl_keeps Summed (fun _ x hg => hg.observeSample x) samples hclear
  have haged : Summed { samples.foldl GraphWindow.observeSample { g with demandCache := none, edgeCache := none } with
      threads := agedThreads (samples.foldl GraphWindow.observeSample
        { g with demandCache := none, edgeCache := none }).threads (cutoff g.horizonSeconds (newest samples)) } :=
    ⟨hloop.sums, hloop.filled⟩
  exact ⟨haged.ageRelations? _, haged.ageRelations _⟩

theorem recordsOf?_eq {ds : List ThreadDemand} : ∀ (l : List (Tid × List ThreadSample)),
    (∀ e ∈ l, e.2 ≠ [] ∧ e.1 ∈ ds.map (·.identity.tid)) →
    recordsOf? ds l = some (l.filterMap (fun e => recordOf ds e.1 e.2))
  | [], _ => rfl
  | e :: l, h => by
    obtain ⟨hne, hin⟩ := h e List.mem_cons_self
    obtain ⟨d, hd, hdt⟩ := List.mem_map.1 hin
    obtain ⟨r, hr⟩ : ∃ r, recordOf ds e.1 e.2 = some r := by
      have hfound : (ds.find? (fun d => decide (d.identity.tid = e.1))).isSome = true :=
        List.find?_isSome.2 ⟨d, hd, decide_eq_true hdt⟩
      obtain ⟨d', hd'⟩ := Option.isSome_iff_exists.1 hfound
      unfold recordOf
      rw [List.head?_eq_some_head hne, List.getLast?_eq_some_getLast hne, hd']
      exact ⟨_, rfl⟩
    have hfull : e.2.isEmpty = false := by simpa using hne
    rw [recordsOf?, hfull, hr, List.filterMap_cons, hr, recordsOf?_eq l (fun x hx => h x (List.mem_cons_of_mem _ hx))]
    rfl

/-- **Every thread of the window has a demand to look up.** -/
theorem threadRecords?_eq (hg : g.WellKeyed) (hc : g.Current) : g.threadRecords? = some g.threadRecords := by
  have hall : ∀ e ∈ g.threads.entries, e.2 ≠ [] ∧ e.1 ∈ g.demands.1.map (·.identity.tid) := by
    intro e he
    have hfind := OrdMap.mem_entries.1 (show (e.1, e.2) ∈ _ from he)
    rw [hc.demands.1, mem_computeDemands hg]
    exact ⟨(hg e.1 e.2 hfind).1, OrdMap.mem_of_find hfind⟩
  unfold threadRecords?
  rw [recordsOf?_eq _ hall]
  rfl

/-! ## Every run -/

/-- The calls on a window. -/
inductive Event where
  | observeThreads (samples : List ThreadSample)
  | observeRelation (o : RelationObservation)
  | retainRelations (relations : OrdSet EdgeKey)
  | demands
  | edges
  | threadRecords
  | takeDelta (th : DeltaThresholds)

/-- One call; `none` where it would throw or wrap. -/
def step (g : GraphWindow) : Event → Option GraphWindow
  | .observeThreads samples => g.observeThreads? samples
  | .observeRelation o => some (g.observeRelation o)
  | .retainRelations relations => some (g.retainRelations relations)
  | .demands => some g.demands.2
  | .edges => some g.edges.2
  | .threadRecords => g.threadRecords?.map Prod.snd
  | .takeDelta th => some (g.takeDelta th).2

/-- The smaller TID of a pair comes first. -/
def Ordered (g : GraphWindow) : Prop := ∀ k ∈ g.relationHistories, (ofLex k).1 ≤ (ofLex k).2

/-- What every call keeps. -/
structure Sane (g : GraphWindow) : Prop where
  keyed : g.WellKeyed
  summed : g.Summed
  cached : g.Cached
  ordered : g.Ordered

theorem Cached.demanded (h : g.Cached) : g.demands.2.Cached := by
  refine ⟨h.demands.demands.2, fun es hes => ?_⟩
  unfold GraphWindow.demands at hes ⊢
  cases hc : g.demandCache with
  | some ds =>
    rw [hc] at hes
    exact h.edges es hes
  | none =>
    rw [hc] at hes
    exact h.edges es hes

theorem Sane.demands (h : g.Sane) : g.demands.2.Sane := by
  have hcached := h.cached.demanded
  unfold GraphWindow.demands at hcached ⊢
  cases hc : g.demandCache with
  | some ds => exact h
  | none =>
    rw [hc] at hcached
    exact ⟨h.keyed, ⟨h.summed.sums, h.summed.filled⟩, hcached, h.ordered⟩

theorem Sane.edges (h : g.Sane) : g.edges.2.Sane := by
  have hcached := h.cached.read
  have hread := h.demands
  unfold GraphWindow.edges at hcached ⊢
  cases hc : g.edgeCache with
  | some es => exact h
  | none =>
    rw [hc] at hcached
    exact ⟨hread.keyed, ⟨hread.summed.sums, hread.summed.filled⟩, hcached, hread.ordered⟩

theorem Sane.takeDelta (h : g.Sane) (th : DeltaThresholds) : (g.takeDelta th).2.Sane := by
  have hread := h.demands.edges
  exact ⟨hread.keyed, ⟨hread.summed.sums, hread.summed.filled⟩, ⟨hread.cached.demands, hread.cached.edges⟩, hread.ordered⟩

theorem Sane.observeRelation (h : g.Sane) (o : RelationObservation) : (g.observeRelation o).Sane := by
  have hsummed := h.summed.observeRelation o
  have hcached := h.cached.observeRelation o
  unfold GraphWindow.observeRelation at hsummed hcached ⊢
  split
  · exact h
  · rename_i hne
    rw [if_neg hne] at hsummed hcached
    refine ⟨h.keyed, hsummed, hcached, fun k hk => ?_⟩
    have hput : k ∈ g.relationHistories.insert (edgeKey o.fromTid o.toTid) _ := hk
    rw [OrdMap.mem_insert] at hput
    rcases hput with rfl | hk
    · exact min_le_max
    · exact h.ordered k hk

theorem mem_filter_histories {histories : OrdMap EdgeKey (List RelationObservation)}
    {p : EdgeKey → List RelationObservation → Bool} {k : EdgeKey} (hk : k ∈ histories.filter p) : k ∈ histories := by
  rw [OrdMap.mem_def, OrdMap.find?_filter] at hk
  rw [OrdMap.mem_def]
  cases hf : histories.find? k with
  | none =>
    rw [hf] at hk
    cases hk
  | some l => rfl

theorem Sane.retainRelations (h : g.Sane) (relations : OrdSet EdgeKey) : (g.retainRelations relations).Sane := by
  have hkept := h.summed.keepRelations (fun k => decide (k ∈ relations))
  have hcached := h.cached.retainRelations relations
  unfold GraphWindow.retainRelations at hcached ⊢
  dsimp only at hcached ⊢
  split
  · rename_i hchanged
    rw [if_pos hchanged] at hcached
    exact ⟨h.keyed, ⟨hkept.sums, hkept.filled⟩, hcached, fun k hk => h.ordered k (mem_filter_histories hk)⟩
  · rename_i hchanged
    rw [if_neg hchanged] at hcached
    exact ⟨h.keyed, hkept, hcached, fun k hk => h.ordered k (mem_filter_histories hk)⟩

theorem Ordered.observeSample (h : g.Ordered) (x : ThreadSample) : (g.observeSample x).Ordered := by
  unfold GraphWindow.observeSample
  dsimp only
  split
  · split
    · exact h
    · exact fun k hk => h k (mem_filter_histories hk)
  · exact h

theorem Sane.observeThreads (h : g.Sane) (samples : List ThreadSample) : (g.observeThreads samples).Sane := by
  have hloop : (samples.foldl GraphWindow.observeSample { g with demandCache := none, edgeCache := none }).Ordered :=
    Loop.foldl_keeps Ordered (fun _ x hg => hg.observeSample x) samples h.ordered
  refine ⟨wellKeyed_observeThreads h.keyed samples, (h.summed.observeThreads? samples).2,
    cached_of_none (demandCache_observeThreads g samples) (edgeCache_observeThreads g samples), fun k hk => ?_⟩
  have hin := mem_filter_histories hk
  rw [OrdMap.mem_def, OrdMap.find?_mapVal, Option.isSome_map] at hin
  exact hloop k hin

/-- **No call fails, and every call keeps the window sane.** -/
theorem Sane.step (h : g.Sane) (e : Event) : ∃ g', g.step e = some g' ∧ g'.Sane := by
  cases e with
  | observeThreads samples => exact ⟨_, (h.summed.observeThreads? samples).1, h.observeThreads samples⟩
  | observeRelation o => exact ⟨_, rfl, h.observeRelation o⟩
  | retainRelations relations => exact ⟨_, rfl, h.retainRelations relations⟩
  | demands => exact ⟨_, rfl, h.demands⟩
  | edges => exact ⟨_, rfl, h.edges⟩
  | threadRecords =>
    refine ⟨g.demands.2, ?_, h.demands⟩
    show g.threadRecords?.map Prod.snd = _
    rw [threadRecords?_eq h.keyed h.cached.demands]
    rfl
  | takeDelta th => exact ⟨_, rfl, h.takeDelta th⟩

/-- A window that has seen nothing. -/
def new (horizonSeconds : Nat) (calibration : Calibration) (libm : Libm) : GraphWindow where
  horizonSeconds := horizonSeconds
  calibration := calibration
  libm := libm

variable {horizonSeconds : Nat} {calibration : Calibration} {libm : Libm}

theorem sane_new : (new horizonSeconds calibration libm).Sane := by
  refine ⟨fun t h hf => ?_, ⟨fun k => rfl, fun k h hf => ?_⟩, cached_of_none rfl rfl, fun k hk => ?_⟩
  · cases hf
  · cases hf
  · cases hk

theorem Sane.exec {g : GraphWindow} (h : g.Sane) : ∀ (events : List Event),
    ∃ g', Run.exec GraphWindow.step g events = some g' ∧ g'.Sane
  | [] => ⟨g, rfl, h⟩
  | e :: events => by
    obtain ⟨g₁, hstep, h₁⟩ := h.step e
    obtain ⟨g', hrun, h'⟩ := h₁.exec events
    refine ⟨g', ?_, h'⟩
    rw [Run.exec, hstep]
    exact hrun

/-- The edges from nothing: each pair's history is summed up. -/
def recomputeEdges (g : GraphWindow) : List RelationEdge :=
  g.relationHistories.entries.filterMap (fun e =>
    match demandIn g.computeDemands (ofLex e.1).1, demandIn g.computeDemands (ofLex e.1).2 with
    | some d₁, some d₂ => if e.2.length = 0 then none else some (edgeOf g e.1 (ofHistory e.1 e.2) d₁ d₂)
    | _, _ => none)

theorem Summed.aggregates_eq (h : g.Summed) : g.relationAggregates = g.relationHistories.mapVal ofHistory :=
  OrdMap.ext_find (fun k => by rw [h.sums, OrdMap.find?_mapVal])

theorem Summed.computeEdges_eq (h : g.Summed) : g.computeEdges g.computeDemands = g.recomputeEdges := by
  unfold computeEdges recomputeEdges
  rw [h.aggregates_eq]
  show (g.relationHistories.entries.map (fun e => (e.1, ofHistory e.1 e.2))).filterMap _ = _
  rw [List.filterMap_map]
  rfl

/-- **The window is what a computation from nothing gives.**  After any calls on a new window none of which fails: the
histories and the sums have the same pairs, each pair's sums are those of its history, and `demands` and `edges` return what
the histories give, whatever was cached. -/
theorem recomputes (events : List Event) : ∃ g, Run.exec step (new horizonSeconds calibration libm) events = some g ∧
    (∀ k, k ∈ g.relationAggregates ↔ k ∈ g.relationHistories) ∧
    (∀ k h, g.relationHistories.find? k = some h → g.relationAggregates.find? k = some (ofHistory k h)) ∧
    g.demands.1 = g.computeDemands ∧ g.edges.1 = g.recomputeEdges := by
  have hnew : (new horizonSeconds calibration libm).Sane := sane_new
  obtain ⟨g, hrun, h⟩ := hnew.exec events
  refine ⟨g, hrun, fun k => h.summed.mem_iff, fun k hist hf => ?_, h.cached.demands.demands.1, ?_⟩
  · rw [h.summed.sums, hf]
    rfl
  · rw [h.cached.edges_eq, h.summed.computeEdges_eq]

/-! ## Following the deltas -/

theorem emitted_observeThreads (g : GraphWindow) (samples : List ThreadSample) :
    (g.observeThreads samples).emitted = g.emitted := by
  refine Loop.foldl_keeps (fun g' : GraphWindow => g'.emitted = g.emitted) (fun g' x hg => ?_) samples rfl
  unfold observeSample
  dsimp only
  split
  · split
    · exact hg
    · exact hg
  · exact hg

/-- Only `take_delta` emits. -/
theorem emitted_step (h : g.Sane) {e : Event} {g' : GraphWindow} (hstep : g.step e = some g')
    (he : ∀ th, e ≠ .takeDelta th) : g'.emitted = g.emitted := by
  cases e with
  | observeThreads samples =>
    rw [step, (h.summed.observeThreads? samples).1] at hstep
    cases hstep
    exact emitted_observeThreads g samples
  | observeRelation o =>
    cases hstep
    unfold observeRelation
    split <;> rfl
  | retainRelations relations =>
    cases hstep
    unfold retainRelations
    dsimp only
    split <;> rfl
  | demands =>
    cases hstep
    exact emitted_demands g
  | edges =>
    cases hstep
    exact emitted_edges g
  | threadRecords =>
    rw [step, threadRecords?_eq h.keyed h.cached.demands] at hstep
    cases hstep
    exact emitted_demands g
  | takeDelta th => exact absurd rfl (he th)

/-- The edges have the keys of their pairs. -/
theorem Sane.nodup_edges (h : g.Sane) : (g.edges.1.map RelationEdge.key).Nodup := by
  rw [h.cached.edges_eq, h.summed.computeEdges_eq]
  refine List.Nodup.sublist (filterMap_keys_sublist _ RelationEdge.key g.relationHistories.entries (fun e he a ha => ?_))
    g.relationHistories.nodup_keys
  have hkey : edgeKey (ofLex e.1).1 (ofLex e.1).2 = e.1 := by
    have hle := h.ordered e.1 (OrdMap.mem_of_find (OrdMap.mem_entries.1 (show (e.1, e.2) ∈ _ from he)))
    unfold edgeKey
    rw [min_eq_left hle, max_eq_right hle]
    rfl
  split at ha
  · split at ha
    · cases ha
    · cases ha
      exact hkey
  · cases ha

section Kept

variable {α : Type*} (read : GraphWindow → α) (hdemands : ∀ g c, read { g with demandCache := c } = read g)
include hdemands

theorem read_demands (g : GraphWindow) : read g.demands.2 = read g := by
  unfold demands
  cases g.demandCache with
  | some ds => rfl
  | none => exact hdemands g _

theorem read_edges (hedges : ∀ g c, read { g with edgeCache := c } = read g) (g : GraphWindow) :
    read g.edges.2 = read g := by
  unfold edges
  cases g.edgeCache with
  | some es => rfl
  | none => exact (hedges _ _).trans (read_demands read hdemands g)

/-- What reads neither caches nor what was emitted, no reader changes. -/
theorem read_takeDelta (hedges : ∀ g c, read { g with edgeCache := c } = read g)
    (hemitted : ∀ g d e, read { g with emittedDemands := d, emittedEdges := e } = read g) (g : GraphWindow)
    (th : DeltaThresholds) : read (g.takeDelta th).2 = read g :=
  (hemitted _ _ _).trans ((read_edges read hdemands hedges _).trans (read_demands read hdemands g))

end Kept

theorem Sane.demands_takeDelta (h : g.Sane) (th : DeltaThresholds) : (g.takeDelta th).2.demands.1 = g.demands.1 := by
  rw [(h.takeDelta th).cached.demands.demands.1, h.cached.demands.demands.1]
  exact read_takeDelta computeDemands (fun _ _ => rfl) (fun _ _ => rfl) (fun _ _ _ => rfl) g th

theorem Sane.edges_takeDelta (h : g.Sane) (th : DeltaThresholds) : (g.takeDelta th).2.edges.1 = g.demands.2.edges.1 := by
  rw [(h.takeDelta th).cached.edges_eq, h.demands.cached.edges_eq]
  refine (read_takeDelta (fun g => g.computeEdges g.computeDemands) (fun _ _ => rfl) (fun _ _ => rfl) (fun _ _ _ => rfl) g
    th).trans ?_
  exact (read_demands (fun g => g.computeEdges g.computeDemands) (fun _ _ => rfl) g).symm

theorem Sane.nodup_demands (h : g.Sane) : (g.demands.1.map (·.identity.tid)).Nodup := by
  rw [h.cached.demands.demands.1]
  exact nodup_computeDemands h.keyed

end GraphWindow

/-- A window and the deltas taken from it, the first one first. -/
structure Feed where
  window : GraphWindow
  deltas : List GraphDelta := []

namespace Feed

open GraphWindow

def step (w : Feed) (e : GraphWindow.Event) : Option Feed :=
  (w.window.step e).map (fun g =>
    { window := g
      deltas := match e with
        | .takeDelta th => w.deltas ++ [(w.window.takeDelta th).1]
        | _ => w.deltas })

/-- What one knows who has applied all deltas to nothing. -/
def followed (w : Feed) : Followed := w.deltas.foldl Followed.apply {}

/-- Every delta is taken with these thresholds. -/
def Uses (th : DeltaThresholds) : GraphWindow.Event → Prop
  | .takeDelta th' => th' = th
  | _ => True

/-- The follower has what was emitted. -/
structure InStep (w : Feed) : Prop where
  sane : w.window.Sane
  keyed : w.window.EmittedKeyed
  followed : w.followed = w.window.emitted

variable {w w' : Feed} {th : DeltaThresholds} {e : GraphWindow.Event}

theorem InStep.step (h : w.InStep) (hth : 0 < th.demand) (he : Uses th e) (hstep : w.step e = some w') : w'.InStep := by
  obtain ⟨g, hg, rfl⟩ := Option.map_eq_some_iff.1 hstep
  obtain ⟨g', hg', hsane⟩ := h.sane.step e
  rw [hg] at hg'
  cases hg'
  by_cases htake : ∃ th', e = .takeDelta th'
  · obtain ⟨th', rfl⟩ := htake
    cases he
    cases hg
    refine ⟨hsane, (takeDelta_threads h.keyed hth h.sane.nodup_demands).2.1, ?_⟩
    show (w.deltas ++ [_]).foldl Followed.apply {} = _
    rw [List.foldl_append, ← takeDelta_apply, ← h.followed]
    rfl
  · have hno : ∀ th', e ≠ .takeDelta th' := fun th' heq => htake ⟨th', heq⟩
    have hemitted := emitted_step h.sane hg hno
    have hdemands : g.emittedDemands = w.window.emittedDemands := congrArg Followed.threads hemitted
    refine ⟨hsane, fun t d hd => h.keyed t d (hdemands ▸ hd), ?_⟩
    show _ = g.emitted
    rw [hemitted, ← h.followed]
    unfold Feed.followed
    cases e with
    | takeDelta th' => exact absurd rfl (hno th')
    | _ => rfl

variable {horizonSeconds : Nat} {calibration : Calibration} {libm : Libm}

theorem inStep_of_run {run : List GraphWindow.Event} (hall : ∀ e ∈ run, Uses th e) (hth : 0 < th.demand)
    (hrun : Run.exec step { window := new horizonSeconds calibration libm } run = some w) : w.InStep := by
  have hobeys : Run.Obeys step (fun _ e => Uses th e) { window := new horizonSeconds calibration libm } run :=
    Run.Obeys.of_mem (fun _ _ he => he) _ hall
  refine hobeys.invariant InStep (fun _ _ _ h he hstep => h.step hth he hstep) ⟨sane_new, fun t d hd => ?_, rfl⟩ hrun
  cases hd

/-- **The deltas tell the window.**  After any calls in which every delta is taken with the same positive thresholds, and a
delta at the end: the followed threads are those of `demands`, each with its identity and group and less than the threshold
from its demand, and the followed edges are those of `edges`, each less than the absolute threshold from its score and, in
parts of what it was sent with or of 1e-9 if that is more, less than the relative one. -/
theorem follows {run : List GraphWindow.Event} (hall : ∀ e ∈ run, Uses th e) (hth : 0 < th.demand)
    (habs : 0 < th.edgeAbsolute) (hrel : 0 < th.edgeRelative)
    (hrun : Run.exec step { window := new horizonSeconds calibration libm } (run ++ [.takeDelta th]) = some w) :
    ((∀ t, t ∈ w.followed.threads ↔ ∃ d ∈ w.window.demands.1, d.identity.tid = t) ∧
      ∀ d ∈ w.window.demands.1, ∃ f, w.followed.threads.find? d.identity.tid = some f ∧ f.identity = d.identity ∧
        f.group = d.group ∧ |f.demand - d.demand| < th.demand) ∧
    (∀ k, k ∈ w.followed.edges ↔ ∃ e ∈ w.window.edges.1, e.key = k) ∧
      ∀ e ∈ w.window.edges.1, ∃ f, w.followed.edges.find? e.key = some f ∧ |e.score - f.score| < th.edgeAbsolute ∧
        |e.score - f.score| / max |f.score| (1 / 10 ^ 9) < th.edgeRelative := by
  obtain ⟨v, hv, hstep⟩ := Run.exec_concat hrun
  have hin := inStep_of_run hall hth hv
  have hafter := hin.step hth (e := .takeDelta th) rfl hstep
  obtain ⟨g, hg, rfl⟩ := Option.map_eq_some_iff.1 hstep
  cases hg
  rw [hafter.followed, hin.sane.demands_takeDelta, hin.sane.edges_takeDelta]
  obtain ⟨hmem, -, hclose⟩ := takeDelta_threads hin.keyed hth hin.sane.nodup_demands
  exact ⟨⟨hmem, hclose⟩, takeDelta_edges habs hrel hin.sane.demands.nodup_edges⟩

/-! ### Two threads and a weak relation -/

/-- `log1p` and `sqrt` as libm's double versions answer what `twoSamples` asks of them. -/
def libmOnce : Libm where
  log1p := fun x => if x = 1 then 6243314768165359 / 9007199254740992 else x
  sqrt := fun x => x

def thresholdsOnce : DeltaThresholds := ⟨1 / 20, 1, 1 / 10⟩

def sampleOnce (tid : Tid) (seconds : Nat) : ThreadSample where
  identity := ⟨1, tid, 1⟩
  timestampNs := seconds * 10 ^ 9
  runtimeNs := seconds * 10 ^ 9

def weakOnce : RelationObservation where
  fromTid := 1
  toTid := 2
  timestampNs := 2 * 10 ^ 9
  futexPerSecond := 1 / 2 ^ 60

/-- Two busy threads are sampled twice and seen once in a relation. -/
def seenOnce : List GraphWindow.Event :=
  [.observeThreads [sampleOnce 1 1, sampleOnce 2 1], .observeThreads [sampleOnce 1 2, sampleOnce 2 2], .observeRelation weakOnce]

/-- The relation is seen again after a delta. -/
def seenTwice : List GraphWindow.Event := seenOnce ++ [.takeDelta thresholdsOnce, .observeRelation weakOnce]

theorem follows_seenTwice : ∃ w, Run.exec step { window := new 60 { activityLogP95 := 1 / 2 } libmOnce }
    (seenTwice ++ [.takeDelta thresholdsOnce]) = some w ∧ w.window.demands.1.length = 2 ∧ w.window.edges.1.length = 1 ∧
    ∀ e ∈ w.window.edges.1, ∃ f, w.followed.edges.find? e.key = some f ∧ |e.score - f.score| < 1 ∧
      |e.score - f.score| / max |f.score| (1 / 10 ^ 9) < 1 / 10 := by
  have h : (Run.exec step { window := new 60 { activityLogP95 := 1 / 2 } libmOnce }
      (seenTwice ++ [.takeDelta thresholdsOnce])).any (fun w =>
        decide (w.window.demands.1.length = 2 ∧ w.window.edges.1.length = 1)) = true := by decide +kernel
  obtain ⟨w, hw, h⟩ := (Option.any_eq_true _ _).1 h
  obtain ⟨hthreads, hedges⟩ := of_decide_eq_true h
  have hall : ∀ e ∈ seenTwice, Uses thresholdsOnce e := by simp [seenTwice, seenOnce, Uses]
  have hpos : 0 < thresholdsOnce.demand ∧ 0 < thresholdsOnce.edgeAbsolute ∧ 0 < thresholdsOnce.edgeRelative := by decide +kernel
  exact ⟨w, hw, hthreads, hedges, (follows hall hpos.1 hpos.2.1 hpos.2.2 hw).2.2⟩

/-- **A weak edge may double unseen**: relative to what was sent, its score has moved by all of it, which is ten times the
threshold, but both are far below 1e-9. -/
theorem weak_edge_doubles : ∃ w, Run.exec step { window := new 60 { activityLogP95 := 1 / 2 } libmOnce }
    (seenTwice ++ [.takeDelta thresholdsOnce]) = some w ∧ ∃ e ∈ w.window.edges.1, ∃ f, w.followed.edges.find? e.key = some f ∧
      f.score ≠ 0 ∧ ¬ |e.score - f.score| / |f.score| < thresholdsOnce.edgeRelative := by
  have h : (Run.exec step { window := new 60 { activityLogP95 := 1 / 2 } libmOnce }
      (seenTwice ++ [.takeDelta thresholdsOnce])).any (fun w => w.window.edges.1.any (fun e =>
        (w.followed.edges.find? e.key).any (fun f =>
          decide (f.score ≠ 0 ∧ ¬ |e.score - f.score| / |f.score| < thresholdsOnce.edgeRelative)))) = true := by decide +kernel
  obtain ⟨w, hw, h⟩ := (Option.any_eq_true _ _).1 h
  obtain ⟨e, he, h⟩ := List.any_eq_true.1 h
  obtain ⟨f, hf, h⟩ := (Option.any_eq_true _ _).1 h
  exact ⟨w, hw, e, he, f, hf, of_decide_eq_true h⟩

end Feed
end AffinityGraph
