import AffinityGraph.SampledMasks
import Mathlib.Tactic.Ring
/-!
# RelationWindow — what the graph keeps of the relations it was told (`graph.cpp`)

`Ledger` is the window's history as it should be remembered: the newest sample, the last sample of every TID, and the
relation observations that were accepted, less those of a TID that was sampled under another start time since.  `Faithful`
says that the window still has all of that within its horizon, and that its running sums are the sums of its histories.
Samples and observations keep it; `retain_relations` keeps it when it retains every pair that has something standing.
-/
namespace AffinityGraph

/-! ## The sums of a history -/

namespace RelationAggregate

/-- The aggregate of a pair's history. -/
def ofHistory (key : EdgeKey) (l : List RelationObservation) : RelationAggregate where
  count := l.length
  forwardSync := ((l.filter (fun o => decide (o.fromTid = (ofLex key).1))).map (·.futexPerSecond)).sum
  reverseSync := ((l.filter (fun o => !decide (o.fromTid = (ofLex key).1))).map (·.futexPerSecond)).sum
  handoff := (l.map (·.futexPerSecond)).sum
  share := (l.map (·.sharedVfsSeconds)).sum
  overlap := (l.map (·.activeOverlap)).sum
  total := (l.map totalOf).sum
  totalSquared := (l.map (fun o => totalOf o * totalOf o)).sum

variable (key : EdgeKey) (l : List RelationObservation) (o : RelationObservation)

/-- An observation is added at the end of the history. -/
theorem add_ofHistory : (ofHistory key l).add key o = ofHistory key (l ++ [o]) := by
  unfold add ofHistory
  by_cases h : o.fromTid = (ofLex key).1
  · simp [h]
  · simp [h]

/-- It is dropped from its front. -/
theorem drop_ofHistory : (ofHistory key (o :: l)).drop key o = ofHistory key l := by
  unfold drop ofHistory
  by_cases h : o.fromTid = (ofLex key).1
  · simp [h]
  · simp [h]

theorem foldl_drop_ofHistory : ∀ (old rest : List RelationObservation),
    old.foldl (fun a o => a.drop key o) (ofHistory key (old ++ rest)) = ofHistory key rest
  | [], _ => rfl
  | o :: old, rest => by
    rw [List.foldl_cons, List.cons_append, drop_ofHistory]
    exact foldl_drop_ofHistory old rest

end RelationAggregate

namespace GraphWindow

open AffinityGraph.RelationAggregate (ofHistory)

variable {g : GraphWindow}

/-- Every pair with a history has its sums, and no other pair has any. -/
structure Summed (g : GraphWindow) : Prop where
  sums : ∀ k, g.relationAggregates.find? k = (g.relationHistories.find? k).map (ofHistory k)
  filled : ∀ k h, g.relationHistories.find? k = some h → h ≠ []

theorem Summed.mem_iff (h : g.Summed) {k : EdgeKey} : k ∈ g.relationAggregates ↔ k ∈ g.relationHistories := by
  rw [OrdMap.mem_def, OrdMap.mem_def, h.sums, Option.isSome_map]

theorem Summed.observeRelation (h : g.Summed) (o : RelationObservation) : (g.observeRelation o).Summed := by
  unfold GraphWindow.observeRelation
  split
  · exact h
  · refine ⟨fun k => ?_, fun k hist hf => ?_⟩
    · show (g.relationAggregates.update _ _ _).find? k = ((g.relationHistories.update _ _ _).find? k).map (ofHistory k)
      unfold OrdMap.update
      rw [OrdMap.find?_insert, OrdMap.find?_insert]
      split
      · rename_i hk
        subst hk
        unfold OrdMap.getD
        rw [h.sums]
        cases g.relationHistories.find? (edgeKey o.fromTid o.toTid) with
        | none => exact congrArg some (RelationAggregate.add_ofHistory _ [] o)
        | some hist => exact congrArg some (RelationAggregate.add_ofHistory _ hist o)
      · exact h.sums k
    · have hput : (g.relationHistories.insert (edgeKey o.fromTid o.toTid)
          (g.relationHistories.getD (edgeKey o.fromTid o.toTid) [] ++ [o])).find? k = some hist := hf
      rw [OrdMap.find?_insert] at hput
      split at hput
      · cases hput
        simp
      · exact h.filled k hist hput

/-- A filter over the pairs keeps histories and sums alike. -/
theorem Summed.keepRelations (h : g.Summed) (keep : EdgeKey → Bool) : (g.keepRelations keep).Summed := by
  refine ⟨fun k => ?_, fun k hist hf => ?_⟩
  · show (g.relationAggregates.filter _).find? k = ((g.relationHistories.filter _).find? k).map (ofHistory k)
    rw [OrdMap.find?_filter, OrdMap.find?_filter, h.sums]
    cases hh : g.relationHistories.find? k with
    | none => rfl
    | some hist =>
      have hmem : k ∈ g.relationHistories := OrdMap.mem_of_find hh
      cases hk : keep k <;> simp [Option.filter, hmem]
  · have hin : (g.relationHistories.filter (fun k _ => keep k)).find? k = some hist := hf
    rw [OrdMap.find?_filter] at hin
    exact h.filled k hist (Option.filter_eq_some_iff.1 hin).1

theorem expired_self (cut : Nat) (l : List RelationObservation) : expired cut (expired cut l ++ agedHistory cut l) = expired cut l := by
  unfold expired agedHistory
  rw [List.takeWhile_append_dropWhile]

/-- The loop of the aging touches each pair once. -/
theorem ageAggregates_local (cut : Nat) :
    Loop.Local (fun (m : OrdMap EdgeKey RelationAggregate) k => m.find? k)
      (fun e : EdgeKey × List RelationObservation => e.1)
      (fun m e => m.insert e.1 ((expired cut e.2).foldl (fun a o => a.drop e.1 o) (m.getD e.1 {}))) := by
  intro m e k hk
  exact OrdMap.find?_insert_ne _ _ hk

theorem find?_ageAggregates (h : g.Summed) (cut : Nat) {k : EdgeKey} {hist : List RelationObservation}
    (hf : g.relationHistories.find? k = some hist) :
    (g.relationHistories.entries.foldl (fun (m : OrdMap EdgeKey RelationAggregate) e =>
      m.insert e.1 ((expired cut e.2).foldl (fun a o => a.drop e.1 o) (m.getD e.1 {}))) g.relationAggregates).find? k =
      some (ofHistory k (agedHistory cut hist)) := by
  obtain ⟨pre, post, -, hpre, hat⟩ := (ageAggregates_local cut).foldl_at (i := (k, hist)) g.relationHistories.nodup_keys
    (OrdMap.mem_entries.2 hf) g.relationAggregates
  rw [hat, OrdMap.find?_insert_self]
  have hsum : g.relationAggregates.find? k = some (ofHistory k hist) := by
    rw [h.sums, hf]
    rfl
  rw [OrdMap.getD, hpre, hsum]
  have hsplit : hist = expired cut hist ++ agedHistory cut hist := (List.takeWhile_append_dropWhile).symm
  show some ((expired cut hist).foldl (fun a o => a.drop k o) (ofHistory k hist)) = _
  conv_lhs => rw [hsplit]
  rw [expired_self, RelationAggregate.foldl_drop_ofHistory]

theorem Summed.ageRelations (h : g.Summed) (cut : Nat) : (g.ageRelations cut).Summed := by
  have hhist : ∀ k, (g.ageRelations cut).relationHistories.find? k =
      ((g.relationHistories.find? k).map (agedHistory cut)).filter (fun h => !h.isEmpty) := by
    intro k
    show ((g.relationHistories.mapVal (fun _ h => agedHistory cut h)).filter (fun _ h => !h.isEmpty)).find? k = _
    rw [OrdMap.find?_filter, OrdMap.find?_mapVal]
  refine ⟨fun k => ?_, fun k hist hf => ?_⟩
  · rw [hhist]
    show (OrdMap.filter _ _).find? k = _
    rw [OrdMap.find?_filter]
    cases hf : g.relationHistories.find? k with
    | none =>
      have hkeys : ∀ e ∈ g.relationHistories.entries, e.1 ≠ k := by
        intro e he hek
        have hin := OrdMap.mem_entries.1 (show (e.1, e.2) ∈ g.relationHistories.entries from he)
        rw [hek, hf] at hin
        cases hin
      rw [(ageAggregates_local cut).foldl_notMem hkeys, h.sums, hf]
      rfl
    | some hist =>
      have haged : (g.relationHistories.mapVal (fun _ h => agedHistory cut h)).find? k = some (agedHistory cut hist) := by
        rw [OrdMap.find?_mapVal, hf]
        rfl
      have hmem : k ∈ g.relationHistories.mapVal (fun _ h => agedHistory cut h) := OrdMap.mem_of_find haged
      rw [find?_ageAggregates h cut hf, OrdMap.getD, haged]
      by_cases hnil : agedHistory cut hist = []
      · simp [Option.filter, hnil, hmem]
      · simp [Option.filter, hnil]
  · rw [hhist] at hf
    have hne := (Option.filter_eq_some_iff.1 hf).2
    intro hnil
    rw [hnil] at hne
    cases hne

/-! ## The caches -/

/-- What `demands` and `edges` have cached is what they would compute. -/
structure Cached (g : GraphWindow) : Prop where
  demands : g.Current
  edges : ∀ es, g.edgeCache = some es → es = g.computeEdges g.computeDemands

theorem Cached.edges_eq (h : g.Cached) : g.edges.1 = g.computeEdges g.computeDemands := by
  unfold GraphWindow.edges
  cases hc : g.edgeCache with
  | some es => exact h.edges es hc
  | none =>
    show g.computeEdges g.demands.1 = _
    rw [h.demands.demands.1]

theorem Cached.read (h : g.Cached) : g.edges.2.Cached := by
  refine ⟨h.demands.edges, fun es hes => ?_⟩
  unfold GraphWindow.edges at hes ⊢
  cases hc : g.edgeCache with
  | some es' =>
    rw [hc] at hes
    exact h.edges es hes
  | none =>
    rw [hc] at hes
    have hes' : g.computeEdges g.demands.1 = es := Option.some.inj hes
    rw [← hes', h.demands.demands.1]
    unfold GraphWindow.demands
    cases g.demandCache <;> rfl

theorem cached_of_none (hd : g.demandCache = none) (he : g.edgeCache = none) : g.Cached := by
  refine ⟨fun ds hds => ?_, fun es hes => ?_⟩
  · rw [hd] at hds
    cases hds
  · rw [he] at hes
    cases hes

theorem edgeCache_observeThreads (g : GraphWindow) (samples : List ThreadSample) :
    (g.observeThreads samples).edgeCache = none := by
  have hbody : ∀ (g : GraphWindow) (s : ThreadSample), g.edgeCache = none → (g.observeSample s).edgeCache = none := by
    intro g s hg
    unfold observeSample
    dsimp only
    split
    · split
      · exact hg
      · exact hg
    · exact hg
  exact Loop.foldl_keeps (fun g : GraphWindow => g.edgeCache = none) hbody samples rfl

theorem Cached.observeRelation (h : g.Cached) (o : RelationObservation) : (g.observeRelation o).Cached := by
  refine ⟨h.demands.observeRelation o, fun es hes => ?_⟩
  unfold GraphWindow.observeRelation at hes ⊢
  split
  · rename_i hself
    rw [if_pos hself] at hes
    exact h.edges es hes
  · rename_i hself
    rw [if_neg hself] at hes
    cases hes

theorem Cached.retainRelations (h : g.Cached) (relations : OrdSet EdgeKey) : (g.retainRelations relations).Cached := by
  refine ⟨h.demands.retainRelations relations, fun es hes => ?_⟩
  unfold GraphWindow.retainRelations at hes ⊢
  dsimp only at hes ⊢
  cases hchanged : g.relationHistories.keys.any (fun k => !decide (k ∈ relations)) with
  | true =>
    rw [hchanged] at hes
    cases hes
  | false =>
    rw [hchanged] at hes
    -- nothing is filtered out, so the edges are what they were
    have hsame : (g.keepRelations (fun k => decide (k ∈ relations))).relationAggregates = g.relationAggregates := by
      refine OrdMap.ext_find (fun k => ?_)
      show (g.relationAggregates.filter _).find? k = _
      rw [OrdMap.find?_filter]
      have hkept : (decide (k ∈ relations) || !decide (k ∈ g.relationHistories)) = true := by
        by_cases hk : k ∈ g.relationHistories
        · have hall := List.any_eq_false.1 hchanged k (OrdMap.mem_keys.2 hk)
          simpa using Or.inl (by simpa using hall)
        · simp [hk]
      cases g.relationAggregates.find? k with
      | none => rfl
      | some a => simp [Option.filter, hkept]
    have hedges : (g.keepRelations (fun k => decide (k ∈ relations))).computeEdges
        (g.keepRelations (fun k => decide (k ∈ relations))).computeDemands = g.computeEdges g.computeDemands := by
      unfold computeEdges
      rw [hsame]
      rfl
    have hes' : g.edgeCache = some es := hes
    show es = (g.keepRelations _).computeEdges (g.keepRelations _).computeDemands
    rw [hedges]
    exact h.edges es hes'

end GraphWindow

/-! ## The ledger -/

/-- What the window was told. -/
structure Ledger where
  /-- the newest timestamp of a sample -/
  newest : Nat := 0
  /-- start time and timestamp of the last sample of each TID -/
  last : OrdMap Tid (Nat × Nat) := ∅
  /-- the accepted observations whose threads have been sampled under no other start time since -/
  accepted : List RelationObservation := []

namespace Ledger

/-- The TID was last sampled under another start time. -/
def Reused (L : Ledger) (x : ThreadSample) : Prop :=
  (L.last.find? x.identity.tid).any (fun e => decide (e.1 ≠ x.identity.starttime)) = true

instance (L : Ledger) (x : ThreadSample) : Decidable (L.Reused x) :=
  inferInstanceAs (Decidable ((L.last.find? x.identity.tid).any (fun e => decide (e.1 ≠ x.identity.starttime)) = true))

def keyOf (o : RelationObservation) : EdgeKey := edgeKey o.fromTid o.toTid

def note (L : Ledger) (x : ThreadSample) : Ledger where
  newest := max L.newest x.timestampNs
  last := L.last.insert x.identity.tid (x.identity.starttime, x.timestampNs)
  accepted := if L.Reused x then L.accepted.filter (fun o => !GraphWindow.touches x.identity.tid (keyOf o)) else L.accepted

def accept (L : Ledger) (o : RelationObservation) : Ledger :=
  if o.fromTid = o.toTid then L else { L with accepted := L.accepted ++ [o] }

/-- The accepted observations of a pair that are within the horizon of the newest sample. -/
def standing (L : Ledger) (horizonSeconds : Nat) (k : EdgeKey) : List RelationObservation :=
  L.accepted.filter (fun o => decide (keyOf o = k) && decide (L.newest ≤ o.timestampNs + horizonSeconds * 10 ^ 9))

/-- The TID was last sampled within the horizon of the newest sample. -/
def Recent (L : Ledger) (horizonSeconds : Nat) (t : Tid) : Prop :=
  ∃ e, L.last.find? t = some e ∧ L.newest ≤ e.2 + horizonSeconds * 10 ^ 9

variable {L : Ledger} {horizonSeconds : Nat} {k : EdgeKey}

theorem mem_standing {o : RelationObservation} : o ∈ L.standing horizonSeconds k ↔
    o ∈ L.accepted ∧ keyOf o = k ∧ L.newest ≤ o.timestampNs + horizonSeconds * 10 ^ 9 := by
  unfold standing
  simp

theorem filter_sublist_filter {α : Type} {p q : α → Bool} (h : ∀ x, p x = true → q x = true) (l : List α) :
    (l.filter p).Sublist (l.filter q) := by
  have hboth : l.filter p = (l.filter q).filter p := by
    rw [List.filter_filter]
    refine List.filter_congr (fun x _ => ?_)
    cases hp : p x with
    | false => rfl
    | true => rw [h x hp]; rfl
  rw [hboth]
  exact List.filter_sublist

/-- A sample takes observations off the standing ones and adds none. -/
theorem standing_note (x : ThreadSample) :
    ((L.note x).standing horizonSeconds k).Sublist (L.standing horizonSeconds k) := by
  have hyoung : ∀ l : List RelationObservation, (l.filter (fun o => decide (keyOf o = k) &&
      decide ((L.note x).newest ≤ o.timestampNs + horizonSeconds * 10 ^ 9))).Sublist
      (l.filter (fun o => decide (keyOf o = k) && decide (L.newest ≤ o.timestampNs + horizonSeconds * 10 ^ 9))) := by
    refine filter_sublist_filter (fun o ho => ?_)
    have hlater : L.newest ≤ (L.note x).newest := le_max_left _ _
    simp only [Bool.and_eq_true, decide_eq_true_eq] at ho ⊢
    exact ⟨ho.1, hlater.trans ho.2⟩
  refine (hyoung _).trans (List.Sublist.filter _ ?_)
  unfold note
  dsimp only
  split
  · exact List.filter_sublist
  · exact List.Sublist.refl _

theorem standing_accept {o : RelationObservation} (hne : o.fromTid ≠ o.toTid) :
    (L.accept o).standing horizonSeconds k = L.standing horizonSeconds k ++
      if keyOf o = k ∧ L.newest ≤ o.timestampNs + horizonSeconds * 10 ^ 9 then [o] else [] := by
  unfold accept standing
  rw [if_neg hne, List.filter_append]
  by_cases h : keyOf o = k ∧ L.newest ≤ o.timestampNs + horizonSeconds * 10 ^ 9
  · rw [if_pos h, List.filter_cons, List.filter_nil, if_pos (by simpa using h)]
  · rw [if_neg h, List.filter_cons, List.filter_nil, if_neg (by simpa using h)]

end Ledger

/-! ## Faithful windows -/

open Ledger (keyOf)

/-- The window has what the ledger has, within the horizon. -/
structure Faithful (g : GraphWindow) (L : Ledger) : Prop where
  keyed : g.WellKeyed
  summed : g.Summed
  last : ∀ t h, g.threads.find? t = some h →
    ∃ x, h.getLast? = some x ∧ L.last.find? t = some (x.identity.starttime, x.timestampNs)
  sampled : ∀ t, L.Recent g.horizonSeconds t → t ∈ g.threads
  standing : ∀ k, (L.standing g.horizonSeconds k).Sublist (g.relationHistories.getD k [])

namespace Faithful

variable {g : GraphWindow} {L : Ledger}

theorem observeRelation (h : Faithful g L) (o : RelationObservation) : Faithful (g.observeRelation o) (L.accept o) := by
  by_cases hself : o.fromTid = o.toTid
  · have hg : g.observeRelation o = g := if_pos hself
    have hL : L.accept o = L := if_pos hself
    rw [hg, hL]
    exact h
  · have hsummed := h.summed.observeRelation o
    have hL : (L.accept o).last = L.last ∧ (L.accept o).newest = L.newest := by
      unfold Ledger.accept
      rw [if_neg hself]
      exact ⟨rfl, rfl⟩
    have hg : g.observeRelation o = { g with
        relationHistories := g.relationHistories.update (keyOf o) [] (· ++ [o])
        relationAggregates := g.relationAggregates.update (keyOf o) {} (·.add (keyOf o) o)
        edgeCache := none } := if_neg hself
    rw [hg] at hsummed ⊢
    refine ⟨h.keyed, hsummed, ?_, ?_, fun k => ?_⟩
    · rw [hL.1]
      exact h.last
    · intro t ht
      unfold Ledger.Recent at ht
      rw [hL.1, hL.2] at ht
      exact h.sampled t ht
    · rw [Ledger.standing_accept hself]
      unfold OrdMap.update
      rw [OrdMap.getD_insert]
      by_cases hk : keyOf o = k
      · subst hk
        rw [if_pos rfl]
        refine (h.standing (keyOf o)).append ?_
        split
        · exact List.Sublist.refl _
        · exact List.nil_sublist _
      · rw [if_neg hk, if_neg (fun hc => hk hc.1), List.append_nil]
        exact h.standing k

/-- Retaining every pair that has something standing takes nothing that stands. -/
theorem retainRelations (h : Faithful g L) {relations : OrdSet EdgeKey}
    (hall : ∀ k, L.standing g.horizonSeconds k ≠ [] → k ∈ relations) : Faithful (g.retainRelations relations) L := by
  have hsummed := h.summed.keepRelations (fun k => decide (k ∈ relations))
  have hkept : Faithful (g.keepRelations (fun k => decide (k ∈ relations))) L := by
    refine ⟨h.keyed, hsummed, h.last, h.sampled, fun k => ?_⟩
    by_cases hk : k ∈ relations
    · have hhist : (g.keepRelations (fun k => decide (k ∈ relations))).relationHistories.getD k [] =
          g.relationHistories.getD k [] := by
        show (g.relationHistories.filter _).getD k [] = _
        rw [OrdMap.getD, OrdMap.getD, OrdMap.find?_filter]
        cases g.relationHistories.find? k with
        | none => rfl
        | some hist => simp [Option.filter, hk]
      rw [hhist]
      exact h.standing k
    · have hnone : L.standing g.horizonSeconds k = [] := by
        by_contra hne
        exact hk (hall k hne)
      show (L.standing g.horizonSeconds k).Sublist _
      rw [hnone]
      exact List.nil_sublist _
  unfold GraphWindow.retainRelations
  dsimp only
  split
  · exact ⟨hkept.keyed, ⟨hkept.summed.sums, hkept.summed.filled⟩, hkept.last, hkept.sampled, hkept.standing⟩
  · exact hkept

/-- A pair one of whose threads was sampled under another start time has nothing standing. -/
theorem standing_of_reused {x : ThreadSample} (hx : L.Reused x) {k : EdgeKey}
    (hk : GraphWindow.touches x.identity.tid k = true) (horizonSeconds : Nat) :
    (L.note x).standing horizonSeconds k = [] := by
  refine List.eq_nil_iff_forall_not_mem.2 (fun o ho => ?_)
  obtain ⟨hin, hkey, -⟩ := Ledger.mem_standing.1 ho
  unfold Ledger.note at hin
  rw [if_pos hx] at hin
  have hnot := (List.mem_filter.1 hin).2
  rw [hkey, hk] at hnot
  cases hnot

/-- The window takes a TID for reused only when the ledger does. -/
theorem reused_of_window (h : Faithful g L) {x y : ThreadSample}
    (hy : (g.threads.getD x.identity.tid []).getLast? = some y) (hne : y.identity.starttime ≠ x.identity.starttime) :
    L.Reused x := by
  cases hf : g.threads.find? x.identity.tid with
  | none =>
    rw [OrdMap.getD, hf] at hy
    cases hy
  | some hist =>
    rw [OrdMap.getD, hf] at hy
    obtain ⟨z, hz, hlast⟩ := h.last _ hist hf
    have hzy : z = y := Option.some.inj (hz.symm.trans hy)
    subst hzy
    unfold Ledger.Reused
    rw [hlast]
    exact decide_eq_true hne

theorem observeSample (h : Faithful g L) (x : ThreadSample) : Faithful (g.observeSample x) (L.note x) := by
  obtain ⟨hist, -, hthreads⟩ := GraphWindow.threads_observeSample g x
  have hhorizon : (g.observeSample x).horizonSeconds = g.horizonSeconds := by
    unfold GraphWindow.observeSample
    dsimp only
    split
    · split <;> rfl
    · rfl
  have hsummed : (g.observeSample x).Summed := by
    have hkept := h.summed.keepRelations (fun k => !GraphWindow.touches x.identity.tid k)
    unfold GraphWindow.observeSample
    dsimp only
    split
    · split
      · exact ⟨h.summed.sums, h.summed.filled⟩
      · exact ⟨hkept.sums, hkept.filled⟩
    · exact ⟨h.summed.sums, h.summed.filled⟩
  refine ⟨GraphWindow.wellKeyed_observeSample h.keyed x, hsummed, fun t hist' hf => ?_, fun t ht => ?_, fun k => ?_⟩
  · rw [hthreads, OrdMap.find?_insert] at hf
    show ∃ y, hist'.getLast? = some y ∧ (L.last.insert _ _).find? t = _
    rw [OrdMap.find?_insert]
    split at hf
    · rename_i htid
      cases hf
      exact ⟨x, by simp, if_pos htid⟩
    · rename_i htid
      obtain ⟨y, hy, hlast⟩ := h.last t hist' hf
      exact ⟨y, hy, by rw [if_neg htid]; exact hlast⟩
  · rw [hthreads, OrdMap.mem_insert]
    rw [hhorizon] at ht
    obtain ⟨e, he, hrecent⟩ := ht
    have hlater : L.newest ≤ (L.note x).newest := le_max_left _ _
    have hput : (L.last.insert x.identity.tid (x.identity.starttime, x.timestampNs)).find? t = some e := he
    rw [OrdMap.find?_insert] at hput
    split at hput
    · rename_i htid
      exact Or.inl htid
    · exact Or.inr (h.sampled t ⟨e, hput, hlater.trans hrecent⟩)
  · rw [hhorizon]
    have hold : ((L.note x).standing g.horizonSeconds k).Sublist (g.relationHistories.getD k []) :=
      (Ledger.standing_note x).trans (h.standing k)
    unfold GraphWindow.observeSample
    dsimp only
    split
    · rename_i y hy
      split
      · exact hold
      · rename_i hne
        show ((L.note x).standing g.horizonSeconds k).Sublist
          ((g.relationHistories.filter (fun k _ => !GraphWindow.touches x.identity.tid k)).getD k [])
        cases hk : GraphWindow.touches x.identity.tid k with
        | true =>
          rw [standing_of_reused (h.reused_of_window hy hne) hk]
          exact List.nil_sublist _
        | false =>
          have hkept : (g.relationHistories.filter (fun k _ => !GraphWindow.touches x.identity.tid k)).getD k [] =
              g.relationHistories.getD k [] := by
            rw [OrdMap.getD, OrdMap.getD, OrdMap.find?_filter]
            cases g.relationHistories.find? k with
            | none => rfl
            | some hist => simp [Option.filter, hk]
          rw [hkept]
          exact hold
    · exact hold

/-! ### Aging -/

theorem sublist_dropWhile {α : Type} {p : α → Bool} : ∀ {l l' : List α}, l.Sublist l' → (∀ x ∈ l, p x = false) →
    l.Sublist (l'.dropWhile p)
  | l, [], h, _ => h
  | l, y :: l', h, hp => by
    rw [List.dropWhile_cons]
    cases hy : p y with
    | false => exact h
    | true =>
      rw [if_pos rfl]
      cases h with
      | cons _ h => exact sublist_dropWhile h hp
      | cons_cons _ h =>
        have hno := hp y List.mem_cons_self
        rw [hy] at hno
        cases hno

/-- What is older than the cutoff is not within the horizon. -/
theorem ages (h : Faithful g L) {cut : Nat} (hcut : ∀ ts, L.newest ≤ ts + g.horizonSeconds * 10 ^ 9 → cut ≤ ts) :
    Faithful (GraphWindow.ageRelations { g with threads := GraphWindow.agedThreads g.threads cut } cut) L := by
  have hrest : GraphWindow.Summed { g with threads := GraphWindow.agedThreads g.threads cut } :=
    ⟨h.summed.sums, h.summed.filled⟩
  have hsummed := hrest.ageRelations cut
  refine ⟨fun t hist hf => ?_, hsummed, fun t hist hf => ?_, fun t ht => ?_, fun k => ?_⟩
  · obtain ⟨hne, old, hold, hsuf⟩ := GraphWindow.find?_agedThreads hf
    exact ⟨hne, fun s hs => (h.keyed t old hold).2 s (hsuf.subset hs)⟩
  · obtain ⟨hne, old, hold, ⟨pre, hpre⟩⟩ := GraphWindow.find?_agedThreads hf
    obtain ⟨x, hx, hlast⟩ := h.last t old hold
    rw [← hpre, List.getLast?_append_of_ne_nil _ hne] at hx
    exact ⟨x, hx, hlast⟩
  · obtain ⟨old, hold⟩ := OrdMap.mem_iff.1 (h.sampled t ht)
    obtain ⟨x, hx, hlast⟩ := h.last t old hold
    obtain ⟨e, he, hrecent⟩ := ht
    have hxe : (x.identity.starttime, x.timestampNs) = e := Option.some.inj (hlast.symm.trans he)
    have hyoung : ¬ x.timestampNs < cut := by
      rw [← hxe] at hrecent
      exact Nat.not_lt.2 (hcut _ hrecent)
    have hsome : old.dropWhile (fun s => decide (s.timestampNs < cut)) ≠ [] := by
      intro hnil
      have hall := List.dropWhile_eq_nil_iff.1 hnil x (List.mem_of_getLast? hx)
      exact hyoung (of_decide_eq_true hall)
    show t ∈ GraphWindow.agedThreads g.threads cut
    rw [OrdMap.mem_def, GraphWindow.agedThreads, OrdMap.find?_filter, OrdMap.find?_mapVal, hold]
    simp [Option.filter, hsome]
  · have hdrop : (L.standing g.horizonSeconds k).Sublist
        (GraphWindow.agedHistory cut (g.relationHistories.getD k [])) := by
      refine sublist_dropWhile (h.standing k) (fun o ho => ?_)
      have hyoung := (Ledger.mem_standing.1 ho).2.2
      simpa using hcut _ hyoung
    have hhist : (GraphWindow.ageRelations { g with threads := GraphWindow.agedThreads g.threads cut }
        cut).relationHistories.getD k [] = GraphWindow.agedHistory cut (g.relationHistories.getD k []) := by
      show ((g.relationHistories.mapVal (fun _ h => GraphWindow.agedHistory cut h)).filter (fun _ h => !h.isEmpty)).getD k [] = _
      rw [OrdMap.getD, OrdMap.getD, OrdMap.find?_filter, OrdMap.find?_mapVal]
      cases g.relationHistories.find? k with
      | none => rfl
      | some hist =>
        cases hnil : GraphWindow.agedHistory cut hist with
        | nil => simp [Option.filter, hnil]
        | cons o l => simp [Option.filter, hnil]
    rw [hhist]
    exact hdrop

theorem foldl_observeSample : ∀ (samples : List ThreadSample) {g : GraphWindow} {L : Ledger}, Faithful g L →
    Faithful (samples.foldl GraphWindow.observeSample g) (samples.foldl Ledger.note L)
  | [], _, _, h => h
  | x :: samples, _, _, h => foldl_observeSample samples (h.observeSample x)

theorem newest_foldl_note : ∀ (samples : List ThreadSample) (L : Ledger) (n : Nat), n ≤ L.newest →
    samples.foldl (fun n s => max n s.timestampNs) n ≤ (samples.foldl Ledger.note L).newest
  | [], _, _, h => h
  | x :: samples, L, _, h => newest_foldl_note samples (L.note x) _ (max_le_max h (le_refl _))

theorem horizon_foldl_observeSample (samples : List ThreadSample) (g : GraphWindow) :
    (samples.foldl GraphWindow.observeSample g).horizonSeconds = g.horizonSeconds := by
  refine Loop.foldl_keeps (fun g' : GraphWindow => g'.horizonSeconds = g.horizonSeconds) (fun g' x hg => ?_) samples rfl
  unfold GraphWindow.observeSample
  dsimp only
  split
  · split
    · exact hg
    · exact hg
  · exact hg

/-- **New samples take from the window only what is older than the horizon**, or of a TID that came back. -/
theorem observeThreads (h : Faithful g L) (samples : List ThreadSample) :
    Faithful (g.observeThreads samples) (samples.foldl Ledger.note L) := by
  have hclear : Faithful { g with demandCache := none, edgeCache := none } L :=
    ⟨h.keyed, ⟨h.summed.sums, h.summed.filled⟩, h.last, h.sampled, h.standing⟩
  have hloop := hclear.foldl_observeSample samples
  have hhorizon : (samples.foldl GraphWindow.observeSample { g with demandCache := none, edgeCache := none }).horizonSeconds =
      g.horizonSeconds := horizon_foldl_observeSample samples _
  have hnewest := newest_foldl_note samples L 0 (Nat.zero_le _)
  refine hloop.ages (fun ts hts => ?_)
  rw [hhorizon] at hts
  unfold GraphWindow.cutoff GraphWindow.newest
  split <;> omega

/-! ### Edges -/

theorem exists_demandIn (hg : g.WellKeyed) {t : Tid} (ht : t ∈ g.threads) :
    ∃ d, GraphWindow.demandIn g.computeDemands t = some d := by
  obtain ⟨d, hd, hdt⟩ := List.mem_map.1 ((GraphWindow.mem_computeDemands hg).2 ht)
  have hmem : d ∈ g.computeDemands.filter (fun d => decide (d.identity.tid = t)) :=
    List.mem_filter.2 ⟨hd, decide_eq_true hdt⟩
  unfold GraphWindow.demandIn
  rw [List.getLast?_eq_some_getLast (List.ne_nil_of_mem hmem)]
  exact ⟨_, rfl⟩

end Faithful

/-- The observations are among those an edge of the window sums up. -/
def GraphWindow.Contributes (g : GraphWindow) (k : EdgeKey) (os : List RelationObservation) : Prop :=
  ∃ history d₁ d₂, os.Sublist history ∧
    GraphWindow.edgeOf g k (RelationAggregate.ofHistory k history) d₁ d₂ ∈ g.edges.1

/-- **What stands contributes**: the observations of a pair within the horizon, when both threads were sampled within it,
are part of the sums of the pair's edge. -/
theorem Faithful.contributes {g : GraphWindow} {L : Ledger} (h : Faithful g L) (hc : g.Cached) {k : EdgeKey}
    (hk : L.standing g.horizonSeconds k ≠ []) (h₁ : L.Recent g.horizonSeconds (ofLex k).1)
    (h₂ : L.Recent g.horizonSeconds (ofLex k).2) : g.Contributes k (L.standing g.horizonSeconds k) := by
  have hstands := h.standing k
  obtain ⟨history, hf⟩ : ∃ history, g.relationHistories.find? k = some history := by
    cases hf : g.relationHistories.find? k with
    | some history => exact ⟨history, rfl⟩
    | none =>
      rw [OrdMap.getD, hf] at hstands
      exact absurd (List.sublist_nil.1 hstands) hk
  obtain ⟨d₁, hd₁⟩ := Faithful.exists_demandIn h.keyed (h.sampled _ h₁)
  obtain ⟨d₂, hd₂⟩ := Faithful.exists_demandIn h.keyed (h.sampled _ h₂)
  have hsum : g.relationAggregates.find? k = some (RelationAggregate.ofHistory k history) := by
    rw [h.summed.sums, hf]
    rfl
  have hcount : (RelationAggregate.ofHistory k history).count ≠ 0 := by
    have hne := h.summed.filled k history hf
    simpa [RelationAggregate.ofHistory] using hne
  rw [OrdMap.getD, hf] at hstands
  refine ⟨history, d₁, d₂, hstands, ?_⟩
  rw [hc.edges_eq]
  unfold GraphWindow.computeEdges
  refine List.mem_filterMap.2 ⟨(k, RelationAggregate.ofHistory k history), OrdMap.mem_entries.2 hsum, ?_⟩
  simp only [hd₁, hd₂]
  rw [if_neg hcount]

end AffinityGraph
