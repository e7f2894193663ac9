import AffinityGraph.Solve
/-!
# SampledMasks — what a window tells the solver of the threads just sampled

`maybe_solve` reads every thread's demand and its allowed mask off the last sample in its history.  For a thread sampled
in the same turn that mask is its kernel mask at that moment (`windowInput_allowed`), whoever set it.
-/
namespace AffinityGraph
namespace GraphWindow

/-- Every history is non-empty and filed under its own TID. -/
def WellKeyed (g : GraphWindow) : Prop := ∀ t h, g.threads.find? t = some h → h ≠ [] ∧ ∀ s ∈ h, s.identity.tid = t

theorem wellKeyed_observeSample {g : GraphWindow} (hg : WellKeyed g) (s : ThreadSample) :
    WellKeyed (g.observeSample s) := by
  intro t h hf
  obtain ⟨hist, hhist, he⟩ := threads_observeSample g s
  rw [he, OrdMap.find?_insert] at hf
  split at hf
  · rename_i ht
    cases hf
    refine ⟨by simp, fun x hx => ?_⟩
    rcases List.mem_append.1 hx with hx | hx
    · rcases hhist with rfl | rfl
      · cases hx
      · cases hold : g.threads.find? s.identity.tid with
        | none =>
          rw [OrdMap.getD, hold] at hx
          cases hx
        | some old =>
          rw [OrdMap.getD, hold] at hx
          rw [← ht]
          exact (hg _ old hold).2 x hx
    · rw [List.mem_singleton.1 hx]
      exact ht
  · exact hg t h hf

/-- What is left of a history after aging. -/
theorem find?_agedThreads {threads : OrdMap Tid (List ThreadSample)} {cut : Nat} {t : Tid} {h : List ThreadSample}
    (hf : (agedThreads threads cut).find? t = some h) :
    h ≠ [] ∧ ∃ old, threads.find? t = some old ∧ h <:+ old := by
  rw [agedThreads, OrdMap.find?_filter, OrdMap.find?_mapVal] at hf
  cases ho : threads.find? t with
  | none => simp [ho] at hf
  | some old =>
    rw [ho] at hf
    obtain ⟨heq, hkeep⟩ := Option.filter_eq_some_iff.1 hf
    cases heq
    refine ⟨fun hnil => ?_, old, rfl, List.dropWhile_suffix _⟩
    rw [hnil] at hkeep
    cases hkeep

theorem wellKeyed_observeThreads {g : GraphWindow} (hg : WellKeyed g) (samples : List ThreadSample) :
    WellKeyed (g.observeThreads samples) := by
  have hloop : WellKeyed (samples.foldl observeSample { g with demandCache := none, edgeCache := none }) :=
    Loop.foldl_keeps WellKeyed (fun g s h => wellKeyed_observeSample h s) samples hg
  intro t h hf
  obtain ⟨hne, old, hold, hsuf⟩ := find?_agedThreads hf
  exact ⟨hne, fun s hs => (hloop t old hold).2 s (hsuf.subset hs)⟩

/-- New samples make the cached demands void. -/
theorem demandCache_observeThreads (g : GraphWindow) (samples : List ThreadSample) :
    (g.observeThreads samples).demandCache = none := by
  have hbody : ∀ (g : GraphWindow) (s : ThreadSample), g.demandCache = none → (g.observeSample s).demandCache = none := by
    intro g s hg
    unfold observeSample
    dsimp only
    split
    · split
      · exact hg
      · exact hg
    · exact hg
  exact Loop.foldl_keeps (fun g : GraphWindow => g.demandCache = none) hbody samples rfl

theorem observeSample_local :
    Loop.Local (fun (g : GraphWindow) u => g.threads.find? u) (fun s : ThreadSample => s.identity.tid) observeSample := by
  intro g s u hu
  obtain ⟨hist, -, he⟩ := threads_observeSample g s
  dsimp only
  rw [he]
  exact OrdMap.find?_insert_ne _ _ hu

/-- **The last sample of a thread is the one just taken.** -/
theorem last_of_sampled {g : GraphWindow} {samples : List ThreadSample} (hn : (samples.map (·.identity.tid)).Nodup)
    {s : ThreadSample} (hs : s ∈ samples) {h : List ThreadSample}
    (hf : (g.observeThreads samples).threads.find? s.identity.tid = some h) : h.getLast? = some s := by
  obtain ⟨hne, old, hold, ⟨pre, hpre⟩⟩ := find?_agedThreads hf
  obtain ⟨before, after, -, -, hat⟩ := observeSample_local.foldl_at hn hs { g with demandCache := none, edgeCache := none }
  obtain ⟨hist, -, he⟩ := threads_observeSample
    (before.foldl observeSample { g with demandCache := none, edgeCache := none }) s
  have hfind : old = hist ++ [s] := by
    have hput := hold.symm.trans hat
    rw [he, OrdMap.find?_insert_self] at hput
    exact Option.some.inj hput
  have hlast : (pre ++ h).getLast? = some s := by
    rw [hpre, hfind]
    simp
  rw [List.getLast?_append_of_ne_nil _ hne] at hlast
  exact hlast

/-! ## Demands and records -/

theorem filterMap_keys_sublist {α β κ : Type} (f : κ × β → Option α) (key : α → κ) :
    ∀ (l : List (κ × β)), (∀ e ∈ l, ∀ a, f e = some a → key a = e.1) →
      ((l.filterMap f).map key).Sublist (l.map Prod.fst)
  | [], _ => List.Sublist.refl _
  | e :: l, h => by
    have hrest := filterMap_keys_sublist f key l (fun x hx => h x (List.mem_cons_of_mem _ hx))
    rw [List.filterMap_cons, List.map_cons]
    cases hf : f e with
    | none => exact hrest.cons _
    | some a =>
      rw [List.map_cons, h e List.mem_cons_self a hf]
      exact hrest.cons_cons _

variable {g : GraphWindow}

theorem demandOf_tid (hg : WellKeyed g) {e : Tid × List ThreadSample} (he : e ∈ g.threads.entries) {d : ThreadDemand}
    (h : demandOf g e.2 = some d) : d.identity.tid = e.1 := by
  obtain ⟨last, hlast, rfl⟩ := Option.map_eq_some_iff.1 h
  exact (hg e.1 e.2 (OrdMap.mem_entries.1 he)).2 last (List.mem_of_getLast? hlast)

theorem nodup_computeDemands (hg : WellKeyed g) : (g.computeDemands.map (·.identity.tid)).Nodup := by
  have hsub := filterMap_keys_sublist (fun e => demandOf g e.2) (fun d => d.identity.tid) g.threads.entries
    (fun e he d hd => demandOf_tid hg he hd)
  have hperm := (List.perm_insertionSort (fun a b : ThreadDemand => a.identity.tid ≤ b.identity.tid)
    (g.threads.entries.filterMap (fun e => demandOf g e.2))).map (fun d : ThreadDemand => d.identity.tid)
  exact hperm.nodup_iff.2 (g.threads.nodup_keys.sublist hsub)

/-- The threads with a demand are those of the window. -/
theorem mem_computeDemands (hg : WellKeyed g) {t : Tid} :
    t ∈ g.computeDemands.map (·.identity.tid) ↔ t ∈ g.threads := by
  unfold computeDemands
  simp only [List.mem_map, List.mem_insertionSort, List.mem_filterMap]
  constructor
  · rintro ⟨d, ⟨e, he, hd⟩, rfl⟩
    rw [demandOf_tid hg he hd]
    exact OrdMap.mem_of_find (OrdMap.mem_entries.1 he)
  · intro ht
    obtain ⟨h, hh⟩ := OrdMap.mem_iff.1 ht
    obtain ⟨hne, -⟩ := hg t h hh
    obtain ⟨d, hd⟩ : ∃ d, demandOf g h = some d := by
      unfold demandOf
      rw [List.getLast?_eq_some_getLast hne]
      exact ⟨_, rfl⟩
    exact ⟨d, ⟨(t, h), OrdMap.mem_entries.2 hh, hd⟩, demandOf_tid hg (OrdMap.mem_entries.2 hh) hd⟩

theorem recordOf_last (hg : WellKeyed g) {ds : List ThreadDemand} {e : Tid × List ThreadSample}
    (he : e ∈ g.threads.entries) {record : ThreadWindowRecord} (h : recordOf ds e.1 e.2 = some record) :
    record.identity.tid = e.1 ∧ ∃ last, e.2.getLast? = some last ∧ record.allowedCpus = last.allowedCpus := by
  unfold recordOf at h
  split at h
  · rename_i first last d hfirst hlast hd
    cases h
    exact ⟨(hg e.1 e.2 (OrdMap.mem_entries.1 he)).2 last (List.mem_of_getLast? hlast), last, hlast, rfl⟩
  · cases h

/-! ## The cache -/

/-- Cached demands are those the samples give. -/
def Current (g : GraphWindow) : Prop := ∀ ds, g.demandCache = some ds → ds = g.computeDemands

theorem Current.demands (h : g.Current) : g.demands.1 = g.computeDemands ∧ g.demands.2.Current := by
  unfold GraphWindow.demands
  cases hc : g.demandCache with
  | some ds => exact ⟨h ds hc, h⟩
  | none => exact ⟨rfl, fun ds hds => (Option.some.inj hds).symm⟩

theorem Current.edges (h : g.Current) : g.edges.2.Current := by
  unfold GraphWindow.edges
  split
  · exact h
  · exact h.demands.2

theorem current_observeThreads (g : GraphWindow) (samples : List ThreadSample) : (g.observeThreads samples).Current := by
  intro ds hds
  rw [demandCache_observeThreads] at hds
  cases hds

/-- A relation is no sample. -/
theorem Current.observeRelation (h : g.Current) (o : RelationObservation) : (g.observeRelation o).Current := by
  unfold GraphWindow.observeRelation
  split
  · exact h
  · exact h

theorem Current.retainRelations (h : g.Current) (relations : OrdSet EdgeKey) : (g.retainRelations relations).Current := by
  unfold GraphWindow.retainRelations
  dsimp only
  split
  · exact h
  · exact h

end GraphWindow

namespace Runtime

variable {r : Runtime} {now : Nat}

theorem windowInput_threads (hc : r.graph.demandCache = none) :
    (r.windowInput now).1.threads = r.graph.computeDemands := by
  unfold windowInput GraphWindow.demands
  rw [hc]

theorem windowInput_graph : (r.windowInput now).2.threads = r.graph.threads := by
  have hdemands : ∀ g : GraphWindow, g.demands.2.threads = g.threads := by
    intro g
    unfold GraphWindow.demands
    split <;> rfl
  have hedges : ∀ g : GraphWindow, g.edges.2.threads = g.threads := by
    intro g
    unfold GraphWindow.edges
    split
    · rfl
    · exact hdemands g
  unfold windowInput
  dsimp only
  rw [hedges]
  unfold GraphWindow.threadRecords
  rw [hdemands, hdemands]

/-- The records are those of the window's threads, with the demands just computed. -/
theorem windowInput_allowedMasks (hc : r.graph.demandCache = none) : (r.windowInput now).1.allowedMasks =
    ((r.graph.threads.entries.filterMap (fun e => GraphWindow.recordOf r.graph.computeDemands e.1 e.2)).insertionSort
      (fun a b => a.identity.tid ≤ b.identity.tid)).foldl
      (fun m record => m.insert record.identity.tid record.allowedCpus) ∅ := by
  unfold windowInput GraphWindow.threadRecords GraphWindow.demands
  rw [hc]

/-- **The allowed mask of a thread is that of its last sample.** -/
theorem windowInput_allowed (hg : r.graph.WellKeyed) (hc : r.graph.demandCache = none) {t : Tid}
    {h : List ThreadSample} (hf : r.graph.threads.find? t = some h) {last : ThreadSample}
    (hlast : h.getLast? = some last) : (r.windowInput now).1.allowedMasks.find? t = some last.allowedCpus := by
  rw [windowInput_allowedMasks hc]
  have hentry : (t, h) ∈ r.graph.threads.entries := OrdMap.mem_entries.2 hf
  obtain ⟨record, hrecord⟩ : ∃ record, GraphWindow.recordOf r.graph.computeDemands t h = some record := by
    obtain ⟨d, hd, hdt⟩ := List.mem_map.1 ((GraphWindow.mem_computeDemands hg).2 (OrdMap.mem_of_find hf))
    obtain ⟨x, hx⟩ : ∃ x, r.graph.computeDemands.find? (fun d => decide (d.identity.tid = t)) = some x :=
      Option.isSome_iff_exists.1 (List.find?_isSome.2 ⟨d, hd, by simpa using hdt⟩)
    obtain ⟨first, hfirst⟩ : ∃ first, h.head? = some first := ⟨_, List.head?_eq_some_head (hg t h hf).1⟩
    unfold GraphWindow.recordOf
    rw [hfirst, hlast, hx]
    exact ⟨_, rfl⟩
  have hin : record ∈ (r.graph.threads.entries.filterMap
      (fun e => GraphWindow.recordOf r.graph.computeDemands e.1 e.2)).insertionSort
      (fun a b => a.identity.tid ≤ b.identity.tid) :=
    (List.mem_insertionSort _).2 (List.mem_filterMap.2 ⟨(t, h), hentry, hrecord⟩)
  have htid : record.identity.tid = t := (GraphWindow.recordOf_last hg hentry hrecord).1
  have hmem := OrdMap.mem_foldl_insert (fun record : ThreadWindowRecord => record.identity.tid) (·.allowedCpus) _ ∅ hin
  rw [htid] at hmem
  obtain ⟨v, hv⟩ := OrdMap.mem_iff.1 hmem
  -- whatever record the mask is from, it is of this TID, so of this history
  rcases OrdMap.find?_foldl_insert (fun record : ThreadWindowRecord => record.identity.tid) (·.allowedCpus) _ _ hv
    with ⟨x, hx, hxt, hxv⟩ | hnone
  · obtain ⟨e, he, hxe⟩ := List.mem_filterMap.1 ((List.mem_insertionSort _).1 hx)
    obtain ⟨htid', last', hlast', hcpus⟩ := GraphWindow.recordOf_last hg he hxe
    have hfind := OrdMap.mem_entries.1 (show (e.1, e.2) ∈ r.graph.threads.entries from he)
    rw [← htid', hxt, hf] at hfind
    rw [← Option.some.inj hfind, hlast] at hlast'
    rw [hv, ← hxv, hcpus, Option.some.inj hlast']
  · cases hnone

end Runtime
end AffinityGraph
