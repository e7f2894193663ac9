import AffinityGraph.GraphRuns
/-!
# Isolation — what an edge inherits from an earlier thread of its TIDs

`observe_threads` purges the relations of a TID when the sample it gets and the last one it has differ in their start time.
The histories of the threads and of the pairs age apart from each other, so the last sample can be gone while relations are
not; and `observe_relation` does not compare start times at all.  In a run without these two the edges are computed from
observations of the threads that were sampled last (`Watched.edges_isolated`).
-/
namespace AffinityGraph

namespace GraphWindow

/-! ## Start times -/

/-- The two threads of an observation, with the start times it carries for them. -/
def ends (o : RelationObservation) : List (Tid × Nat) := [(o.fromTid, o.fromStarttime), (o.toTid, o.toStarttime)]

/-- The start time of the newest sample the window has of a TID. -/
def startOf (g : GraphWindow) (t : Tid) : Option Nat := (g.threads.getD t []).getLast?.map (·.identity.starttime)

/-- The start times of an observation are those of the window's newest samples, as far as it has any. -/
def Fits (g : GraphWindow) (o : RelationObservation) : Prop := ∀ e ∈ ends o, ∀ n ∈ g.startOf e.1, n = e.2

/-- A sample of a TID of which the window has no other is of the thread that the stored observations are of. -/
def Untainted (g : GraphWindow) (x : ThreadSample) : Prop :=
  g.startOf x.identity.tid = none → ∀ h ∈ g.relationHistories.entries, ∀ o ∈ h.2, ∀ e ∈ ends o,
    e.1 = x.identity.tid → e.2 = x.identity.starttime

/-- The samples of a window, each as the loop reaches it. -/
def Clean : GraphWindow → List ThreadSample → Prop
  | _, [] => True
  | g, x :: samples => g.Untainted x ∧ Clean (g.observeSample x) samples

instance Fits.decidable (g : GraphWindow) (o : RelationObservation) : Decidable (g.Fits o) :=
  inferInstanceAs (Decidable (∀ e ∈ ends o, ∀ n ∈ g.startOf e.1, n = e.2))

instance Untainted.decidable (g : GraphWindow) (x : ThreadSample) : Decidable (g.Untainted x) :=
  inferInstanceAs (Decidable (_ → _))

instance Clean.decidable : ∀ (samples : List ThreadSample) (g : GraphWindow), Decidable (g.Clean samples)
  | [], _ => isTrue trivial
  | x :: samples, g =>
    have := Clean.decidable samples (g.observeSample x)
    inferInstanceAs (Decidable (_ ∧ _))

/-- A call that lets no observation of an earlier thread in. -/
def Isolating (g : GraphWindow) : Event → Prop
  | .observeThreads samples => Clean { g with demandCache := none, edgeCache := none } samples
  | .observeRelation o => g.Fits o
  | _ => True

instance Isolating.decidable (g : GraphWindow) : ∀ e, Decidable (g.Isolating e)
  | .observeThreads _ => inferInstanceAs (Decidable (Clean _ _))
  | .observeRelation o => Fits.decidable g o
  | .retainRelations _ => isTrue trivial
  | .demands => isTrue trivial
  | .edges => isTrue trivial
  | .threadRecords => isTrue trivial
  | .takeDelta _ => isTrue trivial

variable {g g' : GraphWindow} {o : RelationObservation} {x : ThreadSample}

theorem touches_of_end {e : Tid × Nat} (he : e ∈ ends o) : touches e.1 (Ledger.keyOf o) = true := by
  unfold touches Ledger.keyOf edgeKey
  simp only [ends, List.mem_cons, List.not_mem_nil, or_false] at he
  rcases he with rfl | rfl
  · rcases le_total o.fromTid o.toTid with h | h
    · simp [h]
    · simp [h]
  · rcases le_total o.fromTid o.toTid with h | h
    · simp [h]
    · simp [h]

theorem startOf_observeSample (g : GraphWindow) (x : ThreadSample) (t : Tid) :
    (g.observeSample x).startOf t = if x.identity.tid = t then some x.identity.starttime else g.startOf t := by
  obtain ⟨h, -, hthreads⟩ := threads_observeSample g x
  unfold startOf OrdMap.getD
  rw [hthreads, OrdMap.find?_insert]
  split
  · simp
  · rfl

/-- What a sample leaves of the relations: those of its TID go when the start time is another one. -/
theorem find?_observeSample {k : EdgeKey} {h : List RelationObservation}
    (hf : (g.observeSample x).relationHistories.find? k = some h) : g.relationHistories.find? k = some h ∧
      ∀ n ∈ g.startOf x.identity.tid, n ≠ x.identity.starttime → touches x.identity.tid k = false := by
  unfold observeSample at hf
  dsimp only at hf
  unfold startOf
  split at hf
  · rename_i last hlast
    rw [hlast]
    split at hf
    · rename_i hsame
      refine ⟨hf, fun n hn hne => absurd ?_ hne⟩
      rw [← Option.some.inj hn]
      exact hsame
    · have hkept : (g.relationHistories.filter (fun k _ => !touches x.identity.tid k)).find? k = some h := hf
      rw [OrdMap.find?_filter, Option.filter_eq_some_iff] at hkept
      exact ⟨hkept.1, fun _ _ _ => by simpa using hkept.2⟩
  · rename_i hnone
    rw [hnone]
    exact ⟨hf, fun n hn => by cases hn⟩

theorem startOf_aged {cut : Nat} {t : Tid} {n : Nat}
    (h : startOf (ageRelations { g with threads := agedThreads g.threads cut } cut) t = some n) : g.startOf t = some n := by
  unfold startOf OrdMap.getD at h ⊢
  have hthreads : (ageRelations { g with threads := agedThreads g.threads cut } cut).threads = agedThreads g.threads cut := rfl
  rw [hthreads] at h
  cases hf : (agedThreads g.threads cut).find? t with
  | none =>
    rw [hf] at h
    cases h
  | some young =>
    obtain ⟨hne, old, hold, ⟨pre, hpre⟩⟩ := find?_agedThreads hf
    rw [hf, Option.getD_some] at h
    rw [hold, Option.getD_some, ← hpre, List.getLast?_append_of_ne_nil _ hne]
    exact h

theorem find?_ageRelations {cut : Nat} {k : EdgeKey} {h : List RelationObservation}
    (hf : (g.ageRelations cut).relationHistories.find? k = some h) :
    ∃ old, g.relationHistories.find? k = some old ∧ ∀ o ∈ h, o ∈ old := by
  have haged : ((g.relationHistories.mapVal (fun _ h => agedHistory cut h)).filter (fun _ h => !h.isEmpty)).find? k = some h :=
    hf
  rw [OrdMap.find?_filter, Option.filter_eq_some_iff, OrdMap.find?_mapVal] at haged
  obtain ⟨old, hold, rfl⟩ := Option.map_eq_some_iff.1 haged.1
  exact ⟨old, hold, fun o ho => (List.dropWhile_sublist _).subset ho⟩

/-! ## The invariant -/

/-- The stored observations are of the threads the window has sampled last, and the window knows of those. -/
structure Apart (g : GraphWindow) (newest : OrdMap Tid Nat) : Prop where
  newest : ∀ t n, g.startOf t = some n → newest.find? t = some n
  own : ∀ k h, g.relationHistories.find? k = some h → ∀ o ∈ h, Ledger.keyOf o = k ∧ g.Fits o

variable {newest : OrdMap Tid Nat}

/-- Only the samples and the relations of a window count. -/
theorem Apart.congr (h : g.Apart newest) (hthreads : g'.threads = g.threads)
    (hkept : ∀ k hist, g'.relationHistories.find? k = some hist →
      ∃ old, g.relationHistories.find? k = some old ∧ ∀ o ∈ hist, o ∈ old) : g'.Apart newest := by
  have hstart : ∀ t, g'.startOf t = g.startOf t := by
    intro t
    unfold startOf
    rw [hthreads]
  refine ⟨fun t n hn => h.newest t n (by rw [← hstart]; exact hn), fun k hist hf o ho => ?_⟩
  obtain ⟨old, hold, hsub⟩ := hkept k hist hf
  obtain ⟨hkey, hfits⟩ := h.own k old hold o (hsub o ho)
  exact ⟨hkey, fun e he n hn => hfits e he n (by rw [← hstart]; exact hn)⟩

theorem Apart.same (h : g.Apart newest) (hthreads : g'.threads = g.threads)
    (hrelations : g'.relationHistories = g.relationHistories) : g'.Apart newest :=
  h.congr hthreads (fun k hist hf => ⟨hist, by rw [← hrelations]; exact hf, fun _ ho => ho⟩)

theorem Apart.observeSample (h : g.Apart newest) (hx : g.Untainted x) :
    (g.observeSample x).Apart (newest.insert x.identity.tid x.identity.starttime) := by
  refine ⟨fun t n hn => ?_, fun k hist hf o ho => ?_⟩
  · rw [startOf_observeSample] at hn
    rw [OrdMap.find?_insert]
    split at hn
    · rename_i ht
      rw [if_pos ht]
      exact hn
    · rename_i ht
      rw [if_neg ht]
      exact h.newest t n hn
  · obtain ⟨hold, hpurged⟩ := find?_observeSample hf
    obtain ⟨hkey, hfits⟩ := h.own k hist hold o ho
    refine ⟨hkey, fun e he n hn => ?_⟩
    rw [startOf_observeSample] at hn
    split at hn
    · rename_i ht
      rw [← Option.some.inj hn]
      cases hstart : g.startOf x.identity.tid with
      | none => exact (hx hstart (k, hist) (OrdMap.mem_entries.2 hold) o ho e he ht.symm).symm
      | some m =>
        by_cases hm : m = x.identity.starttime
        · rw [← hm]
          exact hfits e he m (by rw [← ht]; exact hstart)
        · -- another start time: the relations of the TID are gone
          have hgone := hpurged m hstart hm
          rw [← hkey, ht, touches_of_end he] at hgone
          cases hgone
    · exact hfits e he n hn

theorem Apart.foldl_observeSample : ∀ {samples : List ThreadSample} {g : GraphWindow} {newest : OrdMap Tid Nat},
    g.Apart newest → g.Clean samples → (samples.foldl GraphWindow.observeSample g).Apart
      (samples.foldl (fun m x => OrdMap.insert m x.identity.tid x.identity.starttime) newest)
  | [], _, _, h, _ => h
  | _ :: _, _, _, h, hclean => (h.observeSample hclean.1).foldl_observeSample hclean.2

theorem Apart.observeThreads {samples : List ThreadSample} (h : g.Apart newest)
    (hclean : Clean { g with demandCache := none, edgeCache := none } samples) : (g.observeThreads samples).Apart
      (samples.foldl (fun m x => OrdMap.insert m x.identity.tid x.identity.starttime) newest) := by
  have hopen : Apart { g with demandCache := none, edgeCache := none } newest := h.same rfl rfl
  have hloop := hopen.foldl_observeSample hclean
  unfold GraphWindow.observeThreads
  dsimp only
  refine ⟨fun t n hn => hloop.newest t n (startOf_aged hn), fun k hist hf o ho => ?_⟩
  obtain ⟨old, hold, hsub⟩ := find?_ageRelations hf
  obtain ⟨hkey, hfits⟩ := hloop.own k old hold o (hsub o ho)
  exact ⟨hkey, fun e he n hn => hfits e he n (startOf_aged hn)⟩

theorem Apart.observeRelation (h : g.Apart newest) (ho : g.Fits o) : (g.observeRelation o).Apart newest := by
  unfold GraphWindow.observeRelation
  split
  · exact h
  · refine ⟨h.newest, fun k hist hf x hx => ?_⟩
    have hput : (g.relationHistories.insert (edgeKey o.fromTid o.toTid)
        (g.relationHistories.getD (edgeKey o.fromTid o.toTid) [] ++ [o])).find? k = some hist := hf
    rw [OrdMap.find?_insert] at hput
    split at hput
    · rename_i hk
      cases hput
      rcases List.mem_append.1 hx with hx | hx
      · unfold OrdMap.getD at hx
        cases hold : g.relationHistories.find? (edgeKey o.fromTid o.toTid) with
        | none =>
          rw [hold] at hx
          cases hx
        | some old =>
          rw [hold] at hx
          obtain ⟨hkey, hfits⟩ := h.own _ old hold x hx
          exact ⟨hkey.trans hk, hfits⟩
      · rw [List.mem_singleton.1 hx]
        exact ⟨hk, ho⟩
    · exact h.own k hist hput x hx

theorem Apart.retainRelations (h : g.Apart newest) (relations : OrdSet EdgeKey) : (g.retainRelations relations).Apart newest := by
  have hkept : (g.keepRelations (fun k => decide (k ∈ relations))).Apart newest := by
    refine h.congr rfl (fun k hist hf => ?_)
    have hfilter : (g.relationHistories.filter (fun k _ => decide (k ∈ relations))).find? k = some hist := hf
    rw [OrdMap.find?_filter, Option.filter_eq_some_iff] at hfilter
    exact ⟨hist, hfilter.1, fun _ ho => ho⟩
  unfold GraphWindow.retainRelations
  dsimp only
  split
  · exact hkept.same rfl rfl
  · exact hkept

theorem Apart.demands (h : g.Apart newest) : g.demands.2.Apart newest := by
  unfold GraphWindow.demands
  split
  · exact h
  · exact h.same rfl rfl

theorem Apart.edges (h : g.Apart newest) : g.edges.2.Apart newest := by
  unfold GraphWindow.edges
  split
  · exact h
  · exact h.demands.same rfl rfl

end GraphWindow

/-! ## Runs -/

/-- A window, and the start time of the newest sample there was of each TID. -/
structure Watched where
  window : GraphWindow
  newest : OrdMap Tid Nat := ∅

namespace Watched

def noted (newest : OrdMap Tid Nat) : GraphWindow.Event → OrdMap Tid Nat
  | .observeThreads samples => samples.foldl (fun m x => m.insert x.identity.tid x.identity.starttime) newest
  | _ => newest

def step (w : Watched) (e : GraphWindow.Event) : Option Watched :=
  (w.window.step e).map (fun g => { window := g, newest := noted w.newest e })

/-- Every edge is computed from observations of the threads that were sampled last. -/
def Isolated (w : Watched) : Prop :=
  ∀ edge ∈ w.window.edges.1, ∃ k history d₁ d₂, w.window.relationHistories.find? k = some history ∧
    edge = GraphWindow.edgeOf w.window k (RelationAggregate.ofHistory k history) d₁ d₂ ∧
    ∀ o ∈ history, Ledger.keyOf o = k ∧ ∀ e ∈ GraphWindow.ends o, w.newest.find? e.1 = some e.2

variable {w w' : Watched} {e : GraphWindow.Event}

/-- What every isolating call keeps. -/
structure Keeps (w : Watched) : Prop where
  sane : w.window.Sane
  apart : w.window.Apart w.newest

theorem Keeps.step (h : w.Keeps) (hok : w.window.Isolating e) (hstep : w.step e = some w') : w'.Keeps := by
  obtain ⟨g, hg, rfl⟩ := Option.map_eq_some_iff.1 hstep
  obtain ⟨g₁, hg₁, hsane⟩ := h.sane.step e
  rw [hg] at hg₁
  cases hg₁
  refine ⟨hsane, ?_⟩
  cases e with
  | observeThreads samples =>
    rw [GraphWindow.step, (h.sane.summed.observeThreads? samples).1] at hg
    cases hg
    exact h.apart.observeThreads hok
  | observeRelation o =>
    cases hg
    exact h.apart.observeRelation hok
  | retainRelations relations =>
    cases hg
    exact h.apart.retainRelations relations
  | demands =>
    cases hg
    exact h.apart.demands
  | edges =>
    cases hg
    exact h.apart.edges
  | threadRecords =>
    rw [GraphWindow.step, GraphWindow.threadRecords?_eq h.sane.keyed h.sane.cached.demands] at hg
    cases hg
    exact h.apart.demands
  | takeDelta th =>
    cases hg
    exact h.apart.demands.edges.same rfl rfl

/-- A thread that has a demand has a newest sample. -/
theorem startOf_of_demandIn {g : GraphWindow} (hg : g.WellKeyed) {t : Tid} {d : ℚ}
    (h : GraphWindow.demandIn g.computeDemands t = some d) : ∃ n, g.startOf t = some n := by
  obtain ⟨x, hx, -⟩ := Option.map_eq_some_iff.1 h
  obtain ⟨hmem, htid⟩ := List.mem_filter.1 (List.mem_of_getLast? hx)
  have ht : t ∈ g.threads := (GraphWindow.mem_computeDemands hg).1 (List.mem_map.2 ⟨x, hmem, of_decide_eq_true htid⟩)
  obtain ⟨hist, hf⟩ := OrdMap.mem_iff.1 ht
  unfold GraphWindow.startOf OrdMap.getD
  rw [hf, Option.getD_some, List.getLast?_eq_some_getLast (hg t hist hf).1]
  exact ⟨_, rfl⟩

theorem Keeps.isolated (h : w.Keeps) : w.Isolated := by
  intro edge hedge
  rw [h.sane.cached.edges_eq, h.sane.summed.computeEdges_eq] at hedge
  obtain ⟨⟨k, history⟩, hmem, hsome⟩ := List.mem_filterMap.1 hedge
  dsimp only at hsome
  cases hd₁ : GraphWindow.demandIn w.window.computeDemands (ofLex k).1 with
  | none =>
    rw [hd₁] at hsome
    cases hsome
  | some d₁ =>
    cases hd₂ : GraphWindow.demandIn w.window.computeDemands (ofLex k).2 with
    | none =>
      rw [hd₁, hd₂] at hsome
      cases hsome
    | some d₂ =>
      rw [hd₁, hd₂] at hsome
      dsimp only at hsome
      split at hsome
      · cases hsome
      · have hf := OrdMap.mem_entries.1 hmem
        refine ⟨k, history, d₁, d₂, hf, (Option.some.inj hsome).symm, fun o ho => ?_⟩
        obtain ⟨hkey, hfits⟩ := h.apart.own k history hf o ho
        refine ⟨hkey, fun e he => ?_⟩
        -- both threads of the pair have a demand, so the window has samples of them
        have hstart : ∃ n, w.window.startOf e.1 = some n := by
          have htouch := GraphWindow.touches_of_end he
          rw [hkey] at htouch
          unfold GraphWindow.touches at htouch
          rw [Bool.or_eq_true, decide_eq_true_eq, decide_eq_true_eq] at htouch
          rcases htouch with ht | ht
          · rw [← ht]
            exact startOf_of_demandIn h.sane.keyed hd₁
          · rw [← ht]
            exact startOf_of_demandIn h.sane.keyed hd₂
        obtain ⟨n, hn⟩ := hstart
        rw [← hfits e he n hn]
        exact h.apart.newest e.1 n hn

variable {horizonSeconds : Nat} {calibration : Calibration} {libm : Libm}

/-- **The edges of a run are isolated** when no call lets an observation of an earlier thread in. -/
theorem edges_isolated {run : List GraphWindow.Event}
    (hobeys : Run.Obeys step (fun w => w.window.Isolating) { window := GraphWindow.new horizonSeconds calibration libm } run)
    (hrun : Run.exec step { window := GraphWindow.new horizonSeconds calibration libm } run = some w) : w.Isolated := by
  have hnew : Keeps { window := GraphWindow.new horizonSeconds calibration libm } := by
    refine ⟨GraphWindow.sane_new, ⟨fun t n hn => ?_, fun k h hf => ?_⟩⟩
    · cases hn
    · cases hf
  exact (hobeys.invariant Keeps (fun _ _ _ h hok hstep => h.step hok hstep) hnew hrun).isolated

/-- A sample of a thread, and an observation of the pair 1 and 2 when they started at 1 and 2. -/
def bornAt (tid : Tid) (starttime seconds : Nat) : ThreadSample where
  identity := ⟨1, tid, starttime⟩
  timestampNs := seconds * 10 ^ 9

def metAt (starttime seconds : Nat) : RelationObservation where
  fromTid := 1
  toTid := 2
  fromStarttime := starttime
  toStarttime := 2
  timestampNs := seconds * 10 ^ 9
  futexPerSecond := 1

/-- The TID comes back while its last sample is in the window. -/
def cameBackSoon : List GraphWindow.Event :=
  [.observeThreads [bornAt 1 1 1, bornAt 2 2 1], .observeRelation (metAt 1 30), .observeThreads [bornAt 1 9 40, bornAt 2 2 40],
    .observeRelation (metAt 9 41)]

/-- The TID comes back after its last sample has aged out, and before its last relation has. -/
def cameBackLate : List GraphWindow.Event :=
  [.observeThreads [bornAt 1 1 1, bornAt 2 2 1], .observeRelation (metAt 1 30), .observeThreads [bornAt 2 2 62],
    .observeThreads [bornAt 1 9 63, bornAt 2 2 63]]

theorem edges_isolated_soon : ∃ w, Run.exec step { window := GraphWindow.new 60 {} Feed.libmOnce } cameBackSoon = some w ∧
    w.newest.find? 1 = some 9 ∧ w.window.edges.1.length = 1 ∧ w.Isolated := by
  have hobeys : Run.Obeys step (fun w => w.window.Isolating) { window := GraphWindow.new 60 {} Feed.libmOnce } cameBackSoon := by
    decide +kernel
  have h : (Run.exec step { window := GraphWindow.new 60 {} Feed.libmOnce } cameBackSoon).any (fun w =>
      decide (w.newest.find? 1 = some 9 ∧ w.window.edges.1.length = 1)) = true := by decide +kernel
  obtain ⟨w, hw, h⟩ := (Option.any_eq_true _ _).1 h
  obtain ⟨hnewest, hlength⟩ := of_decide_eq_true h
  exact ⟨w, hw, hnewest, hlength, edges_isolated hobeys hw⟩

/-- **A new thread inherits the relation of an old one**: the one edge there is comes from an observation of the TID's earlier
thread, although the new one has been sampled. -/
theorem relation_inherited : ∃ w, Run.exec step { window := GraphWindow.new 60 {} Feed.libmOnce } cameBackLate = some w ∧
    w.newest.find? 1 = some 9 ∧ w.window.edges.1.length = 1 ∧
    w.window.relationHistories.entries = [(edgeKey 1 2, [metAt 1 30])] ∧ ¬ w.Isolated := by
  have h : (Run.exec step { window := GraphWindow.new 60 {} Feed.libmOnce } cameBackLate).any (fun w =>
      decide (w.newest.find? 1 = some 9 ∧ w.window.edges.1.length = 1 ∧
        w.window.relationHistories.entries = [(edgeKey 1 2, [metAt 1 30])])) = true := by decide +kernel
  obtain ⟨w, hw, h⟩ := (Option.any_eq_true _ _).1 h
  obtain ⟨hnewest, hlength, hentries⟩ := of_decide_eq_true h
  refine ⟨w, hw, hnewest, hlength, hentries, fun hisolated => ?_⟩
  obtain ⟨edge, hedge⟩ := List.exists_mem_of_length_pos (by rw [hlength]; decide : 0 < w.window.edges.1.length)
  obtain ⟨k, history, d₁, d₂, hf, -, hown⟩ := hisolated edge hedge
  rw [← OrdMap.mem_entries, hentries, List.mem_singleton] at hf
  rw [(Prod.mk.inj hf).2] at hown
  have hstart := (hown (metAt 1 30) (List.mem_singleton.2 rfl)).2 (1, 1) (by decide)
  rw [hnewest] at hstart
  exact absurd (Option.some.inj hstart) (by decide)

end Watched

end AffinityGraph
