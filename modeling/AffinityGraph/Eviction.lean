import AffinityGraph.GraphRuns
import Mathlib.Data.List.Induction
/-!
# Eviction — what the horizon leaves in the queues

`observe_threads` pops the front of each queue while it is older than the horizon.  That takes out every old entry exactly
when none stands behind one that may stay (`GraphWindow.complete_iff`), as in queues filled in the order of time.  The queue of
a pair need not be: its records come from several kernel maps and in the order of a hash table
(`GraphWindow.late_relation_stays`).
-/
namespace AffinityGraph

/-! ## Popping the front -/

namespace Queue

variable {α : Type*} {old : α → Prop}

/-- An entry that is to go stands behind one that is to stay. -/
def Straddled (old : α → Prop) (q : List α) : Prop := ∃ a b, [a, b].Sublist q ∧ ¬ old a ∧ old b

theorem not_straddled_nil : ¬ Straddled old [] := by
  rintro ⟨a, b, hsub, -⟩
  cases hsub

theorem straddled_cons_old {a : α} {q : List α} (ha : old a) : Straddled old (a :: q) ↔ Straddled old q := by
  constructor
  · rintro ⟨x, y, hsub, hx, hy⟩
    cases hsub with
    | cons _ hsub => exact ⟨x, y, hsub, hx, hy⟩
    | cons_cons _ _ => exact absurd ha hx
  · rintro ⟨x, y, hsub, hx, hy⟩
    exact ⟨x, y, hsub.cons a, hx, hy⟩

/-- **Popping takes out all that is old** exactly when nothing old stands behind something that stays. -/
theorem forall_dropWhile_iff [DecidablePred old] : ∀ {q : List α},
    (∀ x ∈ q.dropWhile (fun x => decide (old x)), ¬ old x) ↔ ¬ Straddled old q
  | [] => iff_of_true (fun x hx => by cases hx) not_straddled_nil
  | a :: q => by
    rw [List.dropWhile_cons]
    by_cases ha : old a
    · rw [if_pos (decide_eq_true ha), straddled_cons_old ha]
      exact forall_dropWhile_iff
    · rw [if_neg (by simpa using ha)]
      constructor
      · rintro hall ⟨x, y, hsub, -, hy⟩
        exact hall y (hsub.subset (by simp)) hy
      · intro hno x hx hold
        rcases List.mem_cons.1 hx with rfl | hx
        · exact ha hold
        · exact hno ⟨a, x, (List.singleton_sublist.2 hx).cons_cons a, ha, hold⟩

/-- A queue in order is not straddled. -/
theorem not_straddled {r : α → α → Prop} {q : List α} (hq : q.Pairwise r) (hr : ∀ a b, r a b → old b → old a) :
    ¬ Straddled old q := by
  rintro ⟨a, b, hsub, ha, hb⟩
  exact ha (hr a b (List.rel_of_pairwise_cons (hq.sublist hsub) List.mem_cons_self) hb)

/-- The same for all the queues of a map. -/
theorem forall_aged_iff {κ : Type*} [LinearOrder κ] [DecidablePred old] {m : OrdMap κ (List α)} :
    (∀ k h, ((m.mapVal (fun _ h => h.dropWhile (fun x => decide (old x)))).filter (fun _ h => !h.isEmpty)).find? k = some h →
      ∀ x ∈ h, ¬ old x) ↔ ¬ ∃ k h, m.find? k = some h ∧ Straddled old h := by
  have hfind : ∀ k h, ((m.mapVal (fun _ h => h.dropWhile (fun x => decide (old x)))).filter
      (fun _ h => !h.isEmpty)).find? k = some h ↔
      h ≠ [] ∧ ∃ q, m.find? k = some q ∧ q.dropWhile (fun x => decide (old x)) = h := by
    intro k h
    rw [OrdMap.find?_filter, OrdMap.find?_mapVal, Option.filter_eq_some_iff, Option.map_eq_some_iff, and_comm]
    simp
  push Not
  constructor
  · intro hall k q hq
    rw [← forall_dropWhile_iff]
    intro x hx
    refine hall k _ ((hfind k _).2 ⟨?_, q, hq, rfl⟩) x hx
    exact List.ne_nil_of_mem hx
  · intro hno k h hk
    obtain ⟨-, q, hq, rfl⟩ := (hfind k h).1 hk
    exact forall_dropWhile_iff.2 (hno k q hq)

end Queue

open Queue

namespace GraphWindow

variable {g g' : GraphWindow} {horizonSeconds : Nat} {calibration : Calibration} {libm : Libm}

/-! ## One call -/

/-- Nothing in the window is older than the horizon, counted from the newest sample. -/
def Complete (g : GraphWindow) (newest : Nat) : Prop :=
  (∀ t h, g.threads.find? t = some h → ∀ s ∈ h, newest ≤ s.timestampNs + g.horizonSeconds * 10 ^ 9) ∧
  ∀ k h, g.relationHistories.find? k = some h → ∀ o ∈ h, newest ≤ o.timestampNs + g.horizonSeconds * 10 ^ 9

/-- A sample comes to a queue: one of another start time begins it again. -/
def arrive (h : List ThreadSample) (x : ThreadSample) : List ThreadSample :=
  if h.getLast?.any (fun last => decide (last.identity.starttime ≠ x.identity.starttime)) then [x] else h ++ [x]

/-- The samples among `samples` that are of one thread. -/
def ofThread (samples : List ThreadSample) (t : Tid) : List ThreadSample :=
  samples.filter (fun s => decide (s.identity.tid = t))

/-- The samples of a thread that a call brings are of one start time, that of its last one in the window. -/
def Continues (g : GraphWindow) (samples : List ThreadSample) (t : Tid) : Prop :=
  ((g.threads.getD t []).getLast?.toList ++ ofThread samples t).IsChain
    (fun a b => a.identity.starttime = b.identity.starttime)

/-- An entry older than the horizon stands behind one that is not, in the queue of a thread with its new samples or in that of
a pair whose threads go on. -/
def Tangled (g : GraphWindow) (samples : List ThreadSample) : Prop :=
  (∃ t, Straddled (fun s : ThreadSample => s.timestampNs < cutoff g.horizonSeconds (newest samples))
    ((ofThread samples t).foldl arrive (g.threads.getD t []))) ∨
  ∃ k h, g.relationHistories.find? k = some h ∧ (∀ t, touches t k = true → g.Continues samples t) ∧
    Straddled (fun o : RelationObservation => o.timestampNs < cutoff g.horizonSeconds (newest samples)) h

theorem not_lt_cutoff_iff {horizonSeconds newest ts : Nat} :
    ¬ ts < cutoff horizonSeconds newest ↔ newest ≤ ts + horizonSeconds * 10 ^ 9 := by
  unfold cutoff
  split <;> omega

theorem ofThread_cons (x : ThreadSample) (samples : List ThreadSample) (t : Tid) :
    ofThread (x :: samples) t = if x.identity.tid = t then x :: ofThread samples t else ofThread samples t := by
  unfold ofThread
  rw [List.filter_cons]
  by_cases ht : x.identity.tid = t <;> simp [ht]

theorem getLast?_arrive (h : List ThreadSample) (x : ThreadSample) : (arrive h x).getLast? = some x := by
  unfold arrive
  split <;> simp

/-- One sample, in the queues of the threads. -/
theorem threads_getD_observeSample (g : GraphWindow) (x : ThreadSample) (t : Tid) : (g.observeSample x).threads.getD t [] =
    if x.identity.tid = t then arrive (g.threads.getD t []) x else g.threads.getD t [] := by
  by_cases ht : x.identity.tid = t
  · subst ht
    rw [if_pos rfl]
    unfold observeSample arrive
    dsimp only
    cases hlast : (g.threads.getD x.identity.tid []).getLast? with
    | none =>
      have hnil := List.getLast?_eq_none_iff.1 hlast
      dsimp only
      rw [OrdMap.getD_insert, if_pos rfl, hnil]
      rfl
    | some last =>
      dsimp only [Option.any_some]
      by_cases hs : last.identity.starttime = x.identity.starttime
      · rw [if_pos hs, OrdMap.getD_insert, if_pos rfl, if_neg (by simpa using hs)]
      · rw [if_neg hs, OrdMap.getD_insert, if_pos rfl, if_pos (by simpa using hs)]
  · obtain ⟨h, -, hinsert⟩ := threads_observeSample g x
    rw [hinsert, OrdMap.getD_insert, if_neg ht, if_neg ht]

/-- One sample, in the queues of the pairs: those of a thread that begins again go. -/
theorem relationHistories_observeSample (g : GraphWindow) (x : ThreadSample) (k : EdgeKey) :
    (g.observeSample x).relationHistories.find? k =
      if touches x.identity.tid k = true ∧ (g.threads.getD x.identity.tid []).getLast?.any
        (fun last => decide (last.identity.starttime ≠ x.identity.starttime)) = true then none
      else g.relationHistories.find? k := by
  unfold observeSample
  dsimp only
  cases (g.threads.getD x.identity.tid []).getLast? with
  | none => rw [if_neg (by simp)]
  | some last =>
    by_cases hs : last.identity.starttime = x.identity.starttime
    · rw [if_neg (by simp [hs])]
      dsimp only
      rw [if_pos hs]
    · dsimp only [Option.any_some]
      rw [if_neg hs]
      show (g.relationHistories.filter _).find? k = _
      rw [OrdMap.find?_filter]
      by_cases ht : touches x.identity.tid k = true
      · rw [if_pos ⟨ht, decide_eq_true hs⟩]
        cases g.relationHistories.find? k <;> simp [Option.filter, ht]
      · rw [if_neg (fun h => ht h.1)]
        cases g.relationHistories.find? k <;> simp [Option.filter, ht]

/-- The samples of a call, in the queues of the threads. -/
theorem threads_getD_foldl_observeSample (t : Tid) : ∀ (samples : List ThreadSample) (g : GraphWindow),
    (samples.foldl observeSample g).threads.getD t [] = (ofThread samples t).foldl arrive (g.threads.getD t [])
  | [], _ => rfl
  | x :: samples, g => by
    rw [List.foldl_cons, threads_getD_foldl_observeSample t samples, threads_getD_observeSample, ofThread_cons]
    by_cases ht : x.identity.tid = t
    · rw [if_pos ht, if_pos ht, List.foldl_cons]
    · rw [if_neg ht, if_neg ht]

theorem continues_cons (g : GraphWindow) (x : ThreadSample) (samples : List ThreadSample) (t : Tid) :
    g.Continues (x :: samples) t ↔ (x.identity.tid = t → (g.threads.getD t []).getLast?.any
      (fun last => decide (last.identity.starttime ≠ x.identity.starttime)) = false) ∧
      (g.observeSample x).Continues samples t := by
  unfold Continues
  rw [threads_getD_observeSample, ofThread_cons]
  by_cases ht : x.identity.tid = t
  · rw [if_pos ht, if_pos ht, getLast?_arrive]
    cases (g.threads.getD t []).getLast? with
    | none => simp [ht]
    | some last => simp [ht]
  · rw [if_neg ht, if_neg ht]
    simp [ht]

/-- The samples of a call, in the queues of the pairs. -/
theorem relationHistories_foldl_observeSample (k : EdgeKey) (h : List RelationObservation) :
    ∀ (samples : List ThreadSample) (g : GraphWindow),
      (samples.foldl observeSample g).relationHistories.find? k = some h ↔
        g.relationHistories.find? k = some h ∧ ∀ t, touches t k = true → g.Continues samples t
  | [], g => by
    refine ⟨fun hk => ⟨hk, fun t _ => ?_⟩, And.left⟩
    unfold Continues
    cases (g.threads.getD t []).getLast? <;> simp [ofThread]
  | x :: samples, g => by
    rw [List.foldl_cons, relationHistories_foldl_observeSample k h samples, relationHistories_observeSample]
    simp only [continues_cons]
    by_cases hgone : touches x.identity.tid k = true ∧ (g.threads.getD x.identity.tid []).getLast?.any
        (fun last => decide (last.identity.starttime ≠ x.identity.starttime)) = true
    · rw [if_pos hgone]
      refine iff_of_false (fun hno => by cases hno.1) ?_
      rintro ⟨-, hall⟩
      have hsame := (hall _ hgone.1).1 rfl
      rw [hgone.2] at hsame
      cases hsame
    · rw [if_neg hgone]
      refine and_congr_right (fun _ => ⟨fun hall t ht => ⟨?_, hall t ht⟩, fun hall t ht => (hall t ht).2⟩)
      rintro rfl
      exact Bool.eq_false_iff.2 (fun hrestart => hgone ⟨ht, hrestart⟩)

/-- **The horizon is complete exactly when no queue is tangled.** -/
theorem complete_iff (g : GraphWindow) (samples : List ThreadSample) :
    Complete (g.observeThreads samples) (newest samples) ↔ ¬ Tangled g samples := by
  have hhorizon : (g.observeThreads samples).horizonSeconds = g.horizonSeconds :=
    Faithful.horizon_foldl_observeSample samples _
  have hthreads : ∀ old : ThreadSample → Prop,
      (∃ t, Straddled old ((ofThread samples t).foldl arrive (g.threads.getD t []))) ↔
      ∃ t h, (samples.foldl observeSample { g with demandCache := none, edgeCache := none }).threads.find? t = some h ∧
        Straddled old h := by
    intro old
    refine exists_congr (fun t => ?_)
    rw [← threads_getD_foldl_observeSample t samples { g with demandCache := none, edgeCache := none }, OrdMap.getD]
    cases (samples.foldl observeSample { g with demandCache := none, edgeCache := none }).threads.find? t with
    | none => simpa using not_straddled_nil
    | some h => simp
  have hpairs : ∀ old : RelationObservation → Prop,
      (∃ k h, g.relationHistories.find? k = some h ∧ (∀ t, touches t k = true → g.Continues samples t) ∧
        Straddled old h) ↔
      ∃ k h, (samples.foldl observeSample
        { g with demandCache := none, edgeCache := none }).relationHistories.find? k = some h ∧ Straddled old h := by
    intro old
    refine exists_congr (fun k => exists_congr (fun h => ?_))
    rw [relationHistories_foldl_observeSample, and_assoc]
    exact Iff.rfl
  unfold Complete Tangled
  rw [hhorizon, hthreads, hpairs, not_or, ← forall_aged_iff, ← forall_aged_iff]
  simp only [not_lt_cutoff_iff]
  exact Iff.rfl

/-! ## The queues of a run -/

/-- The samples of a thread that a call brings. -/
def samplesOf (t : Tid) : Event → List ThreadSample
  | .observeThreads samples => ofThread samples t
  | _ => []

/-- The observation of a pair that a call brings. -/
def relationsOf (k : EdgeKey) : Event → List RelationObservation
  | .observeRelation o => if edgeKey o.fromTid o.toTid = k then [o] else []
  | _ => []

/-- The samples of each thread and the observations of each pair arrive in the order of their times. -/
def Timely (run : List Event) : Prop :=
  (∀ t, (run.flatMap (samplesOf t)).Pairwise (fun a b => a.timestampNs ≤ b.timestampNs)) ∧
  ∀ k, (run.flatMap (relationsOf k)).Pairwise (fun a b => a.timestampNs ≤ b.timestampNs)

/-- The queues hold what has arrived, in that order. -/
structure Arrived (g : GraphWindow) (S : Tid → List ThreadSample) (R : EdgeKey → List RelationObservation) : Prop where
  samples : ∀ t, (g.threads.getD t []).Sublist (S t)
  relations : ∀ k, (g.relationHistories.getD k []).Sublist (R k)

variable {S : Tid → List ThreadSample} {R : EdgeKey → List RelationObservation}

theorem getD_filter_sublist {κ α : Type*} [LinearOrder κ] (m : OrdMap κ (List α)) (p : κ → List α → Bool) (k : κ) :
    ((m.filter p).getD k []).Sublist (m.getD k []) := by
  unfold OrdMap.getD
  rw [OrdMap.find?_filter]
  cases m.find? k with
  | none => exact List.Sublist.refl _
  | some h =>
    rw [Option.filter_some]
    split
    · exact List.Sublist.refl _
    · exact List.nil_sublist _

theorem Arrived.mono (h : g.Arrived S R) {S' : Tid → List ThreadSample} {R' : EdgeKey → List RelationObservation}
    (hS : ∀ t, (S t).Sublist (S' t)) (hR : ∀ k, (R k).Sublist (R' k)) : g.Arrived S' R' :=
  ⟨fun t => (h.samples t).trans (hS t), fun k => (h.relations k).trans (hR k)⟩

theorem foldl_arrive_sublist : ∀ xs h : List ThreadSample, (xs.foldl arrive h).Sublist (h ++ xs)
  | [], h => by simp
  | x :: xs, h => by
    have hone : (arrive h x).Sublist (h ++ [x]) := by
      unfold arrive
      split
      · exact List.sublist_append_right _ _
      · exact List.Sublist.refl _
    have hrest := (foldl_arrive_sublist xs (arrive h x)).trans (hone.append_right xs)
    rwa [List.append_assoc, List.singleton_append] at hrest

theorem Arrived.observeThreads (h : g.Arrived S R) (samples : List ThreadSample) :
    (g.observeThreads samples).Arrived (fun t => S t ++ ofThread samples t) R := by
  have hdrop : ∀ {κ α : Type} [LinearOrder κ] (m : OrdMap κ (List α)) (p : α → Bool) (k : κ),
      ((m.mapVal (fun _ l => l.dropWhile p)).getD k []).Sublist (m.getD k []) := by
    intro κ α _ m p k
    unfold OrdMap.getD
    rw [OrdMap.find?_mapVal]
    cases m.find? k with
    | none => exact List.Sublist.refl _
    | some l => exact List.dropWhile_sublist p
  refine ⟨fun t => (getD_filter_sublist _ _ t).trans ((hdrop _ _ t).trans ?_),
    fun k => (getD_filter_sublist _ _ k).trans ((hdrop _ _ k).trans ?_)⟩
  · rw [threads_getD_foldl_observeSample]
    exact (foldl_arrive_sublist _ _).trans ((h.samples t).append_right _)
  · rw [OrdMap.getD]
    cases hk : (samples.foldl observeSample { g with demandCache := none, edgeCache := none }).relationHistories.find? k with
    | none => exact List.nil_sublist _
    | some l =>
      have hl : g.relationHistories.find? k = some l := ((relationHistories_foldl_observeSample k l samples _).1 hk).1
      have hsub := h.relations k
      rw [OrdMap.getD, hl] at hsub
      exact hsub

theorem Arrived.observeRelation (h : g.Arrived S R) (o : RelationObservation) :
    (g.observeRelation o).Arrived S (fun k => R k ++ if edgeKey o.fromTid o.toTid = k then [o] else []) := by
  unfold GraphWindow.observeRelation
  split
  · exact h.mono (fun t => List.Sublist.refl _) (fun k => List.sublist_append_left _ _)
  · refine ⟨h.samples, fun k => ?_⟩
    show ((g.relationHistories.update _ [] (· ++ [o])).getD k []).Sublist _
    rw [OrdMap.getD_update]
    by_cases hk : edgeKey o.fromTid o.toTid = k
    · subst hk
      simp only [if_true]
      exact (h.relations _).append (List.Sublist.refl _)
    · rw [if_neg hk, if_neg hk, List.append_nil]
      exact h.relations k

theorem Arrived.retainRelations (h : g.Arrived S R) (relations : OrdSet EdgeKey) :
    (g.retainRelations relations).Arrived S R := by
  unfold GraphWindow.retainRelations
  dsimp only
  split
  · exact ⟨h.samples, fun k => (getD_filter_sublist _ _ k).trans (h.relations k)⟩
  · exact ⟨h.samples, fun k => (getD_filter_sublist _ _ k).trans (h.relations k)⟩

/-- **A call adds at the ends of the queues what it brings.** -/
theorem Arrived.step (h : g.Arrived S R) (hs : g.Sane) {e : Event} (hstep : g.step e = some g') :
    g'.Arrived (fun t => S t ++ samplesOf t e) (fun k => R k ++ relationsOf k e) := by
  have hkept : ∀ g₁ : GraphWindow, g₁.threads = g.threads → g₁.relationHistories = g.relationHistories →
      g₁.Arrived (fun t => S t ++ []) (fun k => R k ++ []) := by
    intro g₁ ht hr
    refine ⟨fun t => ?_, fun k => ?_⟩
    · rw [ht, List.append_nil]
      exact h.samples t
    · rw [hr, List.append_nil]
      exact h.relations k
  cases e with
  | observeThreads samples =>
    rw [GraphWindow.step, (hs.summed.observeThreads? samples).1] at hstep
    cases hstep
    exact (h.observeThreads samples).mono (fun t => List.Sublist.refl _) (fun k => List.sublist_append_left _ _)
  | observeRelation o =>
    cases hstep
    exact (h.observeRelation o).mono (fun t => List.sublist_append_left _ _) (fun k => List.Sublist.refl _)
  | retainRelations relations =>
    cases hstep
    exact (h.retainRelations relations).mono (fun t => List.sublist_append_left _ _)
      (fun k => List.sublist_append_left _ _)
  | demands =>
    cases hstep
    exact hkept _ (read_demands GraphWindow.threads (fun _ _ => rfl) g)
      (read_demands GraphWindow.relationHistories (fun _ _ => rfl) g)
  | edges =>
    cases hstep
    exact hkept _ (read_edges GraphWindow.threads (fun _ _ => rfl) (fun _ _ => rfl) g)
      (read_edges GraphWindow.relationHistories (fun _ _ => rfl) (fun _ _ => rfl) g)
  | threadRecords =>
    rw [GraphWindow.step, threadRecords?_eq hs.keyed hs.cached.demands] at hstep
    cases hstep
    exact hkept _ (read_demands GraphWindow.threads (fun _ _ => rfl) g)
      (read_demands GraphWindow.relationHistories (fun _ _ => rfl) g)
  | takeDelta th =>
    cases hstep
    exact hkept _ (read_takeDelta GraphWindow.threads (fun _ _ => rfl) (fun _ _ => rfl) (fun _ _ _ => rfl) g th)
      (read_takeDelta GraphWindow.relationHistories (fun _ _ => rfl) (fun _ _ => rfl) (fun _ _ _ => rfl) g th)

/-- **The queues of a run** hold some of what the run brought, in its order. -/
theorem arrived_of_exec {run : List Event} :
    ∀ {g : GraphWindow}, Run.exec step (new horizonSeconds calibration libm) run = some g →
      g.Arrived (fun t => run.flatMap (samplesOf t)) (fun k => run.flatMap (relationsOf k)) := by
  induction run using List.reverseRecOn with
  | nil =>
    rintro g hrun
    cases hrun
    exact ⟨fun t => List.nil_sublist _, fun k => List.nil_sublist _⟩
  | append_singleton run e ih =>
    intro g hrun
    obtain ⟨g₁, hfirst, hlast⟩ := Run.exec_concat hrun
    have hsane : g₁.Sane := by
      obtain ⟨g₂, hg₂, hsane⟩ := sane_new.exec run
      rw [hfirst] at hg₂
      cases hg₂
      exact hsane
    refine ((ih hfirst).step hsane hlast).mono (fun t => ?_) (fun k => ?_) <;>
    · rw [List.flatMap_append]
      simp

/-! ## Every run -/

/-- **Evidence beyond the horizon is gone** after a call exactly when no queue was tangled, and no queue is when the samples of
each thread and the observations of each pair arrived in the order of their times.  The edges count what is retained. -/
theorem eviction_complete (horizonSeconds : Nat) (calibration : Calibration) (libm : Libm) (run : List Event)
    (samples : List ThreadSample) :
    ∃ g, Run.exec step (new horizonSeconds calibration libm) run = some g ∧
      g.step (.observeThreads samples) = some (g.observeThreads samples) ∧
      (g.observeThreads samples).edges.1 = (g.observeThreads samples).recomputeEdges ∧
      (Complete (g.observeThreads samples) (newest samples) ↔ ¬ Tangled g samples) ∧
      (Timely (run ++ [.observeThreads samples]) → ¬ Tangled g samples) := by
  have hnew : (new horizonSeconds calibration libm).Sane := sane_new
  obtain ⟨g, hrun, hsane⟩ := hnew.exec run
  have hafter := hsane.observeThreads samples
  refine ⟨g, hrun, (hsane.summed.observeThreads? samples).1, ?_, complete_iff g samples, fun htimely => ?_⟩
  · rw [hafter.cached.edges_eq, hafter.summed.computeEdges_eq]
  have harrived := arrived_of_exec hrun
  have hcut : ∀ {a b : Nat}, a ≤ b → b < cutoff g.horizonSeconds (newest samples) →
      a < cutoff g.horizonSeconds (newest samples) := fun hab hb => lt_of_le_of_lt hab hb
  rintro (⟨t, hbad⟩ | ⟨k, h, hfind, -, hbad⟩)
  · have hall := htimely.1 t
    rw [List.flatMap_append, List.flatMap_singleton] at hall
    exact not_straddled (hall.sublist ((foldl_arrive_sublist _ _).trans ((harrived.samples t).append_right _)))
      (fun a b hab => hcut hab) hbad
  · have hall := htimely.2 k
    rw [List.flatMap_append, List.flatMap_singleton] at hall
    have hsub := harrived.relations k
    rw [OrdMap.getD, hfind] at hsub
    exact not_straddled (hall.sublist (hsub.trans (List.sublist_append_left _ _))) (fun a b hab => hcut hab) hbad

/-! ### A record that comes late -/

def sampledAt (tid : Tid) (seconds : Nat) : ThreadSample where
  identity := ⟨1, tid, 1⟩
  timestampNs := seconds * 10 ^ 9

def relatedAt (seconds : Nat) : RelationObservation where
  fromTid := 1
  toTid := 2
  timestampNs := seconds * 10 ^ 9
  futexPerSecond := 1

/-- Two records of one pair are replayed, the older one last. -/
def replayed : List Event :=
  [.observeThreads [sampledAt 1 100, sampledAt 2 100], .observeRelation (relatedAt 100), .observeRelation (relatedAt 10)]

/-- **The older record stays** behind the newer one, and the edge counts both. -/
theorem late_relation_stays : ∃ g, Run.exec step (new 60 {} Feed.libmOnce) replayed = some g ∧
    ¬ Complete (g.observeThreads [sampledAt 1 130, sampledAt 2 130]) (newest [sampledAt 1 130, sampledAt 2 130]) ∧
    (g.observeThreads [sampledAt 1 130, sampledAt 2 130]).relationHistories.entries =
      [(edgeKey 1 2, [relatedAt 100, relatedAt 10])] ∧
    (g.observeThreads [sampledAt 1 130, sampledAt 2 130]).edges.1.map (fun e => e.observationCount) = [2] := by
  have h : (Run.exec step (new 60 {} Feed.libmOnce) replayed).any (fun g => decide (g.horizonSeconds = 60 ∧
      (g.observeThreads [sampledAt 1 130, sampledAt 2 130]).relationHistories.entries =
        [(edgeKey 1 2, [relatedAt 100, relatedAt 10])] ∧
      (g.observeThreads [sampledAt 1 130, sampledAt 2 130]).edges.1.map (fun e => e.observationCount) = [2])) = true := by
    decide +kernel
  obtain ⟨g, hg, h⟩ := (Option.any_eq_true _ _).1 h
  obtain ⟨hsixty, hentries, hcounted⟩ := of_decide_eq_true h
  refine ⟨g, hg, fun hcomplete => ?_, hentries, hcounted⟩
  have hfind : (g.observeThreads [sampledAt 1 130, sampledAt 2 130]).relationHistories.find? (edgeKey 1 2) =
      some [relatedAt 100, relatedAt 10] := by
    rw [← OrdMap.mem_entries, hentries]
    exact List.mem_singleton.2 rfl
  have hlate := hcomplete.2 _ _ hfind (relatedAt 10) (by simp)
  rw [show (g.observeThreads [sampledAt 1 130, sampledAt 2 130]).horizonSeconds = 60 from
    (Faithful.horizon_foldl_observeSample _ _).trans hsixty] at hlate
  exact absurd hlate (by decide)

end GraphWindow
end AffinityGraph
