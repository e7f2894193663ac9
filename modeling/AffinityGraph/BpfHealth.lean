import AffinityGraph.Core
import AffinityGraph.Run
import Mathlib.Data.List.Infix
import Mathlib.Data.Rat.Defs
/-!
# BpfHealth — the loss window of the BPF collector (`runtime.cpp`, `sample_bpf_health`)

Every valid sample of the collector's counters is pushed on a queue that is emptied when a counter falls, and trimmed so
that at most one entry is 30 seconds old.  The loss ratio is taken against the oldest entry that is left.

A reset of the counters is seen only where it makes one of them fall.  `Observed` tells what the code cannot know, how
many resets there were before a sample; `loss_window` says what holds of the queue whatever they were.
-/
namespace AffinityGraph

/-- The two counters of `affinitygraph_bpf_health` that the window reads. -/
structure HealthCounters where
  emitted : Nat
  dropped : Nat
  emitted_lt : emitted < 2 ^ 64 := by decide
  dropped_lt : dropped < 2 ^ 64 := by decide
  deriving DecidableEq

structure PendingHealthSample where
  timestampNs : Nat
  valid : Bool := true
  counters : HealthCounters
  timestamp_lt : timestampNs < 2 ^ 64 := by decide

structure HealthMonitor where
  history : List (Nat × HealthCounters) := []
  healthValid : Bool := false
  consecutiveFailures : Int := 0
  failedSinceNs : Nat := 0
  windowReady : Bool := false
  windowLossRatio : ℚ := 0
  fatalError : String := ""

namespace HealthMonitor

/-- `constexpr uint64_t window`. -/
def windowNs : Nat := 30000000000

/-- `trigger_fatal`, as far as the message goes: the first one stays. -/
def triggerFatal (m : HealthMonitor) (message : String) : HealthMonitor :=
  if m.fatalError = "" then { m with fatalError := message } else m

/-- Drop the front while the second is old. -/
def trim {α : Type} (old : α → Bool) : List α → List α
  | a :: b :: l => if old b then trim old (b :: l) else a :: b :: l
  | l => l

def oldAt (nowNs : Nat) (e : Nat × HealthCounters) : Bool := decide (windowNs ≤ subU64 nowNs e.1)

/-- A counter is below the last one pushed. -/
def fellFrom (counters : HealthCounters) (history : List (Nat × HealthCounters)) : Bool :=
  match history.getLast? with
  | none => false
  | some last => decide (counters.emitted < last.2.emitted) || decide (counters.dropped < last.2.dropped)

def lossRatio (emitted dropped : Nat) : ℚ :=
  let total : Nat := (emitted + dropped) % 2 ^ 64
  if total ≠ 0 then (dropped : ℚ) / total else 0

/-- The queue after a valid sample. -/
def pushed (m : HealthMonitor) (s : PendingHealthSample) : List (Nat × HealthCounters) :=
  trim (oldAt s.timestampNs) ((if fellFrom s.counters m.history then [] else m.history) ++ [(s.timestampNs, s.counters)])

def takeInvalid (m : HealthMonitor) (s : PendingHealthSample) : HealthMonitor :=
  let failures := m.consecutiveFailures + 1
  let since := if m.failedSinceNs = 0 then s.timestampNs else m.failedSinceNs
  let m' := { m with healthValid := false, consecutiveFailures := failures, failedSinceNs := since }
  if 3 ≤ failures ∨ 5000000000 ≤ subU64 s.timestampNs since then m'.triggerFatal "BPF health map unavailable" else m'

def takeValid (m : HealthMonitor) (s : PendingHealthSample) : HealthMonitor :=
  let history := pushed m s
  let oldest := history.headD (s.timestampNs, s.counters)
  let ready := oldAt s.timestampNs oldest
  let loss := lossRatio (subU64 s.counters.emitted oldest.2.emitted) (subU64 s.counters.dropped oldest.2.dropped)
  let m' := { m with
    history := history, healthValid := true, consecutiveFailures := 0, failedSinceNs := 0
    windowReady := ready, windowLossRatio := loss }
  if ready = true ∧ 1 / 100 ≤ loss then m'.triggerFatal "30-second BPF loss ratio reached one percent" else m'

/-- The body of the loop over the samples. -/
def takeSample (m : HealthMonitor) (s : PendingHealthSample) : HealthMonitor :=
  if s.valid then m.takeValid s else m.takeInvalid s

/-- `sample_bpf_health` on the samples that were pending; the last one ever queued was taken at `latestSampleNs`. -/
def sampleBpfHealth (m : HealthMonitor) (nowNs latestSampleNs : Nat) (samples : List PendingHealthSample) :
    HealthMonitor :=
  if samples.isEmpty then
    if latestSampleNs ≠ 0 ∧ 10000000000 < subU64 nowNs latestSampleNs then
      m.triggerFatal "BPF health worker stopped sampling"
    else m
  else samples.foldl takeSample m

/-! ## What the window reads -/

/-- What the solvers' gates and the window itself read. -/
def window (m : HealthMonitor) : List (Nat × HealthCounters) × Bool × ℚ := (m.history, m.windowReady, m.windowLossRatio)

theorem window_fst (m : HealthMonitor) : m.window.1 = m.history := rfl

theorem window_ready (m : HealthMonitor) : m.window.2.1 = m.windowReady := rfl

theorem window_loss (m : HealthMonitor) : m.window.2.2 = m.windowLossRatio := rfl

@[simp] theorem window_triggerFatal (m : HealthMonitor) (message : String) : (m.triggerFatal message).window = m.window := by
  unfold triggerFatal
  split <;> rfl

@[simp] theorem history_triggerFatal (m : HealthMonitor) (message : String) :
    (m.triggerFatal message).history = m.history := congrArg Prod.fst (window_triggerFatal m message)

theorem window_takeInvalid (m : HealthMonitor) (s : PendingHealthSample) : (m.takeInvalid s).window = m.window := by
  unfold takeInvalid
  extract_lets failures since m'
  split
  · exact window_triggerFatal m' _
  · rfl

/-- A valid sample, unpacked. -/
theorem window_takeValid (m : HealthMonitor) (s : PendingHealthSample) :
    (m.takeValid s).window = (pushed m s, oldAt s.timestampNs ((pushed m s).headD (s.timestampNs, s.counters)),
      lossRatio (subU64 s.counters.emitted ((pushed m s).headD (s.timestampNs, s.counters)).2.emitted)
        (subU64 s.counters.dropped ((pushed m s).headD (s.timestampNs, s.counters)).2.dropped)) := by
  unfold takeValid
  extract_lets history oldest ready loss m'
  split
  · exact window_triggerFatal m' _
  · rfl

theorem window_takeSample {m m' : HealthMonitor} (h : m.window = m'.window) (s : PendingHealthSample) :
    (m.takeSample s).window = (m'.takeSample s).window := by
  have hhist : m.history = m'.history := congrArg Prod.fst h
  have hpushed : pushed m s = pushed m' s := by
    unfold pushed
    rw [hhist]
  unfold takeSample
  split
  · rw [window_takeValid, window_takeValid, hpushed]
  · rw [window_takeInvalid, window_takeInvalid, h]

theorem window_foldl {m m' : HealthMonitor} (h : m.window = m'.window) (l : List PendingHealthSample) :
    (l.foldl takeSample m).window = (l.foldl takeSample m').window := by
  induction l generalizing m m' with
  | nil => exact h
  | cons s l ih => exact ih (window_takeSample h s)

/-- One call. -/
structure Call where
  nowNs : Nat
  latestSampleNs : Nat
  samples : List PendingHealthSample

/-- The monitor after some calls. -/
def watched (calls : List Call) : HealthMonitor :=
  calls.foldl (fun m c => m.sampleBpfHealth c.nowNs c.latestSampleNs c.samples) {}

/-- How the samples are spread over the calls does not matter to the window. -/
theorem window_watched (calls : List Call) :
    (watched calls).window = ((calls.flatMap (·.samples)).foldl takeSample {}).window := by
  suffices h : ∀ (m m' : HealthMonitor), m.window = m'.window →
      (calls.foldl (fun m c => m.sampleBpfHealth c.nowNs c.latestSampleNs c.samples) m).window =
        ((calls.flatMap (·.samples)).foldl takeSample m').window from h {} {} rfl
  induction calls with
  | nil => exact fun _ _ h => h
  | cons c calls ih =>
    intro m m' h
    rw [List.foldl_cons, List.flatMap_cons, List.foldl_append]
    refine ih _ _ ?_
    unfold sampleBpfHealth
    split
    · rename_i hempty
      rw [List.isEmpty_iff.1 hempty, List.foldl_nil, ← h]
      split
      · exact window_triggerFatal _ _
      · rfl
    · exact window_foldl h c.samples

end HealthMonitor

/-! ## The queue and the samples it came from -/

/-- A sample, and how often the counters had been reset before it was taken. -/
structure Observed where
  sample : PendingHealthSample
  resets : Nat

namespace Observed

def entry (o : Observed) : Nat × HealthCounters := (o.sample.timestampNs, o.sample.counters)

/-- A counter is lower in the second sample: a reset shows. -/
def Falls (x y : Observed) : Prop :=
  y.sample.counters.emitted < x.sample.counters.emitted ∨ y.sample.counters.dropped < x.sample.counters.dropped

/-- Later, and no counter lower. -/
structure Le (x y : Observed) : Prop where
  time : x.sample.timestampNs ≤ y.sample.timestampNs
  emitted : x.sample.counters.emitted ≤ y.sample.counters.emitted
  dropped : x.sample.counters.dropped ≤ y.sample.counters.dropped

theorem Le.trans {x y z : Observed} (h : Le x y) (h' : Le y z) : Le x z :=
  ⟨h.time.trans h'.time, h.emitted.trans h'.emitted, h.dropped.trans h'.dropped⟩

end Observed

namespace HealthMonitor

section Trim

variable {α β : Type} {old : α → Bool}

theorem trim_suffix : ∀ (l : List α), trim old l <:+ l
  | [] => List.suffix_refl _
  | [_] => List.suffix_refl _
  | a :: b :: l => by
    rw [trim]
    split
    · exact (trim_suffix (b :: l)).trans (List.suffix_cons a _)
    · exact List.suffix_refl _

theorem trim_ne_nil : ∀ {l : List α}, l ≠ [] → trim old l ≠ []
  | [], h => absurd rfl h
  | [_], _ => List.cons_ne_nil _ _
  | a :: b :: l, _ => by
    rw [trim]
    split
    · exact trim_ne_nil (List.cons_ne_nil _ _)
    · exact List.cons_ne_nil _ _

theorem trim_map (f : β → α) : ∀ (l : List β), trim old (l.map f) = (trim (old ∘ f) l).map f
  | [] => rfl
  | [_] => rfl
  | a :: b :: l => by
    rw [List.map_cons, List.map_cons, trim, trim]
    have hrest := trim_map f (b :: l)
    rw [List.map_cons] at hrest
    by_cases h : old (f b) = true
    · rw [if_pos h, if_pos (show (old ∘ f) b = true from h), hrest]
    · rw [if_neg h, if_neg (show ¬ (old ∘ f) b = true from h), List.map_cons, List.map_cons]

/-- What is left behind the front is not old. -/
theorem trim_second {a b : α} {l : List α} : ∀ {l' : List α}, trim old l' = a :: b :: l → old b = false
  | [], h => by cases h
  | [_], h => by cases h
  | x :: y :: l', h => by
    rw [trim] at h
    by_cases hy : old y = true
    · rw [if_pos hy] at h
      exact trim_second h
    · rw [if_neg hy] at h
      cases h
      simpa using hy

end Trim

/-- **The queue, traced back**: it holds the latest valid samples, and none of their counters falls. -/
structure Traced (obs : List Observed) (history : List (Nat × HealthCounters)) (recent : List Observed) : Prop where
  latest : recent <:+ obs.filter (·.sample.valid)
  history : history = recent.map Observed.entry
  ordered : recent.Pairwise Observed.Le

theorem Traced.invalid {obs : List Observed} {history : List (Nat × HealthCounters)} {recent : List Observed}
    (h : Traced obs history recent) {o : Observed} (ho : o.sample.valid = false) : Traced (obs ++ [o]) history recent := by
  refine ⟨?_, h.history, h.ordered⟩
  rw [List.filter_append, List.filter_cons_of_neg (by simp [ho]), List.filter_nil, List.append_nil]
  exact h.latest

/-- The queue the sample is pushed on: empty when a counter fell, else all of it. -/
theorem Traced.cleared {obs : List Observed} {history : List (Nat × HealthCounters)} {recent : List Observed}
    (h : Traced obs history recent) {o : Observed} (ho : o.sample.valid = true)
    (htime : ∀ x ∈ obs, x.sample.timestampNs ≤ o.sample.timestampNs) :
    ∃ recent', Traced (obs ++ [o])
      ((if fellFrom o.sample.counters history then [] else history) ++ [o.entry]) (recent' ++ [o]) := by
  have hvalid : (obs ++ [o]).filter (·.sample.valid) = obs.filter (·.sample.valid) ++ [o] := by
    rw [List.filter_append, List.filter_cons_of_pos (by simpa using ho), List.filter_nil]
  by_cases hfell : fellFrom o.sample.counters history = true
  · refine ⟨[], ?_, ?_, List.pairwise_singleton _ _⟩
    · rw [hvalid]
      exact List.suffix_append _ _
    · rw [if_pos hfell]
      rfl
  · refine ⟨recent, ?_, ?_, ?_⟩
    · rw [hvalid]
      obtain ⟨pre, hpre⟩ := h.latest
      exact ⟨pre, by rw [← hpre, List.append_assoc]⟩
    · rw [if_neg hfell, h.history, List.map_append]
      rfl
    · refine List.pairwise_append.2 ⟨h.ordered, List.pairwise_singleton _ _, fun x hx y hy => ?_⟩
      rw [List.mem_singleton.1 hy]
      -- the sample is above the last one pushed, which is above all the others
      obtain ⟨last, hlast⟩ : ∃ last, recent.getLast? = some last := by
        cases hl : recent.getLast? with
        | none => rw [List.getLast?_eq_none_iff.1 hl] at hx; cases hx
        | some last => exact ⟨last, rfl⟩
      have hmem : last ∈ obs := List.mem_of_mem_filter (h.latest.subset (List.mem_of_getLast? hlast))
      have hnot : ¬ (o.sample.counters.emitted < last.sample.counters.emitted ∨
          o.sample.counters.dropped < last.sample.counters.dropped) := by
        intro hlow
        refine hfell ?_
        unfold fellFrom
        rw [h.history, List.getLast?_map, hlast]
        simpa [Observed.entry] using hlow
      rw [not_or, Nat.not_lt, Nat.not_lt] at hnot
      have hle : Observed.Le last o := ⟨htime last hmem, hnot.1, hnot.2⟩
      obtain ⟨front, hfront⟩ := List.getLast?_eq_some_iff.1 hlast
      rw [hfront] at hx
      rcases List.mem_append.1 hx with hx | hx
      · have hord := h.ordered
        rw [hfront] at hord
        exact ((List.pairwise_append.1 hord).2.2 x hx last (List.mem_singleton.2 rfl)).trans hle
      · rw [List.mem_singleton.1 hx]
        exact hle

theorem suffix_concat {α : Type} {l l' : List α} {a : α} (h : l' <:+ l ++ [a]) (hne : l' ≠ []) :
    ∃ front, l' = front ++ [a] := by
  obtain ⟨pre, hpre⟩ := h
  obtain ⟨front, last, rfl⟩ := List.eq_nil_or_concat' l' |>.resolve_left hne
  rw [← List.append_assoc] at hpre
  obtain ⟨-, hlast⟩ := List.append_inj' hpre rfl
  exact ⟨front, by rw [hlast]⟩

/-- No entry behind the first is old, when they are in the order of their times. -/
theorem young_of_second {now : Nat} (hnow : now < 2 ^ 64) : ∀ {l : List Observed}, l.Pairwise Observed.Le →
    (∀ x ∈ l, x.sample.timestampNs ≤ now) → (∀ a b l', l = a :: b :: l' → oldAt now b.entry = false) →
    ∀ x ∈ l.tail, now < x.sample.timestampNs + windowNs
  | [], _, _, _, x, hx => by cases hx
  | [_], _, _, _, x, hx => by cases hx
  | a :: b :: l, hord, hle, hsecond, x, hx => by
    have hb : now < b.sample.timestampNs + windowNs := by
      have hyoung := hsecond a b l rfl
      have hbnow := hle b (List.mem_cons_of_mem _ List.mem_cons_self)
      unfold oldAt at hyoung
      rw [decide_eq_false_iff_not, Observed.entry, subU64_of_le hbnow hnow] at hyoung
      omega
    rcases List.mem_cons.1 hx with rfl | hx
    · exact hb
    · have hbx := ((List.pairwise_cons.1 (List.pairwise_cons.1 hord).2).1 x hx).time
      omega

/-- A valid sample: what is left on the queue ends in it, and only the first can be old. -/
theorem Traced.valid {obs : List Observed} {m : HealthMonitor} {recent : List Observed} (h : Traced obs m.history recent)
    {o : Observed} (ho : o.sample.valid = true) (htime : ∀ x ∈ obs, x.sample.timestampNs ≤ o.sample.timestampNs) :
    ∃ front, Traced (obs ++ [o]) (pushed m o.sample) (front ++ [o]) ∧
      ∀ x ∈ (front ++ [o]).tail, o.sample.timestampNs < x.sample.timestampNs + windowNs := by
  obtain ⟨recent', h'⟩ := h.cleared ho htime
  have hpushed : pushed m o.sample =
      (trim (oldAt o.sample.timestampNs ∘ Observed.entry) (recent' ++ [o])).map Observed.entry := by
    unfold pushed
    rw [← trim_map, ← h'.history]
    rfl
  have hsuffix : trim (oldAt o.sample.timestampNs ∘ Observed.entry) (recent' ++ [o]) <:+ recent' ++ [o] := trim_suffix _
  obtain ⟨front, hfront⟩ := suffix_concat hsuffix (trim_ne_nil (by simp))
  have hord : (front ++ [o]).Pairwise Observed.Le := by
    rw [← hfront]
    exact h'.ordered.sublist hsuffix.sublist
  refine ⟨front, ⟨?_, by rw [hpushed, hfront], hord⟩, ?_⟩
  · rw [← hfront]
    exact hsuffix.trans h'.latest
  · refine young_of_second o.sample.timestamp_lt hord (fun x hx => ?_) (fun a b l hl => ?_)
    · rcases List.mem_append.1 hx with hx | hx
      · exact ((List.pairwise_append.1 hord).2.2 x hx o (List.mem_singleton.2 rfl)).time
      · rw [List.mem_singleton.1 hx]
    · rw [← hfront] at hl
      have hyoung : (oldAt o.sample.timestampNs ∘ Observed.entry) b = false := trim_second hl
      rwa [Function.comp_apply] at hyoung

theorem traced_foldl : ∀ (obs : List Observed), (obs.map (·.sample.timestampNs)).Pairwise (· ≤ ·) →
    ∃ recent, Traced obs ((obs.map (·.sample)).foldl takeSample {}).history recent := by
  intro obs
  induction obs using List.reverseRecOn with
  | nil => exact fun _ => ⟨[], List.suffix_refl _, rfl, List.Pairwise.nil⟩
  | append_singleton obs o ih =>
    intro htimes
    rw [List.map_append, List.pairwise_append] at htimes
    obtain ⟨recent, h⟩ := ih htimes.1
    rw [List.map_append, List.foldl_append, List.map_singleton, List.foldl_cons, List.foldl_nil]
    cases ho : o.sample.valid with
    | false =>
      have hkept : (takeSample ((obs.map (·.sample)).foldl takeSample {}) o.sample).history =
          ((obs.map (·.sample)).foldl takeSample {}).history := by
        rw [takeSample, if_neg (by simp [ho])]
        rw [← window_fst, window_takeInvalid, window_fst]
      rw [hkept]
      exact ⟨recent, h.invalid ho⟩
    | true =>
      have hkept : (takeSample ((obs.map (·.sample)).foldl takeSample {}) o.sample).history =
          pushed ((obs.map (·.sample)).foldl takeSample {}) o.sample := by
        rw [takeSample, if_pos ho]
        rw [← window_fst, window_takeValid]
      rw [hkept]
      obtain ⟨front, hfront, -⟩ := h.valid ho (fun x hx =>
        htimes.2.2 _ (List.mem_map_of_mem hx) _ (List.mem_singleton.2 rfl))
      exact ⟨_, hfront⟩

/-- Neighbours that agree make a list that agrees. -/
theorem same_of_neighbours {α β : Type} {f : α → β} : ∀ {l : List α}, (∀ x y, [x, y] <:+: l → f x = f y) →
    ∀ x ∈ l, ∀ y ∈ l, f x = f y
  | [], _, x, hx, _, _ => by cases hx
  | [a], _, x, hx, y, hy => by rw [List.mem_singleton.1 hx, List.mem_singleton.1 hy]
  | a :: b :: l, h, x, hx, y, hy => by
    have hab : f a = f b := h a b ⟨[], l, rfl⟩
    have hrest := same_of_neighbours (l := b :: l) (fun u v huv => h u v (huv.trans (List.suffix_cons a _).isInfix))
    have hto : ∀ z ∈ a :: b :: l, f z = f b := by
      intro z hz
      rcases List.mem_cons.1 hz with rfl | hz
      · exact hab
      · exact hrest z hz b List.mem_cons_self
    rw [hto x hx, hto y hy]

/-- **The loss window**, after a valid sample: the queue holds the latest valid samples in order of time and of both
counters, so that no subtraction wraps; the window is ready when the oldest is 30 seconds old, and then no other is; and
a reset inside it is one that made no counter fall. -/
structure LossWindow (obs : List Observed) (o : Observed) (m : HealthMonitor) (oldest : Observed) (rest : List Observed) :
    Prop where
  traced : Traced obs m.history (oldest :: rest)
  above : Observed.Le oldest o
  ready : m.windowReady = true ↔ oldest.sample.timestampNs + windowNs ≤ o.sample.timestampNs
  young : ∀ x ∈ rest, o.sample.timestampNs < x.sample.timestampNs + windowNs
  loss : m.windowLossRatio = lossRatio (o.sample.counters.emitted - oldest.sample.counters.emitted)
    (o.sample.counters.dropped - oldest.sample.counters.dropped)
  hidden : ∀ x y, [x, y] <:+: oldest :: rest → x.resets ≠ y.resets → ¬ Observed.Falls x y
  shown : (∀ x y, [x, y] <:+: obs.filter (·.sample.valid) → x.resets ≠ y.resets → Observed.Falls x y) →
    ∀ x ∈ oldest :: rest, x.resets = o.resets

theorem loss_window (calls : List Call) (obs : List Observed) (o : Observed)
    (hsamples : calls.flatMap (·.samples) = (obs ++ [o]).map (·.sample))
    (htimes : ((obs ++ [o]).map (·.sample.timestampNs)).Pairwise (· ≤ ·)) (ho : o.sample.valid = true) :
    ∃ oldest rest, LossWindow (obs ++ [o]) o (watched calls) oldest rest := by
  have htimes' := htimes
  rw [List.map_append, List.pairwise_append] at htimes'
  obtain ⟨recent, h⟩ := traced_foldl obs htimes'.1
  obtain ⟨front, hfront, hyoung⟩ := h.valid ho (fun x hx =>
    htimes'.2.2 _ (List.mem_map_of_mem hx) _ (List.mem_singleton.2 rfl))
  have hwindow : (watched calls).window =
      (takeValid ((obs.map (·.sample)).foldl takeSample {}) o.sample).window := by
    rw [window_watched, hsamples, List.map_append, List.foldl_append, List.map_singleton, List.foldl_cons, List.foldl_nil,
      takeSample, if_pos ho]
  rw [window_takeValid] at hwindow
  have hhistory : (watched calls).history = pushed ((obs.map (·.sample)).foldl takeSample {}) o.sample := by
    rw [← window_fst, hwindow]
  obtain ⟨oldest, rest, hcons⟩ := List.exists_cons_of_ne_nil (l := front ++ [o]) (by simp)
  rw [hcons] at hfront hyoung
  have hhead : (pushed ((obs.map (·.sample)).foldl takeSample {}) o.sample).headD
      (o.sample.timestampNs, o.sample.counters) = oldest.entry := by
    rw [hfront.history]
    rfl
  rw [hhead] at hwindow
  have hlast : o ∈ oldest :: rest := by
    rw [← hcons]
    simp
  have habove : Observed.Le oldest o := by
    rcases List.mem_cons.1 hlast with rfl | hmem
    · exact ⟨le_rfl, le_rfl, le_rfl⟩
    · exact (List.pairwise_cons.1 hfront.ordered).1 o hmem
  have hneighbours : ∀ x y, [x, y] <:+: oldest :: rest → ¬ Observed.Falls x y := by
    intro x y hxy hfalls
    have hpair := List.pairwise_pair.1 (hfront.ordered.sublist hxy.sublist)
    rcases hfalls with hfalls | hfalls
    · exact absurd hpair.emitted (Nat.not_le.2 hfalls)
    · exact absurd hpair.dropped (Nat.not_le.2 hfalls)
  refine ⟨oldest, rest, ⟨hfront.latest, hhistory.trans hfront.history, hfront.ordered⟩, habove, ?_, hyoung, ?_,
    fun x y hxy _ => hneighbours x y hxy, fun hshown x hx => ?_⟩
  · rw [← window_ready, hwindow, oldAt, decide_eq_true_eq, Observed.entry, subU64_of_le habove.time o.sample.timestamp_lt]
    have := habove.time
    constructor <;> intro hold <;> omega
  · rw [← window_loss, hwindow, Observed.entry, subU64_of_le habove.emitted o.sample.counters.emitted_lt,
      subU64_of_le habove.dropped o.sample.counters.dropped_lt]
  · refine same_of_neighbours (f := Observed.resets) (fun u v huv => ?_) x hx o hlast
    by_contra hne
    exact hneighbours u v huv (hshown u v (huv.trans hfront.latest.isInfix) hne)

/-- Two samples 31 seconds apart. -/
def twoSamples (resets : Nat) : List Observed :=
  [⟨{ timestampNs := 0, counters := { emitted := 5, dropped := 0 } }, 0⟩,
    ⟨{ timestampNs := 31000000000, counters := { emitted := 10, dropped := 0 } }, resets⟩]

def twoSamplesCalls (resets : Nat) : List Call := [⟨0, 0, (twoSamples resets).map (·.sample)⟩]

theorem loss_window_twoSamples : ∃ oldest rest,
    LossWindow (twoSamples 0) ⟨{ timestampNs := 31000000000, counters := { emitted := 10, dropped := 0 } }, 0⟩
      (watched (twoSamplesCalls 0)) oldest rest :=
  loss_window (twoSamplesCalls 0) [⟨{ timestampNs := 0, counters := { emitted := 5, dropped := 0 } }, 0⟩] _ rfl
    (by decide) rfl

/-- **A reset that the counters have outgrown is not seen**: they were reset between the two samples, and the window that
is ready at the second one goes back to the first. -/
theorem window_spans_reset :
    (watched (twoSamplesCalls 1)).windowReady = true ∧
    (watched (twoSamplesCalls 1)).history = (twoSamples 1).map Observed.entry ∧
    ¬ ∀ x ∈ twoSamples 1, ∀ y ∈ twoSamples 1, x.resets = y.resets := by
  refine ⟨by decide +kernel, by decide +kernel, fun h => ?_⟩
  exact absurd (h _ List.mem_cons_self _ (List.mem_cons_of_mem _ List.mem_cons_self)) (by decide)

end HealthMonitor
end AffinityGraph
