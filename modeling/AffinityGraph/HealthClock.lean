import AffinityGraph.BpfHealth
/-!
# HealthClock — the health samples between the worker and the main loop (`runtime.cpp`)

The worker of `run_bpf` stamps a sample before it takes the lock; `run` reads its `now` before it calls
`sample_bpf_health`, which takes the lock in its turn.  Between any two of these steps the clock and the other thread may
go on.  When the queue is found empty, the last stamp is still no later than `now`: a later one was queued after `now`
was read, and only the call itself empties the queue.
-/
namespace AffinityGraph

/-- `health_history_limit`. -/
def healthHistoryLimit : Nat := 64

/-- What the two threads share, and where each of them is. -/
structure HealthThreads where
  clock : Nat := 0
  pending : List PendingHealthSample := []
  lastSampleNs : Nat := 0
  /-- the sample the worker has stamped and not queued yet -/
  stamped : Option PendingHealthSample := none
  /-- the `now` of the main loop, from its reading to the call -/
  now : Option Nat := none
  monitor : HealthMonitor := {}
  /-- every stamp that was ever queued, the newest first -/
  queued : List Nat := []

namespace HealthThreads

inductive Event where
  /-- time goes on -/
  | tick (ns : Nat)
  /-- the worker reads the clock, and then the counters -/
  | stamp (sample : PendingHealthSample)
  /-- the worker, under the lock -/
  | queue
  /-- the main loop reads the clock -/
  | read
  /-- `sample_bpf_health`, under the lock; what follows it reads nothing of the worker's -/
  | sample

def pushSample (pending : List PendingHealthSample) (s : PendingHealthSample) : List PendingHealthSample :=
  (if healthHistoryLimit ≤ pending.length then pending.tail else pending) ++ [s]

def step (w : HealthThreads) : Event → Option HealthThreads
  | .tick ns => if w.clock ≤ ns ∧ ns < 2 ^ 64 then some { w with clock := ns } else none
  | .stamp s => if w.stamped.isNone ∧ s.timestampNs = w.clock then some { w with stamped := some s } else none
  | .queue => w.stamped.map (fun s => { w with
      pending := pushSample w.pending s
      lastSampleNs := s.timestampNs
      stamped := none
      queued := s.timestampNs :: w.queued })
  | .read => some { w with now := some w.clock }
  | .sample => w.now.map (fun now => { w with
      pending := []
      now := none
      monitor := w.monitor.sampleBpfHealth now w.lastSampleNs w.pending })

/-- **The order of the two clocks.** -/
structure Ordered (w : HealthThreads) : Prop where
  clock_lt : w.clock < 2 ^ 64
  last : w.lastSampleNs ≤ w.clock
  stamped : ∀ s ∈ w.stamped, w.lastSampleNs ≤ s.timestampNs ∧ s.timestampNs ≤ w.clock
  /-- what was queued after the reading is in the queue -/
  now : ∀ n ∈ w.now, n ≤ w.clock ∧ (w.pending = [] → w.lastSampleNs ≤ n)
  queued : ∀ t ∈ w.queued, t ≤ w.lastSampleNs

variable {w w' : HealthThreads}

/-- **Every step of either thread keeps the order.** -/
theorem Ordered.step (h : w.Ordered) {event : Event} (hstep : w.step event = some w') : w'.Ordered := by
  cases event with
  | tick ns =>
    by_cases hns : w.clock ≤ ns ∧ ns < 2 ^ 64
    · rw [HealthThreads.step, if_pos hns] at hstep
      cases hstep
      refine ⟨hns.2, h.last.trans hns.1, fun s hs => ?_, fun n hn => ?_, h.queued⟩
      · exact ⟨(h.stamped s hs).1, (h.stamped s hs).2.trans hns.1⟩
      · exact ⟨(h.now n hn).1.trans hns.1, (h.now n hn).2⟩
    · rw [HealthThreads.step, if_neg hns] at hstep
      cases hstep
  | stamp s =>
    by_cases hs : w.stamped.isNone ∧ s.timestampNs = w.clock
    · rw [HealthThreads.step, if_pos hs] at hstep
      cases hstep
      refine ⟨h.clock_lt, h.last, fun s' hs' => ?_, h.now, h.queued⟩
      cases hs'
      rw [hs.2]
      exact ⟨h.last, le_rfl⟩
    · rw [HealthThreads.step, if_neg hs] at hstep
      cases hstep
  | queue =>
    obtain ⟨s, hs, rfl⟩ := Option.map_eq_some_iff.1 hstep
    obtain ⟨hlast, hclock⟩ := h.stamped s hs
    refine ⟨h.clock_lt, hclock, fun s' hs' => ?_, fun n hn => ⟨(h.now n hn).1, fun hnil => ?_⟩, fun t ht => ?_⟩
    · cases hs'
    · exact absurd hnil (List.append_ne_nil_of_right_ne_nil _ (List.cons_ne_nil s []))
    · rcases List.mem_cons.1 ht with rfl | ht
      · exact le_rfl
      · exact (h.queued t ht).trans hlast
  | read =>
    cases hstep
    refine ⟨h.clock_lt, h.last, h.stamped, fun n hn => ?_, h.queued⟩
    cases hn
    exact ⟨le_rfl, fun _ => h.last⟩
  | sample =>
    obtain ⟨n, hn, rfl⟩ := Option.map_eq_some_iff.1 hstep
    refine ⟨h.clock_lt, h.last, h.stamped, fun n' hn' => ?_, h.queued⟩
    cases hn'

theorem ordered_init : Ordered {} := by
  refine ⟨by decide, le_rfl, fun s hs => ?_, fun n hn => ?_, fun t ht => ?_⟩
  · cases hs
  · cases hn
  · cases ht

theorem Ordered.of_run {events : List Event} (h : Run.exec HealthThreads.step {} events = some w) : w.Ordered :=
  Run.exec_keeps Ordered (fun _ _ _ hw hstep => hw.step hstep) ordered_init h

/-- **No false alarm**: whenever `sample_bpf_health` finds the queue empty, the last stamp is no later than its `now`, the
difference does not wrap, and the fatal error is raised only when every stamp that was queued is more than ten seconds
old. -/
theorem no_false_alarm {events : List Event} {now : Nat} (hrun : Run.exec HealthThreads.step {} events = some w)
    (hnow : w.now = some now) (hempty : w.pending = []) :
    w.lastSampleNs ≤ now ∧ subU64 now w.lastSampleNs = now - w.lastSampleNs ∧
    ∀ w', w.step .sample = some w' → w'.monitor ≠ w.monitor →
      w.lastSampleNs ≠ 0 ∧ ∀ t ∈ w.queued, t + 10000000000 < now := by
  have hw := Ordered.of_run hrun
  obtain ⟨hclock, hlast⟩ := hw.now now hnow
  have hle := hlast hempty
  have hsub : subU64 now w.lastSampleNs = now - w.lastSampleNs := subU64_of_le hle (hclock.trans_lt hw.clock_lt)
  refine ⟨hle, hsub, fun w' hstep hchanged => ?_⟩
  obtain ⟨n, hn, rfl⟩ := Option.map_eq_some_iff.1 hstep
  rw [hnow] at hn
  cases hn
  dsimp only at hchanged
  rw [hempty, HealthMonitor.sampleBpfHealth, if_pos List.isEmpty_nil, hsub] at hchanged
  by_cases hold : w.lastSampleNs ≠ 0 ∧ 10000000000 < now - w.lastSampleNs
  · refine ⟨hold.1, fun t ht => ?_⟩
    have := hw.queued t ht
    omega
  · rw [if_neg hold] at hchanged
    exact absurd rfl hchanged

theorem none_lt : 0 < 2 ^ 64 := by decide

/-- One sample is queued and taken at one second, the next is stamped at three and not queued yet. -/
def lateRun : List Event :=
  [.tick 1000000000, .read, .stamp { timestampNs := 1000000000, counters := ⟨0, 0, none_lt, none_lt⟩ }, .queue,
    .sample, .tick 3000000000, .stamp { timestampNs := 3000000000, counters := ⟨0, 0, none_lt, none_lt⟩ },
    .tick 4000000000, .read]

theorem no_false_alarm_late : ∃ w : HealthThreads, Run.exec HealthThreads.step {} lateRun = some w ∧
    w.now = some 4000000000 ∧ w.pending = [] ∧ w.lastSampleNs ≤ 4000000000 ∧
    subU64 4000000000 w.lastSampleNs = 4000000000 - w.lastSampleNs ∧
    ∀ w', w.step .sample = some w' → w'.monitor ≠ w.monitor →
      w.lastSampleNs ≠ 0 ∧ ∀ t ∈ w.queued, t + 10000000000 < 4000000000 := by
  have hsome : (Run.exec HealthThreads.step {} lateRun).any (fun w =>
      decide (w.now = some 4000000000) && w.pending.isEmpty) = true := by decide +kernel
  obtain ⟨w, hrun, hw⟩ := (Option.any_eq_true _ _).1 hsome
  rw [Bool.and_eq_true] at hw
  have hempty : w.pending = [] := List.isEmpty_iff.1 hw.2
  exact ⟨w, hrun, of_decide_eq_true hw.1, hempty, no_false_alarm hrun (of_decide_eq_true hw.1) hempty⟩

end HealthThreads
end AffinityGraph
