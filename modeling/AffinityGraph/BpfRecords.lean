import AffinityGraph.BpfAggregates
/-!
# BpfRecords — what the records on the ring tell

An event puts at most one record on the ring, and counts it (`outcome`).  The counters of the kinds are those of the records
(`ring_accounted`).  What a program leaves for a later one under a key is what the later one finds: a record is about a
thread whose process has the entry that the last event to enter it left, set by the supervisor or inherited
(`records_followed`), an affinity record is the last call of its thread that was noted (`affinity_records`), and a fork's
start routine the last one announced (`fork_routines`).
-/
namespace AffinityGraph
namespace BpfProgram

/-! ## What one event puts on the ring -/

/-- The routine a new thread takes over from its creator. -/
def routineFor (s : BpfProgram) (parent child : Task) : Nat :=
  if child.tgid ≠ parent.tgid then 0 else (s.pendingPthreads.lookup (threadKey parent)).elim 0 (·.routine)

/-- The throttle lets a rename through. -/
def Spaced (s : BpfProgram) (task : Task) (now : Nat) : Prop :=
  ∀ last, s.renameThrottle.lookup (threadKey task) = some last → renameMinIntervalNs ≤ subU64 now last

/-- A firing that ends in `emit_event`, with the record and the time it emits it at. -/
inductive Emits (s : BpfProgram) : ProgramEvent → BpfEvent → Nat → Bool → Prop where
  | fork {parent child : Task} {now : Nat} {fits room : Bool} (ht : s.trackedTask parent.tgid parent = true) :
      Emits s (.fork parent child now fits room) (forkEvent parent child (s.routineFor parent child)) now room
  | exec {task : Task} {now : Nat} {fits room : Bool} (ht : s.trackedTask task.tgid task = true) :
      Emits s (.exec task now fits room) (execEvent task) now room
  | exit {task : Task} {now : Nat} {room : Bool} (ht : s.trackedTask task.tgid task = true) :
      Emits s (.exit task now room) (exitEvent task) now room
  | rename {task : Task} {name : String} {now emitNow : Nat} {fits room : Bool} (ht : s.trackedTask task.tgid task = true)
      (hs : s.Spaced task now) :
      Emits s (.rename task name now emitNow fits room) (renameEvent task name) emitNow room
  | affinity {key : ThreadKey} {pending : PendingAffinity} {now : Nat} {room : Bool}
      (hp : s.pendingAffinities.lookup key = some pending) :
      Emits s (.setaffinityExit key 0 now room) (affinityEvent key pending) now room

/-- What an event does to the ring and the counters. -/
inductive Outcome (s : BpfProgram) (e : ProgramEvent) (s' : BpfProgram) : Prop where
  | quiet (hr : s'.ring = s.ring) (hh : s'.health = s.health)
  | emitted {event : BpfEvent} {now : Nat} {room : Bool} (he : Emits s e event now room)
      (hr : s'.ring = if room then s.ring ++ [{ event with timestampNs := now }] else s.ring)
      (hh : s'.health = (s.accountEmit event.kind room).health)
  | settled {kind : EventKind} {taken : Bool} (hk : kind.isLifecycle = false) (hr : s'.ring = s.ring)
      (hh : s'.health = (s.accountEmit kind taken).health)
  | suppressed (hr : s'.ring = s.ring) (hh : s'.health = (s.accountSuppressed .taskRename).health)

section Emission

variable (s : BpfProgram) (event : BpfEvent) (kind : EventKind) (now : Nat) (taken room : Bool)

@[simp] theorem ring_accountEmit : (accountEmit s kind taken).ring = s.ring := by unfold accountEmit; split <;> rfl

@[simp] theorem pids_accountEmit : (accountEmit s kind taken).pids = s.pids := by unfold accountEmit; split <;> rfl

@[simp] theorem pendingPthreads_accountEmit : (accountEmit s kind taken).pendingPthreads = s.pendingPthreads := by
  unfold accountEmit
  split <;> rfl

@[simp] theorem pendingAffinities_accountEmit : (accountEmit s kind taken).pendingAffinities = s.pendingAffinities := by
  unfold accountEmit
  split <;> rfl

theorem health_accountEmit_congr {t : BpfProgram} (h : t.health = s.health) :
    (accountEmit t kind taken).health = (accountEmit s kind taken).health := by
  unfold accountEmit
  split <;> simp [h]

theorem ring_emitEvent :
    (emitEvent s event now room).ring = if room then s.ring ++ [{ event with timestampNs := now }] else s.ring := by
  unfold emitEvent
  split
  · rw [ring_accountEmit]
  · rw [ring_accountEmit]

theorem health_emitEvent : (emitEvent s event now room).health = (accountEmit s event.kind room).health := by
  unfold emitEvent
  split
  · rename_i hroom
    rw [hroom]
    exact health_accountEmit_congr _ _ _ rfl
  · rename_i hroom
    rw [Bool.not_eq_true] at hroom
    rw [hroom]

@[simp] theorem pids_emitEvent : (emitEvent s event now room).pids = s.pids := by unfold emitEvent; split <;> simp

@[simp] theorem pendingPthreads_emitEvent : (emitEvent s event now room).pendingPthreads = s.pendingPthreads := by
  unfold emitEvent
  split <;> simp

@[simp] theorem pendingAffinities_emitEvent : (emitEvent s event now room).pendingAffinities = s.pendingAffinities := by
  unfold emitEvent
  split <;> simp

end Emission

section Outcomes

variable {s s' : BpfProgram} {e : ProgramEvent} {ev : BpfEvent}

/-- An emission from a state with the same ring and counters. -/
theorem Emits.outcome {t : BpfProgram} {event : BpfEvent} {now : Nat} {room : Bool} (he : Emits s e event now room)
    (hr : t.ring = s.ring) (hh : t.health = s.health) : Outcome s e (emitEvent t event now room) := by
  refine .emitted he ?_ ?_
  · rw [ring_emitEvent, hr]
  · rw [health_emitEvent, health_accountEmit_congr s event.kind room hh]

theorem tracked_of_not {task : Task} (h : ¬ (!s.trackedTask task.tgid task) = true) : s.trackedTask task.tgid task = true := by
  simpa using h

theorem outcome_onFork (parent child : Task) (now : Nat) (fits room : Bool) :
    Outcome s (.fork parent child now fits room) (s.onFork parent child now fits room) := by
  unfold onFork
  split
  · exact .quiet rfl rfl
  · rename_i ht
    have he : Emits s (.fork parent child now fits room) (forkEvent parent child (s.routineFor parent child)) now room :=
      .fork (tracked_of_not ht)
    dsimp only
    split
    · rename_i hne
      have hroutine : s.routineFor parent child = 0 := if_pos hne
      rw [hroutine] at he
      exact he.outcome rfl rfl
    · rename_i heq
      split
      · rename_i pending hp
        have hroutine : s.routineFor parent child = pending.routine := by
          unfold routineFor
          rw [if_neg heq, hp]
          rfl
        rw [hroutine] at he
        exact he.outcome rfl rfl
      · rename_i hp
        have hroutine : s.routineFor parent child = 0 := by
          unfold routineFor
          rw [if_neg heq, hp]
          rfl
        rw [hroutine] at he
        exact he.outcome rfl rfl

theorem outcome_onExec (task : Task) (now : Nat) (fits room : Bool) :
    Outcome s (.exec task now fits room) (s.onExec task now fits room) := by
  unfold onExec
  split
  · exact .quiet rfl rfl
  · rename_i ht
    have he : Emits s (.exec task now fits room) (execEvent task) now room := .exec (tracked_of_not ht)
    split
    · split <;> exact he.outcome rfl rfl
    · exact he.outcome rfl rfl

theorem outcome_onRename (task : Task) (name : String) (now emitNow : Nat) (fits room : Bool) :
    Outcome s (.rename task name now emitNow fits room) (s.onRename task name now emitNow fits room) := by
  unfold onRename
  split
  · exact .quiet rfl rfl
  · rename_i ht
    split
    · exact .suppressed rfl rfl
    · rename_i hspaced
      refine (Emits.rename (tracked_of_not ht) (fun last hl => ?_)).outcome rfl rfl
      rw [hl, Option.any_some, decide_eq_true_eq, not_lt] at hspaced
      exact hspaced

theorem outcome_onSetaffinityExit (key : ThreadKey) (ret : Int) (now : Nat) (room : Bool) :
    Outcome s (.setaffinityExit key ret now room) (s.onSetaffinityExit key ret now room) := by
  unfold onSetaffinityExit
  split
  · exact .quiet rfl rfl
  · rename_i pending hp
    dsimp only
    split
    · rename_i hret
      subst hret
      exact (Emits.affinity hp).outcome rfl rfl
    · exact .quiet rfl rfl

theorem outcome_resume (cpu now : Nat) (fits : Bool) (point : Point) :
    Outcome s (.resume cpu now fits) (s.resume cpu now fits point) := by
  cases point with
  | futexWaiter task key waiter =>
    change Outcome s _ (s.futexPair cpu task key waiter)
    unfold futexPair
    split
    · split <;> exact .quiet rfl rfl
    · exact .quiet rfl rfl
  | futexAggregate key aggregateKey found => exact .quiet rfl rfl
  | futexEmit key taken =>
    exact .settled (rfl : EventKind.futex.isLifecycle = false) (ring_accountEmit _ _ _) rfl
  | futexLeave key => exact .quiet rfl rfl
  | fdPrevious task key previous =>
    change Outcome s _ (s.fdPair cpu now task key previous)
    unfold fdPair
    split
    · split <;> exact .quiet rfl rfl
    · exact .quiet rfl rfl
  | fdAggregate task key read aggregateKey elapsed found => exact .quiet rfl rfl
  | fdEmit task key read taken =>
    exact .settled (rfl : EventKind.vfs.isLifecycle = false) (ring_accountEmit _ _ _) rfl
  | fdLeave task key read => exact .quiet rfl rfl

/-- **What an event does to the ring and the counters.** -/
theorem outcome (h : step s e = some s') : Outcome s e s' := by
  cases e with
  | fork parent child now fits room =>
    cases h
    exact outcome_onFork parent child now fits room
  | exec task now fits room =>
    cases h
    exact outcome_onExec task now fits room
  | exit task now room =>
    cases h
    unfold onExit
    split
    · exact .quiet rfl rfl
    · rename_i ht
      exact (Emits.exit (tracked_of_not ht)).outcome rfl rfl
  | rename task name now emitNow fits room =>
    cases h
    exact outcome_onRename task name now emitNow fits room
  | pthreadCreate task routine now fits =>
    cases h
    unfold onPthreadCreate
    split <;> exact .quiet rfl rfl
  | pthreadCreateReturn task =>
    cases h
    unfold onPthreadCreateReturn
    split <;> exact .quiet rfl rfl
  | setaffinityEnter task call fits =>
    cases h
    unfold onSetaffinityEnter
    split <;> exact .quiet rfl rfl
  | setaffinityExit key ret now room =>
    cases h
    exact outcome_onSetaffinityExit key ret now room
  | futex cpu task address operation fits =>
    obtain ⟨-, rfl⟩ := step_futex h
    unfold onFutex
    split
    · exact .quiet rfl rfl
    · split <;> exact .quiet rfl rfl
  | fd cpu task fd file =>
    obtain ⟨-, rfl⟩ := step_fd h
    unfold accountFd
    split
    · exact .quiet rfl rfl
    · split
      · exact .quiet rfl rfl
      · split
        · exact .quiet rfl rfl
        · split <;> exact .quiet rfl rfl
  | resume cpu now fits =>
    obtain ⟨point, -, rfl⟩ := step_resume h
    exact outcome_resume cpu now fits point
  | evictRename key => cases h; exact .quiet rfl rfl
  | evictWaiter key => cases h; exact .quiet rfl rfl
  | evictResource key => cases h; exact .quiet rfl rfl
  | addTarget pid => cases h; exact .quiet rfl rfl
  | takeFutex key =>
    cases h
    unfold takeFutex
    split <;> exact .quiet rfl rfl
  | takeVfs key =>
    cases h
    unfold takeVfs
    split <;> exact .quiet rfl rfl

theorem Emits.isLifecycle {event : BpfEvent} {now : Nat} {room : Bool} (h : Emits s e event now room) :
    event.kind.isLifecycle = true := by
  cases h <;> rfl

/-- A record on the ring was there before the event, or the event put it there. -/
theorem ring_step (h : step s e = some s') (hev : ev ∈ s'.ring) :
    ev ∈ s.ring ∨ ∃ event now, Emits s e event now true ∧ ev = { event with timestampNs := now } := by
  rcases outcome h with ⟨hr, -⟩ | ⟨he, hr, -⟩ | ⟨-, hr, -⟩ | ⟨hr, -⟩
  · exact Or.inl (hr ▸ hev)
  · rename_i event now room
    rw [hr] at hev
    cases room with
    | false => exact Or.inl hev
    | true =>
      rcases List.mem_append.1 hev with hold | hnew
      · exact Or.inl hold
      · exact Or.inr ⟨event, now, he, List.mem_singleton.1 hnew⟩
  · exact Or.inl (hr ▸ hev)
  · exact Or.inl (hr ▸ hev)

/-- **The firing behind a record.** -/
theorem exists_firing : ∀ {run : List ProgramEvent} {s : BpfProgram}, Run.exec step {} run = some s → ev ∈ s.ring →
    ∃ pre e post t event now, run = pre ++ e :: post ∧ Run.exec step {} pre = some t ∧ Emits t e event now true ∧
      ev = { event with timestampNs := now } := by
  intro run
  induction run using List.reverseRecOn with
  | nil =>
    intro s h hev
    cases h
    cases hev
  | append_singleton run e ih =>
    intro s h hev
    obtain ⟨t, ht, he⟩ := Run.exec_concat h
    rcases ring_step he hev with hold | ⟨event, now, hemits, rfl⟩
    · obtain ⟨pre, e', post, u, event, now, rfl, hu, hemits, hev'⟩ := ih ht hold
      exact ⟨pre, e', post ++ [e], u, event, now, by simp, hu, hemits, hev'⟩
    · exact ⟨run, e, [], t, event, now, rfl, ht, hemits, rfl⟩

end Outcomes

/-! ## The maps that tell the lifecycle programs of each other -/

structure Kept where
  pids : KernelMap Int Target
  pendingPthreads : KernelMap ThreadKey PendingPthread
  pendingAffinities : KernelMap ThreadKey PendingAffinity

def kept (s : BpfProgram) : Kept where
  pids := s.pids
  pendingPthreads := s.pendingPthreads
  pendingAffinities := s.pendingAffinities

/-- The events that write them. -/
def leaves : ProgramEvent → Bool
  | .fork .. => true
  | .exec .. => true
  | .pthreadCreate .. => true
  | .pthreadCreateReturn .. => true
  | .setaffinityEnter .. => true
  | .setaffinityExit .. => true
  | .addTarget .. => true
  | _ => false

section Keeps

variable {s s' : BpfProgram} {e : ProgramEvent}

theorem kept_accountEmit (kind : EventKind) (taken : Bool) : kept (accountEmit s kind taken) = kept s := by
  simp [kept]

theorem kept_emitEvent (event : BpfEvent) (now : Nat) (room : Bool) : kept (emitEvent s event now room) = kept s := by
  simp [kept]

theorem kept_resume (cpu now : Nat) (fits : Bool) (point : Point) : kept (s.resume cpu now fits point) = kept s := by
  cases point with
  | futexWaiter task key waiter =>
    change kept (s.futexPair cpu task key waiter) = kept s
    unfold futexPair
    split
    · split <;> rfl
    · rfl
  | futexAggregate key aggregateKey found => rfl
  | futexEmit key taken => exact kept_accountEmit _ _
  | futexLeave key => rfl
  | fdPrevious task key previous =>
    change kept (s.fdPair cpu now task key previous) = kept s
    unfold fdPair
    split
    · split <;> rfl
    · rfl
  | fdAggregate task key read aggregateKey elapsed found => rfl
  | fdEmit task key read taken => exact kept_accountEmit _ _
  | fdLeave task key read => rfl

/-- The other programs, the evictions and the reader leave these maps alone. -/
theorem kept_of_not_leaves (hc : leaves e = false) (h : step s e = some s') : kept s' = kept s := by
  cases e with
  | exit task now room =>
    cases h
    unfold onExit
    split
    · rfl
    · exact kept_emitEvent _ _ _
  | rename task name now emitNow fits room =>
    cases h
    unfold onRename
    split
    · rfl
    · split
      · rfl
      · exact kept_emitEvent _ _ _
  | futex cpu task address operation fits =>
    obtain ⟨-, rfl⟩ := step_futex h
    unfold onFutex
    split
    · rfl
    · split <;> rfl
  | fd cpu task fd file =>
    obtain ⟨-, rfl⟩ := step_fd h
    unfold accountFd
    split
    · rfl
    · split
      · rfl
      · split
        · rfl
        · split <;> rfl
  | resume cpu now fits =>
    obtain ⟨point, -, rfl⟩ := step_resume h
    exact kept_resume _ _ _ point
  | evictRename key =>
    cases h
    rfl
  | evictWaiter key =>
    cases h
    rfl
  | evictResource key =>
    cases h
    rfl
  | takeFutex key =>
    cases h
    unfold takeFutex
    split <;> rfl
  | takeVfs key =>
    cases h
    unfold takeVfs
    split <;> rfl
  | _ => cases hc

end Keeps

/-! ## The counters -/

/-- The kinds below `AFFINITYGRAPH_EVENT_KIND_COUNT`. -/
def kinds : List EventKind := [.taskFork, .taskExit, .futex, .vfs, .taskExec, .taskRename, .affinity]

def sumOf (counts : EventKind → Nat) : Nat := (kinds.map counts).sum

/-- The counters agree with the ring, and with each other. -/
structure Accounted (s : BpfProgram) : Prop where
  lifecycle : ∀ ev ∈ s.ring, ev.kind.isLifecycle = true
  emittedByKind : ∀ kind, kind.isLifecycle = true →
    s.health.emittedByKind kind = s.ring.countP (fun ev => decide (ev.kind = kind)) % 2 ^ 64
  emitted : s.health.emitted = sumOf s.health.emittedByKind % 2 ^ 64
  dropped : s.health.dropped = sumOf s.health.droppedByKind % 2 ^ 64
  suppressed : ∀ kind, kind ≠ .taskRename → s.health.suppressedByKind kind = 0

theorem sumOf_countKind (counts : EventKind → Nat) (kind : EventKind) :
    sumOf (countKind counts kind) % 2 ^ 64 = addU64 (sumOf counts % 2 ^ 64) 1 := by
  cases kind <;> simp [sumOf, kinds, countKind, addU64] <;> omega

section Accounts

variable {s s' : BpfProgram} {e : ProgramEvent}

theorem Accounted.start : Accounted {} :=
  ⟨fun _ h => absurd h List.not_mem_nil, fun _ _ => rfl, rfl, rfl, fun _ _ => rfl⟩

theorem Accounted.emit {event : BpfEvent} {now : Nat} {room : Bool} (ha : Accounted s) (hk : event.kind.isLifecycle = true)
    (hr : s'.ring = if room then s.ring ++ [{ event with timestampNs := now }] else s.ring)
    (hh : s'.health = (s.accountEmit event.kind room).health) : Accounted s' := by
  cases room with
  | false =>
    refine ⟨?_, ?_, ?_, ?_, ?_⟩
    · rw [hr]; exact ha.lifecycle
    · rw [hr, hh]; exact ha.emittedByKind
    · rw [hh]; exact ha.emitted
    · rw [hh]
      change addU64 s.health.dropped 1 = sumOf (countKind s.health.droppedByKind event.kind) % 2 ^ 64
      rw [sumOf_countKind, ha.dropped]
    · rw [hh]; exact ha.suppressed
  | true =>
    refine ⟨?_, ?_, ?_, ?_, ?_⟩
    · rw [hr]
      intro ev hev
      rcases List.mem_append.1 hev with hold | hnew
      · exact ha.lifecycle ev hold
      · rw [List.mem_singleton.1 hnew]; exact hk
    · intro kind hkind
      rw [hr, hh, if_pos rfl, List.countP_append, List.countP_singleton]
      change countKind s.health.emittedByKind event.kind kind = _
      rw [countKind, ha.emittedByKind kind hkind, addU64]
      by_cases heq : kind = event.kind
      · rw [if_pos heq, if_pos (by simp [heq])]
        omega
      · rw [if_neg heq, if_neg (by simpa using Ne.symm heq), Nat.add_zero]
    · rw [hh]
      change addU64 s.health.emitted 1 = sumOf (countKind s.health.emittedByKind event.kind) % 2 ^ 64
      rw [sumOf_countKind, ha.emitted]
    · rw [hh]; exact ha.dropped
    · rw [hh]; exact ha.suppressed

theorem Accounted.settle {kind : EventKind} {taken : Bool} (ha : Accounted s) (hk : kind.isLifecycle = false)
    (hr : s'.ring = s.ring) (hh : s'.health = (s.accountEmit kind taken).health) : Accounted s' := by
  cases taken with
  | false =>
    refine ⟨hr ▸ ha.lifecycle, ?_, ?_, ?_, ?_⟩
    · rw [hr, hh]; exact ha.emittedByKind
    · rw [hh]; exact ha.emitted
    · rw [hh]
      change addU64 s.health.dropped 1 = sumOf (countKind s.health.droppedByKind kind) % 2 ^ 64
      rw [sumOf_countKind, ha.dropped]
    · rw [hh]; exact ha.suppressed
  | true =>
    refine ⟨hr ▸ ha.lifecycle, ?_, ?_, ?_, ?_⟩
    · intro other hother
      rw [hr, hh]
      change countKind s.health.emittedByKind kind other = _
      rw [countKind, if_neg (fun heq => by rw [heq, hk] at hother; cases hother)]
      exact ha.emittedByKind other hother
    · rw [hh]
      change addU64 s.health.emitted 1 = sumOf (countKind s.health.emittedByKind kind) % 2 ^ 64
      rw [sumOf_countKind, ha.emitted]
    · rw [hh]; exact ha.dropped
    · rw [hh]; exact ha.suppressed

theorem Accounted.step (ha : Accounted s) (h : step s e = some s') : Accounted s' := by
  rcases outcome h with ⟨hr, hh⟩ | ⟨he, hr, hh⟩ | ⟨hk, hr, hh⟩ | ⟨hr, hh⟩
  · exact ⟨hr ▸ ha.lifecycle, by rw [hr, hh]; exact ha.emittedByKind, hh ▸ ha.emitted, hh ▸ ha.dropped, hh ▸ ha.suppressed⟩
  · exact ha.emit he.isLifecycle hr hh
  · exact ha.settle hk hr hh
  · refine ⟨hr ▸ ha.lifecycle, by rw [hr, hh]; exact ha.emittedByKind, hh ▸ ha.emitted, hh ▸ ha.dropped, fun kind hkind => ?_⟩
    rw [hh]
    change countKind s.health.suppressedByKind .taskRename kind = 0
    rw [countKind, if_neg hkind]
    exact ha.suppressed kind hkind

end Accounts

/-- **In every run the counters of the kinds that go through the ring are the records on it, and the totals the sums of the
counters.** -/
theorem ring_accounted {run : List ProgramEvent} {s : BpfProgram} (h : Run.exec step {} run = some s) : Accounted s :=
  Run.exec_keeps Accounted (fun _ _ _ ha hs => ha.step hs) Accounted.start h

def leader : Task := ⟨7, 7, 100, some 100, "run"⟩

def worker : Task := ⟨7, 8, 200, some 100, "run"⟩

/-- A target starts, its first thread creates another, and that one asks for two CPUs. -/
def created : List ProgramEvent :=
  [.addTarget 7, .exec leader 10 true true, .pthreadCreate leader 4096 20 true, .fork leader worker 30 true true,
    .setaffinityEnter worker ⟨0, 8, [0, 1]⟩ true, .setaffinityExit ⟨7, 8⟩ 0 40 true]

theorem ring_accounted_created : ∃ s, Run.exec step {} created = some s ∧
    s.ring.map (·.kind) = [.taskExec, .taskFork, .affinity] ∧ s.health.emittedByKind .taskFork = 1 := by
  have hrun : (Run.exec step {} created).any (fun s =>
      decide (s.ring.map (·.kind) = [.taskExec, .taskFork, .affinity])) = true := by decide +kernel
  obtain ⟨s, hs, h⟩ := (Option.any_eq_true _ _).1 hrun
  have hkinds := of_decide_eq_true h
  refine ⟨s, hs, hkinds, ?_⟩
  have hcount : s.ring.countP (fun ev => decide (ev.kind = .taskFork)) =
      (s.ring.map (·.kind)).countP (fun kind => decide (kind = .taskFork)) := by
    rw [List.countP_map]
    rfl
  rw [(ring_accounted hs).emittedByKind .taskFork rfl, hcount, hkinds]
  rfl

/-! ## What one program leaves for another -/

/-- What an event does to the entry of a process: the supervisor sets it, a fork into a new process inherits its parent's
root, and an `exec` gives an entry that has no start time its own. -/
def touchTarget (tgid : Int) (s : BpfProgram) : ProgramEvent → Option (Option Target)
  | .addTarget pid => if pid = tgid then some (some ⟨pid, 0⟩) else none
  | .fork parent child _ fits _ =>
    if s.trackedTask parent.tgid parent = true ∧ child.tgid ≠ parent.tgid ∧ fits = true ∧ child.tgid = tgid then
      some (some ⟨((s.pids.lookup parent.tgid).map (·.rootTgid)).getD parent.tgid, child.startTimeNs⟩)
    else none
  | .exec task _ fits _ =>
    match s.pids.lookup task.tgid with
    | some tracked =>
      if tracked.startTimeNs = 0 ∧ fits = true ∧ task.tgid = tgid then
        some (some { tracked with startTimeNs := task.startTimeNs })
      else none
    | none => none
  | _ => none

/-- What an event does to the call that is noted for a thread. -/
def touchAffinity (key : ThreadKey) (s : BpfProgram) : ProgramEvent → Option (Option PendingAffinity)
  | .setaffinityEnter task call fits =>
    if s.trackedTask task.tgid task = true ∧ fits = true ∧ threadKey task = key then some (some (pendingAffinity task call))
    else none
  | .setaffinityExit key' _ _ _ => if key' = key then some none else none
  | _ => none

/-- What an event does to the routine that is announced by a thread; only a fork inside its process takes it. -/
def touchPthread (key : ThreadKey) (s : BpfProgram) : ProgramEvent → Option (Option PendingPthread)
  | .pthreadCreate task routine now fits =>
    if s.trackedTask task.tgid task = true ∧ fits = true ∧ threadKey task = key then some (some ⟨routine, now⟩) else none
  | .pthreadCreateReturn task =>
    if s.trackedTask task.tgid task = true ∧ threadKey task = key then some none else none
  | .fork parent child _ _ _ =>
    if s.trackedTask parent.tgid parent = true ∧ child.tgid = parent.tgid ∧ threadKey parent = key then some none else none
  | _ => none

section Touches

variable {s s' : BpfProgram} {e : ProgramEvent} {key : ThreadKey} {tgid : Int}

theorem lookup_updated_getD {κ ν : Type} [DecidableEq κ] (m : KernelMap κ ν) (k k' : κ) (v : ν) (fits : Bool) :
    (updated m k v fits).lookup k' = (if fits = true ∧ k = k' then some (some v) else none).getD (m.lookup k') := by
  unfold updated
  split
  · rename_i hfits
    by_cases hk : k = k'
    · subst hk
      rw [AList.lookup_insert, if_pos ⟨hfits, rfl⟩, Option.getD_some]
    · rw [AList.lookup_insert_ne (Ne.symm hk), if_neg (fun h => hk h.2), Option.getD_none]
  · rename_i hfits
    rw [if_neg (fun h => hfits h.1), Option.getD_none]

theorem lookup_erase_getD {κ ν : Type} [DecidableEq κ] (m : KernelMap κ ν) (k k' : κ) :
    (m.erase k).lookup k' = (if k = k' then some none else none).getD (m.lookup k') := by
  by_cases hk : k = k'
  · subst hk
    rw [AList.lookup_erase, if_pos rfl, Option.getD_some]
  · rw [AList.lookup_erase_ne (Ne.symm hk), if_neg hk, Option.getD_none]

/-- A key that is not there is erased by doing nothing. -/
theorem lookup_getD_of_none {κ ν : Type} [DecidableEq κ] {m : KernelMap κ ν} {k : κ} (h : m.lookup k = none) (k' : κ) :
    m.lookup k' = (if k = k' then some none else none).getD (m.lookup k') := by
  split
  · rename_i hk
    rw [← hk, h, Option.getD_some]
  · rw [Option.getD_none]

@[simp] theorem touchTarget_fork (parent child : Task) (now : Nat) (fits room : Bool) :
    touchTarget tgid s (.fork parent child now fits room) =
      if s.trackedTask parent.tgid parent = true ∧ child.tgid ≠ parent.tgid ∧ fits = true ∧ child.tgid = tgid then
        some (some ⟨((s.pids.lookup parent.tgid).map (·.rootTgid)).getD parent.tgid, child.startTimeNs⟩)
      else none := rfl

theorem touchTarget_exec {tracked : Target} {task : Task} (h : s.pids.lookup task.tgid = some tracked) (now : Nat)
    (fits room : Bool) : touchTarget tgid s (.exec task now fits room) =
      if tracked.startTimeNs = 0 ∧ fits = true ∧ task.tgid = tgid then
        some (some { tracked with startTimeNs := task.startTimeNs })
      else none := by
  unfold touchTarget
  dsimp only
  rw [h]

theorem touchTarget_exec_of_none {task : Task} (h : s.pids.lookup task.tgid = none) (now : Nat) (fits room : Bool) :
    touchTarget tgid s (.exec task now fits room) = none := by
  unfold touchTarget
  dsimp only
  rw [h]

@[simp] theorem touchAffinity_enter (task : Task) (call : AffinityCall) (fits : Bool) :
    touchAffinity key s (.setaffinityEnter task call fits) =
      if s.trackedTask task.tgid task = true ∧ fits = true ∧ threadKey task = key then some (some (pendingAffinity task call))
      else none := rfl

@[simp] theorem touchAffinity_exit (key' : ThreadKey) (ret : Int) (now : Nat) (room : Bool) :
    touchAffinity key s (.setaffinityExit key' ret now room) = if key' = key then some none else none := rfl

@[simp] theorem touchPthread_create (task : Task) (routine now : Nat) (fits : Bool) :
    touchPthread key s (.pthreadCreate task routine now fits) =
      if s.trackedTask task.tgid task = true ∧ fits = true ∧ threadKey task = key then some (some ⟨routine, now⟩)
      else none := rfl

@[simp] theorem touchPthread_createReturn (task : Task) :
    touchPthread key s (.pthreadCreateReturn task) =
      if s.trackedTask task.tgid task = true ∧ threadKey task = key then some none else none := rfl

@[simp] theorem touchPthread_fork (parent child : Task) (now : Nat) (fits room : Bool) :
    touchPthread key s (.fork parent child now fits room) =
      if s.trackedTask parent.tgid parent = true ∧ child.tgid = parent.tgid ∧ threadKey parent = key then some none
      else none := rfl

theorem not_tracked_of {task : Task} (h : (!s.trackedTask task.tgid task) = true) : ¬ s.trackedTask task.tgid task = true := by
  simpa using h

/-- A task whose process has no start time yet is tracked. -/
theorem trackedTask_of_unset {task : Task} {target : Target} (h : s.pids.lookup task.tgid = some target)
    (hunset : target.startTimeNs = 0) : s.trackedTask task.tgid task = true := by
  unfold trackedTask
  rw [h]
  simp [hunset]

theorem pendings_onExec (task : Task) (now : Nat) (fits room : Bool) :
    (s.onExec task now fits room).pendingAffinities = s.pendingAffinities ∧
      (s.onExec task now fits room).pendingPthreads = s.pendingPthreads := by
  unfold onExec
  split
  · exact ⟨rfl, rfl⟩
  · split
    · split <;> exact ⟨pendingAffinities_emitEvent _ _ _ _, pendingPthreads_emitEvent _ _ _ _⟩
    · exact ⟨pendingAffinities_emitEvent _ _ _ _, pendingPthreads_emitEvent _ _ _ _⟩

/-- **The entry of a process, after an event.** -/
theorem pids_step (h : step s e = some s') :
    s'.pids.lookup tgid = (touchTarget tgid s e).getD (s.pids.lookup tgid) := by
  cases e with
  | fork parent child now fits room =>
    cases h
    rw [touchTarget_fork]
    unfold onFork
    split
    · rename_i ht
      rw [if_neg (fun hg => not_tracked_of ht hg.1), Option.getD_none]
    · rename_i ht
      dsimp only
      split
      · rename_i hne
        rw [pids_emitEvent]
        simp only [tracked_of_not ht, hne, ne_eq, not_false_eq_true, true_and]
        exact lookup_updated_getD _ _ _ _ _
      · rename_i hsame
        rw [if_neg (fun hg => hsame hg.2.1), Option.getD_none]
        split <;> rw [pids_emitEvent]
  | exec task now fits room =>
    cases h
    unfold onExec
    cases hl : s.pids.lookup task.tgid with
    | none =>
      rw [touchTarget_exec_of_none hl, Option.getD_none]
      split
      · rfl
      · rw [pids_emitEvent]
    | some tracked =>
      rw [touchTarget_exec hl]
      split
      · rename_i ht
        rw [if_neg (fun hg => not_tracked_of ht (trackedTask_of_unset hl hg.1)), Option.getD_none]
      · dsimp only
        split
        · rename_i hunset
          rw [pids_emitEvent]
          simp only [hunset, true_and]
          exact lookup_updated_getD _ _ _ _ _
        · rename_i hset
          rw [if_neg (fun hg => hset hg.1), Option.getD_none, pids_emitEvent]
  | pthreadCreate task routine now fits =>
    cases h
    unfold onPthreadCreate
    split <;> rfl
  | pthreadCreateReturn task =>
    cases h
    unfold onPthreadCreateReturn
    split <;> rfl
  | setaffinityEnter task call fits =>
    cases h
    unfold onSetaffinityEnter
    split <;> rfl
  | setaffinityExit key ret now room =>
    cases h
    unfold onSetaffinityExit
    split
    · rfl
    · dsimp only
      split
      · rw [pids_emitEvent]
        rfl
      · rfl
  | addTarget pid =>
    cases h
    have hset : s.pids.insert pid ⟨pid, 0⟩ = updated s.pids pid ⟨pid, 0⟩ true := rfl
    dsimp only
    rw [hset, lookup_updated_getD]
    simp only [true_and]
    rfl
  | _ => exact congrArg (fun maps : Kept => maps.pids.lookup tgid) (kept_of_not_leaves rfl h)

/-- **The call noted for a thread, after an event.** -/
theorem pendingAffinities_step (h : step s e = some s') :
    s'.pendingAffinities.lookup key = (touchAffinity key s e).getD (s.pendingAffinities.lookup key) := by
  cases e with
  | fork parent child now fits room =>
    cases h
    unfold onFork
    split
    · rfl
    · dsimp only
      split
      · rw [pendingAffinities_emitEvent]
        rfl
      · split <;> · rw [pendingAffinities_emitEvent]; rfl
  | exec task now fits room =>
    cases h
    rw [(pendings_onExec _ _ _ _).1]
    rfl
  | pthreadCreate task routine now fits =>
    cases h
    unfold onPthreadCreate
    split <;> rfl
  | pthreadCreateReturn task =>
    cases h
    unfold onPthreadCreateReturn
    split <;> rfl
  | setaffinityEnter task call fits =>
    cases h
    rw [touchAffinity_enter]
    unfold onSetaffinityEnter
    split
    · rename_i ht
      rw [if_neg (fun hg => not_tracked_of ht hg.1), Option.getD_none]
    · rename_i ht
      simp only [tracked_of_not ht, true_and]
      exact lookup_updated_getD _ _ _ _ _
  | setaffinityExit key' ret now room =>
    cases h
    rw [touchAffinity_exit]
    unfold onSetaffinityExit
    split
    · rename_i hl
      exact lookup_getD_of_none hl key
    · dsimp only
      split
      · rw [pendingAffinities_emitEvent]
        exact lookup_erase_getD _ _ _
      · exact lookup_erase_getD _ _ _
  | addTarget pid =>
    cases h
    rfl
  | _ => exact congrArg (fun maps : Kept => maps.pendingAffinities.lookup key) (kept_of_not_leaves rfl h)

/-- **The routine announced by a thread, after an event.** -/
theorem pendingPthreads_step (h : step s e = some s') :
    s'.pendingPthreads.lookup key = (touchPthread key s e).getD (s.pendingPthreads.lookup key) := by
  cases e with
  | fork parent child now fits room =>
    cases h
    rw [touchPthread_fork]
    unfold onFork
    split
    · rename_i ht
      rw [if_neg (fun hg => not_tracked_of ht hg.1), Option.getD_none]
    · rename_i ht
      dsimp only
      split
      · rename_i hne
        rw [pendingPthreads_emitEvent, if_neg (fun hg => hne hg.2.1), Option.getD_none]
      · rename_i heq
        simp only [tracked_of_not ht, not_not.1 heq, true_and]
        split
        · rw [pendingPthreads_emitEvent]
          exact lookup_erase_getD _ _ _
        · rename_i hl
          rw [pendingPthreads_emitEvent]
          exact lookup_getD_of_none hl key
  | exec task now fits room =>
    cases h
    rw [(pendings_onExec _ _ _ _).2]
    rfl
  | pthreadCreate task routine now fits =>
    cases h
    rw [touchPthread_create]
    unfold onPthreadCreate
    split
    · rename_i ht
      rw [if_neg (fun hg => not_tracked_of ht hg.1), Option.getD_none]
    · rename_i ht
      simp only [tracked_of_not ht, true_and]
      exact lookup_updated_getD _ _ _ _ _
  | pthreadCreateReturn task =>
    cases h
    rw [touchPthread_createReturn]
    unfold onPthreadCreateReturn
    split
    · rename_i ht
      rw [if_neg (fun hg => not_tracked_of ht hg.1), Option.getD_none]
    · rename_i ht
      simp only [tracked_of_not ht, true_and]
      exact lookup_erase_getD _ _ _
  | setaffinityEnter task call fits =>
    cases h
    unfold onSetaffinityEnter
    split <;> rfl
  | setaffinityExit key' ret now room =>
    cases h
    unfold onSetaffinityExit
    split
    · rfl
    · dsimp only
      split
      · rw [pendingPthreads_emitEvent]
        rfl
      · rfl
  | addTarget pid =>
    cases h
    rfl
  | _ => exact congrArg (fun maps : Kept => maps.pendingPthreads.lookup key) (kept_of_not_leaves rfl h)

/-- The event that notes a call. -/
theorem enter_of_touch {o : PendingAffinity} (h : touchAffinity key s e = some (some o)) :
    ∃ task call, e = .setaffinityEnter task call true ∧ s.trackedTask task.tgid task = true ∧ threadKey task = key ∧
      o = pendingAffinity task call := by
  cases e with
  | setaffinityEnter task call fits =>
    rw [touchAffinity_enter] at h
    split at h
    · rename_i hg
      obtain ⟨ht, rfl, hkey⟩ := hg
      cases h
      exact ⟨task, call, rfl, ht, hkey, rfl⟩
    · cases h
  | setaffinityExit key' ret now room =>
    rw [touchAffinity_exit] at h
    split at h <;> cases h
  | _ => cases h

/-- The event that announces a routine. -/
theorem create_of_touch {o : PendingPthread} (h : touchPthread key s e = some (some o)) :
    ∃ task routine now, e = .pthreadCreate task routine now true ∧ threadKey task = key ∧ o = ⟨routine, now⟩ := by
  cases e with
  | fork parent child now fits room =>
    rw [touchPthread_fork] at h
    split at h <;> cases h
  | pthreadCreate task routine now fits =>
    rw [touchPthread_create] at h
    split at h
    · rename_i hg
      obtain ⟨-, rfl, hkey⟩ := hg
      cases h
      exact ⟨task, routine, now, rfl, hkey, rfl⟩
    · cases h
  | pthreadCreateReturn task =>
    rw [touchPthread_createReturn] at h
    split at h <;> cases h
  | _ => cases h

end Touches

/-! ## The processes that are followed -/

/-- A target's start time fits a task; zero fits every one. -/
def OfGeneration (task : Task) (start : Nat) : Prop := start = 0 ∨ start = task.leaderStartNs.getD task.startTimeNs

/-- By the events of a run, the process with this id and start time comes from the target `root`. -/
inductive Descends (run : List ProgramEvent) (root : Int) : Int → Nat → Prop where
  | target (h : .addTarget root ∈ run) : Descends run root root 0
  | exec {task : Task} {now : Nat} {fits room : Bool} (h : .exec task now fits room ∈ run) (hd : Descends run root task.tgid 0) :
      Descends run root task.tgid task.startTimeNs
  | fork {parent child : Task} {start now : Nat} {fits room : Bool} (h : .fork parent child now fits room ∈ run)
      (hd : Descends run root parent.tgid start) (hg : OfGeneration parent start) :
      Descends run root child.tgid child.startTimeNs

/-- The entry that the last event to enter a process left. -/
def Entry (run : List ProgramEvent) (tgid : Int) (target : Target) : Prop :=
  ∃ pre e post, run = pre ++ e :: post ∧ Run.LastTouch step (touchTarget tgid) {} pre e post (some target)

/-- The entry of the task's process fits the task, and comes from a target of the supervisor. -/
def Followed (run : List ProgramEvent) (task : Task) : Prop :=
  ∃ target, Entry run task.tgid target ∧ OfGeneration task target.startTimeNs ∧
    Descends run target.rootTgid task.tgid target.startTimeNs

/-- The thread a record is about; for a fork the one that forked. -/
def subject (ev : BpfEvent) : ThreadKey :=
  if ev.kind = .taskFork then ⟨ev.parentTgid, ev.parentTid⟩ else ⟨ev.tgid, ev.tid⟩

/-- The record `ev` of a run is what the program reported of `task`, whom it looked at after the events `before`; an affinity
call is looked at when it is entered and reported when it returns. -/
inductive Reported (run : List ProgramEvent) (ev : BpfEvent) (before : List ProgramEvent) (task : Task) : Prop where
  | fork {child : Task} {now routine : Nat} {fits : Bool} {after : List ProgramEvent}
      (h : run = before ++ .fork task child now fits true :: after)
      (he : ev = { forkEvent task child routine with timestampNs := now })
  | exec {now : Nat} {fits : Bool} {after : List ProgramEvent} (h : run = before ++ .exec task now fits true :: after)
      (he : ev = { execEvent task with timestampNs := now })
  | exit {now : Nat} {after : List ProgramEvent} (h : run = before ++ .exit task now true :: after)
      (he : ev = { exitEvent task with timestampNs := now })
  | rename {name : String} {now emitNow : Nat} {fits : Bool} {after : List ProgramEvent}
      (h : run = before ++ .rename task name now emitNow fits true :: after)
      (he : ev = { renameEvent task name with timestampNs := emitNow })
  | affinity {call : AffinityCall} {now : Nat} {between after : List ProgramEvent}
      (h : run = before ++ .setaffinityEnter task call true ::
        (between ++ .setaffinityExit (threadKey task) 0 now true :: after))
      (he : ev = { affinityEvent (threadKey task) (pendingAffinity task call) with timestampNs := now })

section Follows

variable {run : List ProgramEvent} {s s' : BpfProgram} {e : ProgramEvent} {tgid : Int} {target : Target}

theorem Descends.snoc {root : Int} {start : Nat} (h : Descends run root tgid start) :
    Descends (run ++ [e]) root tgid start := by
  induction h with
  | target h => exact .target (List.mem_append_left _ h)
  | exec h _ ih => exact .exec (List.mem_append_left _ h) ih
  | fork h _ hg ih => exact .fork (List.mem_append_left _ h) ih hg

theorem trackedTask_eq_true {task : Task} (h : s.trackedTask tgid task = true) :
    ∃ target, s.pids.lookup tgid = some target ∧ OfGeneration task target.startTimeNs := by
  unfold trackedTask at h
  split at h
  · cases h
  · rename_i target hl
    rw [Bool.or_eq_true, decide_eq_true_eq, decide_eq_true_eq] at h
    exact ⟨target, hl, h⟩

/-- An entry that an event sets comes from a target, when the entries before it do. -/
theorem descends_of_touch (h : ∀ tgid target, s.pids.lookup tgid = some target →
    Descends run target.rootTgid tgid target.startTimeNs) (ht : touchTarget tgid s e = some (some target)) :
    Descends (run ++ [e]) target.rootTgid tgid target.startTimeNs := by
  have hlast : e ∈ run ++ [e] := List.mem_append_right _ List.mem_cons_self
  cases e with
  | addTarget pid =>
    unfold touchTarget at ht
    dsimp only at ht
    split at ht
    · rename_i hpid
      cases ht
      exact hpid ▸ .target hlast
    · cases ht
  | fork parent child now fits room =>
    rw [touchTarget_fork] at ht
    split at ht
    · rename_i hg
      obtain ⟨htracked, -, -, rfl⟩ := hg
      obtain ⟨entry, hl, hgen⟩ := trackedTask_eq_true htracked
      cases ht
      rw [hl]
      exact .fork hlast (h _ _ hl).snoc hgen
    · cases ht
  | exec task now fits room =>
    cases hl : s.pids.lookup task.tgid with
    | none =>
      rw [touchTarget_exec_of_none hl] at ht
      cases ht
    | some tracked =>
      rw [touchTarget_exec hl] at ht
      split at ht
      · rename_i hg
        obtain ⟨hunset, -, rfl⟩ := hg
        have hd := h _ _ hl
        rw [hunset] at hd
        cases ht
        exact .exec hlast hd.snoc
      · cases ht
  | _ => cases ht

/-- Every entry comes from a target of the supervisor. -/
theorem descends_exec : ∀ {run : List ProgramEvent} {s : BpfProgram}, Run.exec step {} run = some s →
    ∀ tgid target, s.pids.lookup tgid = some target → Descends run target.rootTgid tgid target.startTimeNs := by
  intro run
  induction run using List.reverseRecOn with
  | nil =>
    intro s h tgid target hl
    cases h
    rw [AList.lookup_empty] at hl
    cases hl
  | append_singleton run e ih =>
    intro s h tgid target hl
    obtain ⟨t, ht, he⟩ := Run.exec_concat h
    rw [pids_step he] at hl
    cases htouch : touchTarget tgid t e with
    | none =>
      rw [htouch, Option.getD_none] at hl
      exact (ih ht tgid target hl).snoc
    | some o =>
      rw [htouch, Option.getD_some] at hl
      exact descends_of_touch (ih ht) (hl ▸ htouch)

/-- **A task that is tracked is followed.** -/
theorem followed_of_tracked {task : Task} (h : Run.exec step {} run = some s) (ht : s.trackedTask task.tgid task = true) :
    Followed run task := by
  obtain ⟨target, hl, hg⟩ := trackedTask_eq_true ht
  have hentry : Entry run task.tgid target :=
    Run.exec_last_touch (fun u => u.pids.lookup task.tgid) (fun _ _ _ hstep => pids_step hstep) (AList.lookup_empty _) h hl
  exact ⟨target, hentry, hg, descends_exec h _ _ hl⟩

/-- A call that is pending was noted by its thread, and nothing has touched it since. -/
theorem exists_noted {key : ThreadKey} {pending : PendingAffinity} (h : Run.exec step {} run = some s)
    (hp : s.pendingAffinities.lookup key = some pending) :
    ∃ before task call between u, run = before ++ .setaffinityEnter task call true :: between ∧
      Run.exec step {} before = some u ∧ u.trackedTask task.tgid task = true ∧ threadKey task = key ∧
      pending = pendingAffinity task call ∧
      Run.LastTouch step (touchAffinity key) {} before (.setaffinityEnter task call true) between (some pending) := by
  obtain ⟨before, enter, between, rfl, hlast⟩ := Run.exec_last_touch (fun u => u.pendingAffinities.lookup key)
    (fun _ _ _ hstep => pendingAffinities_step hstep) (AList.lookup_empty key) h hp
  obtain ⟨u, hu, htouch⟩ := hlast.reached
  obtain ⟨task, call, rfl, htracked, hkey, hpending⟩ := enter_of_touch htouch
  exact ⟨before, task, call, between, u, rfl, hu, htracked, hkey, hpending, hlast⟩

/-- **In every run a record is about a thread of a process that is followed.**  A program reported it of a task whose process
had, by the events before, an entry that fits the task: as the last event to enter the process left it, without a start time
or with the one of the task's leader, and coming from a target of the supervisor. -/
theorem records_followed (h : Run.exec step {} run = some s) {ev : BpfEvent} (hev : ev ∈ s.ring) :
    ∃ before task, Reported run ev before task ∧ Followed before task ∧ threadKey task = subject ev := by
  obtain ⟨pre, e, post, t, event, now, rfl, ht, hemits, rfl⟩ := exists_firing h hev
  cases hemits with
  | fork htracked =>
    rename_i parent child fits
    exact ⟨pre, parent, .fork rfl rfl, followed_of_tracked ht htracked, rfl⟩
  | exec htracked =>
    rename_i task fits
    exact ⟨pre, task, .exec rfl rfl, followed_of_tracked ht htracked, rfl⟩
  | exit htracked =>
    rename_i task
    exact ⟨pre, task, .exit rfl rfl, followed_of_tracked ht htracked, rfl⟩
  | rename htracked hspaced =>
    rename_i task name read fits
    exact ⟨pre, task, .rename rfl rfl, followed_of_tracked ht htracked, rfl⟩
  | affinity hp =>
    -- the task was looked at when the call was entered
    rename_i key pending
    obtain ⟨before, task, call, between, u, rfl, hu, htracked, rfl, rfl, -⟩ := exists_noted ht hp
    exact ⟨before, task, .affinity (List.append_assoc _ _ _) rfl, followed_of_tracked hu htracked, rfl⟩

theorem records_followed_created : ∃ s, Run.exec step {} created = some s ∧ ∃ ev ∈ s.ring, subject ev = ⟨7, 8⟩ ∧
    ∃ before task, Reported created ev before task ∧ Followed before task ∧ threadKey task = ⟨7, 8⟩ := by
  have hrun : (Run.exec step {} created).any (fun s => s.ring.any (fun ev => decide (subject ev = ⟨7, 8⟩))) = true := by
    decide +kernel
  obtain ⟨s, hs, h⟩ := (Option.any_eq_true _ _).1 hrun
  obtain ⟨ev, hev, hsubject⟩ := List.any_eq_true.1 h
  have hkey := of_decide_eq_true hsubject
  exact ⟨s, hs, ev, hev, hkey, hkey ▸ records_followed hs hev⟩

/-- The id of the target once it is another process's. -/
example : (Run.exec step {} (created ++ [.exec ⟨7, 7, 900, some 900, "other"⟩ 50 true true])).map (·.ring.length) = some 3 := by
  decide +kernel

end Follows

section Reports

variable {run : List ProgramEvent} {s : BpfProgram} {ev : BpfEvent}

/-- **An affinity record is the last call its thread noted**, and the call returned zero. -/
theorem affinity_records (h : Run.exec step {} run = some s) (hev : ev ∈ s.ring) (hk : ev.kind = .affinity) :
    ∃ before task call between now after,
      run = before ++ .setaffinityEnter task call true :: (between ++ .setaffinityExit (threadKey task) 0 now true :: after) ∧
      ev = { affinityEvent (threadKey task) (pendingAffinity task call) with timestampNs := now } ∧
      Run.LastTouch step (touchAffinity (threadKey task)) {} before (.setaffinityEnter task call true) between
        (some (pendingAffinity task call)) := by
  obtain ⟨pre, e, post, t, event, now, rfl, ht, hemits, rfl⟩ := exists_firing h hev
  cases hemits with
  | affinity hp =>
    rename_i key pending
    obtain ⟨before, task, call, between, u, rfl, -, -, rfl, rfl, hlast⟩ := exists_noted ht hp
    exact ⟨before, task, call, between, now, post, by simp, rfl, hlast⟩
  | fork ht => cases hk
  | exec ht => cases hk
  | exit ht => cases hk
  | rename ht hs => cases hk

theorem affinity_records_created : ∃ s, Run.exec step {} created = some s ∧ ∃ ev ∈ s.ring, ev.kind = .affinity ∧
    ∃ task call, (∃ before rest, created = before ++ .setaffinityEnter task call true :: rest) ∧
      ev.maskCpus = (pendingAffinity task call).mask := by
  have hrun : (Run.exec step {} created).any (fun s => s.ring.any (fun ev => decide (ev.kind = .affinity))) = true := by
    decide +kernel
  obtain ⟨s, hs, h⟩ := (Option.any_eq_true _ _).1 hrun
  obtain ⟨ev, hev, hkind⟩ := List.any_eq_true.1 h
  have hk := of_decide_eq_true hkind
  obtain ⟨before, task, call, between, now, after, hsplit, rfl, -⟩ := affinity_records hs hev hk
  exact ⟨s, hs, _, hev, hk, task, call, ⟨before, _, hsplit⟩, rfl⟩

/-- **A start routine on a fork's record is the last one its creator announced**, and the fork takes it. -/
theorem fork_routines (h : Run.exec step {} run = some s) (hev : ev ∈ s.ring) (hk : ev.kind = .taskFork)
    (hr : ev.startRoutine ≠ 0) :
    ∃ before creator routine announced between parent child now fits after,
      run = before ++ .pthreadCreate creator routine announced true ::
        (between ++ .fork parent child now fits true :: after) ∧
      threadKey creator = threadKey parent ∧ child.tgid = parent.tgid ∧
      ev = { forkEvent parent child routine with timestampNs := now } ∧
      Run.LastTouch step (touchPthread (threadKey parent)) {} before (.pthreadCreate creator routine announced true) between
        (some ⟨routine, announced⟩) := by
  obtain ⟨pre, e, post, t, event, now, rfl, ht, hemits, rfl⟩ := exists_firing h hev
  cases hemits with
  | fork htracked =>
    rename_i parent child fits
    change t.routineFor parent child ≠ 0 at hr
    unfold routineFor at hr ⊢
    split at hr
    · exact absurd rfl hr
    · rename_i hsame
      cases hl : t.pendingPthreads.lookup (threadKey parent) with
      | none =>
        rw [hl] at hr
        exact absurd rfl hr
      | some pending =>
        obtain ⟨before, create, between, rfl, hlast⟩ :=
          Run.exec_last_touch (fun u => u.pendingPthreads.lookup (threadKey parent))
            (fun _ _ _ hstep => pendingPthreads_step hstep) (AList.lookup_empty _) ht hl
        obtain ⟨u, -, htouch⟩ := hlast.reached
        obtain ⟨creator, routine, announced, rfl, hkey, rfl⟩ := create_of_touch htouch
        refine ⟨before, creator, routine, announced, between, parent, child, now, fits, post, by simp, hkey,
          not_not.1 hsame, ?_, hlast⟩
        rw [if_neg hsame]
        rfl
  | exec ht => cases hk
  | exit ht => cases hk
  | rename ht hs => cases hk
  | affinity hp => cases hk

theorem fork_routines_created : ∃ s, Run.exec step {} created = some s ∧ ∃ ev ∈ s.ring, ev.startRoutine = 4096 ∧
    ∃ creator announced before rest, created = before ++ .pthreadCreate creator 4096 announced true :: rest := by
  have hrun : (Run.exec step {} created).any (fun s => s.ring.any (fun ev =>
      decide (ev.kind = .taskFork ∧ ev.startRoutine = 4096))) = true := by decide +kernel
  obtain ⟨s, hs, h⟩ := (Option.any_eq_true _ _).1 hrun
  obtain ⟨ev, hev, hboth⟩ := List.any_eq_true.1 h
  obtain ⟨hk, hroutine⟩ := of_decide_eq_true hboth
  obtain ⟨before, creator, routine, announced, between, parent, child, now, fits, after, hsplit, -, -, rfl, -⟩ :=
    fork_routines hs hev hk (by rw [hroutine]; decide)
  have heq : routine = 4096 := hroutine
  subst heq
  exact ⟨s, hs, _, hev, rfl, creator, announced, before, _, hsplit⟩

end Reports

end BpfProgram
end AffinityGraph
