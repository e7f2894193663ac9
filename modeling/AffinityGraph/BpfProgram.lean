import AffinityGraph.MapDrain
import AffinityGraph.SharedMap
/-!
# BpfProgram — the programs in the kernel (`affinitygraph.bpf.c`)

The programs run on every CPU at once and share their maps.  `on_futex` and `account_fd` are the ones many CPUs run for
the same keys: they are cut between their accesses to the waiters or the resources, the aggregates and the counters, and a
CPU keeps the point it has reached.  The check that a process is followed goes with the access behind it, and the additions
to the fields of one element, or of the counters, are one step.  The other programs are one step each, though the ring, the
counters and the throttle are shared with the other CPUs too.  The maps that evict forget any entry at any time; what a map
with no room refuses, and what the ring has no room for, is told by the event.
-/
namespace AffinityGraph

/-- Addition on `uint64_t`. -/
def addU64 (a b : Nat) : Nat := (a + b) % 2 ^ 64

/-- A kernel hash map. -/
abbrev KernelMap (κ ν : Type) [DecidableEq κ] := AList (fun _ : κ => ν)

/-! ## The maps -/

/-- `affinitygraph_target`. -/
structure Target where
  rootTgid : Int
  startTimeNs : Nat
  deriving DecidableEq

structure ThreadKey where
  tgid : Int
  tid : Tid
  deriving DecidableEq

structure PendingPthread where
  routine : Nat
  timestampNs : Nat

structure WaiterKey where
  tgid : Int
  address : Nat
  deriving DecidableEq

structure WaiterValue where
  tid : Tid
  startTimeNs : Nat
  deriving DecidableEq

structure ResourceKey where
  tgid : Int
  device : Nat := 0
  inode : Nat := 0
  deriving DecidableEq

structure ResourceValue where
  tid : Tid
  timestampNs : Nat
  startTimeNs : Nat
  deriving DecidableEq

/-- `pending_affinity`, its mask as the CPUs whose bits are set in the bytes it keeps. -/
structure PendingAffinity where
  targetTid : Tid
  mask : Mask
  deriving DecidableEq

/-- The kinds that go through the ring. -/
def EventKind.isLifecycle : EventKind → Bool
  | .futex => false
  | .vfs => false
  | _ => true

/-- `affinitygraph_bpf_health`. -/
structure ProgramHealth where
  emitted : Nat := 0
  dropped : Nat := 0
  emittedByKind : EventKind → Nat := fun _ => 0
  droppedByKind : EventKind → Nat := fun _ => 0
  suppressedByKind : EventKind → Nat := fun _ => 0

/-- One more of a kind. -/
def countKind (counts : EventKind → Nat) (kind : EventKind) : EventKind → Nat :=
  fun k => if k = kind then addU64 (counts k) 1 else counts k

/-- What the programs read of a `task_struct`; a group leader that reads as null is `none`. -/
structure Task where
  tgid : Int
  tid : Tid
  startTimeNs : Nat
  leaderStartNs : Option Nat
  comm : String := ""

/-- What `account_fd` reads through a descriptor: the mode, the inode and the device of the file. -/
structure OpenFile where
  mode : Nat
  inode : Nat
  device : Nat

/-- Where a program stands on its CPU between two maps. -/
inductive Point where
  | futexWaiter (task : Task) (key : WaiterKey) (waiter : Option WaiterValue)
  | futexAggregate (key : WaiterKey) (aggregateKey : FutexKey) (found : Option Nat)
  | futexEmit (key : WaiterKey) (taken : Bool)
  | futexLeave (key : WaiterKey)
  | fdPrevious (task : Task) (key : ResourceKey) (previous : Option ResourceValue)
  | fdAggregate (task : Task) (key : ResourceKey) (now : Nat) (aggregateKey : VfsKey) (elapsed : Nat) (found : Option Nat)
  | fdEmit (task : Task) (key : ResourceKey) (now : Nat) (taken : Bool)
  | fdLeave (task : Task) (key : ResourceKey) (now : Nat)

/-- The kernel's side and, last, what the reader has taken off the aggregate maps. -/
structure BpfProgram where
  pids : KernelMap Int Target := ∅
  renameThrottle : KernelMap ThreadKey Nat := ∅
  pendingPthreads : KernelMap ThreadKey PendingPthread := ∅
  waiters : KernelMap WaiterKey WaiterValue := ∅
  futexAggregates : SharedMap FutexKey FutexValue := {}
  vfsAggregates : SharedMap VfsKey VfsValue := {}
  resources : KernelMap ResourceKey ResourceValue := ∅
  pendingAffinities : KernelMap ThreadKey PendingAffinity := ∅
  health : ProgramHealth := {}
  /-- what the ring has taken, in its order -/
  ring : List BpfEvent := []
  running : KernelMap Nat Point := ∅
  futexRecords : List (FutexKey × FutexValue) := []
  vfsRecords : List (VfsKey × VfsValue) := []

namespace BpfProgram

def renameMinIntervalNs : Nat := 500000000

/-! ## What the programs share -/

def trackedTask (s : BpfProgram) (tgid : Int) (task : Task) : Bool :=
  match s.pids.lookup tgid with
  | none => false
  | some target =>
    decide (target.startTimeNs = 0) || decide (target.startTimeNs = task.leaderStartNs.getD task.startTimeNs)

/-- `account_emit`; `taken` is that the call before it returned zero. -/
def accountEmit (s : BpfProgram) (kind : EventKind) (taken : Bool) : BpfProgram :=
  if taken then
    { s with health := { s.health with
        emitted := addU64 s.health.emitted 1
        emittedByKind := countKind s.health.emittedByKind kind } }
  else
    { s with health := { s.health with
        dropped := addU64 s.health.dropped 1
        droppedByKind := countKind s.health.droppedByKind kind } }

def accountSuppressed (s : BpfProgram) (kind : EventKind) : BpfProgram :=
  { s with health := { s.health with suppressedByKind := countKind s.health.suppressedByKind kind } }

def emitEvent (s : BpfProgram) (event : BpfEvent) (now : Nat) (room : Bool) : BpfProgram :=
  if room then accountEmit { s with ring := s.ring ++ [{ event with timestampNs := now }] } event.kind true
  else accountEmit s event.kind false

/-- An update a full map refuses. -/
def updated {κ ν : Type} [DecidableEq κ] (m : KernelMap κ ν) (k : κ) (v : ν) (fits : Bool) : KernelMap κ ν :=
  if fits then m.insert k v else m

/-- What is left of a kernel map without one key. -/
theorem of_lookup_erase {κ ν : Type} [DecidableEq κ] {m : KernelMap κ ν} {k k' : κ} {v : ν}
    (h : (m.erase k).lookup k' = some v) : m.lookup k' = some v := by
  by_cases hk : k' = k
  · rw [hk, AList.lookup_erase] at h
    cases h
  · rwa [AList.lookup_erase_ne hk] at h

/-- An update leaves what there was, or the new value. -/
theorem of_lookup_updated {κ ν : Type} [DecidableEq κ] {m : KernelMap κ ν} {k k' : κ} {v v' : ν} {fits : Bool}
    (h : (updated m k v fits).lookup k' = some v') : m.lookup k' = some v' ∨ k' = k ∧ v' = v := by
  unfold updated at h
  split at h
  · by_cases hk : k' = k
    · rw [hk, AList.lookup_insert] at h
      exact Or.inr ⟨hk, (Option.some.inj h).symm⟩
    · rw [AList.lookup_insert_ne hk] at h
      exact Or.inl h
  · exact Or.inl h

def goTo (s : BpfProgram) (cpu : Nat) (point : Point) : BpfProgram := { s with running := s.running.insert cpu point }

def threadKey (task : Task) : ThreadKey := ⟨task.tgid, task.tid⟩

/-! ## Lifecycle -/

def forkEvent (parent child : Task) (startRoutine : Nat) : BpfEvent where
  kind := .taskFork
  tgid := child.tgid
  tid := child.tid
  parentTgid := parent.tgid
  parentTid := parent.tid
  startTimeNs := child.startTimeNs
  startRoutine := startRoutine
  comm := child.comm

/-- A new process is a target of its parent's root; a new thread takes the routine its creator announced. -/
def onFork (s : BpfProgram) (parent child : Task) (now : Nat) (fits room : Bool) : BpfProgram :=
  if !s.trackedTask parent.tgid parent then s else
  let s := { s with renameThrottle := s.renameThrottle.erase (threadKey child) }
  if child.tgid ≠ parent.tgid then
    let root := ((s.pids.lookup parent.tgid).map (·.rootTgid)).getD parent.tgid
    emitEvent { s with pids := updated s.pids child.tgid ⟨root, child.startTimeNs⟩ fits }
      (forkEvent parent child 0) now room
  else
    match s.pendingPthreads.lookup (threadKey parent) with
    | some pending =>
      emitEvent { s with pendingPthreads := s.pendingPthreads.erase (threadKey parent) }
        (forkEvent parent child pending.routine) now room
    | none => emitEvent s (forkEvent parent child 0) now room

def execEvent (task : Task) : BpfEvent where
  kind := .taskExec
  tgid := task.tgid
  tid := task.tid
  startTimeNs := task.startTimeNs
  comm := task.comm

/-- The target the supervisor set has no start time before its first `exec`. -/
def onExec (s : BpfProgram) (task : Task) (now : Nat) (fits room : Bool) : BpfProgram :=
  if !s.trackedTask task.tgid task then s else
  match s.pids.lookup task.tgid with
  | some tracked =>
    if tracked.startTimeNs = 0 then
      emitEvent { s with pids := updated s.pids task.tgid { tracked with startTimeNs := task.startTimeNs } fits }
        (execEvent task) now room
    else emitEvent s (execEvent task) now room
  | none => emitEvent s (execEvent task) now room

def exitEvent (task : Task) : BpfEvent where
  kind := .taskExit
  tgid := task.tgid
  tid := task.tid
  startTimeNs := task.startTimeNs

def onExit (s : BpfProgram) (task : Task) (now : Nat) (room : Bool) : BpfProgram :=
  if !s.trackedTask task.tgid task then s else
  emitEvent { s with renameThrottle := s.renameThrottle.erase (threadKey task) } (exitEvent task) now room

def renameEvent (task : Task) (name : String) : BpfEvent where
  kind := .taskRename
  tgid := task.tgid
  tid := task.tid
  startTimeNs := task.startTimeNs
  comm := name

/-- The clock is read for the throttle, and again for the event. -/
def onRename (s : BpfProgram) (task : Task) (name : String) (now emitNow : Nat) (fits room : Bool) : BpfProgram :=
  if !s.trackedTask task.tgid task then s else
  if (s.renameThrottle.lookup (threadKey task)).any (fun last => decide (subU64 now last < renameMinIntervalNs)) then
    accountSuppressed s .taskRename
  else
    emitEvent { s with renameThrottle := updated s.renameThrottle (threadKey task) now fits } (renameEvent task name)
      emitNow room

/-! ## pthread_create and sched_setaffinity -/

def onPthreadCreate (s : BpfProgram) (task : Task) (routine now : Nat) (fits : Bool) : BpfProgram :=
  if !s.trackedTask task.tgid task then s else
  { s with pendingPthreads := updated s.pendingPthreads (threadKey task) ⟨routine, now⟩ fits }

def onPthreadCreateReturn (s : BpfProgram) (task : Task) : BpfProgram :=
  if !s.trackedTask task.tgid task then s else { s with pendingPthreads := s.pendingPthreads.erase (threadKey task) }

/-- `AFFINITYGRAPH_MASK_BYTES`. -/
def maskBytes : Nat := 128

/-- The call as it was made: the thread it is for, zero for the caller, the length, and the CPUs set at the address, none
where the address cannot be read. -/
structure AffinityCall where
  pid : Tid
  bytes : Nat
  mask : Mask

def pendingAffinity (task : Task) (call : AffinityCall) : PendingAffinity where
  targetTid := if call.pid ≠ 0 then call.pid else task.tid
  mask := call.mask.filter (fun cpu => decide (cpu < 8 * (min call.bytes maskBytes : Nat)))

def onSetaffinityEnter (s : BpfProgram) (task : Task) (call : AffinityCall) (fits : Bool) : BpfProgram :=
  if !s.trackedTask task.tgid task then s else
  { s with pendingAffinities := updated s.pendingAffinities (threadKey task) (pendingAffinity task call) fits }

def affinityEvent (key : ThreadKey) (pending : PendingAffinity) : BpfEvent where
  kind := .affinity
  tgid := key.tgid
  tid := key.tid
  peerTid := pending.targetTid
  maskCpus := pending.mask

def onSetaffinityExit (s : BpfProgram) (key : ThreadKey) (ret : Int) (now : Nat) (room : Bool) : BpfProgram :=
  match s.pendingAffinities.lookup key with
  | none => s
  | some pending =>
    let s' := { s with pendingAffinities := s.pendingAffinities.erase key }
    if ret = 0 then emitEvent s' (affinityEvent key pending) now room else s'

/-! ## futex -/

/-- `FUTEX_WAIT` and `FUTEX_WAIT_BITSET`, under the command mask. -/
def waits (operation : Nat) : Bool := decide (operation % 128 = 0) || decide (operation % 128 = 9)

def futexKey (task : Task) (waiter : WaiterValue) : FutexKey where
  tgid := task.tgid
  tid := task.tid
  peerTid := waiter.tid
  startTimeNs := task.startTimeNs
  peerStartTimeNs := waiter.startTimeNs

def addFutex (now : Nat) (value : FutexValue) : FutexValue := ⟨addU64 value.count 1, now⟩

/-- A wait leaves the thread under the address; anything else looks up who waited there. -/
def onFutex (s : BpfProgram) (cpu : Nat) (task : Task) (address operation : Nat) (fits : Bool) : BpfProgram :=
  if !s.trackedTask task.tgid task then s else
  if waits operation then
    { s with waiters := updated s.waiters ⟨task.tgid, address⟩ ⟨task.tid, task.startTimeNs⟩ fits }
  else
    s.goTo cpu (.futexWaiter task ⟨task.tgid, address⟩ (s.waiters.lookup ⟨task.tgid, address⟩))

/-! ## read and write -/

/-- `S_IFIFO` or `S_IFCHR`. -/
def shared (mode : Nat) : Bool := decide (mode &&& 0o170000 = 0o010000) || decide (mode &&& 0o170000 = 0o020000)

def vfsKey (task : Task) (key : ResourceKey) (previous : ResourceValue) : VfsKey where
  tgid := task.tgid
  tid := task.tid
  peerTid := previous.tid
  startTimeNs := task.startTimeNs
  peerStartTimeNs := previous.startTimeNs
  resource := key.inode

def addVfs (elapsed now : Nat) (value : VfsValue) : VfsValue :=
  ⟨addU64 value.totalTimeNs elapsed, addU64 value.count 1, now⟩

/-- `account_fd`, up to the lookup of the last thread at the file. -/
def accountFd (s : BpfProgram) (cpu : Nat) (task : Task) (fd : Nat) (file : Option OpenFile) : BpfProgram :=
  if !s.trackedTask task.tgid task then s else
  match file with
  | none => s
  | some f =>
    if 4096 ≤ fd then s else
    if !shared f.mode then s else
    s.goTo cpu (.fdPrevious task ⟨task.tgid, f.device, f.inode⟩ (s.resources.lookup ⟨task.tgid, f.device, f.inode⟩))

/-! ## A CPU goes on -/

/-- From the waiter to the aggregate, when another thread waited. -/
def futexPair (s : BpfProgram) (cpu : Nat) (task : Task) (key : WaiterKey) : Option WaiterValue → BpfProgram
  | some waiter =>
    if waiter.tid ≠ task.tid then
      s.goTo cpu (.futexAggregate key (futexKey task waiter) (s.futexAggregates.find (futexKey task waiter)))
    else s.goTo cpu (.futexLeave key)
  | none => s.goTo cpu (.futexLeave key)

/-- One more handoff on the aggregate. -/
def futexSettle (s : BpfProgram) (cpu now : Nat) (fits : Bool) (key : WaiterKey) (aggregateKey : FutexKey)
    (found : Option Nat) : BpfProgram :=
  let r := s.futexAggregates.settle aggregateKey found (addFutex now) ⟨1, now⟩ fits
  { s with futexAggregates := r.1 }.goTo cpu (.futexEmit key r.2)

/-- The clock is read between the lookup of the last thread and that of the aggregate. -/
def fdPair (s : BpfProgram) (cpu now : Nat) (task : Task) (key : ResourceKey) : Option ResourceValue → BpfProgram
  | some previous =>
    if previous.tid ≠ task.tid then
      s.goTo cpu (.fdAggregate task key now (vfsKey task key previous)
        (if previous.timestampNs < now then now - previous.timestampNs else 0)
        (s.vfsAggregates.find (vfsKey task key previous)))
    else s.goTo cpu (.fdLeave task key now)
  | none => s.goTo cpu (.fdLeave task key now)

def fdSettle (s : BpfProgram) (cpu : Nat) (fits : Bool) (task : Task) (key : ResourceKey) (now : Nat)
    (aggregateKey : VfsKey) (elapsed : Nat) (found : Option Nat) : BpfProgram :=
  let r := s.vfsAggregates.settle aggregateKey found (addVfs elapsed now) ⟨elapsed, 1, now⟩ fits
  { s with vfsAggregates := r.1 }.goTo cpu (.fdEmit task key now r.2)

/-- What a CPU does next from where it stands. -/
def resume (s : BpfProgram) (cpu now : Nat) (fits : Bool) : Point → BpfProgram
  | .futexWaiter task key waiter => s.futexPair cpu task key waiter
  | .futexAggregate key aggregateKey found => s.futexSettle cpu now fits key aggregateKey found
  | .futexEmit key taken => (s.accountEmit .futex taken).goTo cpu (.futexLeave key)
  | .futexLeave key => { s with waiters := s.waiters.erase key, running := s.running.erase cpu }
  | .fdPrevious task key previous => s.fdPair cpu now task key previous
  | .fdAggregate task key read aggregateKey elapsed found => s.fdSettle cpu fits task key read aggregateKey elapsed found
  | .fdEmit task key read taken => (s.accountEmit .vfs taken).goTo cpu (.fdLeave task key read)
  | .fdLeave task key read =>
    { s with
      resources := updated s.resources key ⟨task.tid, read, task.startTimeNs⟩ fits
      running := s.running.erase cpu }

/-! ## The reader -/

/-- `BPF_MAP_LOOKUP_AND_DELETE_ELEM` on one key, or its part of a batch. -/
def takeFutex (s : BpfProgram) (key : FutexKey) : BpfProgram :=
  match s.futexAggregates.value key with
  | some value =>
    { s with futexAggregates := s.futexAggregates.take key, futexRecords := s.futexRecords ++ [(key, value)] }
  | none => s

def takeVfs (s : BpfProgram) (key : VfsKey) : BpfProgram :=
  match s.vfsAggregates.value key with
  | some value => { s with vfsAggregates := s.vfsAggregates.take key, vfsRecords := s.vfsRecords ++ [(key, value)] }
  | none => s

end BpfProgram

/-- What can happen: a program fires, a CPU goes on, a map evicts, and what the supervisor's process does. -/
inductive ProgramEvent where
  | fork (parent child : Task) (now : Nat) (fits room : Bool)
  | exec (task : Task) (now : Nat) (fits room : Bool)
  | exit (task : Task) (now : Nat) (room : Bool)
  | rename (task : Task) (name : String) (now emitNow : Nat) (fits room : Bool)
  | pthreadCreate (task : Task) (routine now : Nat) (fits : Bool)
  | pthreadCreateReturn (task : Task)
  | setaffinityEnter (task : Task) (call : BpfProgram.AffinityCall) (fits : Bool)
  | setaffinityExit (key : ThreadKey) (ret : Int) (now : Nat) (room : Bool)
  | futex (cpu : Nat) (task : Task) (address operation : Nat) (fits : Bool)
  | fd (cpu : Nat) (task : Task) (fd : Nat) (file : Option OpenFile)
  | resume (cpu now : Nat) (fits : Bool)
  | evictRename (key : ThreadKey)
  | evictWaiter (key : WaiterKey)
  | evictResource (key : ResourceKey)
  | addTarget (pid : Int)
  | takeFutex (key : FutexKey)
  | takeVfs (key : VfsKey)

namespace BpfProgram

/-- One event.  A CPU runs one of the cut programs at a time. -/
def step (s : BpfProgram) : ProgramEvent → Option BpfProgram
  | .fork parent child now fits room => some (s.onFork parent child now fits room)
  | .exec task now fits room => some (s.onExec task now fits room)
  | .exit task now room => some (s.onExit task now room)
  | .rename task name now emitNow fits room => some (s.onRename task name now emitNow fits room)
  | .pthreadCreate task routine now fits => some (s.onPthreadCreate task routine now fits)
  | .pthreadCreateReturn task => some (s.onPthreadCreateReturn task)
  | .setaffinityEnter task call fits => some (s.onSetaffinityEnter task call fits)
  | .setaffinityExit key ret now room => some (s.onSetaffinityExit key ret now room)
  | .futex cpu task address operation fits =>
    if (s.running.lookup cpu).isSome then none else some (s.onFutex cpu task address operation fits)
  | .fd cpu task fd file => if (s.running.lookup cpu).isSome then none else some (s.accountFd cpu task fd file)
  | .resume cpu now fits => (s.running.lookup cpu).map (s.resume cpu now fits)
  | .evictRename key => some { s with renameThrottle := s.renameThrottle.erase key }
  | .evictWaiter key => some { s with waiters := s.waiters.erase key }
  | .evictResource key => some { s with resources := s.resources.erase key }
  | .addTarget pid => some { s with pids := s.pids.insert pid ⟨pid, 0⟩ }
  | .takeFutex key => some (s.takeFutex key)
  | .takeVfs key => some (s.takeVfs key)

section Unpacked

variable {s s' : BpfProgram} {cpu now : Nat} {task : Task} {fits : Bool}

theorem step_futex {address operation : Nat} (h : step s (.futex cpu task address operation fits) = some s') :
    s.running.lookup cpu = none ∧ s' = s.onFutex cpu task address operation fits := by
  change (if (s.running.lookup cpu).isSome then none else some (s.onFutex cpu task address operation fits)) = some s' at h
  split at h
  · cases h
  · rename_i hidle
    exact ⟨by simpa using hidle, (Option.some.inj h).symm⟩

theorem step_fd {fd : Nat} {file : Option OpenFile} (h : step s (.fd cpu task fd file) = some s') :
    s.running.lookup cpu = none ∧ s' = s.accountFd cpu task fd file := by
  change (if (s.running.lookup cpu).isSome then none else some (s.accountFd cpu task fd file)) = some s' at h
  split at h
  · cases h
  · rename_i hidle
    exact ⟨by simpa using hidle, (Option.some.inj h).symm⟩

theorem step_resume (h : step s (.resume cpu now fits) = some s') :
    ∃ point, s.running.lookup cpu = some point ∧ s' = s.resume cpu now fits point := by
  obtain ⟨point, hpoint, rfl⟩ := Option.map_eq_some_iff.1 h
  exact ⟨point, hpoint, rfl⟩

end Unpacked

end BpfProgram
end AffinityGraph
