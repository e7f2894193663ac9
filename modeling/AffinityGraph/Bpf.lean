import AffinityGraph.Runtime
/-!
# Bpf — one event of the BPF collector (`runtime.cpp`, `handle_bpf_event`)

The events of the ring buffer tell of forks, exits, names and affinity calls; the two aggregate kinds carry a relation
between two threads, and are dropped when either thread is unknown or is another incarnation than the event means.
-/
namespace AffinityGraph

def Config.effectiveSampleSeconds (c : Config) : Nat := if c.sampleIntervalSeconds = 0 then 1 else c.sampleIntervalSeconds

namespace Runtime

/-- Both sides know the start time, and they differ. -/
def otherIncarnation (eventNs recordNs : Nat) : Bool := decide (eventNs ≠ 0 ∧ recordNs ≠ 0 ∧ eventNs ≠ recordNs)

def aggregationSeconds (r : Runtime) (event : BpfEvent) : ℚ :=
  if event.resource ≠ 0 then max ((event.resource : ℚ) / 10 ^ 9) (1 / 10 ^ 6) else r.config.effectiveSampleSeconds

/-- The relation an aggregate event tells of, when both its threads are known. -/
def relationOf (r : Runtime) (event : BpfEvent) : Option RelationObservation :=
  match r.lifecycle.find? event.tid, r.lifecycle.find? event.peerTid with
  | some a, some b =>
    if otherIncarnation event.startTimeNs a.bpfStartTimeNs || otherIncarnation event.peerStartTimeNs b.bpfStartTimeNs
    then none
    else
      let seconds := r.aggregationSeconds event
      some
        { fromTid := event.tid
          toTid := event.peerTid
          fromStarttime := a.procStarttime
          toStarttime := b.procStarttime
          timestampNs := event.timestampNs
          futexPerSecond := if event.kind = .futex
            then ((if event.valueNs ≠ 0 then event.valueNs else 1 : Nat) : ℚ) / seconds else 0
          sharedVfsSeconds := if event.kind = .futex then 0
            else (event.valueNs : ℚ) / 10 ^ 9 * r.config.effectiveSampleSeconds / seconds
          activeOverlap := 1 }
  | _, _ => none

/-- The record of a forked thread; `startSymbol` is what `module_offset` read of the process's maps. -/
def forkRecord (event : BpfEvent) (startSymbol : String) : LifecycleRecord :=
  { tgid := event.tgid
    parentTgid := event.parentTgid
    parentTid := event.parentTid
    tid := event.tid
    startRoutine := event.startRoutine
    bpfStartTimeNs := event.startTimeNs
    createdNs := event.timestampNs
    name := event.comm
    startSymbol := startSymbol }

def handleBpfEvent (r : Runtime) (staticProfile : Bool) (event : BpfEvent) (startSymbol : String) : Runtime :=
  match event.kind with
  | .futex | .vfs =>
    if staticProfile then r else
    match r.relationOf event with
    | some o => { r with graph := r.graph.observeRelation o }
    | none => r
  | .taskFork => r.threadStarted (forkRecord event startSymbol)
  | .taskExec => { r with targetTgids := r.targetTgids.add event.tgid }
  | .taskExit => r.threadExited event.tid
  | .taskRename => r.threadRenamed event.tid event.comm
  | .affinity => r.applicationAffinity event.peerTid event.maskCpus

/-- The branch of the two aggregate kinds. -/
def relate (r : Runtime) (staticProfile : Bool) (event : BpfEvent) : Runtime :=
  if staticProfile then r else
  match r.relationOf event with
  | some o => { r with graph := r.graph.observeRelation o }
  | none => r

theorem relate_cases (r : Runtime) (staticProfile : Bool) (event : BpfEvent) : r.relate staticProfile event = r ∨
    ∃ o, r.relate staticProfile event = { r with graph := r.graph.observeRelation o } := by
  unfold relate
  split
  · exact Or.inl rfl
  · split
    · exact Or.inr ⟨_, rfl⟩
    · exact Or.inl rfl

/-- What an event leaves alone. -/
structure EventFrame (r r' : Runtime) : Prop where
  config : r'.config = r.config
  hardware : r'.hardware = r.hardware
  kernel : r'.kernel = r.kernel
  paused : r'.paused = r.paused
  mutexHeld : r'.mutexHeld = r.mutexHeld
  acted : r'.actuator.actedTids = r.actuator.actedTids
  /-- a relation is observed, or nothing of the window changes -/
  threads : r'.graph.threads = r.graph.threads

theorem handleBpfEvent_frame (r : Runtime) (staticProfile : Bool) (event : BpfEvent) (startSymbol : String) :
    EventFrame r (r.handleBpfEvent staticProfile event startSymbol) := by
  have hrefl : EventFrame r r := ⟨rfl, rfl, rfl, rfl, rfl, rfl, rfl⟩
  have hrelation : EventFrame r (r.relate staticProfile event) := by
    rcases r.relate_cases staticProfile event with he | ⟨o, he⟩
    · rw [he]
      exact hrefl
    · rw [he]
      refine ⟨rfl, rfl, rfl, rfl, rfl, rfl, ?_⟩
      unfold GraphWindow.observeRelation
      split <;> rfl
  unfold handleBpfEvent
  cases event.kind with
  | futex => exact hrelation
  | vfs => exact hrelation
  | taskFork => exact ⟨rfl, rfl, rfl, rfl, rfl, rfl, rfl⟩
  | taskExec => exact ⟨rfl, rfl, rfl, rfl, rfl, rfl, rfl⟩
  | taskExit => exact ⟨rfl, rfl, rfl, rfl, rfl, rfl, rfl⟩
  | taskRename =>
    dsimp only [threadRenamed]
    split
    · exact ⟨rfl, rfl, rfl, rfl, rfl, rfl, rfl⟩
    · exact hrefl
  | affinity =>
    dsimp only [applicationAffinity]
    split
    · exact hrefl
    · split <;> exact ⟨rfl, rfl, rfl, rfl, rfl, rfl, rfl⟩

end Runtime
end AffinityGraph
