import AffinityGraph.Bpf
/-!
# Pending — the buffers between the BPF reader and the worker (`runtime.cpp`)

`drain_bpf_once` runs on the reader's thread: it queues the lifecycle events and merges the aggregate events by their key,
both up to a limit.  `consume_pending_bpf` runs on the worker: it takes everything that is pending, handles the lifecycle
events with the exits last, and hands the relations of the retained pairs to the graph.

The pending relations are a hash map in the source; `order` is the order in which one consume walks it.
-/
namespace AffinityGraph

theorem none_lifecycleKind : ∀ e ∈ ([] : List BpfEvent), e.kind ≠ .futex ∧ e.kind ≠ .vfs := by decide

theorem none_futexKind : ∀ e ∈ ([] : List BpfEvent), e.kind = .futex := by decide

theorem none_vfsKind : ∀ e ∈ ([] : List BpfEvent), e.kind = .vfs := by decide

/-- What one pass over the reader returns: the ring buffer's events, and the two aggregate maps. -/
structure Drained where
  lifecycle : List BpfEvent := []
  futex : List BpfEvent := []
  vfs : List BpfEvent := []
  /-- the BPF program puts no aggregate on the ring buffer -/
  lifecycleKinds : ∀ e ∈ lifecycle, e.kind ≠ .futex ∧ e.kind ≠ .vfs := by first | exact none_lifecycleKind | decide
  futexKinds : ∀ e ∈ futex, e.kind = .futex := by first | exact none_futexKind | decide
  vfsKinds : ∀ e ∈ vfs, e.kind = .vfs := by first | exact none_vfsKind | decide

namespace Runtime

/-! ## drain_bpf_once -/

def lifecycleLimit : Nat := 65536

def relationLimit : Nat := 524288

def queueLifecycle (r : Runtime) (event : BpfEvent) : Runtime :=
  if lifecycleLimit ≤ r.pendingLifecycleEvents.length then
    { r with pendingLifecycleOverflow := r.pendingLifecycleOverflow + 1 }
  else { r with pendingLifecycleEvents := r.pendingLifecycleEvents ++ [event] }

def relationKey (event : BpfEvent) : PendingRelationKey where
  kind := event.kind
  tgid := event.tgid
  tid := event.tid
  peerTid := event.peerTid
  startTimeNs := event.startTimeNs
  peerStartTimeNs := event.peerStartTimeNs

/-- The value with one more event of its key; the sum is a `uint64_t`. -/
def PendingRelationValue.merge (value : PendingRelationValue) (event : BpfEvent) : PendingRelationValue where
  timestampNs := max value.timestampNs event.timestampNs
  valueNs := (value.valueNs + event.valueNs) % 2 ^ 64

def mergeRelation (now : Nat) (r : Runtime) (event : BpfEvent) : Runtime :=
  let key := relationKey event
  if r.pendingRelations.any (fun e => decide (e.1 = key)) then
    { r with pendingRelations := r.pendingRelations.map (fun e =>
        if e.1 = key then (e.1, PendingRelationValue.merge e.2 event) else e) }
  else if relationLimit ≤ r.pendingRelations.length then
    { r with pendingRelationOverflow := r.pendingRelationOverflow + 1 }
  else { r with
    pendingRelationStartedNs := if r.pendingRelations.isEmpty then now else r.pendingRelationStartedNs
    pendingRelations := r.pendingRelations ++ [(key, ⟨event.timestampNs, event.valueNs⟩)] }

def drainBpfOnce (r : Runtime) (d : Drained) (now : Nat) : Runtime :=
  if !r.bpfReader then r
  else (d.futex ++ d.vfs).foldl (mergeRelation now) (d.lifecycle.foldl queueLifecycle r)

/-! ## The retained pairs -/

abbrev PendingRelation := PendingRelationKey × PendingRelationValue

def pairOf (e : PendingRelation) : EdgeKey := edgeKey e.1.tid e.1.peerTid

/-- The time the pending relations cover, a sample interval at least. -/
def relationDurationNs (r : Runtime) (now : Nat) : Nat :=
  max (if r.pendingRelationStartedNs ≠ 0 then subU64 now r.pendingRelationStartedNs else 0)
    (r.config.effectiveSampleSeconds * 10 ^ 9)

def relationWeight (r : Runtime) (seconds : ℚ) (e : PendingRelation) : ℚ :=
  if e.1.kind = .futex then
    7 / 10 * min (r.graph.libm.log1p ((e.2.valueNs : ℚ) / seconds) / r.config.syncLogP95) 1
  else
    3 / 10 * min (r.graph.libm.log1p ((e.2.valueNs : ℚ) / 10 ^ 9 * r.config.effectiveSampleSeconds / seconds) /
      r.config.shareLogP95) 1

def pairWeights (r : Runtime) (seconds : ℚ) (relations : List PendingRelation) : OrdMap EdgeKey ℚ :=
  relations.foldl (fun m e => m.update (pairOf e) 0 (· + r.relationWeight seconds e)) ∅

/-- Heavier first, then by pair. -/
def heavierPair (a b : ℚ × EdgeKey) : Bool := if a.1 ≠ b.1 then decide (b.1 < a.1) else decide (a.2 ≤ b.2)

/-- The pairs of each thread with their weights. -/
def incidentPairs (weights : OrdMap EdgeKey ℚ) : OrdMap Tid (List (ℚ × EdgeKey)) :=
  weights.entries.foldl (fun m e =>
    (m.update (ofLex e.1).1 [] (· ++ [(e.2, e.1)])).update (ofLex e.1).2 [] (· ++ [(e.2, e.1)])) ∅

/-- The domain solver gets every pair; for the other one each thread keeps its heaviest few. -/
def retainedPairs (r : Runtime) (weights : OrdMap EdgeKey ℚ) : OrdSet EdgeKey :=
  match r.config.solver with
  | .numaDomain => weights.mapVal (fun _ _ => ())
  | .incrementalHotspot => (incidentPairs weights).entries.foldl (fun (s : OrdSet EdgeKey) e =>
      ((e.2.insertionSort (fun a b => heavierPair a b = true)).take r.config.hotspotEdgesPerThread).foldl
        (fun s c => OrdSet.add s c.2) s) ∅

/-! ## consume_pending_bpf -/

/-- A merged relation as the event it is handled as. -/
def relationEvent (durationNs : Nat) (e : PendingRelation) : BpfEvent where
  kind := e.1.kind
  tgid := e.1.tgid
  tid := e.1.tid
  peerTid := e.1.peerTid
  startTimeNs := e.1.startTimeNs
  peerStartTimeNs := e.1.peerStartTimeNs
  timestampNs := e.2.timestampNs
  valueNs := e.2.valueNs
  resource := durationNs

/-- The pairs without an event in this batch are dropped, then the batch is handled. -/
def ingestRelations (r : Runtime) (staticProfile : Bool) (order : List PendingRelation) (durationNs : Nat) : Runtime :=
  let retained := r.retainedPairs (r.pairWeights ((durationNs : ℚ) / 10 ^ 9) order)
  (order.filter (fun e => decide (pairOf e ∈ retained))).foldl
    (fun r e => r.handleBpfEvent staticProfile (relationEvent durationNs e) "")
    { r with graph := r.graph.retainRelations retained }

/-- Nothing is pending any more. -/
def takePending (r : Runtime) : Runtime :=
  { r with
    pendingLifecycleEvents := []
    pendingRelations := []
    pendingLifecycleOverflow := 0
    pendingRelationOverflow := 0
    pendingRelationStartedNs := 0 }

/-- `symbols` is what `module_offset` reads for a forked thread. -/
def handleLifecycle (staticProfile : Bool) (symbols : BpfEvent → String) (r : Runtime) (event : BpfEvent) : Runtime :=
  r.handleBpfEvent staticProfile event (symbols event)

def consumePendingBpf (r : Runtime) (staticProfile : Bool) (order : List PendingRelation) (symbols : BpfEvent → String)
    (now : Nat) : Outcome Runtime :=
  let others := r.pendingLifecycleEvents.filter (fun e => decide (e.kind ≠ .taskExit))
  let exits := r.pendingLifecycleEvents.filter (fun e => decide (e.kind = .taskExit))
  let r₁ := others.foldl (handleLifecycle staticProfile symbols) r.takePending
  let r₂ := exits.foldl (handleLifecycle staticProfile symbols)
    (r₁.ingestRelations staticProfile order (r.relationDurationNs now))
  if r.pendingLifecycleOverflow ≠ 0 ∨ r.pendingRelationOverflow ≠ 0 then
    r₂.triggerFatal "BPF user-space pending buffer overflow"
  else .ok r₂

end Runtime
end AffinityGraph
