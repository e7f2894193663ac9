import AffinityGraph.ActuatorRestore
import AffinityGraph.Runtime
/-!
# World — the application, the kernel and the supervisor together

A `World` is a runtime with its kernel, and a history of what every thread is due: the application mask its parent had
when it was forked, what the application has declared for it since, and its kernel mask when the policy first reached
for it.  `World.step` is one event: the application forks, exits or declares, the supervisor is told of it, samples,
applies a batch, restores or pauses.  A batch and a restore take any arguments, so every solver is covered.

`step_move` tells every event thread by thread (`Move`).  No proof about runs opens a step again.
-/
namespace AffinityGraph

/-- What is known of one thread beside the supervisor. -/
structure Incarnation where
  /-- the application mask of its parent at the fork -/
  inherited : Mask
  /-- its own declarations, newest first -/
  declared : List Mask := []
  /-- its kernel mask when a batch first reached it -/
  before : Option Mask := none
  /-- a batch has marked it -/
  acted : Bool := false
  /-- it was forked under a mask that was not its parent's application mask, and neither a batch nor the application
  has given it one since -/
  foreign : Bool := false

namespace Incarnation

/-- The mask the thread would have without the policy. -/
def appMask (i : Incarnation) : Mask := i.declared.headD i.inherited

/-- The masks of the application for it. -/
def ownMasks (i : Incarnation) : List Mask := i.inherited :: i.declared

/-- The masks a restore of it may write. -/
def masks (i : Incarnation) : List Mask := i.ownMasks ++ i.before.toList

def declare (i : Incarnation) (mask : Mask) : Incarnation :=
  { i with declared := mask :: i.declared, foreign := false }

/-- A batch reached it while its mask was `mask`, and left it marked or not. -/
def reach (i : Incarnation) (mask : Mask) (acted : Bool) : Incarnation :=
  { i with before := i.before.or (some mask), acted := i.acted || acted, foreign := i.foreign && !acted }

section Masks

variable {i : Incarnation} {m k : Mask} {acted : Bool}

theorem mem_masks : m ∈ i.masks ↔ m ∈ i.ownMasks ∨ i.before = some m := by
  simp [masks]

theorem mem_masks_declare (h : m ∈ i.masks) : m ∈ (i.declare k).masks := by
  simp only [masks, ownMasks, declare, List.mem_append, List.mem_cons] at h ⊢
  rcases h with (h | h) | h
  · exact Or.inl (Or.inl h)
  · exact Or.inl (Or.inr (Or.inr h))
  · exact Or.inr h

theorem self_mem_declare : k ∈ (i.declare k).masks := by
  simp [masks, ownMasks, declare]

/-- The first mask the policy found stays. -/
theorem mem_masks_reach (h : m ∈ i.masks) : m ∈ (i.reach k acted).masks := by
  rw [mem_masks] at h ⊢
  refine h.imp_right (fun hb => ?_)
  simp [reach, hb]

theorem self_mem_reach (h : i.before = none) : k ∈ (i.reach k acted).masks := by
  rw [mem_masks]
  simp [reach, h]

theorem before_reach : (i.reach k acted).before.isSome = true := by
  cases hb : i.before <;> simp [reach, hb]

end Masks

end Incarnation

structure World where
  runtime : Runtime
  history : OrdMap Tid Incarnation := ∅
  /-- every TID the kernel has given out -/
  used : OrdSet Tid := ∅

inductive Event where
  | fork (parent child : Tid) (tgid : Int) (starttime : Nat)
  | started (record : LifecycleRecord)
  | exit (tid : Tid)
  | exited (tid : Tid)
  | declare (tid : Tid) (mask : OrdSet Int)
  | reconcile (probe : Tid → ThreadSample)
  | apply (delta : PlacementDelta) (live : OrdSet Tid)
  | restore (tids : OrdSet Tid)
  | pause

namespace World

def kernel (w : World) : Kernel := w.runtime.kernel

def actuator (w : World) : Actuator := w.runtime.actuator

/-! ## What the collector reads -/

/-- One sample: the kernel's identity and mask, everything else as it may be. -/
def sampleOf (probe : Tid → ThreadSample) (e : Tid × KThread) : ThreadSample :=
  { probe e.1 with
    identity := ⟨e.2.tgid, e.1, e.2.starttime⟩
    allowedCpus := e.2.mask.toList }

/-- The tasks of one target, ascending. -/
def tasksOf (k : Kernel) (tgid : Int) : List (Tid × KThread) :=
  k.threads.entries.filter (fun e => decide (e.2.tgid = tgid))

def samples (k : Kernel) (targets : OrdSet Int) (probe : Tid → ThreadSample) : List ThreadSample :=
  targets.toList.flatMap (fun g => (tasksOf k g).map (sampleOf probe))

/-- The targets that still have tasks. -/
def existing (k : Kernel) (targets : OrdSet Int) : OrdSet Int :=
  targets.filter (fun g _ => !(tasksOf k g).isEmpty)

/-! ## The events -/

def fork (w : World) (parent child : Tid) (tgid : Int) (starttime : Nat) : Option World :=
  match w.kernel.threads.find? parent, w.history.find? parent with
  | some th, some i =>
    if child ∈ w.kernel.threads ∨ child ∈ w.runtime.lifecycle then none else
    some
      { runtime := { w.runtime with
          kernel := { w.kernel with threads := w.kernel.threads.insert child ⟨tgid, starttime, th.mask⟩ } }
        history := w.history.insert child
          { inherited := i.appMask, foreign := decide (th.mask.toList ≠ i.appMask) }
        used := w.used.add child }
  | _, _ => none

/-- The application sets a mask, and the supervisor is told. -/
def declare (w : World) (tid : Tid) (mask : OrdSet Int) : Option World :=
  match w.kernel.threads.find? tid with
  | some th =>
    if mask.isEmpty then none else
    some { w with
      runtime := { w.runtime with kernel := w.kernel.putMask tid th mask }.applicationAffinity tid mask.toList
      history := match w.history.find? tid with
        | some i => w.history.insert tid (i.declare mask.toList)
        | none => w.history }
  | none => none

theorem find?_declared (h : OrdMap Tid Incarnation) (tid : Tid) (mask : List Int) (t : Tid) :
    (match h.find? tid with
      | some i => h.insert tid (i.declare mask)
      | none => h).find? t = if tid = t then (h.find? tid).map (·.declare mask) else h.find? t := by
  cases hi : h.find? tid with
  | none =>
    split_ifs with heq
    · simpa [← heq] using hi
    · rfl
  | some i => simpa using OrdMap.find?_insert h tid (i.declare mask) t

def batch (w : World) (delta : PlacementDelta) (live : OrdSet Tid) : ApplyState Kernel :=
  Actuator.applyRun linux w.kernel w.actuator (Actuator.deltaMasks delta) live

/-- The threads a batch reached, with the mask each had. -/
def reachedBy (st : ApplyState Kernel) (t : Tid) (i : Incarnation) : Incarnation :=
  match st.previousMasks.find? t with
  | some mask => i.reach mask (decide (t ∈ st.actuator.actedTids))
  | none => i

/-- A batch; its live set are threads of the graph, as both solvers pass it. -/
def apply (w : World) (delta : PlacementDelta) (live : OrdSet Tid) : Option World :=
  if live.toList.all (fun t => decide (t ∈ w.runtime.graph.threads)) then
    let st := batch w delta live
    some { w with
      runtime := { w.runtime with kernel := st.backend, actuator := st.actuator }
      history := w.history.mapVal (reachedBy st) }
  else none

def release (w : World) (tids : OrdSet Tid) : RestoreState Kernel :=
  Actuator.restore linux w.kernel w.actuator tids

def restore (w : World) (tids : OrdSet Tid) : World :=
  { w with runtime := { w.runtime with kernel := (w.release tids).backend, actuator := (w.release tids).actuator } }

/-- The supervisor is told of a fork; what it is told of a live thread is that thread's process. -/
def started (w : World) (record : LifecycleRecord) : Option World :=
  if record.procStarttime = 0 ∧
      (w.kernel.threads.find? record.tid).all (fun th => decide (th.tgid = record.tgid ∧ 0 < record.tgid)) = true then
    some { w with runtime := w.runtime.threadStarted record }
  else none

def exit (w : World) (tid : Tid) : World :=
  { w with runtime := { w.runtime with kernel := { w.kernel with threads := w.kernel.threads.erase tid } } }

/-- The supervisor is told of an exit, after it. -/
def exited (w : World) (tid : Tid) : Option World :=
  if tid ∈ w.kernel.threads then none else some { w with runtime := w.runtime.threadExited tid }

/-- The runtime after a reconciliation; one that finds no task changes nothing. -/
def reconciled (w : World) (probe : Tid → ThreadSample) : Runtime :=
  match w.runtime.reconcileAndSample (existing w.kernel w.runtime.targetTgids)
      (samples w.kernel w.runtime.targetTgids probe) with
  | .ok r => r
  | .error _ => w.runtime

def pause (w : World) : Option World :=
  match w.runtime.pause with
  | .ok r => some { w with runtime := r }
  | .error _ => none

/-- **One event**; `none` where it cannot happen.  A fork takes a TID that is free and whose last thread the supervisor
has dropped. -/
def step (w : World) : Event → Option World
  | .fork parent child tgid starttime => w.fork parent child tgid starttime
  | .started record => w.started record
  | .exit tid => some (w.exit tid)
  | .exited tid => w.exited tid
  | .declare tid mask => w.declare tid mask
  | .reconcile probe => some { w with runtime := w.reconciled probe }
  | .apply delta live => w.apply delta live
  | .restore tids => some (w.restore tids)
  | .pause => w.pause

end World
end AffinityGraph
