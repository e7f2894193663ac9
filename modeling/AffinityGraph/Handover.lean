import Mathlib.Data.Nat.ModEq
import AffinityGraph.Pending
/-!
# Handover — the reader and the worker over the pending buffers

The reader drains and the worker consumes, in any order.  Both hold `bpf_pending_mutex_` while they touch the buffers, so a
drain is one step; a consume is a swap, and then one step for each event it handles, with drains in between.  `Book` is what
has happened: nothing that was drained is lost or handled twice unless it was counted as refused (`Handover.hands_over`), and a
consume with something refused before its swap ends in `trigger_fatal`.
-/
namespace AffinityGraph

open AffinityGraph.Runtime

/-- The locals of `consume_pending_bpf` after the swap. -/
structure Batch where
  todo : List BpfEvent
  exits : List BpfEvent := []
  relations : List PendingRelation
  lifecycleOverflow : Nat
  relationOverflow : Nat
  durationNs : Nat

/-- Where the worker is in `consume_pending_bpf`. -/
inductive Worker where
  | idle
  | lifecycle (b : Batch)
  | exits (b : Batch)

namespace Worker

/-- The lifecycle events that were taken and are not handled yet. -/
def waiting : Worker → List BpfEvent
  | idle => []
  | lifecycle b => b.todo ++ b.exits
  | exits b => b.exits

/-- What the swap found refused. -/
def overflow : Worker → Option Nat
  | idle => none
  | lifecycle b => some (b.lifecycleOverflow + b.relationOverflow)
  | exits b => some (b.lifecycleOverflow + b.relationOverflow)

end Worker

/-- What has happened so far. -/
structure Book where
  drained : List BpfEvent := []
  handled : List BpfEvent := []
  refused : List BpfEvent := []
  drainedRelations : List BpfEvent := []
  refusedRelations : List BpfEvent := []
  taken : List PendingRelation := []
  /-- the overflow counts that swaps have found -/
  countedLifecycle : Nat := 0
  countedRelations : Nat := 0
  /-- refused since the last swap, and between the two last -/
  raised : Nat := 0
  owed : Nat := 0
  /-- for every consume that ended, what was refused before its swap and whether it called `trigger_fatal` -/
  ended : List (Nat × Bool) := []

structure Handover where
  runtime : Runtime
  worker : Worker := .idle
  book : Book := {}

namespace Handover

/-! ## The reader -/

def queue (w : Handover) (event : BpfEvent) : Handover :=
  let full := decide (lifecycleLimit ≤ w.runtime.pendingLifecycleEvents.length)
  { w with
    runtime := w.runtime.queueLifecycle event
    book := { w.book with
      drained := w.book.drained ++ [event]
      refused := if full then w.book.refused ++ [event] else w.book.refused
      raised := if full then w.book.raised + 1 else w.book.raised } }

def merge (now : Nat) (w : Handover) (event : BpfEvent) : Handover :=
  let full := !w.runtime.pendingRelations.any (fun e => decide (e.1 = relationKey event)) &&
    decide (relationLimit ≤ w.runtime.pendingRelations.length)
  { w with
    runtime := mergeRelation now w.runtime event
    book := { w.book with
      drainedRelations := w.book.drainedRelations ++ [event]
      refusedRelations := if full then w.book.refusedRelations ++ [event] else w.book.refusedRelations
      raised := if full then w.book.raised + 1 else w.book.raised } }

def drain (w : Handover) (d : Drained) (now : Nat) : Handover :=
  if !w.runtime.bpfReader then w
  else (d.futex ++ d.vfs).foldl (merge now) (d.lifecycle.foldl queue w)

/-- The book is kept beside `drain_bpf_once`. -/
theorem drain_runtime (w : Handover) (d : Drained) (now : Nat) : (w.drain d now).runtime = w.runtime.drainBpfOnce d now := by
  have hqueue : ∀ (l : List BpfEvent) (w : Handover), (l.foldl queue w).runtime = l.foldl queueLifecycle w.runtime := by
    intro l
    induction l with
    | nil => exact fun w => rfl
    | cons e l ih => exact fun w => ih (w.queue e)
  have hmerge : ∀ (l : List BpfEvent) (w : Handover), (l.foldl (merge now) w).runtime = l.foldl (mergeRelation now) w.runtime := by
    intro l
    induction l with
    | nil => exact fun w => rfl
    | cons e l ih => exact fun w => ih (w.merge now e)
  unfold drain drainBpfOnce
  split
  · rfl
  · rw [hmerge, hqueue]

/-! ## The worker -/

/-- The section of a consume under the lock. -/
def take (w : Handover) (now : Nat) : Handover :=
  { runtime := w.runtime.takePending
    worker := .lifecycle
      { todo := w.runtime.pendingLifecycleEvents
        relations := w.runtime.pendingRelations
        lifecycleOverflow := w.runtime.pendingLifecycleOverflow
        relationOverflow := w.runtime.pendingRelationOverflow
        durationNs := w.runtime.relationDurationNs now }
    book := { w.book with
      taken := w.book.taken ++ w.runtime.pendingRelations
      countedLifecycle := w.book.countedLifecycle + w.runtime.pendingLifecycleOverflow
      countedRelations := w.book.countedRelations + w.runtime.pendingRelationOverflow
      raised := 0
      owed := w.book.raised } }

/-- One lifecycle event goes through `handle_bpf_event`. -/
def handle (w : Handover) (staticProfile : Bool) (symbols : BpfEvent → String) (event : BpfEvent) (worker : Worker) : Handover :=
  { runtime := handleLifecycle staticProfile symbols w.runtime event
    worker := worker
    book := { w.book with handled := w.book.handled ++ [event] } }

/-- The next step of a consume: the events in order with the exits put aside, the relations, the exits, and the end. -/
def next (w : Handover) (staticProfile : Bool) (order : List PendingRelation) (symbols : BpfEvent → String) : Option Handover :=
  match w.worker with
  | .idle => none
  | .lifecycle b =>
    match b.todo with
    | event :: rest =>
      if event.kind = .taskExit then some { w with worker := .lifecycle { b with todo := rest, exits := b.exits ++ [event] } }
      else some (w.handle staticProfile symbols event (.lifecycle { b with todo := rest }))
    | [] =>
      if order.isPerm b.relations then
        some { w with runtime := w.runtime.ingestRelations staticProfile order b.durationNs, worker := .exits b }
      else none
  | .exits b =>
    match b.exits with
    | event :: rest => some (w.handle staticProfile symbols event (.exits { b with exits := rest }))
    | [] =>
      let fatal := decide (b.lifecycleOverflow ≠ 0 ∨ b.relationOverflow ≠ 0)
      (if fatal then w.runtime.triggerFatal "BPF user-space pending buffer overflow" else .ok w.runtime).toOption.map (fun r =>
        { runtime := r
          worker := .idle
          book := { w.book with ended := w.book.ended ++ [(w.book.owed, fatal)] } })

inductive Event where
  | drain (d : Drained) (now : Nat)
  | take (now : Nat)
  | next (staticProfile : Bool) (order : List PendingRelation) (symbols : BpfEvent → String)

def step (w : Handover) : Event → Option Handover
  | .drain d now => some (w.drain d now)
  | .take now =>
    match w.worker with
    | .idle => some (w.take now)
    | .lifecycle _ => none
    | .exits _ => none
  | .next staticProfile order symbols => w.next staticProfile order symbols

/-! ## Sums by key -/

/-- The pending or taken time of a key. -/
def valueOf (k : PendingRelationKey) (l : List PendingRelation) : Nat :=
  ((l.filter (fun e => decide (e.1 = k))).map (fun e => e.2.valueNs)).sum

/-- The time the events of a key tell. -/
def toldOf (k : PendingRelationKey) (l : List BpfEvent) : Nat :=
  ((l.filter (fun e => decide (relationKey e = k))).map (·.valueNs)).sum

theorem valueOf_cons (k : PendingRelationKey) (e : PendingRelation) (l : List PendingRelation) :
    valueOf k (e :: l) = (if e.1 = k then e.2.valueNs else 0) + valueOf k l := by
  unfold valueOf
  by_cases h : e.1 = k
  · simp [h]
  · simp [h]

theorem valueOf_append (k : PendingRelationKey) (l l' : List PendingRelation) :
    valueOf k (l ++ l') = valueOf k l + valueOf k l' := by
  unfold valueOf
  rw [List.filter_append, List.map_append, List.sum_append]

theorem toldOf_append (k : PendingRelationKey) (l : List BpfEvent) (e : BpfEvent) :
    toldOf k (l ++ [e]) = toldOf k l + if relationKey e = k then e.valueNs else 0 := by
  unfold toldOf
  rw [List.filter_append, List.map_append, List.sum_append]
  by_cases h : relationKey e = k
  · simp [h]
  · simp [h]

/-- A key that is pending takes the event's time; the others keep theirs. -/
theorem valueOf_merged (k : PendingRelationKey) (event : BpfEvent) : ∀ (l : List PendingRelation), (l.map Prod.fst).Nodup →
    relationKey event ∈ l.map Prod.fst →
    valueOf k (l.map (fun e => if e.1 = relationKey event then (e.1, PendingRelationValue.merge e.2 event) else e)) ≡
      valueOf k l + (if relationKey event = k then event.valueNs else 0) [MOD 2 ^ 64]
  | e :: l, hn, hin => by
    rw [List.map_cons, List.nodup_cons] at hn
    rw [List.map_cons, valueOf_cons, valueOf_cons]
    by_cases he : e.1 = relationKey event
    · have hrest : l.map (fun e => if e.1 = relationKey event then (e.1, PendingRelationValue.merge e.2 event) else e) = l := by
        refine (List.map_congr_left (fun x hx => if_neg (fun hk => hn.1 ?_))).trans (List.map_id l)
        rw [he, ← hk]
        exact List.mem_map_of_mem hx
      rw [hrest, if_pos he]
      show (if e.1 = k then (e.2.valueNs + event.valueNs) % 2 ^ 64 else 0) + valueOf k l ≡ _ [MOD 2 ^ 64]
      rw [he]
      by_cases hk : relationKey event = k
      · rw [if_pos hk, if_pos hk, if_pos hk]
        have hmod : (e.2.valueNs + event.valueNs) % 2 ^ 64 ≡ e.2.valueNs + event.valueNs [MOD 2 ^ 64] := Nat.mod_modEq _ _
        refine (hmod.add_right _).trans ?_
        rw [Nat.add_right_comm]
      · rw [if_neg hk, if_neg hk, if_neg hk]
        rfl
    · have hin' : relationKey event ∈ l.map Prod.fst := by
        rw [List.map_cons, List.mem_cons] at hin
        exact hin.resolve_left (Ne.symm he)
      rw [if_neg he, Nat.add_assoc]
      exact (valueOf_merged k event l hn.2 hin').add_left _

/-! ## The balance -/

/-- Nothing is lost, nothing is there twice, and the counts are of what was refused. -/
structure Balanced (w : Handover) : Prop where
  lifecycle : w.book.drained.Perm
    (w.book.handled ++ w.worker.waiting ++ w.runtime.pendingLifecycleEvents ++ w.book.refused)
  refused : w.book.refused.length = w.book.countedLifecycle + w.runtime.pendingLifecycleOverflow
  keys : (w.runtime.pendingRelations.map Prod.fst).Nodup
  relations : ∀ k, valueOf k w.book.taken + valueOf k w.runtime.pendingRelations + toldOf k w.book.refusedRelations ≡
    toldOf k w.book.drainedRelations [MOD 2 ^ 64]
  refusedRelations : w.book.refusedRelations.length = w.book.countedRelations + w.runtime.pendingRelationOverflow
  raised : w.runtime.pendingLifecycleOverflow + w.runtime.pendingRelationOverflow = w.book.raised
  owed : ∀ n, w.worker.overflow = some n → n = w.book.owed
  ended : ∀ x ∈ w.book.ended, x.2 = true ↔ x.1 ≠ 0

variable {w w' : Handover}

theorem Balanced.queue (h : w.Balanced) (event : BpfEvent) : (w.queue event).Balanced := by
  by_cases hfull : lifecycleLimit ≤ w.runtime.pendingLifecycleEvents.length
  · have hq : w.queue event = { w with
        runtime := { w.runtime with pendingLifecycleOverflow := w.runtime.pendingLifecycleOverflow + 1 }
        book := { w.book with
          drained := w.book.drained ++ [event]
          refused := w.book.refused ++ [event]
          raised := w.book.raised + 1 } } := by
      unfold Handover.queue queueLifecycle
      simp only [hfull, decide_true, if_true]
    rw [hq]
    refine ⟨?_, ?_, h.keys, h.relations, h.refusedRelations, ?_, h.owed, h.ended⟩
    · show (w.book.drained ++ [event]).Perm (_ ++ (w.book.refused ++ [event]))
      rw [← List.append_assoc]
      exact h.lifecycle.append_right _
    · show (w.book.refused ++ [event]).length = _ + (_ + 1)
      rw [List.length_append, h.refused]
      rfl
    · show w.runtime.pendingLifecycleOverflow + 1 + w.runtime.pendingRelationOverflow = w.book.raised + 1
      have hraised := h.raised
      omega
  · have hq : w.queue event = { w with
        runtime := { w.runtime with pendingLifecycleEvents := w.runtime.pendingLifecycleEvents ++ [event] }
        book := { w.book with drained := w.book.drained ++ [event] } } := by
      unfold Handover.queue queueLifecycle
      simp only [hfull, decide_false, Bool.false_eq_true, if_false]
    rw [hq]
    refine ⟨?_, h.refused, h.keys, h.relations, h.refusedRelations, h.raised, h.owed, h.ended⟩
    show (w.book.drained ++ [event]).Perm
      (w.book.handled ++ w.worker.waiting ++ (w.runtime.pendingLifecycleEvents ++ [event]) ++ w.book.refused)
    refine (h.lifecycle.append_right [event]).trans ?_
    have hlast : (w.book.refused ++ [event]).Perm ([event] ++ w.book.refused) := List.perm_append_comm
    simp only [List.append_assoc]
    exact ((hlast.append_left _).append_left _).append_left _

theorem Balanced.merge (h : w.Balanced) (now : Nat) (event : BpfEvent) : (w.merge now event).Balanced := by
  by_cases hin : w.runtime.pendingRelations.any (fun e => decide (e.1 = relationKey event)) = true
  · -- the key is pending, so the event is added to it whatever the size
    have hkey : relationKey event ∈ w.runtime.pendingRelations.map Prod.fst := by
      obtain ⟨e, he, hk⟩ := List.any_eq_true.1 hin
      exact List.mem_map.2 ⟨e, he, of_decide_eq_true hk⟩
    have hm : w.merge now event = { w with
        runtime := { w.runtime with pendingRelations := w.runtime.pendingRelations.map (fun e =>
          if e.1 = relationKey event then (e.1, PendingRelationValue.merge e.2 event) else e) }
        book := { w.book with drainedRelations := w.book.drainedRelations ++ [event] } } := by
      unfold Handover.merge mergeRelation
      simp only [hin, Bool.not_true, Bool.false_and, Bool.false_eq_true, if_true, if_false]
    rw [hm]
    refine ⟨h.lifecycle, h.refused, ?_, fun k => ?_, h.refusedRelations, h.raised, h.owed, h.ended⟩
    · show ((w.runtime.pendingRelations.map _).map Prod.fst).Nodup
      have hfst : (w.runtime.pendingRelations.map (fun e =>
          if e.1 = relationKey event then (e.1, PendingRelationValue.merge e.2 event) else e)).map Prod.fst =
          w.runtime.pendingRelations.map Prod.fst := by
        rw [List.map_map]
        refine List.map_congr_left (fun e _ => ?_)
        rw [Function.comp_apply]
        split <;> rfl
      rw [hfst]
      exact h.keys
    · show valueOf k w.book.taken + valueOf k (w.runtime.pendingRelations.map _) + _ ≡
        toldOf k (w.book.drainedRelations ++ [event]) [MOD 2 ^ 64]
      rw [toldOf_append]
      have hmerged := valueOf_merged k event w.runtime.pendingRelations h.keys hkey
      refine ((hmerged.add_left _).add_right _).trans ?_
      rw [← Nat.add_assoc, Nat.add_right_comm]
      exact (h.relations k).add_right _
  · rw [Bool.not_eq_true] at hin
    by_cases hfull : relationLimit ≤ w.runtime.pendingRelations.length
    · have hm : w.merge now event = { w with
          runtime := { w.runtime with pendingRelationOverflow := w.runtime.pendingRelationOverflow + 1 }
          book := { w.book with
            drainedRelations := w.book.drainedRelations ++ [event]
            refusedRelations := w.book.refusedRelations ++ [event]
            raised := w.book.raised + 1 } } := by
        unfold Handover.merge mergeRelation
        simp only [hin, hfull, Bool.not_false, Bool.true_and, decide_true, Bool.false_eq_true, if_true, if_false]
      rw [hm]
      refine ⟨h.lifecycle, h.refused, h.keys, fun k => ?_, ?_, ?_, h.owed, h.ended⟩
      · show _ + toldOf k (w.book.refusedRelations ++ [event]) ≡ toldOf k (w.book.drainedRelations ++ [event]) [MOD 2 ^ 64]
        rw [toldOf_append, toldOf_append, ← Nat.add_assoc]
        exact (h.relations k).add_right _
      · show (w.book.refusedRelations ++ [event]).length = _ + (_ + 1)
        rw [List.length_append, h.refusedRelations]
        rfl
      · show w.runtime.pendingLifecycleOverflow + (w.runtime.pendingRelationOverflow + 1) = w.book.raised + 1
        have hraised := h.raised
        omega
    · have hm : w.merge now event = { w with
          runtime := { w.runtime with
            pendingRelationStartedNs := if w.runtime.pendingRelations.isEmpty then now else w.runtime.pendingRelationStartedNs
            pendingRelations := w.runtime.pendingRelations ++ [(relationKey event, ⟨event.timestampNs, event.valueNs⟩)] }
          book := { w.book with drainedRelations := w.book.drainedRelations ++ [event] } } := by
        unfold Handover.merge mergeRelation
        simp only [hin, hfull, Bool.not_false, Bool.true_and, decide_false, Bool.false_eq_true, if_false]
      rw [hm]
      refine ⟨h.lifecycle, h.refused, ?_, fun k => ?_, h.refusedRelations, h.raised, h.owed, h.ended⟩
      · show ((w.runtime.pendingRelations ++ [_]).map Prod.fst).Nodup
        rw [List.map_append]
        refine h.keys.append (List.nodup_singleton _) (fun x hx hk => ?_)
        rw [List.map_singleton, List.mem_singleton] at hk
        obtain ⟨e, he, hek⟩ := List.mem_map.1 hx
        have hno := List.any_eq_false.1 hin e he
        exact hno (decide_eq_true (hek.trans hk))
      · show valueOf k w.book.taken + valueOf k (w.runtime.pendingRelations ++ [_]) + _ ≡
          toldOf k (w.book.drainedRelations ++ [event]) [MOD 2 ^ 64]
        rw [toldOf_append, valueOf_append, valueOf_cons]
        show _ + (_ + ((if relationKey event = k then event.valueNs else 0) + 0)) + _ ≡ _ [MOD 2 ^ 64]
        rw [Nat.add_zero, ← Nat.add_assoc, Nat.add_right_comm]
        exact (h.relations k).add_right _

theorem Balanced.drain (h : w.Balanced) (d : Drained) (now : Nat) : (w.drain d now).Balanced := by
  unfold Handover.drain
  split
  · exact h
  · have hqueued := Loop.foldl_keeps Balanced (fun _ e hw => Balanced.queue hw e) d.lifecycle h
    exact Loop.foldl_keeps Balanced (fun _ e hw => Balanced.merge hw now e) (d.futex ++ d.vfs) hqueued

theorem Balanced.take (h : w.Balanced) (hidle : w.worker = .idle) (now : Nat) : (w.take now).Balanced := by
  refine ⟨?_, ?_, List.nodup_nil, fun k => ?_, ?_, rfl, fun n hn => ?_, h.ended⟩
  · show w.book.drained.Perm (w.book.handled ++ (w.runtime.pendingLifecycleEvents ++ []) ++ [] ++ w.book.refused)
    have hbefore := h.lifecycle
    rw [hidle] at hbefore
    simpa [Worker.waiting] using hbefore
  · show _ = _ + _ + 0
    exact h.refused
  · show valueOf k (w.book.taken ++ w.runtime.pendingRelations) + 0 + _ ≡ _ [MOD 2 ^ 64]
    rw [valueOf_append]
    exact h.relations k
  · show _ = _ + _ + 0
    exact h.refusedRelations
  · cases hn
    exact h.raised

/-! ### The worker's own steps -/

/-- What the two parties share. -/
def buffers (r : Runtime) : List BpfEvent × List PendingRelation × Nat × Nat :=
  (r.pendingLifecycleEvents, r.pendingRelations, r.pendingLifecycleOverflow, r.pendingRelationOverflow)

theorem buffers_handleBpfEvent (r : Runtime) (staticProfile : Bool) (event : BpfEvent) (startSymbol : String) :
    buffers (r.handleBpfEvent staticProfile event startSymbol) = buffers r := by
  have hrelation : buffers (r.relate staticProfile event) = buffers r := by
    rcases r.relate_cases staticProfile event with he | ⟨o, he⟩
    · rw [he]
    · rw [he]
      rfl
  unfold handleBpfEvent
  cases event.kind with
  | futex => exact hrelation
  | vfs => exact hrelation
  | taskFork => rfl
  | taskExec => rfl
  | taskExit => rfl
  | taskRename =>
    dsimp only [threadRenamed]
    split <;> rfl
  | affinity =>
    dsimp only [applicationAffinity]
    split
    · rfl
    · split <;> rfl

theorem buffers_ingestRelations (r : Runtime) (staticProfile : Bool) (order : List PendingRelation) (durationNs : Nat) :
    buffers (r.ingestRelations staticProfile order durationNs) = buffers r := by
  unfold ingestRelations
  refine Loop.foldl_keeps (fun r' : Runtime => buffers r' = buffers r) (fun r' e hr => ?_) _ rfl
  exact (buffers_handleBpfEvent r' staticProfile _ _).trans hr

theorem buffers_triggerFatal {r r' : Runtime} {message : String} (h : r.triggerFatal message = .ok r') :
    buffers r' = buffers r := by
  obtain ⟨-, ⟨-, rfl⟩ | ⟨-, r₁, hr₁, rfl⟩⟩ := triggerFatal_ok h
  · rfl
  · obtain ⟨-, rfl⟩ := pause_ok hr₁
    rfl

/-- A step that leaves the buffers alone, and only moves events from the waiting to the handled ones. -/
theorem Balanced.of_buffers (h : w.Balanced) {r : Runtime} {worker : Worker} {handled : List BpfEvent}
    {ended : List (Nat × Bool)} (hr : buffers r = buffers w.runtime)
    (hmoved : (w.book.handled ++ w.worker.waiting).Perm (handled ++ worker.waiting))
    (hoverflow : ∀ n, worker.overflow = some n → w.worker.overflow = some n) (hended : ∀ x ∈ ended, x.2 = true ↔ x.1 ≠ 0) :
    Balanced ⟨r, worker, { w.book with handled := handled, ended := ended }⟩ := by
  unfold buffers at hr
  simp only [Prod.mk.injEq] at hr
  obtain ⟨hlife, hrel, hcount, hcount'⟩ := hr
  refine ⟨?_, ?_, ?_, ?_, ?_, ?_, fun n hn => h.owed n (hoverflow n hn), hended⟩
  · show w.book.drained.Perm (handled ++ worker.waiting ++ r.pendingLifecycleEvents ++ w.book.refused)
    rw [hlife]
    exact h.lifecycle.trans ((hmoved.append_right _).append_right _)
  · show _ = _ + r.pendingLifecycleOverflow
    rw [hcount]
    exact h.refused
  · show (r.pendingRelations.map Prod.fst).Nodup
    rw [hrel]
    exact h.keys
  · show ∀ k, valueOf k w.book.taken + valueOf k r.pendingRelations + _ ≡ _ [MOD 2 ^ 64]
    rw [hrel]
    exact h.relations
  · show _ = _ + r.pendingRelationOverflow
    rw [hcount']
    exact h.refusedRelations
  · show r.pendingLifecycleOverflow + r.pendingRelationOverflow = _
    rw [hcount, hcount']
    exact h.raised

theorem Balanced.next (h : w.Balanced) {staticProfile : Bool} {order : List PendingRelation} {symbols : BpfEvent → String}
    (hstep : w.next staticProfile order symbols = some w') : w'.Balanced := by
  unfold Handover.next at hstep
  cases hw : w.worker with
  | idle =>
    rw [hw] at hstep
    cases hstep
  | lifecycle b =>
    rw [hw] at hstep
    have hoverflow : ∀ b', b'.lifecycleOverflow = b.lifecycleOverflow → b'.relationOverflow = b.relationOverflow →
        ∀ n, (Worker.lifecycle b').overflow = some n → w.worker.overflow = some n := by
      intro b' hl hr n hn
      rw [hw]
      simpa only [Worker.overflow, hl, hr] using hn
    cases htodo : b.todo with
    | cons event rest =>
      simp only [htodo] at hstep
      split at hstep
      · cases hstep
        refine h.of_buffers rfl ?_ (hoverflow _ rfl rfl) h.ended
        rw [hw]
        refine List.Perm.append_left _ ?_
        show (b.todo ++ b.exits).Perm (rest ++ (b.exits ++ [event]))
        rw [htodo, ← List.append_assoc]
        exact (List.perm_append_singleton event (rest ++ b.exits)).symm
      · cases hstep
        refine h.of_buffers (buffers_handleBpfEvent _ _ _ _) ?_ (hoverflow _ rfl rfl) h.ended
        rw [hw]
        show (w.book.handled ++ (b.todo ++ b.exits)).Perm (w.book.handled ++ [event] ++ (rest ++ b.exits))
        rw [htodo, List.append_assoc]
        rfl
    | nil =>
      simp only [htodo] at hstep
      split at hstep
      · cases hstep
        refine h.of_buffers (buffers_ingestRelations _ _ _ _) ?_ (hoverflow b rfl rfl) h.ended
        rw [hw]
        show (w.book.handled ++ (b.todo ++ b.exits)).Perm (w.book.handled ++ b.exits)
        rw [htodo]
        rfl
      · cases hstep
  | exits b =>
    rw [hw] at hstep
    cases hexits : b.exits with
    | cons event rest =>
      simp only [hexits] at hstep
      cases hstep
      refine h.of_buffers (buffers_handleBpfEvent _ _ _ _) ?_ (fun n hn => ?_) h.ended
      · rw [hw]
        show (w.book.handled ++ b.exits).Perm (w.book.handled ++ [event] ++ rest)
        rw [hexits, List.append_assoc]
        rfl
      · rw [hw]
        exact hn
    | nil =>
      simp only [hexits] at hstep
      obtain ⟨r, hr, rfl⟩ := Option.map_eq_some_iff.1 hstep
      have howed : b.lifecycleOverflow + b.relationOverflow = w.book.owed := h.owed _ (by rw [hw]; rfl)
      refine h.of_buffers ?_ ?_ (fun n hn => ?_) (fun x hx => ?_)
      · split at hr
        · exact buffers_triggerFatal (toOption_eq_some hr)
        · cases hr
          rfl
      · rw [hw]
        show (w.book.handled ++ b.exits).Perm (w.book.handled ++ [])
        rw [hexits]
      · cases hn
      · rcases List.mem_append.1 hx with hx | hx
        · exact h.ended x hx
        · rw [List.mem_singleton.1 hx]
          show decide (b.lifecycleOverflow ≠ 0 ∨ b.relationOverflow ≠ 0) = true ↔ w.book.owed ≠ 0
          rw [decide_eq_true_eq]
          omega

theorem Balanced.step (h : w.Balanced) {e : Event} (hstep : w.step e = some w') : w'.Balanced := by
  cases e with
  | drain d now =>
    cases hstep
    exact h.drain d now
  | take now =>
    unfold Handover.step at hstep
    cases hw : w.worker with
    | idle =>
      simp only [hw] at hstep
      cases hstep
      exact h.take hw now
    | lifecycle b =>
      simp only [hw] at hstep
      cases hstep
    | exits b =>
      simp only [hw] at hstep
      cases hstep
  | next staticProfile order symbols => exact h.next hstep

/-- **The hand-over loses and duplicates nothing**, in every interleaving.  The drained lifecycle events are the handled ones,
those on their way, and the refused ones, which are counted.  The time the drained events of a key tell is what was taken of
it, what is pending, and what was refused, modulo 2^64.  A consume calls `trigger_fatal` exactly when something was refused
between its swap and the one before. -/
theorem hands_over (r : Runtime) {run : List Event} (hrun : Run.exec step { runtime := r.takePending } run = some w) :
    (w.book.drained.Perm (w.book.handled ++ w.worker.waiting ++ w.runtime.pendingLifecycleEvents ++ w.book.refused) ∧
      w.book.refused.length = w.book.countedLifecycle + w.runtime.pendingLifecycleOverflow) ∧
    ((∀ k, valueOf k w.book.taken + valueOf k w.runtime.pendingRelations + toldOf k w.book.refusedRelations ≡
        toldOf k w.book.drainedRelations [MOD 2 ^ 64]) ∧
      w.book.refusedRelations.length = w.book.countedRelations + w.runtime.pendingRelationOverflow) ∧
    ∀ x ∈ w.book.ended, x.2 = true ↔ x.1 ≠ 0 := by
  have hstart : Balanced { runtime := r.takePending } := by
    refine ⟨List.Perm.refl _, rfl, List.nodup_nil, fun k => ?_, rfl, rfl, fun n hn => ?_, fun x hx => ?_⟩
    · exact Nat.ModEq.refl _
    · cases hn
    · cases hx
  have h := Run.exec_keeps Balanced (fun _ _ _ hw hstep => hw.step hstep) hstart hrun
  exact ⟨⟨h.lifecycle, h.refused⟩, ⟨h.relations, h.refusedRelations⟩, h.ended⟩

/-! ### A consume without drains in between -/

section Alone

variable (staticProfile : Bool) (order : List PendingRelation) (symbols : BpfEvent → String)

theorem exec_lifecycle : ∀ (todo : List BpfEvent) {w : Handover} {b : Batch}, w.worker = .lifecycle b → b.todo = todo →
    ∃ w', Run.exec step w (List.replicate todo.length (.next staticProfile order symbols)) = some w' ∧
      w'.runtime = (todo.filter (fun e => decide (e.kind ≠ .taskExit))).foldl (handleLifecycle staticProfile symbols) w.runtime ∧
      w'.worker = .lifecycle { b with todo := [], exits := b.exits ++ todo.filter (fun e => decide (e.kind = .taskExit)) }
  | [], w, b, hw, hb => ⟨w, rfl, rfl, by rw [hw, List.filter_nil, List.append_nil, ← hb]⟩
  | event :: todo, w, b, hw, hb => by
    by_cases hexit : event.kind = .taskExit
    · obtain ⟨w', hrun, hr, hworker⟩ := exec_lifecycle todo
        (w := { w with worker := .lifecycle { b with todo := todo, exits := b.exits ++ [event] } }) rfl rfl
      refine ⟨w', ?_, ?_, ?_⟩
      · have hstep : w.step (.next staticProfile order symbols) =
            some { w with worker := .lifecycle { b with todo := todo, exits := b.exits ++ [event] } } := by
          simp only [Handover.step, Handover.next, hw, hb, if_pos hexit]
        rw [List.length_cons, List.replicate_succ, Run.exec, hstep]
        exact hrun
      · rw [hr, List.filter_cons, if_neg (by simp [hexit])]
      · rw [hworker, List.filter_cons, if_pos (by simp [hexit]), List.append_assoc]
        rfl
    · obtain ⟨w', hrun, hr, hworker⟩ := exec_lifecycle todo
        (w := w.handle staticProfile symbols event (.lifecycle { b with todo := todo })) rfl rfl
      refine ⟨w', ?_, ?_, ?_⟩
      · have hstep : w.step (.next staticProfile order symbols) =
            some (w.handle staticProfile symbols event (.lifecycle { b with todo := todo })) := by
          simp only [Handover.step, Handover.next, hw, hb, if_neg hexit]
        rw [List.length_cons, List.replicate_succ, Run.exec, hstep]
        exact hrun
      · rw [hr, List.filter_cons, if_pos (by simp [hexit])]
        rfl
      · rw [hworker, List.filter_cons, if_neg (by simp [hexit])]

theorem exec_exits : ∀ (exits : List BpfEvent) {w : Handover} {b : Batch}, w.worker = .exits b → b.exits = exits →
    ∃ w', Run.exec step w (List.replicate exits.length (.next staticProfile order symbols)) = some w' ∧
      w'.runtime = exits.foldl (handleLifecycle staticProfile symbols) w.runtime ∧ w'.worker = .exits { b with exits := [] }
  | [], w, b, hw, hb => ⟨w, rfl, rfl, by rw [hw, ← hb]⟩
  | event :: exits, w, b, hw, hb => by
    obtain ⟨w', hrun, hr, hworker⟩ := exec_exits exits
      (w := w.handle staticProfile symbols event (.exits { b with exits := exits })) rfl rfl
    refine ⟨w', ?_, hr, hworker⟩
    have hstep : w.step (.next staticProfile order symbols) =
        some (w.handle staticProfile symbols event (.exits { b with exits := exits })) := by
      simp only [Handover.step, Handover.next, hw, hb]
    rw [List.length_cons, List.replicate_succ, Run.exec, hstep]
    exact hrun

/-- **The steps of the worker add up to `consume_pending_bpf`.** -/
theorem consume_alone {order : List PendingRelation} {now : Nat} {r : Runtime} (hidle : w.worker = .idle)
    (horder : order.Perm w.runtime.pendingRelations)
    (h : w.runtime.consumePendingBpf staticProfile order symbols now = .ok r) :
    ∃ n w', Run.exec step w (.take now :: List.replicate n (.next staticProfile order symbols)) = some w' ∧
      w'.runtime = r ∧ w'.worker = .idle := by
  have htake : w.step (.take now) = some (w.take now) := by simp only [Handover.step, hidle]
  obtain ⟨w₁, hrun₁, hr₁, hworker₁⟩ := exec_lifecycle staticProfile order symbols w.runtime.pendingLifecycleEvents
    (w := w.take now) rfl rfl
  have hingest : w₁.step (.next staticProfile order symbols) = some
      { w₁ with
        runtime := w₁.runtime.ingestRelations staticProfile order (w.runtime.relationDurationNs now)
        worker := .exits
          { todo := []
            exits := w.runtime.pendingLifecycleEvents.filter (fun e => decide (e.kind = .taskExit))
            relations := w.runtime.pendingRelations
            lifecycleOverflow := w.runtime.pendingLifecycleOverflow
            relationOverflow := w.runtime.pendingRelationOverflow
            durationNs := w.runtime.relationDurationNs now } } := by
    simp only [Handover.step, Handover.next, hworker₁, List.isPerm_iff.2 horder, if_true, List.nil_append]
  obtain ⟨w₂, hrun₂, hr₂, hworker₂⟩ := exec_exits staticProfile order symbols
    (w.runtime.pendingLifecycleEvents.filter (fun e => decide (e.kind = .taskExit)))
    (w := { w₁ with
      runtime := w₁.runtime.ingestRelations staticProfile order (w.runtime.relationDurationNs now)
      worker := .exits
        { todo := []
          exits := w.runtime.pendingLifecycleEvents.filter (fun e => decide (e.kind = .taskExit))
          relations := w.runtime.pendingRelations
          lifecycleOverflow := w.runtime.pendingLifecycleOverflow
          relationOverflow := w.runtime.pendingRelationOverflow
          durationNs := w.runtime.relationDurationNs now } }) rfl rfl
  have hend : ∃ w₃, w₂.step (.next staticProfile order symbols) = some w₃ ∧ w₃.runtime = r ∧ w₃.worker = .idle := by
    have hr : (if decide (w.runtime.pendingLifecycleOverflow ≠ 0 ∨ w.runtime.pendingRelationOverflow ≠ 0) = true
        then w₂.runtime.triggerFatal "BPF user-space pending buffer overflow" else .ok w₂.runtime) = .ok r := by
      rw [hr₂, hr₁]
      simp only [decide_eq_true_eq]
      exact h
    refine ⟨⟨r, .idle, { w₂.book with ended := w₂.book.ended ++ [(w₂.book.owed,
      decide (w.runtime.pendingLifecycleOverflow ≠ 0 ∨ w.runtime.pendingRelationOverflow ≠ 0))] }⟩, ?_, rfl, rfl⟩
    simp only [Handover.step, Handover.next, hworker₂, hr]
    rfl
  obtain ⟨w₃, hstep₃, hrest⟩ := hend
  refine ⟨w.runtime.pendingLifecycleEvents.length +
    (1 + ((w.runtime.pendingLifecycleEvents.filter (fun e => decide (e.kind = .taskExit))).length + 1)), w₃, ?_, hrest⟩
  rw [Run.exec, htake, Option.bind_some, List.replicate_add, Run.exec_append hrun₁, List.replicate_add, List.replicate_one,
    List.singleton_append, Run.exec, hingest, Option.bind_some, List.replicate_add, Run.exec_append hrun₂, List.replicate_one,
    Run.exec, hstep₃]
  rfl

end Alone

/-! ### An exit that is drained during a consume -/

def forkedRuntime : Runtime where
  config := { mode := .active, solver := .numaDomain }
  hardware := { cpus := [⟨0, 0, true⟩] }
  rootPid := 9
  kernel := { threads := OrdMap.ofList [(9, ⟨9, 10, OrdSet.ofList [0]⟩)] }
  graph := { horizonSeconds := 60, libm := ⟨id, id⟩ }

def forkEvent : BpfEvent where
  kind := .taskFork
  tgid := 9
  tid := 5

def exitEvent : BpfEvent where
  kind := .taskExit
  tgid := 9
  tid := 5

def interleaved : List Event :=
  [.drain { lifecycle := [forkEvent], lifecycleKinds := by simp [forkEvent] } 1, .take 2,
    .drain { lifecycle := [exitEvent], lifecycleKinds := by simp [exitEvent] } 3,
    .next false [] (fun _ => ""), .next false [] (fun _ => ""), .next false [] (fun _ => "")]

theorem hands_over_interleaved : ∃ w, Run.exec step { runtime := forkedRuntime.takePending } interleaved = some w ∧
    w.book.drained.length = 2 ∧ w.book.handled.length = 1 ∧ w.runtime.pendingLifecycleEvents.length = 1 ∧
    w.book.drained.Perm (w.book.handled ++ w.worker.waiting ++ w.runtime.pendingLifecycleEvents ++ w.book.refused) := by
  have h : (Run.exec step { runtime := forkedRuntime.takePending } interleaved).any (fun w => decide
      (w.book.drained.length = 2 ∧ w.book.handled.length = 1 ∧ w.runtime.pendingLifecycleEvents.length = 1)) = true := by
    decide +kernel
  obtain ⟨w, hw, h⟩ := (Option.any_eq_true _ _).1 h
  obtain ⟨hdrained, hhandled, hpending⟩ := of_decide_eq_true h
  exact ⟨w, hw, hdrained, hhandled, hpending, (hands_over forkedRuntime hw).1.1⟩

end Handover
end AffinityGraph
