import AffinityGraph.Runtime
import Mathlib.Data.List.Perm.Basic
/-!
# MapDrain — draining the aggregate maps (`bpf_reader.cpp`)

`drain_futex_aggregates` and `drain_vfs_aggregates` empty a kernel map in batches, and entry by entry where the kernel does
not know the batch call.  Both read the count of a batch call before its error, and a call the kernel refuses leaves the
count as it was asked for: the buffers, still zero, are then reported as so many records.
-/
namespace AffinityGraph

/-! ## The maps -/

structure FutexKey where
  tgid : Int := 0
  tid : Tid := 0
  peerTid : Tid := 0
  reserved : Nat := 0
  startTimeNs : Nat := 0
  peerStartTimeNs : Nat := 0
  deriving DecidableEq

structure FutexValue where
  count : Nat := 0
  lastTimestampNs : Nat := 0
  deriving DecidableEq

structure VfsKey where
  tgid : Int := 0
  tid : Tid := 0
  peerTid : Tid := 0
  reserved : Nat := 0
  startTimeNs : Nat := 0
  peerStartTimeNs : Nat := 0
  resource : Nat := 0
  deriving DecidableEq

structure VfsValue where
  totalTimeNs : Nat := 0
  count : Nat := 0
  lastTimestampNs : Nat := 0
  deriving DecidableEq

namespace MapDrain

def futexEvent (entry : FutexKey × FutexValue) : BpfEvent where
  kind := .futex
  tgid := entry.1.tgid
  tid := entry.1.tid
  peerTid := entry.1.peerTid
  timestampNs := entry.2.lastTimestampNs
  startTimeNs := entry.1.startTimeNs
  peerStartTimeNs := entry.1.peerStartTimeNs
  valueNs := entry.2.count

def vfsEvent (entry : VfsKey × VfsValue) : BpfEvent where
  kind := .vfs
  tgid := entry.1.tgid
  tid := entry.1.tid
  peerTid := entry.1.peerTid
  timestampNs := entry.2.lastTimestampNs
  startTimeNs := entry.1.startTimeNs
  peerStartTimeNs := entry.1.peerStartTimeNs
  valueNs := entry.2.totalTimeNs
  resource := entry.1.resource

/-! ## The kernel -/

inductive Errno where
  | enoent
  | einval
  | eopnotsupp
  | other (code : Nat)
  deriving DecidableEq

/-- The errors that tell of a call the kernel does not know. -/
def Errno.refuses (e : Errno) : Bool := decide (e = .einval) || decide (e = .eopnotsupp)

/-- What the drains get from the kernel, for a map whose entries are listed in the order it visits them. -/
structure MapKernel (κ ν : Type) where
  batchSupported : Bool
  /-- what `BPF_MAP_LOOKUP_AND_DELETE_BATCH` fails with where it is not supported -/
  refusal : Errno
  refusal_refuses : refusal.refuses = true
  /-- how many entries a supported batch call takes, with and without a cursor, and the error it ends with -/
  batch : Bool → List (κ × ν) → Nat → Nat × Option Errno
  batch_le : ∀ cursor entries count, (batch cursor entries count).1 ≤ min count entries.length
  batch_known : ∀ cursor entries count, ∀ e ∈ (batch cursor entries count).2, e.refuses = false
  /-- whether `BPF_MAP_LOOKUP_AND_DELETE_ELEM` succeeds, by the turn and the key -/
  takes : Nat → κ → Bool

/-- What a batch call leaves: `attr.batch.count`, `errno`, the buffers and the map. -/
structure BatchReply (κ ν : Type) where
  count : Nat
  error : Option Errno
  buffer : List (κ × ν)
  entries : List (κ × ν)

variable {κ ν : Type}

/-- `BPF_MAP_LOOKUP_AND_DELETE_BATCH`.  A call that is not supported touches neither the count nor the buffers. -/
def MapKernel.lookupAndDeleteBatch (kernel : MapKernel κ ν) (haveCursor : Bool) (buffer entries : List (κ × ν))
    (count : Nat) : BatchReply κ ν :=
  if kernel.batchSupported then
    let taken := (kernel.batch haveCursor entries count).1
    { count := taken
      error := (kernel.batch haveCursor entries count).2
      buffer := entries.take taken ++ buffer.drop taken
      entries := entries.drop taken }
  else { count := count, error := some kernel.refusal, buffer := buffer, entries := entries }

/-! ## The drains -/

/-- `batch_size`. -/
def batchSize : Nat := 4096

/-- `drain_limit`. -/
def drainLimit : Nat := 16384

/-- The map and the local variables of a drain. -/
structure Drain (κ ν : Type) where
  entries : List (κ × ν)
  buffer : List (κ × ν)
  result : List BpfEvent := []
  haveCursor : Bool := false
  batchSupported : Bool := true
  drained : Nat := 0

/-- The batch call of a turn. -/
def Drain.ask (kernel : MapKernel κ ν) (st : Drain κ ν) : BatchReply κ ν :=
  kernel.lookupAndDeleteBatch st.haveCursor st.buffer st.entries (min batchSize (drainLimit - st.drained))

/-- What is made of its reply: the count is read whatever the call returned. -/
def Drain.append (event : κ × ν → BpfEvent) (st : Drain κ ν) (reply : BatchReply κ ν) : Drain κ ν :=
  { st with
    entries := reply.entries
    buffer := reply.buffer
    result := st.result ++ (reply.buffer.take reply.count).map event
    drained := st.drained + reply.count }

/-- The loop over the batches. -/
def batches (kernel : MapKernel κ ν) (event : κ × ν → BpfEvent) (st : Drain κ ν) : Drain κ ν :=
  if drainLimit ≤ st.drained then st else
  match (st.ask kernel).error with
  | none =>
    if (st.ask kernel).count = 0 then st.append event (st.ask kernel)
    else batches kernel event { st.append event (st.ask kernel) with haveCursor := true }
  | some e =>
    if e = .enoent then st.append event (st.ask kernel)
    else if !st.haveCursor && e.refuses then { st.append event (st.ask kernel) with batchSupported := false }
    else st.append event (st.ask kernel)
  termination_by drainLimit - st.drained
  decreasing_by
    show drainLimit - (st.drained + (st.ask kernel).count) < drainLimit - st.drained
    omega

/-- The loop over single entries, so many turns before its end: always the first key, skipped when it cannot be taken. -/
def singles (kernel : MapKernel κ ν) (event : κ × ν → BpfEvent) : Nat → Drain κ ν → Drain κ ν
  | 0, st => st
  | turns + 1, st =>
    match st.entries with
    | [] => st
    | e :: rest =>
      if kernel.takes (drainLimit - (turns + 1)) e.1 then
        singles kernel event turns { st with entries := rest, result := st.result ++ [event e] }
      else singles kernel event turns st

/-- What a drain returns and what it leaves in the map; `zero` is what the buffers begin with. -/
def drain (kernel : MapKernel κ ν) (zero : κ × ν) (event : κ × ν → BpfEvent) (fd : Int) (entries : List (κ × ν)) :
    List BpfEvent × List (κ × ν) :=
  if fd < 0 then ([], entries) else
  let st := batches kernel event { entries := entries, buffer := List.replicate batchSize zero }
  if st.batchSupported then (st.result, st.entries) else
  let rest := singles kernel event drainLimit st
  (rest.result, rest.entries)

def drainFutexAggregates (kernel : MapKernel FutexKey FutexValue) (futexAggregatesFd : Int)
    (entries : List (FutexKey × FutexValue)) : List BpfEvent × List (FutexKey × FutexValue) :=
  drain kernel ({}, {}) futexEvent futexAggregatesFd entries

def drainVfsAggregates (kernel : MapKernel VfsKey VfsValue) (vfsAggregatesFd : Int)
    (entries : List (VfsKey × VfsValue)) : List BpfEvent × List (VfsKey × VfsValue) :=
  drain kernel ({}, {}) vfsEvent vfsAggregatesFd entries

/-- **What a drain is for**: it returns the events of the entries it removed, each once, and at most so many. -/
def Exact (event : κ × ν → BpfEvent) (entries : List (κ × ν)) (out : List BpfEvent × List (κ × ν)) : Prop :=
  ∃ removed : List (κ × ν), entries.Perm (removed ++ out.2) ∧ out.1.Perm (removed.map event) ∧
    removed.length ≤ drainLimit

/-! ## What the loops take -/

section Loops

variable {kernel : MapKernel κ ν} {zero : κ × ν} {event : κ × ν → BpfEvent} {entries : List (κ × ν)}

/-- What is gone from the map, and what is reported beside its events. -/
structure Took (event : κ × ν → BpfEvent) (entries : List (κ × ν)) (beside : List BpfEvent) (removed : List (κ × ν))
    (st : Drain κ ν) : Prop where
  split : entries = removed ++ st.entries
  result : st.result = beside ++ removed.map event

/-- A supported call fills the buffers with what it takes out of the map. -/
theorem lookupAndDeleteBatch_supported (h : kernel.batchSupported = true) (haveCursor : Bool)
    (buffer entries : List (κ × ν)) (count : Nat) :
    let reply := kernel.lookupAndDeleteBatch haveCursor buffer entries count
    reply.count ≤ count ∧ (∀ e ∈ reply.error, e.refuses = false) ∧
      entries = reply.buffer.take reply.count ++ reply.entries ∧
      (reply.buffer.take reply.count).length = reply.count := by
  have hle := kernel.batch_le haveCursor entries count
  have hlength : (entries.take (kernel.batch haveCursor entries count).1).length =
      (kernel.batch haveCursor entries count).1 := List.length_take_of_le (hle.trans (min_le_right _ _))
  unfold MapKernel.lookupAndDeleteBatch
  rw [if_pos h]
  dsimp only
  rw [List.take_left' hlength]
  exact ⟨hle.trans (min_le_left _ _), kernel.batch_known haveCursor entries count,
    (List.take_append_drop _ entries).symm, hlength⟩

/-- **A turn with the batch call** reports what it takes. -/
theorem Took.append {beside : List BpfEvent} {removed : List (κ × ν)} {st : Drain κ ν}
    (h : Took event entries beside removed st) (hk : kernel.batchSupported = true) :
    Took event entries beside (removed ++ (st.ask kernel).buffer.take (st.ask kernel).count)
      (st.append event (st.ask kernel)) := by
  obtain ⟨-, -, hsplit, -⟩ := lookupAndDeleteBatch_supported hk st.haveCursor st.buffer st.entries
    (min batchSize (drainLimit - st.drained))
  constructor
  · rw [List.append_assoc]
    exact h.split.trans (congrArg (removed ++ ·) hsplit)
  · rw [List.map_append, ← List.append_assoc, ← h.result]
    rfl

/-- **A kernel with the batch call**: the batches report what they take, and keep to the limit. -/
theorem batches_supported (hk : kernel.batchSupported = true) : ∀ (st : Drain κ ν) (removed : List (κ × ν)),
    Took event entries [] removed st → removed.length = st.drained → st.drained ≤ drainLimit →
    st.batchSupported = true →
    ∃ removed', Took event entries [] removed' (batches kernel event st) ∧ removed'.length ≤ drainLimit ∧
      (batches kernel event st).batchSupported = true
  | st, removed, h, hdrained, hlimit, hst => by
    obtain ⟨hcount, herror, -, hlength⟩ := lookupAndDeleteBatch_supported hk st.haveCursor st.buffer st.entries
      (min batchSize (drainLimit - st.drained))
    have hnext := h.append hk
    have htotal : (removed ++ (st.ask kernel).buffer.take (st.ask kernel).count).length =
        st.drained + (st.ask kernel).count := by
      rw [List.length_append, hdrained]
      exact congrArg (st.drained + ·) hlength
    have hroom : st.drained + (st.ask kernel).count ≤ drainLimit := by
      have : (st.ask kernel).count ≤ min batchSize (drainLimit - st.drained) := hcount
      omega
    rw [batches]
    split
    · exact ⟨removed, h, by omega, hst⟩
    · split
      next hnone =>
        split
        · exact ⟨_, hnext, by omega, hst⟩
        · exact batches_supported hk _ _ ⟨hnext.split, hnext.result⟩ htotal hroom hst
      next e he =>
        split
        · exact ⟨_, hnext, by omega, hst⟩
        · have hknown : e.refuses = false := herror e he
          rw [hknown, Bool.and_false, if_neg Bool.false_ne_true]
          exact ⟨_, hnext, by omega, hst⟩
  termination_by st => drainLimit - st.drained
  decreasing_by
    show drainLimit - (st.drained + (st.ask kernel).count) < drainLimit - st.drained
    omega

/-- The turns over single entries report what they take. -/
theorem singles_took {beside : List BpfEvent} : ∀ (turns : Nat) (st : Drain κ ν) (removed : List (κ × ν)),
    Took event entries beside removed st →
    ∃ removed', Took event entries beside removed' (singles kernel event turns st)
  | 0, st, removed, h => ⟨removed, h⟩
  | turns + 1, st, removed, h => by
    unfold singles
    split
    next hnil => exact ⟨removed, h⟩
    next e rest hcons =>
      split
      · refine singles_took turns _ (removed ++ [e]) ⟨?_, ?_⟩
        · rw [h.split, hcons, List.append_assoc]
          rfl
        · rw [h.result, List.map_append, List.append_assoc]
          rfl
      · exact singles_took turns st removed h

/-- **A kernel without it**: a batch of zero records is reported, before what the single turns take. -/
theorem drain_unsupported (hk : kernel.batchSupported = false) (zero : κ × ν) (event : κ × ν → BpfEvent)
    (entries : List (κ × ν)) {fd : Int} (hfd : 0 ≤ fd) :
    ∃ removed, entries = removed ++ (drain kernel zero event fd entries).2 ∧
      (drain kernel zero event fd entries).1 = List.replicate batchSize (event zero) ++ removed.map event := by
  have hreply : ∀ st : Drain κ ν, st.ask kernel =
      { count := min batchSize (drainLimit - st.drained), error := some kernel.refusal, buffer := st.buffer
        entries := st.entries } := by
    intro st
    unfold Drain.ask MapKernel.lookupAndDeleteBatch
    rw [hk, if_neg Bool.false_ne_true]
  have hnoent : kernel.refusal ≠ .enoent := by
    intro h
    have := kernel.refusal_refuses
    rw [h] at this
    cases this
  have hbatches : batches kernel event { entries := entries, buffer := List.replicate batchSize zero } =
      { entries := entries, buffer := List.replicate batchSize zero
        result := (List.replicate batchSize zero).map event, batchSupported := false, drained := batchSize } := by
    rw [batches, if_neg (show ¬ drainLimit ≤ 0 from by decide), hreply]
    dsimp only
    rw [if_neg hnoent, kernel.refusal_refuses, if_pos (by decide)]
    unfold Drain.append
    dsimp only
    rw [show min batchSize (drainLimit - 0) = batchSize from by decide,
      List.take_of_length_le (by rw [List.length_replicate]), List.nil_append, Nat.zero_add]
  have hbegin : Took event entries ((List.replicate batchSize zero).map event) []
      (batches kernel event { entries := entries, buffer := List.replicate batchSize zero }) :=
    ⟨by rw [hbatches]; rfl, by rw [hbatches, List.map_nil, List.append_nil]⟩
  obtain ⟨removed, htook⟩ : ∃ removed, Took event entries ((List.replicate batchSize zero).map event) removed
      (singles kernel event drainLimit
        (batches kernel event { entries := entries, buffer := List.replicate batchSize zero })) :=
    singles_took drainLimit _ [] hbegin
  refine ⟨removed, ?_, ?_⟩
  · unfold drain
    rw [if_neg (not_lt.2 hfd)]
    dsimp only
    rw [show (batches kernel event { entries := entries, buffer := List.replicate batchSize zero }).batchSupported =
      false from by rw [hbatches], if_neg Bool.false_ne_true]
    exact htook.split
  · unfold drain
    rw [if_neg (not_lt.2 hfd)]
    dsimp only
    rw [show (batches kernel event { entries := entries, buffer := List.replicate batchSize zero }).batchSupported =
      false from by rw [hbatches], if_neg Bool.false_ne_true, ← List.map_replicate]
    exact htook.result

/-- **A drain is exact where the kernel knows the batch call**, and only there. -/
theorem drain_exact_iff {fd : Int} : Exact event entries (drain kernel zero event fd entries) ↔
    fd < 0 ∨ kernel.batchSupported = true := by
  by_cases hfd : fd < 0
  · refine ⟨fun _ => Or.inl hfd, fun _ => ⟨[], ?_, ?_, Nat.zero_le _⟩⟩
    · rw [drain, if_pos hfd]
      exact List.Perm.refl _
    · rw [drain, if_pos hfd]
      exact List.Perm.refl _
  · cases hk : kernel.batchSupported with
    | true =>
      refine ⟨fun _ => Or.inr rfl, fun _ => ?_⟩
      have hbegin : Took event entries [] [] { entries := entries, buffer := List.replicate batchSize zero } := ⟨rfl, rfl⟩
      obtain ⟨removed, htook, hlength, hsupported⟩ := batches_supported hk _ [] hbegin rfl (Nat.zero_le _) rfl
      refine ⟨removed, ?_, ?_, hlength⟩
      · rw [drain, if_neg hfd]
        dsimp only
        rw [hsupported, if_pos rfl, ← htook.split]
      · rw [drain, if_neg hfd]
        dsimp only
        rw [hsupported, if_pos rfl, htook.result]
        rfl
    | false =>
      refine ⟨?_, fun h => by simp [hfd] at h⟩
      rintro ⟨removed, hperm, hevents, -⟩
      -- The records are more than what is gone from the map.
      obtain ⟨gone, hsplit, hresult⟩ := drain_unsupported hk zero event entries (not_lt.1 hfd)
      have htaken := hperm.length_eq
      have hreported := hevents.length_eq
      have hgone := congrArg List.length hsplit
      rw [hresult, List.length_append, List.length_replicate, List.length_map, List.length_map] at hreported
      rw [List.length_append] at htaken hgone
      have hbatch : batchSize = 4096 := rfl
      omega

end Loops

/-! ## The two drains -/

/-- **Both drains are exact where the kernel knows the batch call**, or the map is not open, and nowhere else. -/
theorem drains_exact_iff (futex : MapKernel FutexKey FutexValue) (vfs : MapKernel VfsKey VfsValue)
    (futexAggregatesFd vfsAggregatesFd : Int) (handoffs : List (FutexKey × FutexValue))
    (shares : List (VfsKey × VfsValue)) :
    (Exact futexEvent handoffs (drainFutexAggregates futex futexAggregatesFd handoffs) ↔
      futexAggregatesFd < 0 ∨ futex.batchSupported = true) ∧
    (Exact vfsEvent shares (drainVfsAggregates vfs vfsAggregatesFd shares) ↔
      vfsAggregatesFd < 0 ∨ vfs.batchSupported = true) :=
  ⟨drain_exact_iff, drain_exact_iff⟩

/-- A kernel that knows the batch call, and says when it has come to the end of the map. -/
def newKernel (κ ν : Type) : MapKernel κ ν where
  batchSupported := true
  refusal := .einval
  refusal_refuses := rfl
  batch := fun _ entries count => (min count entries.length, if entries.length ≤ count then some .enoent else none)
  batch_le := fun _ _ _ => le_refl _
  batch_known := fun _ entries count e he => by
    split at he
    · cases he
      rfl
    · cases he
  takes := fun _ _ => true

/-- A handoff between two threads and what they have shared, on a kernel that knows the batch call. -/
theorem drains_exact_iff_known :
    Exact futexEvent [(⟨5, 12, 11, 0, 110, 100⟩, ⟨3, 40⟩)]
      (drainFutexAggregates (newKernel FutexKey FutexValue) 3 [(⟨5, 12, 11, 0, 110, 100⟩, ⟨3, 40⟩)]) ∧
    Exact vfsEvent [(⟨5, 12, 11, 0, 110, 100, 7⟩, ⟨20, 2, 40⟩)]
      (drainVfsAggregates (newKernel VfsKey VfsValue) 4 [(⟨5, 12, 11, 0, 110, 100, 7⟩, ⟨20, 2, 40⟩)]) := by
  have h := drains_exact_iff (newKernel FutexKey FutexValue) (newKernel VfsKey VfsValue) 3 4
    [(⟨5, 12, 11, 0, 110, 100⟩, ⟨3, 40⟩)] [(⟨5, 12, 11, 0, 110, 100, 7⟩, ⟨20, 2, 40⟩)]
  exact ⟨h.1.2 (Or.inr rfl), h.2.2 (Or.inr rfl)⟩

/-- A kernel from before the batch calls. -/
def oldKernel (κ ν : Type) : MapKernel κ ν where
  batchSupported := false
  refusal := .einval
  refusal_refuses := rfl
  batch := fun _ _ _ => (0, none)
  batch_le := fun _ _ _ => Nat.zero_le _
  batch_known := fun _ _ _ _ h => by cases h
  takes := fun _ _ => true

/-- Of an empty map such a kernel's drains report 4096 records of thread 0. -/
theorem drains_report_nothing :
    drainFutexAggregates (oldKernel FutexKey FutexValue) 3 [] = (List.replicate 4096 { kind := .futex }, []) ∧
    ¬ Exact futexEvent [] (drainFutexAggregates (oldKernel FutexKey FutexValue) 3 []) ∧
    drainVfsAggregates (oldKernel VfsKey VfsValue) 4 [] = (List.replicate 4096 { kind := .vfs }, []) ∧
    ¬ Exact vfsEvent [] (drainVfsAggregates (oldKernel VfsKey VfsValue) 4 []) := by
  have hone : ∀ {κ ν : Type} (zero : κ × ν) (event : κ × ν → BpfEvent) (fd : Int), 0 ≤ fd →
      drain (oldKernel κ ν) zero event fd [] = (List.replicate 4096 (event zero), []) := by
    intro κ ν zero event fd hfd
    have hrefused : (oldKernel κ ν).batchSupported = false := rfl
    obtain ⟨removed, hsplit, hresult⟩ := drain_unsupported hrefused zero event [] hfd
    obtain ⟨rfl, hleft⟩ := List.append_eq_nil_iff.1 hsplit.symm
    refine Prod.ext ?_ hleft
    rw [hresult, List.map_nil, List.append_nil]
    rfl
  refine ⟨hone _ _ 3 (by decide), fun h => ?_, hone _ _ 4 (by decide), fun h => ?_⟩
  · exact absurd (drain_exact_iff.1 h) (by decide)
  · exact absurd (drain_exact_iff.1 h) (by decide)

end MapDrain
end AffinityGraph
