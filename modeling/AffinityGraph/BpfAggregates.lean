import AffinityGraph.BpfProgram
import AffinityGraph.History
import Mathlib.Data.ZMod.Basic
/-!
# BpfAggregates — what the aggregate maps tell of the handoffs in the kernel

Two laws about every interleaving of the CPUs, the evictions and the reader.  The counter of emitted aggregates, with what a
CPU has settled and not yet counted, is what the reader has taken, what the map still holds, and what was added to elements
that were gone or overwritten (`aggregates_account`); where no element changes between a lookup and its settlement the last
part is nothing.  And an
aggregate never names two threads that did not meet: its peer waited at the address, or used the file, before its thread
came there (`aggregates_met`).
-/
namespace AffinityGraph
namespace BpfProgram

/-! ## The maps of `on_futex` and `account_fd` -/

/-- What the cut programs and the reader work on. -/
structure Hot where
  waiters : KernelMap WaiterKey WaiterValue
  resources : KernelMap ResourceKey ResourceValue
  running : KernelMap Nat Point
  futexAggregates : SharedMap FutexKey FutexValue
  futexRecords : List (FutexKey × FutexValue)
  futexEmitted : Nat
  vfsAggregates : SharedMap VfsKey VfsValue
  vfsRecords : List (VfsKey × VfsValue)
  vfsEmitted : Nat

def hot (s : BpfProgram) : Hot where
  waiters := s.waiters
  resources := s.resources
  running := s.running
  futexAggregates := s.futexAggregates
  futexRecords := s.futexRecords
  futexEmitted := s.health.emittedByKind .futex
  vfsAggregates := s.vfsAggregates
  vfsRecords := s.vfsRecords
  vfsEmitted := s.health.emittedByKind .vfs

/-- The events that are none of theirs. -/
def cold : ProgramEvent → Bool
  | .futex .. => false
  | .fd .. => false
  | .resume .. => false
  | .evictWaiter .. => false
  | .evictResource .. => false
  | .takeFutex .. => false
  | .takeVfs .. => false
  | _ => true

section Cold

variable {s s' : BpfProgram} {e : ProgramEvent}

theorem hot_emitEvent {event : BpfEvent} (h : event.kind.isLifecycle = true) (now : Nat) (room : Bool) :
    hot (emitEvent s event now room) = hot s := by
  have hf : event.kind ≠ .futex := fun hk => by rw [hk] at h; cases h
  have hv : event.kind ≠ .vfs := fun hk => by rw [hk] at h; cases h
  unfold emitEvent accountEmit hot
  cases room with
  | false => rfl
  | true =>
    simp only [if_true, countKind, if_neg (Ne.symm hf), if_neg (Ne.symm hv)]

theorem hot_onFork (s : BpfProgram) (parent child : Task) (now : Nat) (fits room : Bool) :
    hot (s.onFork parent child now fits room) = hot s := by
  unfold onFork
  split
  · rfl
  · dsimp only
    split
    · exact hot_emitEvent rfl now room
    · split <;> exact hot_emitEvent rfl now room

theorem hot_onExec (s : BpfProgram) (task : Task) (now : Nat) (fits room : Bool) :
    hot (s.onExec task now fits room) = hot s := by
  unfold onExec
  split
  · rfl
  · split
    · split <;> exact hot_emitEvent rfl now room
    · exact hot_emitEvent rfl now room

theorem hot_onRename (s : BpfProgram) (task : Task) (name : String) (now emitNow : Nat) (fits room : Bool) :
    hot (s.onRename task name now emitNow fits room) = hot s := by
  unfold onRename
  split
  · rfl
  · split
    · rfl
    · exact hot_emitEvent rfl emitNow room

theorem hot_onSetaffinityExit (s : BpfProgram) (key : ThreadKey) (ret : Int) (now : Nat) (room : Bool) :
    hot (s.onSetaffinityExit key ret now room) = hot s := by
  unfold onSetaffinityExit
  split
  · rfl
  · dsimp only
    split
    · exact hot_emitEvent rfl now room
    · rfl

/-- The other programs leave the maps of the cut ones alone. -/
theorem hot_of_cold (hc : cold e = true) (h : step s e = some s') : hot s' = hot s := by
  cases e with
  | fork parent child now fits room =>
    cases h
    exact hot_onFork s parent child now fits room
  | exec task now fits room =>
    cases h
    exact hot_onExec s task now fits room
  | exit task now room =>
    cases h
    unfold onExit
    split
    · rfl
    · exact hot_emitEvent rfl now room
  | rename task name now emitNow fits room =>
    cases h
    exact hot_onRename s task name now emitNow fits room
  | pthreadCreate task routine now fits =>
    cases h
    unfold onPthreadCreate
    split <;> rfl
  | pthreadCreateReturn task =>
    cases h
    unfold onPthreadCreateReturn
    split <;> rfl
  | setaffinityEnter task call fits =>
    cases h
    unfold onSetaffinityEnter
    split <;> rfl
  | setaffinityExit key ret now room =>
    cases h
    exact hot_onSetaffinityExit s key ret now room
  | evictRename key =>
    cases h
    rfl
  | addTarget pid =>
    cases h
    rfl
  | _ => cases hc

end Cold

/-! ## The account of the aggregates -/

/-- A `uint64_t` as a number that wraps. -/
abbrev U64 := ZMod (2 ^ 64)

def futexCount (value : FutexValue) : U64 := value.count

def vfsCount (value : VfsValue) : U64 := value.count

/-- What the reader has taken. -/
def futexTaken (s : BpfProgram) : U64 := (s.futexRecords.map (fun r => futexCount r.2)).sum

def vfsTaken (s : BpfProgram) : U64 := (s.vfsRecords.map (fun r => vfsCount r.2)).sum

/-- What is settled on an element and not counted yet, where a CPU stands. -/
def uncountedFutex : Point → U64
  | .futexEmit _ true => 1
  | _ => 0

def uncountedVfs : Point → U64
  | .fdEmit _ _ _ true => 1
  | _ => 0

/-- What the CPUs have settled and not counted yet. -/
def futexUncounted (s : BpfProgram) : U64 := Keyed.sum uncountedFutex s.running

def vfsUncounted (s : BpfProgram) : U64 := Keyed.sum uncountedVfs s.running

/-- What an event adds to an element that is gone, or overwrites. -/
def futexLost (s : BpfProgram) : ProgramEvent → U64
  | .resume cpu _ fits =>
    match s.running.lookup cpu with
    | some (.futexAggregate _ key found) => s.futexAggregates.lost futexCount key found 1 fits
    | _ => 0
  | _ => 0

def vfsLost (s : BpfProgram) : ProgramEvent → U64
  | .resume cpu _ fits =>
    match s.running.lookup cpu with
    | some (.fdAggregate _ _ _ key _ found) => s.vfsAggregates.lost vfsCount key found 1 fits
    | _ => 0
  | _ => 0

/-- A settlement finds the element its lookup found, or none where there was none. -/
def Undisturbed (s : BpfProgram) : ProgramEvent → Prop
  | .resume cpu _ _ =>
    match s.running.lookup cpu with
    | some (.futexAggregate _ key found) => s.futexAggregates.find key = found
    | some (.fdAggregate _ _ _ key _ found) => s.vfsAggregates.find key = found
    | _ => True
  | _ => True

section Account

variable {s s' : BpfProgram} {e : ProgramEvent}

theorem cast_addU64 (a b : Nat) : ((addU64 a b : Nat) : U64) = a + b := by
  unfold addU64
  rw [ZMod.natCast_mod, Nat.cast_add]

/-- What was emitted or is about to be, less what the reader has and the map holds. -/
def Hot.futexBalance (h : Hot) : U64 :=
  h.futexEmitted + Keyed.sum uncountedFutex h.running -
    ((h.futexRecords.map (fun r => futexCount r.2)).sum + h.futexAggregates.held futexCount)

def Hot.vfsBalance (h : Hot) : U64 :=
  h.vfsEmitted + Keyed.sum uncountedVfs h.running -
    ((h.vfsRecords.map (fun r => vfsCount r.2)).sum + h.vfsAggregates.held vfsCount)

section Sums

variable (uncounted : Point → U64) {running : KernelMap Nat Point} {cpu : Nat}

theorem sum_goTo (point : Point) : Keyed.sum uncounted (running.insert cpu point) =
    Keyed.sum uncounted running - (running.lookup cpu).elim 0 uncounted + uncounted point := by
  rw [Keyed.sum_insert, Keyed.sum_split uncounted running cpu]
  ring

/-- A CPU that leaves as much uncounted as before. -/
theorem sum_goTo_same {point : Point} (h : (running.lookup cpu).elim 0 uncounted = uncounted point) :
    Keyed.sum uncounted (running.insert cpu point) = Keyed.sum uncounted running := by
  rw [sum_goTo, h, sub_add_cancel]

theorem sum_leave (h : (running.lookup cpu).elim 0 uncounted = 0) :
    Keyed.sum uncounted (running.erase cpu) = Keyed.sum uncounted running := by
  rw [Keyed.sum_split uncounted running cpu, h, zero_add]

end Sums

/-- What is not counted yet by a CPU that has just settled. -/
theorem uncountedFutex_emit (key : WaiterKey) (taken : Bool) : uncountedFutex (.futexEmit key taken) = if taken then 1 else 0 := by
  cases taken <;> rfl

theorem uncountedVfs_emit (task : Task) (key : ResourceKey) (now : Nat) (taken : Bool) :
    uncountedVfs (.fdEmit task key now taken) = if taken then 1 else 0 := by
  cases taken <;> rfl

/-- A settlement shifts the balance by what it loses. -/
theorem balance_settle {κ ν : Type} [DecidableEq κ] {amount : ν → U64} (m : SharedMap κ ν) (k : κ) (found : Option Nat)
    {add : ν → ν} {first : ν} (hadd : ∀ v, amount (add v) = amount v + 1) (hfirst : amount first = 1) (fits : Bool)
    (emitted uncounted taken : U64) :
    emitted + (uncounted - 0 + if (m.settle k found add first fits).2 then 1 else 0) -
        (taken + (m.settle k found add first fits).1.held amount) =
      emitted + uncounted - (taken + m.held amount) + m.lost amount k found 1 fits := by
  have haccount : (m.settle k found add first fits).1.held amount + m.lost amount k found 1 fits =
      m.held amount + if (m.settle k found add first fits).2 then 1 else 0 := SharedMap.held_settle hadd hfirst fits
  rw [eq_sub_of_add_eq haccount]
  ring

/-- What is counted is no longer waiting to be. -/
theorem balance_emit (emitted : Nat) (uncounted rest : U64) (taken : Bool) :
    ((if taken = true then addU64 emitted 1 else emitted : Nat) : U64) + (uncounted - (if taken then 1 else 0) + 0) - rest =
      emitted + uncounted - rest + 0 := by
  cases taken with
  | false =>
    simp only [Bool.false_eq_true, if_false]
    ring
  | true =>
    rw [if_pos rfl, if_pos rfl, cast_addU64, Nat.cast_one]
    ring

/-- A taken element leaves the balance as it is. -/
theorem balance_take {κ ν : Type} [DecidableEq κ] {amount : ν → U64} (m : SharedMap κ ν) {k : κ} {v : ν}
    (h : m.value k = some v) (records : List (κ × ν)) :
    ((records ++ [(k, v)]).map (fun r => amount r.2)).sum + (m.take k).held amount =
      (records.map (fun r => amount r.2)).sum + m.held amount := by
  have hat : m.heldAt amount k = amount v := by
    unfold SharedMap.heldAt
    rw [h]
    rfl
  rw [← SharedMap.held_take (k := k) (m := m), hat]
  simp only [List.map_append, List.map_cons, List.map_nil, List.sum_append, List.sum_cons, List.sum_nil]
  ring

theorem emittedByKind_accountEmit (s : BpfProgram) (kind counted : EventKind) (taken : Bool) :
    (s.accountEmit counted taken).health.emittedByKind kind =
      if counted = kind ∧ taken = true then addU64 (s.health.emittedByKind kind) 1 else s.health.emittedByKind kind := by
  unfold accountEmit
  cases taken with
  | false => simp
  | true =>
    simp only [if_true, countKind, and_true]
    by_cases hk : kind = counted
    · rw [if_pos hk, if_pos hk.symm]
    · rw [if_neg hk, if_neg (Ne.symm hk)]

/-- `account_emit` changes the counter of its kind. -/
theorem hot_accountEmit (s : BpfProgram) (cpu : Nat) (kind : EventKind) (taken : Bool) (point : Point) :
    hot ((s.accountEmit kind taken).goTo cpu point) =
      { hot s with
        running := s.running.insert cpu point
        futexEmitted :=
          if kind = .futex ∧ taken = true then addU64 (s.health.emittedByKind .futex) 1 else s.health.emittedByKind .futex
        vfsEmitted :=
          if kind = .vfs ∧ taken = true then addU64 (s.health.emittedByKind .vfs) 1 else s.health.emittedByKind .vfs } := by
  unfold goTo hot
  dsimp only
  rw [emittedByKind_accountEmit, emittedByKind_accountEmit]
  unfold accountEmit
  cases taken <;> rfl

/-- A lookup changes nothing but where its CPU stands. -/
theorem hot_futexPair (s : BpfProgram) (cpu : Nat) (task : Task) (key : WaiterKey) (waiter : Option WaiterValue) :
    ∃ point, uncountedFutex point = 0 ∧ uncountedVfs point = 0 ∧
      hot (s.futexPair cpu task key waiter) = { hot s with running := s.running.insert cpu point } := by
  unfold futexPair
  split
  · split
    · exact ⟨_, rfl, rfl, rfl⟩
    · exact ⟨_, rfl, rfl, rfl⟩
  · exact ⟨_, rfl, rfl, rfl⟩

theorem hot_fdPair (s : BpfProgram) (cpu now : Nat) (task : Task) (key : ResourceKey) (previous : Option ResourceValue) :
    ∃ point, uncountedFutex point = 0 ∧ uncountedVfs point = 0 ∧
      hot (s.fdPair cpu now task key previous) = { hot s with running := s.running.insert cpu point } := by
  unfold fdPair
  split
  · split
    · exact ⟨_, rfl, rfl, rfl⟩
    · exact ⟨_, rfl, rfl, rfl⟩
  · exact ⟨_, rfl, rfl, rfl⟩

section Balances

variable {h h' : Hot} {waiters : KernelMap WaiterKey WaiterValue} {resources : KernelMap ResourceKey ResourceValue}
  {running : KernelMap Nat Point} {emitted : Nat}

/-- The balances do not look at the waiters and the resources, and of the CPUs only at what they have not counted. -/
theorem balance_running (heq : h' = { h with waiters := waiters, resources := resources, running := running })
    (hfutex : Keyed.sum uncountedFutex running = Keyed.sum uncountedFutex h.running)
    (hvfs : Keyed.sum uncountedVfs running = Keyed.sum uncountedVfs h.running) :
    h'.futexBalance = h.futexBalance + 0 ∧ h'.vfsBalance = h.vfsBalance + 0 := by
  subst heq
  unfold Hot.futexBalance Hot.vfsBalance
  dsimp only
  rw [hfutex, hvfs, add_zero, add_zero]
  exact ⟨rfl, rfl⟩

theorem futexBalance_vfs {aggregates : SharedMap VfsKey VfsValue}
    (heq : h' = { h with running := running, vfsAggregates := aggregates, vfsEmitted := emitted })
    (hsum : Keyed.sum uncountedFutex running = Keyed.sum uncountedFutex h.running) :
    h'.futexBalance = h.futexBalance + 0 := by
  subst heq
  unfold Hot.futexBalance
  dsimp only
  rw [hsum, add_zero]

theorem vfsBalance_futex {aggregates : SharedMap FutexKey FutexValue}
    (heq : h' = { h with running := running, futexAggregates := aggregates, futexEmitted := emitted })
    (hsum : Keyed.sum uncountedVfs running = Keyed.sum uncountedVfs h.running) :
    h'.vfsBalance = h.vfsBalance + 0 := by
  subst heq
  unfold Hot.vfsBalance
  dsimp only
  rw [hsum, add_zero]

end Balances

/-- **A CPU goes on, and the two balances.** -/
theorem balance_resume (s : BpfProgram) {cpu : Nat} (now : Nat) (fits : Bool) {point : Point}
    (hpoint : s.running.lookup cpu = some point) :
    (hot (s.resume cpu now fits point)).futexBalance = (hot s).futexBalance + futexLost s (.resume cpu now fits) ∧
      (hot (s.resume cpu now fits point)).vfsBalance = (hot s).vfsBalance + vfsLost s (.resume cpu now fits) := by
  unfold futexLost vfsLost
  dsimp only
  rw [hpoint]
  have hold : ∀ uncounted : Point → U64, (s.running.lookup cpu).elim 0 uncounted = uncounted point := fun uncounted => by
    rw [hpoint]
    rfl
  cases point with
  | futexWaiter task key waiter =>
    obtain ⟨next, hfutex, hvfs, hhot⟩ := hot_futexPair s cpu task key waiter
    exact balance_running hhot (sum_goTo_same _ ((hold _).trans hfutex.symm)) (sum_goTo_same _ ((hold _).trans hvfs.symm))
  | futexAggregate key aggregateKey found =>
    have hcount : ∀ v, futexCount (addFutex now v) = futexCount v + 1 := fun v => by
      unfold futexCount addFutex
      rw [cast_addU64, Nat.cast_one]
    refine ⟨?_, vfsBalance_futex rfl (sum_goTo_same _ (hold _))⟩
    show (_ : U64) + Keyed.sum uncountedFutex (s.running.insert cpu _) - _ = _
    rw [sum_goTo, hold, uncountedFutex_emit]
    exact balance_settle s.futexAggregates aggregateKey found hcount Nat.cast_one fits _ _ _
  | futexEmit key taken =>
    have hhot := hot_accountEmit s cpu .futex taken (.futexLeave key)
    simp only [true_and, reduceCtorEq, false_and, if_false] at hhot
    refine ⟨(congrArg Hot.futexBalance hhot).trans ?_, vfsBalance_futex hhot (sum_goTo_same _ (hold _))⟩
    show (_ : U64) + Keyed.sum uncountedFutex (s.running.insert cpu _) - _ = _
    rw [sum_goTo, hold, uncountedFutex_emit]
    exact balance_emit _ _ _ taken
  | futexLeave key => exact balance_running rfl (sum_leave _ (hold _)) (sum_leave _ (hold _))
  | fdPrevious task key previous =>
    obtain ⟨next, hfutex, hvfs, hhot⟩ := hot_fdPair s cpu now task key previous
    exact balance_running hhot (sum_goTo_same _ ((hold _).trans hfutex.symm)) (sum_goTo_same _ ((hold _).trans hvfs.symm))
  | fdAggregate task key read aggregateKey elapsed found =>
    have hcount : ∀ v, vfsCount (addVfs elapsed read v) = vfsCount v + 1 := fun v => by
      unfold vfsCount addVfs
      rw [cast_addU64, Nat.cast_one]
    refine ⟨futexBalance_vfs rfl (sum_goTo_same _ (hold _)), ?_⟩
    show (_ : U64) + Keyed.sum uncountedVfs (s.running.insert cpu _) - _ = _
    rw [sum_goTo, hold, uncountedVfs_emit]
    exact balance_settle s.vfsAggregates aggregateKey found hcount Nat.cast_one fits _ _ _
  | fdEmit task key read taken =>
    have hhot := hot_accountEmit s cpu .vfs taken (.fdLeave task key read)
    simp only [true_and, reduceCtorEq, false_and, if_false] at hhot
    refine ⟨futexBalance_vfs hhot (sum_goTo_same _ (hold _)), (congrArg Hot.vfsBalance hhot).trans ?_⟩
    show (_ : U64) + Keyed.sum uncountedVfs (s.running.insert cpu _) - _ = _
    rw [sum_goTo, hold, uncountedVfs_emit]
    exact balance_emit _ _ _ taken
  | fdLeave task key read => exact balance_running rfl (sum_leave _ (hold _)) (sum_leave _ (hold _))

/-- **One event and the two balances.** -/
theorem balance_step (h : step s e = some s') :
    (hot s').futexBalance = (hot s).futexBalance + futexLost s e ∧
      (hot s').vfsBalance = (hot s).vfsBalance + vfsLost s e := by
  have hstill : ∀ {t : BpfProgram}, (hot t).futexBalance = (hot s).futexBalance → (hot t).vfsBalance = (hot s).vfsBalance →
      (hot t).futexBalance = (hot s).futexBalance + 0 ∧ (hot t).vfsBalance = (hot s).vfsBalance + 0 :=
    fun hf hv => ⟨hf.trans (add_zero _).symm, hv.trans (add_zero _).symm⟩
  cases e with
  | futex cpu task address operation fits =>
    obtain ⟨hidle, rfl⟩ := step_futex h
    have hnone : ∀ uncounted : Point → U64, (s.running.lookup cpu).elim 0 uncounted = 0 := fun uncounted => by
      rw [hidle]
      rfl
    unfold onFutex
    split
    · exact hstill rfl rfl
    · split
      · exact hstill rfl rfl
      · exact balance_running rfl (sum_goTo_same _ (hnone _)) (sum_goTo_same _ (hnone _))
  | fd cpu task fd file =>
    obtain ⟨hidle, rfl⟩ := step_fd h
    have hnone : ∀ uncounted : Point → U64, (s.running.lookup cpu).elim 0 uncounted = 0 := fun uncounted => by
      rw [hidle]
      rfl
    unfold accountFd
    split
    · exact hstill rfl rfl
    · split
      · exact hstill rfl rfl
      · split
        · exact hstill rfl rfl
        · split
          · exact hstill rfl rfl
          · exact balance_running rfl (sum_goTo_same _ (hnone _)) (sum_goTo_same _ (hnone _))
  | resume cpu now fits =>
    obtain ⟨point, hpoint, rfl⟩ := step_resume h
    exact balance_resume s now fits hpoint
  | evictWaiter key =>
    cases h
    exact hstill rfl rfl
  | evictResource key =>
    cases h
    exact hstill rfl rfl
  | takeFutex key =>
    cases h
    unfold takeFutex
    split
    · rename_i value hvalue
      refine hstill ?_ rfl
      exact congrArg (fun x => (s.health.emittedByKind .futex : U64) + Keyed.sum uncountedFutex s.running - x)
        (balance_take s.futexAggregates hvalue _)
    · exact hstill rfl rfl
  | takeVfs key =>
    cases h
    unfold takeVfs
    split
    · rename_i value hvalue
      refine hstill rfl ?_
      exact congrArg (fun x => (s.health.emittedByKind .vfs : U64) + Keyed.sum uncountedVfs s.running - x)
        (balance_take s.vfsAggregates hvalue _)
    · exact hstill rfl rfl
  | _ =>
    rw [hot_of_cold rfl h]
    exact hstill rfl rfl

theorem lost_of_undisturbed (h : Undisturbed s e) : futexLost s e = 0 ∧ vfsLost s e = 0 := by
  unfold futexLost vfsLost
  cases e with
  | resume cpu now fits =>
    unfold Undisturbed at h
    dsimp only at h ⊢
    cases hp : s.running.lookup cpu with
    | none => exact ⟨rfl, rfl⟩
    | some point =>
      rw [hp] at h
      cases point with
      | futexAggregate key aggregateKey found => exact ⟨SharedMap.lost_of_found h fits, rfl⟩
      | fdAggregate task key read aggregateKey elapsed found => exact ⟨rfl, SharedMap.lost_of_found h fits⟩
      | _ => exact ⟨rfl, rfl⟩
  | _ => exact ⟨rfl, rfl⟩

/-- **What becomes of the emitted aggregates.**  Over every interleaving of the CPUs, the evictions and the reader, the
counters of emitted aggregates, with what the CPUs have settled and not counted yet, are what the reader has taken, what
the maps hold, and what the settlements lost; and nothing is lost in a run whose settlements find what their lookups
found. -/
theorem aggregates_account {run : List ProgramEvent} (h : Run.exec step {} run = some s) :
    (s.health.emittedByKind .futex : U64) + s.futexUncounted =
        s.futexTaken + s.futexAggregates.held futexCount + Run.total step futexLost {} run ∧
      (s.health.emittedByKind .vfs : U64) + s.vfsUncounted =
        s.vfsTaken + s.vfsAggregates.held vfsCount + Run.total step vfsLost {} run ∧
      (Run.Obeys step Undisturbed {} run → Run.total step futexLost {} run = 0 ∧ Run.total step vfsLost {} run = 0) := by
  have hfutex : (hot s).futexBalance = (hot {}).futexBalance + Run.total step futexLost {} run :=
    Run.exec_total (fun s => (hot s).futexBalance) (fun _ _ _ hs => (balance_step hs).1) h
  have hvfs : (hot s).vfsBalance = (hot {}).vfsBalance + Run.total step vfsLost {} run :=
    Run.exec_total (fun s => (hot s).vfsBalance) (fun _ _ _ hs => (balance_step hs).2) h
  have hstart : (hot {}).futexBalance = 0 ∧ (hot {}).vfsBalance = 0 := ⟨rfl, rfl⟩
  rw [hstart.1, zero_add] at hfutex
  rw [hstart.2, zero_add] at hvfs
  refine ⟨?_, ?_, fun ho => ⟨ho.total_eq_zero (fun _ _ hu => (lost_of_undisturbed hu).1),
    ho.total_eq_zero (fun _ _ hu => (lost_of_undisturbed hu).2)⟩⟩
  · rw [← hfutex]
    exact (add_sub_cancel _ _).symm
  · rw [← hvfs]
    exact (add_sub_cancel _ _).symm

/-- Thread 11 of process 5 waits at an address, and thread 12 wakes it. -/
def handoff (cpu : Nat) : List ProgramEvent :=
  [.futex cpu ⟨5, 11, 100, some 90, ""⟩ 64 128 true, .futex cpu ⟨5, 12, 110, some 90, ""⟩ 64 129 true]

/-- Two handoffs; the reader takes the first while the second is between its lookup and its settlement, and the CPU of the
second has settled and not counted. -/
def takenBetween : List ProgramEvent :=
  .addTarget 5 :: handoff 0 ++ [.resume 0 7 true, .resume 0 8 true, .resume 0 9 true, .resume 0 9 true] ++ handoff 1 ++
    [.resume 1 10 true, .takeFutex ⟨5, 12, 11, 0, 110, 100⟩, .resume 1 11 true]

theorem aggregates_account_takenBetween : ∃ s, Run.exec step {} takenBetween = some s ∧
    s.health.emittedByKind .futex = 1 ∧ s.futexUncounted = 1 ∧ s.futexTaken = 1 ∧
    s.futexAggregates.held futexCount = 0 ∧ Run.total step futexLost {} takenBetween = 1 := by
  have hrun : (Run.exec step {} takenBetween).any (fun s => decide (s.health.emittedByKind .futex = 1 ∧
      s.futexRecords.map (·.2.count) = [1] ∧ s.futexAggregates.elements.entries.length = 0 ∧
      s.running.entries.map (fun e => uncountedFutex e.2) = [1])) = true := by decide +kernel
  obtain ⟨s, hs, h⟩ := (Option.any_eq_true _ _).1 hrun
  obtain ⟨hemitted, hrecords, hempty, hrunning⟩ := of_decide_eq_true h
  have htaken : s.futexTaken = 1 := by
    have hsum : s.futexTaken = ((s.futexRecords.map (·.2.count)).map (fun n : Nat => (n : U64))).sum := by
      rw [List.map_map]
      rfl
    rw [hsum, hrecords]
    rfl
  have hheld : s.futexAggregates.held futexCount = 0 := by
    unfold SharedMap.held Keyed.sum
    rw [List.length_eq_zero_iff.1 hempty]
    rfl
  have huncounted : s.futexUncounted = 1 := by
    unfold futexUncounted Keyed.sum
    rw [hrunning]
    rfl
  have haccount := (aggregates_account hs).1
  rw [hemitted, huncounted, htaken, hheld, add_zero, Nat.cast_one] at haccount
  exact ⟨s, hs, hemitted, huncounted, htaken, hheld, (add_left_cancel haccount).symm⟩

end Account

/-! ## Whom an aggregate names -/

def WaitsAt (task : Task) (key : WaiterKey) (e : ProgramEvent) : Prop :=
  task.tgid = key.tgid ∧ ∃ cpu operation fits, e = .futex cpu task key.address operation fits ∧ waits operation = true

def WakesAt (task : Task) (key : WaiterKey) (e : ProgramEvent) : Prop :=
  task.tgid = key.tgid ∧ ∃ cpu operation fits, e = .futex cpu task key.address operation fits ∧ waits operation = false

/-- A read or write of a pipe or a character device. -/
def Uses (task : Task) (key : ResourceKey) (e : ProgramEvent) : Prop :=
  ∃ cpu fd file, e = .fd cpu task fd (some file) ∧ fd < 4096 ∧ shared file.mode = true ∧
    key = ⟨task.tgid, file.device, file.inode⟩

/-- An event of the first kind and, after it, one of the second. -/
def InOrder (run : List ProgramEvent) (P Q : ProgramEvent → Prop) : Prop := ∃ a b, P a ∧ Q b ∧ [a, b].Sublist run

/-- The peer waited at an address of the process where the thread, another one, later did something else than wait. -/
def FutexMet (run : List ProgramEvent) (k : FutexKey) : Prop :=
  ∃ (waiter waker : Task) (key : WaiterKey), waiter.tid ≠ waker.tid ∧
    k = futexKey waker ⟨waiter.tid, waiter.startTimeNs⟩ ∧ InOrder run (WaitsAt waiter key) (WakesAt waker key)

/-- The peer used a file of the process that the thread, another one, used later. -/
def VfsMet (run : List ProgramEvent) (k : VfsKey) : Prop :=
  ∃ (first second : Task) (key : ResourceKey), first.tid ≠ second.tid ∧
    k = vfsKey second key ⟨first.tid, 0, first.startTimeNs⟩ ∧ InOrder run (Uses first key) (Uses second key)

/-- What the events so far say of where a CPU stands. -/
def PointMet (run : List ProgramEvent) : Point → Prop
  | .futexWaiter task key waiter => ∀ w, waiter = some w →
      ∃ waiter : Task, w = ⟨waiter.tid, waiter.startTimeNs⟩ ∧ InOrder run (WaitsAt waiter key) (WakesAt task key)
  | .futexAggregate _ aggregateKey _ => FutexMet run aggregateKey
  | .futexEmit _ _ => True
  | .futexLeave _ => True
  | .fdPrevious task key previous => (∃ e ∈ run, Uses task key e) ∧ ∀ p, previous = some p →
      ∃ first : Task, p.tid = first.tid ∧ p.startTimeNs = first.startTimeNs ∧ InOrder run (Uses first key) (Uses task key)
  | .fdAggregate task key _ aggregateKey _ _ => (∃ e ∈ run, Uses task key e) ∧ VfsMet run aggregateKey
  | .fdEmit task key _ _ => ∃ e ∈ run, Uses task key e
  | .fdLeave task key _ => ∃ e ∈ run, Uses task key e

/-- What the events so far say of the maps. -/
structure Met (run : List ProgramEvent) (h : Hot) : Prop where
  waiters : ∀ key w, h.waiters.lookup key = some w →
    ∃ task : Task, w = ⟨task.tid, task.startTimeNs⟩ ∧ ∃ e ∈ run, WaitsAt task key e
  resources : ∀ key p, h.resources.lookup key = some p →
    ∃ task : Task, p.tid = task.tid ∧ p.startTimeNs = task.startTimeNs ∧ ∃ e ∈ run, Uses task key e
  points : ∀ cpu point, h.running.lookup cpu = some point → PointMet run point
  futexHeld : ∀ k v, h.futexAggregates.value k = some v → FutexMet run k
  futexTaken : ∀ r ∈ h.futexRecords, FutexMet run r.1
  vfsHeld : ∀ k v, h.vfsAggregates.value k = some v → VfsMet run k
  vfsTaken : ∀ r ∈ h.vfsRecords, VfsMet run r.1

section Met

variable {run : List ProgramEvent} {e : ProgramEvent} {P Q : ProgramEvent → Prop} {s s' : BpfProgram} {h : Hot}

theorem InOrder.snoc (h : InOrder run P Q) (e : ProgramEvent) : InOrder (run ++ [e]) P Q := by
  obtain ⟨a, b, ha, hb, hsub⟩ := h
  exact ⟨a, b, ha, hb, hsub.trans (List.sublist_append_left _ _)⟩

theorem inOrder_last (hp : ∃ a ∈ run, P a) (hq : Q e) : InOrder (run ++ [e]) P Q := by
  obtain ⟨a, ha, hpa⟩ := hp
  exact ⟨a, e, hpa, hq, (List.singleton_sublist.2 ha).append (List.Sublist.refl [e])⟩

theorem mem_snoc (h : ∃ a ∈ run, P a) (e : ProgramEvent) : ∃ a ∈ run ++ [e], P a :=
  h.imp (fun _ ha => ⟨List.mem_append_left _ ha.1, ha.2⟩)

theorem FutexMet.snoc {k : FutexKey} (h : FutexMet run k) (e : ProgramEvent) : FutexMet (run ++ [e]) k := by
  obtain ⟨waiter, waker, key, hne, hk, ho⟩ := h
  exact ⟨waiter, waker, key, hne, hk, ho.snoc e⟩

theorem VfsMet.snoc {k : VfsKey} (h : VfsMet run k) (e : ProgramEvent) : VfsMet (run ++ [e]) k := by
  obtain ⟨first, second, key, hne, hk, ho⟩ := h
  exact ⟨first, second, key, hne, hk, ho.snoc e⟩

theorem PointMet.snoc {point : Point} (h : PointMet run point) (e : ProgramEvent) : PointMet (run ++ [e]) point := by
  cases point with
  | futexWaiter task key waiter =>
    intro w hw
    obtain ⟨t, ht, ho⟩ := h w hw
    exact ⟨t, ht, ho.snoc e⟩
  | futexAggregate key aggregateKey found => exact FutexMet.snoc h e
  | futexEmit key taken => trivial
  | futexLeave key => trivial
  | fdPrevious task key previous =>
    refine ⟨mem_snoc h.1 e, fun p hp => ?_⟩
    obtain ⟨t, ht, hs, ho⟩ := h.2 p hp
    exact ⟨t, ht, hs, ho.snoc e⟩
  | fdAggregate task key now aggregateKey elapsed found => exact ⟨mem_snoc h.1 e, VfsMet.snoc h.2 e⟩
  | fdEmit task key now taken => exact mem_snoc h e
  | fdLeave task key now => exact mem_snoc h e

theorem Met.snoc (h : Met run s.hot) (e : ProgramEvent) : Met (run ++ [e]) s.hot where
  waiters key w hw := by
    obtain ⟨t, ht, hm⟩ := h.waiters key w hw
    exact ⟨t, ht, mem_snoc hm e⟩
  resources key p hp := by
    obtain ⟨t, ht, hs, hm⟩ := h.resources key p hp
    exact ⟨t, ht, hs, mem_snoc hm e⟩
  points cpu point hp := (h.points cpu point hp).snoc e
  futexHeld k v hv := (h.futexHeld k v hv).snoc e
  futexTaken r hr := (h.futexTaken r hr).snoc e
  vfsHeld k v hv := (h.vfsHeld k v hv).snoc e
  vfsTaken r hr := (h.vfsTaken r hr).snoc e

/-- A CPU moves to a point the events account for. -/
theorem Met.goTo (m : Met run h) (cpu : Nat) {point : Point} (hp : PointMet run point) :
    Met run { h with running := h.running.insert cpu point } := by
  refine { m with points := fun cpu' point' hrun => ?_ }
  change (h.running.insert cpu point).lookup cpu' = some point' at hrun
  by_cases hcpu : cpu' = cpu
  · rw [hcpu, AList.lookup_insert] at hrun
    cases hrun
    exact hp
  · rw [AList.lookup_insert_ne hcpu] at hrun
    exact m.points cpu' point' hrun

theorem of_value_take {κ ν : Type} [DecidableEq κ] {m : SharedMap κ ν} {k k' : κ} {v : ν}
    (h : (m.take k).value k' = some v) : m.value k' = some v := by
  obtain ⟨n, hn⟩ := SharedMap.value_eq_some.1 h
  rw [SharedMap.lookup_take] at hn
  split at hn
  · cases hn
  · exact SharedMap.value_eq_some.2 ⟨n, hn⟩

theorem met_resume (m : Met run s.hot) {cpu now : Nat} {fits : Bool} {point : Point} (hp : PointMet run point) :
    Met run (s.resume cpu now fits point).hot := by
  cases point with
  | futexWaiter task key waiter =>
    show Met run (s.futexPair cpu task key waiter).hot
    unfold futexPair
    split
    · rename_i w
      obtain ⟨waiter, rfl, ho⟩ := hp w rfl
      split
      · rename_i hne
        exact m.goTo cpu ⟨waiter, task, key, hne, rfl, ho⟩
      · exact m.goTo cpu trivial
    · exact m.goTo cpu trivial
  | futexAggregate key aggregateKey found =>
    refine { m.goTo cpu (show PointMet run (.futexEmit key _) from trivial) with futexHeld := fun k v hv => ?_ }
    rcases SharedMap.value_settle hv with hold | ⟨rfl, -⟩
    · exact m.futexHeld k v hold
    · exact hp
  | futexEmit key taken =>
    have hgo : Met run { s.hot with running := s.running.insert cpu (.futexLeave key) } := m.goTo cpu trivial
    show Met run ((s.accountEmit .futex taken).goTo cpu (.futexLeave key)).hot
    rw [hot_accountEmit]
    exact { hgo with }
  | futexLeave key =>
    exact { m with
      waiters := fun key' w hw => m.waiters key' w (of_lookup_erase hw)
      points := fun cpu' point hrun => m.points cpu' point (of_lookup_erase hrun) }
  | fdPrevious task key previous =>
    show Met run (s.fdPair cpu now task key previous).hot
    unfold fdPair
    split
    · rename_i p
      obtain ⟨first, htid, hstart, ho⟩ := hp.2 p rfl
      split
      · rename_i hne
        refine m.goTo cpu ⟨hp.1, first, task, key, fun h => hne (htid.trans h), ?_, ho⟩
        unfold vfsKey
        rw [htid, hstart]
      · exact m.goTo cpu hp.1
    · exact m.goTo cpu hp.1
  | fdAggregate task key read aggregateKey elapsed found =>
    refine { m.goTo cpu (show PointMet run (.fdEmit task key read _) from hp.1) with vfsHeld := fun k v hv => ?_ }
    rcases SharedMap.value_settle hv with hold | ⟨rfl, -⟩
    · exact m.vfsHeld k v hold
    · exact hp.2
  | fdEmit task key read taken =>
    have hgo : Met run { s.hot with running := s.running.insert cpu (.fdLeave task key read) } := m.goTo cpu hp
    show Met run ((s.accountEmit .vfs taken).goTo cpu (.fdLeave task key read)).hot
    rw [hot_accountEmit]
    exact { hgo with }
  | fdLeave task key read =>
    refine { m with
      resources := fun key' p hres => ?_
      points := fun cpu' point hrun => m.points cpu' point (of_lookup_erase hrun) }
    rcases of_lookup_updated hres with hold | ⟨rfl, rfl⟩
    · exact m.resources key' p hold
    · exact ⟨task, rfl, rfl, hp⟩

/-- **One more event.** -/
theorem Met.step (m : Met run s.hot) (h : step s e = some s') : Met (run ++ [e]) s'.hot := by
  have hm := m.snoc e
  cases e with
  | futex cpu task address operation fits =>
    obtain ⟨-, rfl⟩ := step_futex h
    unfold onFutex
    split
    · exact hm
    · split
      · rename_i hwait
        refine { hm with waiters := fun key w hw => ?_ }
        rcases of_lookup_updated hw with hold | ⟨rfl, rfl⟩
        · exact hm.waiters key w hold
        · exact ⟨task, rfl, _, List.mem_append_right _ List.mem_cons_self, rfl, cpu, operation, fits, rfl, hwait⟩
      · rename_i hwait
        refine hm.goTo cpu (fun w hw => ?_)
        obtain ⟨waiter, rfl, hbefore⟩ := m.waiters _ w hw
        exact ⟨waiter, rfl, inOrder_last hbefore ⟨rfl, cpu, operation, fits, rfl, Bool.not_eq_true _ ▸ hwait⟩⟩
  | fd cpu task fd file =>
    obtain ⟨-, rfl⟩ := step_fd h
    unfold accountFd
    split
    · exact hm
    · split
      · exact hm
      · rename_i f
        split
        · exact hm
        · rename_i hfd
          split
          · exact hm
          · rename_i hshared
            have huses : Uses task ⟨task.tgid, f.device, f.inode⟩ (.fd cpu task fd (some f)) :=
              ⟨cpu, fd, f, rfl, not_le.1 hfd, by simpa using hshared, rfl⟩
            refine hm.goTo cpu ⟨⟨_, List.mem_append_right _ List.mem_cons_self, huses⟩, fun p hp => ?_⟩
            obtain ⟨first, htid, hstart, hbefore⟩ := m.resources _ p hp
            exact ⟨first, htid, hstart, inOrder_last hbefore huses⟩
  | resume cpu now fits =>
    obtain ⟨point, hpoint, rfl⟩ := step_resume h
    exact met_resume hm (hm.points cpu point hpoint)
  | evictWaiter key =>
    cases h
    exact { hm with waiters := fun key' w hw => hm.waiters key' w (of_lookup_erase hw) }
  | evictResource key =>
    cases h
    exact { hm with resources := fun key' p hp => hm.resources key' p (of_lookup_erase hp) }
  | takeFutex key =>
    cases h
    unfold takeFutex
    split
    · rename_i value hvalue
      refine { hm with
        futexHeld := fun k v hv => hm.futexHeld k v (of_value_take hv)
        futexTaken := fun r hr => ?_ }
      rcases List.mem_append.1 hr with hr | hr
      · exact hm.futexTaken r hr
      · cases List.mem_singleton.1 hr
        exact hm.futexHeld key value hvalue
    · exact hm
  | takeVfs key =>
    cases h
    unfold takeVfs
    split
    · rename_i value hvalue
      refine { hm with
        vfsHeld := fun k v hv => hm.vfsHeld k v (of_value_take hv)
        vfsTaken := fun r hr => ?_ }
      rcases List.mem_append.1 hr with hr | hr
      · exact hm.vfsTaken r hr
      · cases List.mem_singleton.1 hr
        exact hm.vfsHeld key value hvalue
    · exact hm
  -- the other programs do not work on these maps
  | _ =>
    rw [hot_of_cold rfl h]
    exact hm

/-- Before any event there is nothing to account for. -/
theorem Met.empty : Met [] (hot {}) where
  waiters _ _ hw := nomatch hw
  resources _ _ hp := nomatch hp
  points _ _ hp := nomatch hp
  futexHeld _ _ hv := nomatch hv
  futexTaken _ hr := absurd hr List.not_mem_nil
  vfsHeld _ _ hv := nomatch hv
  vfsTaken _ hr := absurd hr List.not_mem_nil

theorem met_exec : ∀ {run : List ProgramEvent} {s : BpfProgram}, Run.exec BpfProgram.step {} run = some s → Met run s.hot := by
  intro run
  induction run using List.reverseRecOn with
  | nil =>
    intro s h
    cases h
    exact Met.empty
  | append_singleton run e ih =>
    intro s h
    obtain ⟨t, ht, he⟩ := Run.exec_concat h
    exact (ih ht).step he

/-- **Every aggregate is of two threads that met.**  In every interleaving of the CPUs, the evictions and the reader, an
element of the aggregate maps and a record the reader has taken are of two different threads of one process, and the peer
was at the address or the file before the thread. -/
theorem aggregates_met (h : Run.exec BpfProgram.step {} run = some s) :
    (∀ k v, s.futexAggregates.value k = some v ∨ (k, v) ∈ s.futexRecords → k.tid ≠ k.peerTid ∧ FutexMet run k) ∧
      ∀ k v, s.vfsAggregates.value k = some v ∨ (k, v) ∈ s.vfsRecords → k.tid ≠ k.peerTid ∧ VfsMet run k := by
  have m := met_exec h
  refine ⟨fun k v hk => ?_, fun k v hk => ?_⟩
  · have hmet : FutexMet run k := hk.elim (m.futexHeld k v) (fun hr => m.futexTaken (k, v) hr)
    refine ⟨?_, hmet⟩
    obtain ⟨waiter, waker, key, hne, rfl, -⟩ := hmet
    exact Ne.symm hne
  · have hmet : VfsMet run k := hk.elim (m.vfsHeld k v) (fun hr => m.vfsTaken (k, v) hr)
    refine ⟨?_, hmet⟩
    obtain ⟨first, second, key, hne, rfl, -⟩ := hmet
    exact Ne.symm hne

theorem aggregates_met_handoff : ∃ s, Run.exec BpfProgram.step {} takenBetween = some s ∧
    FutexMet takenBetween ⟨5, 12, 11, 0, 110, 100⟩ := by
  have hrun : (Run.exec BpfProgram.step {} takenBetween).any (fun s =>
      decide (s.futexRecords.map Prod.fst = [⟨5, 12, 11, 0, 110, 100⟩])) = true := by decide +kernel
  obtain ⟨s, hs, h⟩ := (Option.any_eq_true _ _).1 hrun
  have hmem : (⟨5, 12, 11, 0, 110, 100⟩ : FutexKey) ∈ s.futexRecords.map Prod.fst := by
    rw [of_decide_eq_true h]
    exact List.mem_singleton_self _
  obtain ⟨r, hr, hk⟩ := List.mem_map.1 hmem
  exact ⟨s, hs, hk ▸ ((aggregates_met hs).1 r.1 r.2 (Or.inr hr)).2⟩

end Met

end BpfProgram
end AffinityGraph
