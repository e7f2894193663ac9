import AffinityGraph.Core
/-!
# Backend — the kernel's per-thread masks and the syscalls over them (`actuator.cpp`)

`AffinityBackend κ` is the abstract class: `get` and `set` over a state `κ`.  A `MaskView` is what the actuator relies
on of one: its state is a partial map from live TIDs to masks, a call for one TID leaves the others alone, a call that
reports success left exactly the mask asked for.  `LinuxAffinityBackend` is the one the supervisor runs with, over the
kernel's thread table; `linuxView` proves its laws.

What the kernel answers a `sched_setaffinity` is not the supervisor's to choose: it comes from a list of answers, one
a call, so that a statement about every list is a statement about every pattern of failures.
-/
namespace AffinityGraph

/-- The `errno` values the code tells apart. -/
inductive Errno where
  | esrch
  | eio
  | einval
  | other (code : Int)
  deriving DecidableEq, Repr

/-- `AffinityBackend`: `set` answers `none` for `true`, else the error it stored. -/
structure AffinityBackend (κ : Type) where
  get : κ → Tid → Mask
  set : κ → Tid → Mask → κ × Option Errno

/-- **A backend as a partial map of masks**: what a caller may rely on, call by call. -/
structure MaskView {κ : Type} (b : AffinityBackend κ) where
  view : κ → Tid → Option Mask
  get_eq : ∀ k t, b.get k t = (view k t).getD []
  set_other : ∀ k t m u, t ≠ u → view (b.set k t m).1 u = view k u
  set_ok : ∀ k t m, (b.set k t m).2 = none → view (b.set k t m).1 t = some m
  set_esrch : ∀ k t m, (b.set k t m).2 = some .esrch → view (b.set k t m).1 t = none
  set_dead : ∀ k t m, view k t = none → view (b.set k t m).1 t = none

namespace MaskView

variable {κ : Type} {b : AffinityBackend κ} (V : MaskView b)

/-- A call that succeeds finds its thread alive. -/
theorem live_of_ok {k : κ} {t : Tid} {m : Mask} (h : (b.set k t m).2 = none) : ∃ p, V.view k t = some p := by
  cases hv : V.view k t with
  | some p => exact ⟨p, rfl⟩
  | none =>
    have := V.set_dead k t m hv
    rw [V.set_ok k t m h] at this
    cases this

theorem get_of_view {k : κ} {t : Tid} {m : Mask} (h : V.view k t = some m) : b.get k t = m := by
  rw [V.get_eq, h]; rfl

end MaskView

/-! ## The kernel -/

/-- One thread of the kernel's table. -/
structure KThread where
  tgid : Int
  starttime : Nat
  mask : OrdSet Int

/-- What the kernel answers one `sched_setaffinity`: it takes the mask, or it installs another one (a cpuset narrowed
it), or it refuses and leaves the thread alone, or the thread has just exited. -/
inductive SetAnswer where
  | exact
  | installs (mask : OrdSet Int)
  | rejects (code : Int)
  | gone

structure Kernel where
  threads : OrdMap Tid KThread := ∅
  answers : List SetAnswer := []
  /-- process groups that were sent `SIGTERM` -/
  terminated : List Int := []

namespace Kernel

/-- The mask of a live thread. -/
def maskOf (k : Kernel) (t : Tid) : Option Mask := (k.threads.find? t).map (·.mask.toList)

/-- `sched_getaffinity`. -/
def schedGetaffinity (k : Kernel) (t : Tid) : Option (OrdSet Int) := (k.threads.find? t).map (·.mask)

def putMask (k : Kernel) (t : Tid) (th : KThread) (mask : OrdSet Int) : Kernel :=
  { k with threads := k.threads.insert t { th with mask := mask } }

/-- `sched_setaffinity`: `none` for success.  When the list of answers is used up the kernel takes every mask. -/
def schedSetaffinity (k : Kernel) (t : Tid) (cpus : OrdSet Int) : Kernel × Option Errno :=
  match k.threads.find? t with
  | none => (k, some .esrch)
  | some th =>
    let k' := { k with answers := k.answers.tail }
    match k.answers.head? with
    | none | some .exact => (k'.putMask t th cpus, none)
    | some (.installs mask) => (k'.putMask t th mask, none)
    | some (.rejects code) => (k', some (.other code))
    | some .gone => ({ k' with threads := k'.threads.erase t }, some .esrch)

/-- `kill(-pgid, SIGTERM)`. -/
def killGroup (k : Kernel) (pgid : Int) : Kernel := { k with terminated := pgid :: k.terminated }

theorem maskOf_putMask (k : Kernel) (t : Tid) (th : KThread) (mask : OrdSet Int) (u : Tid) :
    (k.putMask t th mask).maskOf u = if t = u then some mask.toList else k.maskOf u := by
  unfold putMask maskOf
  rw [OrdMap.find?_insert]
  by_cases h : t = u <;> simp [h]

/-- A write to one thread leaves the others' masks alone. -/
theorem maskOf_schedSetaffinity_ne (k : Kernel) (t : Tid) (cpus : OrdSet Int) (u : Tid) (h : t ≠ u) :
    (k.schedSetaffinity t cpus).1.maskOf u = k.maskOf u := by
  unfold schedSetaffinity
  cases hf : k.threads.find? t with
  | none => rfl
  | some th =>
    simp only
    cases ha : k.answers.head? with
    | none => simp only; rw [maskOf_putMask, if_neg h]; rfl
    | some a =>
      cases a with
      | exact => simp only; rw [maskOf_putMask, if_neg h]; rfl
      | installs mask => simp only; rw [maskOf_putMask, if_neg h]; rfl
      | rejects code => rfl
      | gone => simp only [maskOf]; rw [OrdMap.find?_erase_ne _ h]

end Kernel

/-! ## The Linux backend -/

/-- `CPU_SETSIZE`. -/
def cpuSetSize : Int := 1024

def inCpuSet (cpu : Int) : Bool := decide (0 ≤ cpu) && decide (cpu < cpuSetSize)

namespace LinuxAffinityBackend

/-- `get`: the set bits below `CPU_SETSIZE`, ascending; nothing when the call fails. -/
def get (k : Kernel) (t : Tid) : Mask :=
  match k.schedGetaffinity t with
  | none => []
  | some set => set.toList

/-- `set`: write, read back, and report `EIO` when the kernel holds something else. -/
def set (k : Kernel) (t : Tid) (cpus : Mask) : Kernel × Option Errno :=
  if cpus.all inCpuSet then
    match k.schedSetaffinity t (OrdSet.ofList cpus) with
    | (k', some e) => (k', some e)
    | (k', none) => if get k' t = cpus then (k', none) else (k', some .eio)
  else (k, some .einval)

end LinuxAffinityBackend

def linux : AffinityBackend Kernel := ⟨LinuxAffinityBackend.get, LinuxAffinityBackend.set⟩

theorem linux_get_eq (k : Kernel) (t : Tid) : linux.get k t = (k.maskOf t).getD [] := by
  show LinuxAffinityBackend.get k t = _
  unfold LinuxAffinityBackend.get Kernel.schedGetaffinity Kernel.maskOf
  cases k.threads.find? t <;> rfl

theorem linux_set_invalid {k : Kernel} {t : Tid} {cpus : Mask} (h : cpus.all inCpuSet = false) :
    linux.set k t cpus = (k, some .einval) := by
  show LinuxAffinityBackend.set k t cpus = _
  unfold LinuxAffinityBackend.set
  rw [h]; rfl

theorem linux_set_cases (k : Kernel) (t : Tid) (cpus : Mask) :
    (cpus.all inCpuSet = false ∧ linux.set k t cpus = (k, some .einval)) ∨
    (∃ e, (k.schedSetaffinity t (OrdSet.ofList cpus)).2 = some e ∧
      linux.set k t cpus = ((k.schedSetaffinity t (OrdSet.ofList cpus)).1, some e)) ∨
    ((k.schedSetaffinity t (OrdSet.ofList cpus)).2 = none ∧
      (linux.set k t cpus).1 = (k.schedSetaffinity t (OrdSet.ofList cpus)).1 ∧
      (linux.set k t cpus).2 =
        if linux.get (k.schedSetaffinity t (OrdSet.ofList cpus)).1 t = cpus then none else some .eio) := by
  show _ ∨ (∃ e, _ ∧ LinuxAffinityBackend.set k t cpus = _) ∨ _
  unfold LinuxAffinityBackend.set
  cases hc : cpus.all inCpuSet with
  | false => exact Or.inl ⟨rfl, linux_set_invalid hc⟩
  | true =>
    refine Or.inr ?_
    cases hs : k.schedSetaffinity t (OrdSet.ofList cpus) with
    | mk k' r =>
      cases r with
      | some e => exact Or.inl ⟨e, rfl, by simp⟩
      | none =>
        refine Or.inr ⟨rfl, ?_⟩
        show (LinuxAffinityBackend.set k t cpus).1 = k' ∧ (LinuxAffinityBackend.set k t cpus).2 = _
        unfold LinuxAffinityBackend.set
        rw [hc, hs]
        simp only [if_true]
        show _ ∧ _ = if LinuxAffinityBackend.get k' t = cpus then none else some Errno.eio
        split <;> exact ⟨rfl, rfl⟩

theorem linux_set_other (k : Kernel) (t : Tid) (m : Mask) (u : Tid) (h : t ≠ u) :
    (linux.set k t m).1.maskOf u = k.maskOf u := by
  rcases linux_set_cases k t m with ⟨-, hs⟩ | ⟨e, -, hs⟩ | ⟨-, hs, -⟩ <;> rw [hs]
  · exact Kernel.maskOf_schedSetaffinity_ne k t _ u h
  · exact Kernel.maskOf_schedSetaffinity_ne k t _ u h

/-- A thread that is gone stays gone, and the write says so. -/
theorem schedSetaffinity_dead {k : Kernel} {t : Tid} (h : k.maskOf t = none) (cpus : OrdSet Int) :
    k.schedSetaffinity t cpus = (k, some .esrch) := by
  have hf : k.threads.find? t = none := by simpa [Kernel.maskOf] using h
  unfold Kernel.schedSetaffinity
  rw [hf]

theorem schedSetaffinity_ok_live {k : Kernel} {t : Tid} {cpus : OrdSet Int} (h : (k.schedSetaffinity t cpus).2 = none) :
    ∃ m, (k.schedSetaffinity t cpus).1.maskOf t = some m := by
  unfold Kernel.schedSetaffinity at h ⊢
  cases hf : k.threads.find? t with
  | none => rw [hf] at h; cases h
  | some th =>
    simp only [hf] at h ⊢
    cases ha : k.answers.head? with
    | none => simp only; exact ⟨_, by rw [Kernel.maskOf_putMask, if_pos rfl]⟩
    | some a =>
      rw [ha] at h
      cases a with
      | exact => simp only; exact ⟨_, by rw [Kernel.maskOf_putMask, if_pos rfl]⟩
      | installs mask => simp only; exact ⟨_, by rw [Kernel.maskOf_putMask, if_pos rfl]⟩
      | rejects code => cases h
      | gone => cases h

theorem schedSetaffinity_esrch {k : Kernel} {t : Tid} {cpus : OrdSet Int}
    (h : (k.schedSetaffinity t cpus).2 = some .esrch) : (k.schedSetaffinity t cpus).1.maskOf t = none := by
  unfold Kernel.schedSetaffinity at h ⊢
  cases hf : k.threads.find? t with
  | none => simp [Kernel.maskOf, hf]
  | some th =>
    simp only [hf] at h ⊢
    cases ha : k.answers.head? with
    | none => rw [ha] at h; cases h
    | some a =>
      rw [ha] at h
      cases a with
      | exact => cases h
      | installs mask => cases h
      | rejects code => cases h
      | gone => simp [Kernel.maskOf]

/-- The tasks of `k'` are tasks of `k`, but for their masks. -/
def Kernel.SameTasks (k k' : Kernel) : Prop :=
  ∀ t th', k'.threads.find? t = some th' →
    ∃ th, k.threads.find? t = some th ∧ th'.tgid = th.tgid ∧ th'.starttime = th.starttime

theorem Kernel.SameTasks.refl (k : Kernel) : Kernel.SameTasks k k := fun _ th h => ⟨th, h, rfl, rfl⟩

theorem Kernel.SameTasks.putMask {k k' : Kernel} (h : Kernel.SameTasks k k') {t : Tid} {th : KThread}
    (ht : k'.threads.find? t = some th) (mask : OrdSet Int) (answers : List SetAnswer) :
    Kernel.SameTasks k (Kernel.putMask { k' with answers := answers } t th mask) := by
  intro u th' hu
  rw [Kernel.putMask, OrdMap.find?_insert] at hu
  split at hu
  · rename_i htu
    subst htu
    cases hu
    exact h t th ht
  · exact h u th' hu

theorem Kernel.SameTasks.schedSetaffinity {k k' : Kernel} (h : Kernel.SameTasks k k') (t : Tid) (cpus : OrdSet Int) :
    Kernel.SameTasks k (k'.schedSetaffinity t cpus).1 := by
  unfold Kernel.schedSetaffinity
  cases hf : k'.threads.find? t with
  | none => exact h
  | some th =>
    dsimp only
    split
    · exact h.putMask hf _ _
    · exact h.putMask hf _ _
    · exact h.putMask hf _ _
    · exact h
    · intro u th' hu
      rw [OrdMap.find?_erase] at hu
      split at hu
      · cases hu
      · exact h u th' hu

theorem linux_set_sameTasks {k k' : Kernel} (t : Tid) (m : Mask) (h : Kernel.SameTasks k k') :
    Kernel.SameTasks k (linux.set k' t m).1 := by
  rcases linux_set_cases k' t m with ⟨-, hs⟩ | ⟨e, -, hs⟩ | ⟨-, hs, -⟩ <;> rw [hs]
  · exact h
  · exact h.schedSetaffinity t _
  · exact h.schedSetaffinity t _

/-- **The Linux backend is a partial map of masks.** -/
def linuxView : MaskView linux where
  view := Kernel.maskOf
  get_eq := linux_get_eq
  set_other := linux_set_other
  set_ok := by
    intro k t m h
    rcases linux_set_cases k t m with ⟨-, hs⟩ | ⟨e, -, hs⟩ | ⟨hn, hs, hr⟩
    · rw [hs] at h; cases h
    · rw [hs] at h; cases h
    · obtain ⟨p, hp⟩ := schedSetaffinity_ok_live hn
      have hg : linux.get (k.schedSetaffinity t (OrdSet.ofList m)).1 t = m := by
        by_contra hne
        rw [hr, if_neg hne] at h
        cases h
      rw [linux_get_eq, hp] at hg
      rw [hs, hp]
      exact congrArg some hg
  set_esrch := by
    intro k t m h
    rcases linux_set_cases k t m with ⟨-, hs⟩ | ⟨e, he, hs⟩ | ⟨-, -, hr⟩
    · rw [hs] at h; cases h
    · rw [hs] at h ⊢
      exact schedSetaffinity_esrch (he.trans h)
    · rw [hr] at h
      split at h <;> cases h
  set_dead := by
    intro k t m h
    rcases linux_set_cases k t m with ⟨-, hs⟩ | ⟨e, -, hs⟩ | ⟨-, hs, -⟩
    · rw [hs]; exact h
    · rw [hs, schedSetaffinity_dead h]; exact h
    · rw [hs, schedSetaffinity_dead h]; exact h

end AffinityGraph
