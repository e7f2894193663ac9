import AffinityGraph.Backend
import AffinityGraph.Run
/-!
# Actuator — the batch write and the two restores (`actuator.cpp`)

The actuator keeps, by bare TID, the mask to restore and whether the policy wrote to the thread.  Every acted TID has a
restore mask: the field `restorable` says so, and it is why the source's `restore_masks_.at(tid)` never throws.

The three loops handle each TID once.  What a whole call does is therefore told TID by TID: `applyRun_effect` lists
everything a batch can do to one thread, `restore_effect` and `restoreAll_effect` do the same for the restores, and no
later proof opens a loop again.
-/
namespace AffinityGraph

theorem none_restorable : ∀ t ∈ (∅ : OrdSet Tid), t ∈ (∅ : OrdMap Tid Mask) := by simp

structure Actuator where
  restoreMasks : OrdMap Tid Mask := ∅
  actedTids : OrdSet Tid := ∅
  restorable : ∀ t ∈ actedTids, t ∈ restoreMasks := by first | exact none_restorable | simp

namespace Actuator

instance : Inhabited Actuator := ⟨{}⟩

def noteApplicationMask (a : Actuator) (tid : Tid) (cpus : Mask) : Actuator where
  restoreMasks := a.restoreMasks.insert tid cpus
  actedTids := a.actedTids
  restorable t h := OrdMap.mem_insert.2 (Or.inr (a.restorable t h))

/-- Keep a restore mask the thread already has. -/
def remember (a : Actuator) (tid : Tid) (cpus : Mask) : Actuator :=
  if tid ∈ a.restoreMasks then a else a.noteApplicationMask tid cpus

def noteInheritedMask (a : Actuator) (tid parentTid : Tid) (observedCpus : Mask) : Actuator :=
  a.remember tid ((a.restoreMasks.find? parentTid).getD observedCpus)

theorem mem_remember (a : Actuator) (tid : Tid) (cpus : Mask) : tid ∈ (a.remember tid cpus).restoreMasks := by
  unfold remember
  split
  · assumption
  · exact OrdMap.mem_insert.2 (Or.inl rfl)

/-- `acted_tids.insert(tid)`, once the thread has a restore mask. -/
def markActed (a : Actuator) (tid : Tid) (h : tid ∈ a.restoreMasks) : Actuator where
  restoreMasks := a.restoreMasks
  actedTids := a.actedTids.add tid
  restorable t ht := by
    rcases OrdSet.mem_add.1 ht with rfl | ht
    · exact h
    · exact a.restorable t ht

/-- `acted_tids.erase(tid)`. -/
def unmark (a : Actuator) (tid : Tid) : Actuator where
  restoreMasks := a.restoreMasks
  actedTids := a.actedTids.erase tid
  restorable t ht := a.restorable t (OrdMap.mem_erase.1 ht).2

/-- Both erased. -/
def forget (a : Actuator) (tid : Tid) : Actuator where
  restoreMasks := a.restoreMasks.erase tid
  actedTids := a.actedTids.erase tid
  restorable t ht := by
    obtain ⟨hne, h⟩ := OrdMap.mem_erase.1 ht
    exact OrdMap.mem_erase.2 ⟨hne, a.restorable t h⟩

/-- `restore_masks_.at(tid)`; read only for acted TIDs. -/
def restoreMaskOf (a : Actuator) (tid : Tid) : Mask := a.restoreMasks.getD tid []

/-! ### What each of them does to a lookup -/

theorem find?_remember (a : Actuator) (tid : Tid) (cpus : Mask) (u : Tid) :
    (a.remember tid cpus).restoreMasks.find? u =
      if tid = u then some ((a.restoreMasks.find? u).getD cpus) else a.restoreMasks.find? u := by
  unfold remember
  by_cases hu : tid = u
  · subst hu
    by_cases h : tid ∈ a.restoreMasks
    · obtain ⟨m, hm⟩ := OrdMap.mem_iff.1 h
      rw [if_pos h, if_pos rfl, hm]; rfl
    · rw [if_neg h, if_pos rfl, OrdMap.notMem_iff.1 h]
      exact OrdMap.find?_insert_self _ _ _
  · rw [if_neg hu]
    split
    · rfl
    · exact OrdMap.find?_insert_ne _ _ hu

@[simp] theorem actedTids_remember (a : Actuator) (tid : Tid) (cpus : Mask) :
    (a.remember tid cpus).actedTids = a.actedTids := by
  unfold remember
  split <;> rfl

theorem find?_noteInheritedMask (a : Actuator) (tid parentTid : Tid) (obs : Mask) (u : Tid) :
    (a.noteInheritedMask tid parentTid obs).restoreMasks.find? u =
      if tid = u then some ((a.restoreMasks.find? u).getD ((a.restoreMasks.find? parentTid).getD obs))
      else a.restoreMasks.find? u := a.find?_remember tid _ u

@[simp] theorem actedTids_noteInheritedMask (a : Actuator) (tid parentTid : Tid) (obs : Mask) :
    (a.noteInheritedMask tid parentTid obs).actedTids = a.actedTids := a.actedTids_remember tid _

theorem restoreMaskOf_eq {a : Actuator} {t : Tid} (h : t ∈ a.actedTids) :
    a.restoreMasks.find? t = some (a.restoreMaskOf t) := by
  obtain ⟨m, hm⟩ := OrdMap.mem_iff.1 (a.restorable t h)
  rw [restoreMaskOf, OrdMap.getD, hm]; rfl

end Actuator

/-! ## The batch write -/

/-- `ApplyResult`; `error` is `none` for the source's `0`. -/
structure ApplyResult where
  success : Bool := false
  requested : Nat := 0
  applied : Nat := 0
  committed : Nat := 0
  vanished : Nat := 0
  rolledBack : Nat := 0
  rollbackSuccess : Bool := true
  error : Option Errno := none
  committedTids : OrdSet Tid := ∅
  vanishedTids : OrdSet Tid := ∅

/-- The write a batch stopped at, and the backend's state when it was made. -/
structure FailedWrite (κ : Type) where
  tid : Tid
  cpus : Mask
  error : Errno
  before : κ

/-- The locals of `apply_delta`.  `completed` is newest first, the order the roll-back walks it in. -/
structure ApplyState (κ : Type) where
  backend : κ
  actuator : Actuator
  result : ApplyResult := {}
  completed : List Tid := []
  previousMasks : OrdMap Tid Mask := ∅
  previouslyActed : OrdMap Tid Bool := ∅
  stopped : Option (FailedWrite κ) := none

namespace Actuator

variable {κ : Type} (b : AffinityBackend κ)

/-- `++vanished`, with the TID noted. -/
def countVanished (r : ApplyResult) (t : Tid) : ApplyResult :=
  { r with vanished := r.vanished + 1, vanishedTids := r.vanishedTids.add t }

/-- The write itself: an empty mask is refused before the call. -/
def writeMask (k : κ) (t : Tid) (cpus : Mask) : κ × Option Errno :=
  if cpus = [] then (k, some .einval) else b.set k t cpus

/-- The body of the batch loop; once it has stopped, the source has returned. -/
def applyStep (live : OrdSet Tid) (st : ApplyState κ) (item : Tid × Mask) : ApplyState κ :=
  if st.stopped.isSome then st else
  if item.1 ∈ live then
    let prev := b.get st.backend item.1
    let noted := st.actuator.remember item.1 prev
    let st' : ApplyState κ := { st with
      backend := (writeMask b st.backend item.1 item.2).1
      actuator := noted
      previousMasks := st.previousMasks.insert item.1 prev
      previouslyActed := st.previouslyActed.insert item.1 (decide (item.1 ∈ st.actuator.actedTids)) }
    match (writeMask b st.backend item.1 item.2).2 with
    | none =>
      { st' with
        actuator := noted.markActed item.1 (st.actuator.mem_remember item.1 prev)
        completed := item.1 :: st.completed
        result := { st.result with applied := st.result.applied + 1 } }
    | some .esrch => { st' with result := countVanished st.result item.1 }
    | some e =>
      { st' with
        result := { st.result with error := some e }
        stopped := some ⟨item.1, item.2, e, st.backend⟩ }
  else { st with result := countVanished st.result item.1 }

/-- The body of the roll-back loop. -/
def rollBackStep (st : ApplyState κ) (t : Tid) : ApplyState κ :=
  let st' := { st with backend := (b.set st.backend t (st.previousMasks.getD t [])).1 }
  match (b.set st.backend t (st.previousMasks.getD t [])).2 with
  | none | some .esrch =>
    { st' with
      result := { st.result with rolledBack := st.result.rolledBack + 1 }
      actuator := if st.previouslyActed.getD t false = true then st.actuator else st.actuator.unmark t }
  | some _ => { st' with result := { st.result with rollbackSuccess := false } }

def rollBack (st : ApplyState κ) : ApplyState κ := st.completed.foldl (rollBackStep b) st

def finishBatch (st : ApplyState κ) : ApplyState κ :=
  { st with result := { st.result with
      success := true
      committed := st.result.applied
      committedTids := OrdSet.ofList st.completed } }

/-- `apply_delta`, with all its locals as it leaves them. -/
def applyRun (k : κ) (a : Actuator) (assignments : OrdMap Tid Mask) (live : OrdSet Tid) : ApplyState κ :=
  let st := assignments.entries.foldl (applyStep b live)
    { backend := k, actuator := a, result := { requested := assignments.size } }
  match st.stopped with
  | some _ => rollBack b st
  | none => finishBatch st

def applyDelta (k : κ) (a : Actuator) (assignments : OrdMap Tid Mask) (live : OrdSet Tid) :
    κ × Actuator × ApplyResult :=
  let st := applyRun b k a assignments live
  (st.backend, st.actuator, st.result)

/-- `apply(const PlacementDelta &)`: a TID with a CPU and no mask gets the one CPU. -/
def deltaMasks (delta : PlacementDelta) : OrdMap Tid Mask :=
  delta.tidToCpu.entries.foldl (fun masks e => if e.1 ∈ masks then masks else masks.insert e.1 [e.2]) delta.tidToMask

def apply (k : κ) (a : Actuator) (delta : PlacementDelta) (live : OrdSet Tid) : κ × Actuator × ApplyResult :=
  applyDelta b k a (deltaMasks delta) live

/-- Every TID with a CPU is in the batch. -/
theorem mem_deltaMasks {delta : PlacementDelta} {t : Tid} {cpu : Int} (h : delta.tidToCpu.find? t = some cpu) :
    t ∈ deltaMasks delta := by
  have hloop : ∀ (l : List (Tid × Int)) (masks : OrdMap Tid Mask), t ∈ masks ∨ (∃ e ∈ l, e.1 = t) →
      t ∈ l.foldl (fun masks e => if e.1 ∈ masks then masks else masks.insert e.1 [e.2]) masks := by
    intro l
    induction l with
    | nil => exact fun masks h => h.resolve_right (fun ⟨e, he, _⟩ => by cases he)
    | cons e l ih =>
      intro masks h
      refine ih _ ?_
      dsimp only
      rcases h with h | ⟨x, hx, rfl⟩
      · refine Or.inl ?_
        split
        · exact h
        · exact OrdMap.mem_insert.2 (Or.inr h)
      · rcases List.mem_cons.1 hx with rfl | hx
        · refine Or.inl ?_
          split
          · assumption
          · exact OrdMap.mem_insert.2 (Or.inl rfl)
        · exact Or.inr ⟨x, hx, rfl⟩
  exact hloop _ _ (Or.inr ⟨(t, cpu), OrdMap.mem_entries.2 h, rfl⟩)

end Actuator

/-! ## The restores -/

structure RestoreResult where
  requested : Nat := 0
  restored : Nat := 0
  vanished : Nat := 0
  failed : Nat := 0
  deriving DecidableEq, Repr

def RestoreResult.success (r : RestoreResult) : Bool := decide (r.failed = 0)

structure RestoreState (κ : Type) where
  backend : κ
  actuator : Actuator
  result : RestoreResult := {}

namespace Actuator

variable {κ : Type} (b : AffinityBackend κ)

/-- The counters after one restoring write. -/
def countRestored (r : RestoreResult) : Option Errno → RestoreResult
  | none => { r with restored := r.restored + 1 }
  | some .esrch => { r with vanished := r.vanished + 1 }
  | some _ => { r with failed := r.failed + 1 }

/-- The body of `restore_all`'s loop. -/
def restoreAllStep (st : RestoreState κ) (t : Tid) : RestoreState κ :=
  let w := b.set st.backend t (st.actuator.restoreMaskOf t)
  { st with backend := w.1, result := countRestored st.result w.2 }

def restoreAll (k : κ) (a : Actuator) : RestoreState κ :=
  { a.actedTids.toList.foldl (restoreAllStep b) ⟨k, a, { requested := a.actedTids.size }⟩ with actuator := {} }

/-- The body of `restore`'s loop: only acted TIDs are written, and what was written or has vanished is forgotten. -/
def restoreStep (st : RestoreState κ) (t : Tid) : RestoreState κ :=
  if t ∈ st.actuator.actedTids then
    let w := b.set st.backend t (st.actuator.restoreMaskOf t)
    let result := countRestored { st.result with requested := st.result.requested + 1 } w.2
    match w.2 with
    | none | some .esrch => { backend := w.1, actuator := st.actuator.forget t, result := result }
    | some _ => { backend := w.1, actuator := st.actuator, result := result }
  else st

def restore (k : κ) (a : Actuator) (tids : OrdSet Tid) : RestoreState κ :=
  tids.toList.foldl (restoreStep b) ⟨k, a, {}⟩

end Actuator

/-! ## One thread through a batch -/

/-- What a batch reads and writes of one thread. -/
structure Slot where
  mask : Option Mask
  restoreMask : Option Mask
  acted : Prop
  previous : Option Mask
  wasActed : Option Bool
  completed : Prop
  vanished : Prop

namespace Actuator

variable {κ : Type} {b : AffinityBackend κ} (V : MaskView b) {live : OrdSet Tid}

def slot (st : ApplyState κ) (u : Tid) : Slot where
  mask := V.view st.backend u
  restoreMask := st.actuator.restoreMasks.find? u
  acted := u ∈ st.actuator.actedTids
  previous := st.previousMasks.find? u
  wasActed := st.previouslyActed.find? u
  completed := u ∈ st.completed
  vanished := u ∈ st.result.vanishedTids

theorem writeMask_other {k : κ} {t u : Tid} (cpus : Mask) (h : t ≠ u) :
    V.view (writeMask b k t cpus).1 u = V.view k u := by
  unfold writeMask
  split
  · rfl
  · exact V.set_other k t cpus u h

theorem applyStep_stopped {st : ApplyState κ} (h : st.stopped.isSome = true) (item : Tid × Mask) :
    applyStep b live st item = st := by
  unfold applyStep
  rw [if_pos h]

theorem foldl_applyStep_stopped (live : OrdSet Tid) : ∀ (l : List (Tid × Mask)) {st : ApplyState κ}, st.stopped.isSome = true →
    l.foldl (applyStep b live) st = st
  | [], _, _ => rfl
  | item :: l, st, h => by
    rw [List.foldl_cons, applyStep_stopped h]
    exact foldl_applyStep_stopped live l h

/-- **Everything the loop body can do.** -/
theorem applyStep_cases (live : OrdSet Tid) (st : ApplyState κ) (t : Tid) (cpus : Mask) :
    (st.stopped.isSome = true ∧ applyStep b live st (t, cpus) = st) ∨
    (st.stopped = none ∧ t ∉ live ∧
      applyStep b live st (t, cpus) = { st with result := countVanished st.result t }) ∨
    (st.stopped = none ∧ t ∈ live ∧ ∃ st' : ApplyState κ,
      st'.backend = (writeMask b st.backend t cpus).1 ∧
      st'.previousMasks = st.previousMasks.insert t (b.get st.backend t) ∧
      st'.previouslyActed = st.previouslyActed.insert t (decide (t ∈ st.actuator.actedTids)) ∧
      st'.actuator.restoreMasks = (st.actuator.remember t (b.get st.backend t)).restoreMasks ∧
      applyStep b live st (t, cpus) = st' ∧
      (((writeMask b st.backend t cpus).2 = none ∧ st'.actuator.actedTids = st.actuator.actedTids.add t ∧
          st'.completed = t :: st.completed ∧ st'.result.vanishedTids = st.result.vanishedTids ∧
          st'.stopped = none) ∨
        ((writeMask b st.backend t cpus).2 = some .esrch ∧ st'.actuator.actedTids = st.actuator.actedTids ∧
          st'.completed = st.completed ∧ st'.result.vanishedTids = st.result.vanishedTids.add t ∧
          st'.stopped = none) ∨
        (∃ e, e ≠ .esrch ∧ (writeMask b st.backend t cpus).2 = some e ∧
          st'.actuator.actedTids = st.actuator.actedTids ∧ st'.completed = st.completed ∧
          st'.result.vanishedTids = st.result.vanishedTids ∧ st'.stopped = some ⟨t, cpus, e, st.backend⟩))) := by
  cases hs : st.stopped with
  | some F => exact Or.inl ⟨rfl, applyStep_stopped (by rw [hs]; rfl) _⟩
  | none =>
    by_cases hl : t ∈ live
    · refine Or.inr (Or.inr ⟨rfl, hl, applyStep b live st (t, cpus), ?_⟩)
      unfold applyStep
      simp only [hs, Option.isSome_none, Bool.false_eq_true, if_false, hl, if_true]
      cases hw : (writeMask b st.backend t cpus).2 with
      | none => exact ⟨rfl, rfl, rfl, rfl, trivial, Or.inl ⟨rfl, by simp [markActed], rfl, rfl, rfl⟩⟩
      | some e =>
        cases e with
        | esrch => exact ⟨rfl, rfl, rfl, rfl, trivial, Or.inr (Or.inl ⟨rfl, by simp, rfl, rfl, rfl⟩)⟩
        | eio => exact ⟨rfl, rfl, rfl, rfl, trivial, Or.inr (Or.inr ⟨.eio, by simp, rfl, by simp, rfl, rfl, rfl⟩)⟩
        | einval => exact ⟨rfl, rfl, rfl, rfl, trivial, Or.inr (Or.inr ⟨.einval, by simp, rfl, by simp, rfl, rfl, rfl⟩)⟩
        | other c =>
          exact ⟨rfl, rfl, rfl, rfl, trivial, Or.inr (Or.inr ⟨.other c, by simp, rfl, by simp, rfl, rfl, rfl⟩)⟩
    · refine Or.inr (Or.inl ⟨rfl, hl, ?_⟩)
      unfold applyStep
      simp only [hs, Option.isSome_none, Bool.false_eq_true, if_false, hl]

theorem slot_ext {st st' : ApplyState κ} {u : Tid} (h1 : V.view st'.backend u = V.view st.backend u)
    (h2 : st'.actuator.restoreMasks.find? u = st.actuator.restoreMasks.find? u)
    (h3 : u ∈ st'.actuator.actedTids ↔ u ∈ st.actuator.actedTids)
    (h4 : st'.previousMasks.find? u = st.previousMasks.find? u)
    (h5 : st'.previouslyActed.find? u = st.previouslyActed.find? u)
    (h6 : u ∈ st'.completed ↔ u ∈ st.completed)
    (h7 : u ∈ st'.result.vanishedTids ↔ u ∈ st.result.vanishedTids) : slot V st' u = slot V st u := by
  unfold slot
  rw [h1, h2, h4, h5, propext h3, propext h6, propext h7]

theorem applyStep_local (live : OrdSet Tid) : Loop.Local (slot V) Prod.fst (applyStep b live) := by
  intro st item u hne
  obtain ⟨t, cpus⟩ := item
  have hne' : t ≠ u := hne
  rcases applyStep_cases live st t cpus with ⟨-, h⟩ | ⟨-, -, h⟩ | ⟨-, -, st', hb, hp, hpa, hr, h, hcase⟩
  · rw [h]
  · rw [h]
    refine slot_ext V rfl rfl Iff.rfl rfl rfl Iff.rfl ?_
    simp [countVanished, hne']
  · rw [h]
    have h1 : V.view st'.backend u = V.view st.backend u := by rw [hb]; exact writeMask_other V cpus hne'
    have h2 : st'.actuator.restoreMasks.find? u = st.actuator.restoreMasks.find? u := by
      rw [hr, find?_remember, if_neg hne']
    have h4 : st'.previousMasks.find? u = st.previousMasks.find? u := by
      rw [hp]; exact OrdMap.find?_insert_ne _ _ hne'
    have h5 : st'.previouslyActed.find? u = st.previouslyActed.find? u := by
      rw [hpa]; exact OrdMap.find?_insert_ne _ _ hne'
    rcases hcase with ⟨-, ha, hc, hv, -⟩ | ⟨-, ha, hc, hv, -⟩ | ⟨e, -, -, ha, hc, hv, -⟩
    · refine slot_ext V h1 h2 ?_ h4 h5 ?_ (by rw [hv])
      · rw [ha, OrdSet.mem_add]; exact or_iff_right hne'
      · rw [hc, List.mem_cons]; exact or_iff_right (Ne.symm hne')
    · refine slot_ext V h1 h2 (by rw [ha]) h4 h5 (by rw [hc]) ?_
      rw [hv, OrdSet.mem_add]; exact or_iff_right hne'
    · exact slot_ext V h1 h2 (by rw [ha]) h4 h5 (by rw [hc]) (by rw [hv])

/-- The completed TIDs are keys the loop went through, each once. -/
theorem foldl_applyStep_completed (live : OrdSet Tid) : ∀ (l : List (Tid × Mask)) (st : ApplyState κ),
    ∃ c, c.Sublist (l.map Prod.fst).reverse ∧ (l.foldl (applyStep b live) st).completed = c ++ st.completed
  | [], st => ⟨[], List.Sublist.slnil, rfl⟩
  | (t, cpus) :: l, st => by
    obtain ⟨c, hc, he⟩ := foldl_applyStep_completed live l (applyStep b live st (t, cpus))
    rw [List.foldl_cons, List.map_cons, List.reverse_cons, he]
    have hstep : (applyStep b live st (t, cpus)).completed = st.completed ∨
        (applyStep b live st (t, cpus)).completed = t :: st.completed := by
      rcases applyStep_cases live st t cpus with ⟨-, h⟩ | ⟨-, -, h⟩ | ⟨-, -, st', -, -, -, -, h, hcase⟩
      · exact Or.inl (by rw [h])
      · exact Or.inl (by rw [h])
      · rcases hcase with ⟨-, -, hc, -⟩ | ⟨-, -, hc, -⟩ | ⟨e, -, -, -, hc, -⟩
        · exact Or.inr (by rw [h, hc])
        · exact Or.inl (by rw [h, hc])
        · exact Or.inl (by rw [h, hc])
    rcases hstep with h | h
    · exact ⟨c, hc.trans (List.sublist_append_left _ _), by rw [h]⟩
    · exact ⟨c ++ [t], hc.append (List.Sublist.refl _), by rw [h]; simp⟩

/-! ## The roll-back, one thread at a time -/

/-- What the roll-back leaves alone. -/
structure RollBackFrame (st st' : ApplyState κ) : Prop where
  restoreMasks : st'.actuator.restoreMasks = st.actuator.restoreMasks
  previousMasks : st'.previousMasks = st.previousMasks
  previouslyActed : st'.previouslyActed = st.previouslyActed
  completed : st'.completed = st.completed
  stopped : st'.stopped = st.stopped
  vanishedTids : st'.result.vanishedTids = st.result.vanishedTids
  committedTids : st'.result.committedTids = st.result.committedTids
  success : st'.result.success = st.result.success
  rollbackFailed : st.result.rollbackSuccess = false → st'.result.rollbackSuccess = false

theorem RollBackFrame.trans {st st' st'' : ApplyState κ} (h : RollBackFrame st st') (h' : RollBackFrame st' st'') :
    RollBackFrame st st'' where
  restoreMasks := h'.restoreMasks.trans h.restoreMasks
  previousMasks := h'.previousMasks.trans h.previousMasks
  previouslyActed := h'.previouslyActed.trans h.previouslyActed
  completed := h'.completed.trans h.completed
  stopped := h'.stopped.trans h.stopped
  vanishedTids := h'.vanishedTids.trans h.vanishedTids
  committedTids := h'.committedTids.trans h.committedTids
  success := h'.success.trans h.success
  rollbackFailed := fun hf => h'.rollbackFailed (h.rollbackFailed hf)

/-- **Everything the roll-back's body can do.** -/
theorem rollBackStep_cases (st : ApplyState κ) (t : Tid) :
    let w := b.set st.backend t (st.previousMasks.getD t [])
    let st' := rollBackStep b st t
    RollBackFrame st st' ∧ st'.backend = w.1 ∧
    (((w.2 = none ∨ w.2 = some .esrch) ∧ st'.actuator.actedTids =
        if st.previouslyActed.getD t false = true then st.actuator.actedTids else st.actuator.actedTids.erase t) ∨
      (st'.result.rollbackSuccess = false ∧ st'.actuator = st.actuator)) := by
  simp only
  unfold rollBackStep
  simp only
  cases hw : (b.set st.backend t (st.previousMasks.getD t [])).2 with
  | none =>
    refine ⟨⟨?_, rfl, rfl, rfl, rfl, rfl, rfl, rfl, id⟩, rfl, Or.inl ⟨Or.inl rfl, ?_⟩⟩ <;> (simp only; split <;> rfl)
  | some e =>
    cases e with
    | esrch =>
      refine ⟨⟨?_, rfl, rfl, rfl, rfl, rfl, rfl, rfl, id⟩, rfl, Or.inl ⟨Or.inr rfl, ?_⟩⟩ <;> (simp only; split <;> rfl)
    | eio => exact ⟨⟨rfl, rfl, rfl, rfl, rfl, rfl, rfl, rfl, fun _ => rfl⟩, rfl, Or.inr ⟨rfl, rfl⟩⟩
    | einval => exact ⟨⟨rfl, rfl, rfl, rfl, rfl, rfl, rfl, rfl, fun _ => rfl⟩, rfl, Or.inr ⟨rfl, rfl⟩⟩
    | other c => exact ⟨⟨rfl, rfl, rfl, rfl, rfl, rfl, rfl, rfl, fun _ => rfl⟩, rfl, Or.inr ⟨rfl, rfl⟩⟩

theorem rollBackStep_local : Loop.Local (slot V) id (rollBackStep b) := by
  intro st t u hne
  have hne' : t ≠ u := hne
  obtain ⟨hf, hb, hcase⟩ := rollBackStep_cases (b := b) st t
  refine slot_ext V ?_ (by rw [hf.restoreMasks]) ?_ (by rw [hf.previousMasks]) (by rw [hf.previouslyActed])
    (by rw [hf.completed]) (by rw [hf.vanishedTids])
  · rw [hb]; exact V.set_other _ _ _ _ hne'
  · rcases hcase with ⟨-, ha⟩ | ⟨-, ha⟩
    · rw [ha]
      split
      · rfl
      · rw [OrdMap.mem_erase]; exact and_iff_right hne'
    · rw [ha]

theorem foldl_rollBackStep_frame : ∀ (l : List Tid) (st : ApplyState κ),
    RollBackFrame st (l.foldl (rollBackStep b) st)
  | [], _ => ⟨rfl, rfl, rfl, rfl, rfl, rfl, rfl, rfl, id⟩
  | t :: l, st => (rollBackStep_cases st t).1.trans (foldl_rollBackStep_frame l (rollBackStep b st t))

/-- One completed TID through the roll-back. -/
theorem rollBack_at {st : ApplyState κ} (hn : st.completed.Nodup) {u : Tid} (hu : u ∈ st.completed)
    {m : Mask} (hm : st.previousMasks.find? u = some m) :
    ((V.view (rollBack b st).backend u = some m ∨ V.view (rollBack b st).backend u = none) ∧
      (u ∈ (rollBack b st).actuator.actedTids ↔
        st.previouslyActed.getD u false = true ∧ u ∈ st.actuator.actedTids)) ∨
    ((rollBack b st).result.rollbackSuccess = false ∧
      (u ∈ (rollBack b st).actuator.actedTids ↔ u ∈ st.actuator.actedTids)) := by
  unfold rollBack
  obtain ⟨pre, post, hl, h1, h2⟩ := (rollBackStep_local V).foldl_at (i := u) (by simpa using hn) hu st
  have hpre := foldl_rollBackStep_frame (b := b) pre st
  have hact : u ∈ (pre.foldl (rollBackStep b) st).actuator.actedTids ↔ u ∈ st.actuator.actedTids :=
    iff_of_eq (congrArg Slot.acted h1)
  have hpost := foldl_rollBackStep_frame (b := b) post (rollBackStep b (pre.foldl (rollBackStep b) st) u)
  have hrest : post.foldl (rollBackStep b) (rollBackStep b (pre.foldl (rollBackStep b) st) u) =
      st.completed.foldl (rollBackStep b) st := by
    conv_rhs => rw [hl, List.foldl_append, List.foldl_cons]
  rw [hrest] at hpost
  generalize pre.foldl (rollBackStep b) st = st₁ at h2 hpre hact hpost
  generalize st.completed.foldl (rollBackStep b) st = st' at h2 hpost ⊢
  have e1 : V.view st'.backend u = V.view (rollBackStep b st₁ u).backend u := congrArg Slot.mask h2
  have e3 : u ∈ st'.actuator.actedTids ↔ u ∈ (rollBackStep b st₁ u).actuator.actedTids :=
    iff_of_eq (congrArg Slot.acted h2)
  have hprev : st₁.previousMasks.getD u [] = m := by rw [OrdMap.getD, hpre.previousMasks, hm]; rfl
  obtain ⟨-, hb, hcase⟩ := rollBackStep_cases (b := b) st₁ u
  rw [hprev] at hb hcase
  rw [e1, e3, hb]
  rcases hcase with ⟨hw, ha⟩ | ⟨hrs, ha⟩
  · refine Or.inl ⟨?_, ?_⟩
    · rcases hw with hw | hw
      · exact Or.inl (V.set_ok _ _ _ hw)
      · exact Or.inr (V.set_esrch _ _ _ hw)
    · rw [ha, hpre.previouslyActed]
      by_cases hwas : st.previouslyActed.getD u false = true
      · rw [if_pos hwas, hact]; exact (and_iff_right hwas).symm
      · rw [if_neg hwas]
        simp [hwas]
  · exact Or.inr ⟨hpost.rollbackFailed hrs, by rw [ha]; exact hact⟩

/-! ## A batch, told thread by thread -/

/-- How the write to a thread the batch reached ended. -/
inductive WriteOutcome (k : κ) (a : Actuator) (cpus : Mask) (st : ApplyState κ) (u : Tid) : Prop
  | committed (ok : st.stopped = none) (nonempty : cpus ≠ []) (live : ∃ m, V.view k u = some m)
      (mask : V.view st.backend u = some cpus) (acted : u ∈ st.actuator.actedTids)
      (told : u ∈ st.result.committedTids)
  | vanished (mask : V.view st.backend u = none) (acted : u ∈ st.actuator.actedTids ↔ u ∈ a.actedTids)
      (told : u ∈ st.result.vanishedTids) (untold : u ∉ st.result.committedTids)
  | failed (F : FailedWrite κ) (stop : st.stopped = some F) (tid : F.tid = u) (asked : F.cpus = cpus)
      (error : F.error ≠ .esrch) (write : (writeMask b F.before u cpus).2 = some F.error)
      (before : V.view F.before u = V.view k u)
      (mask : V.view st.backend u = V.view (writeMask b F.before u cpus).1 u)
      (acted : u ∈ st.actuator.actedTids ↔ u ∈ a.actedTids)
  | rolledBack (stop : st.stopped.isSome = true) (nonempty : cpus ≠ []) (live : ∃ m, V.view k u = some m)
      (mask : V.view st.backend u = V.view k u ∨ V.view st.backend u = none)
      (acted : u ∈ st.actuator.actedTids ↔ u ∈ a.actedTids)
  | stuck (stop : st.stopped.isSome = true) (nonempty : cpus ≠ []) (live : ∃ m, V.view k u = some m)
      (acted : u ∈ st.actuator.actedTids) (told : st.result.rollbackSuccess = false)

/-- What one batch did to one thread. -/
inductive ApplyEffect (k : κ) (a : Actuator) (assignments : OrdMap Tid Mask) (live : OrdSet Tid)
    (st : ApplyState κ) (u : Tid) : Prop
  | skipped (mask : V.view st.backend u = V.view k u)
      (restoreMask : st.actuator.restoreMasks.find? u = a.restoreMasks.find? u)
      (acted : u ∈ st.actuator.actedTids ↔ u ∈ a.actedTids) (untried : st.previousMasks.find? u = none)
      (told : st.stopped = none → u ∈ assignments → u ∉ live ∧ u ∈ st.result.vanishedTids)
      (untold : u ∉ st.result.committedTids)
  | reached (cpus : Mask) (asked : assignments.find? u = some cpus) (alive : u ∈ live)
      (tried : st.previousMasks.find? u = some (b.get k u))
      (restoreMask : st.actuator.restoreMasks.find? u = some ((a.restoreMasks.find? u).getD (b.get k u)))
      (outcome : WriteOutcome V k a cpus st u)

theorem writeMask_ok {k : κ} {t : Tid} {cpus : Mask} (h : (writeMask b k t cpus).2 = none) :
    cpus ≠ [] ∧ (∃ m, V.view k t = some m) ∧ V.view (writeMask b k t cpus).1 t = some cpus := by
  unfold writeMask at h ⊢
  by_cases hc : cpus = []
  · rw [if_pos hc] at h; cases h
  · rw [if_neg hc] at h ⊢
    exact ⟨hc, V.live_of_ok h, V.set_ok k t cpus h⟩

theorem writeMask_esrch {k : κ} {t : Tid} {cpus : Mask} (h : (writeMask b k t cpus).2 = some .esrch) :
    V.view (writeMask b k t cpus).1 t = none := by
  unfold writeMask at h ⊢
  by_cases hc : cpus = []
  · rw [if_pos hc] at h; cases h
  · rw [if_neg hc] at h ⊢
    exact V.set_esrch k t cpus h

/-- The loop at one of its own TIDs: the state it found the thread in, and the step it took there. -/
theorem foldl_applyStep_at (live : OrdSet Tid) (st₀ : ApplyState κ) {asg : OrdMap Tid Mask} {u : Tid} {cpus : Mask}
    (hu : asg.find? u = some cpus) :
    ∃ st₁ : ApplyState κ, slot V st₁ u = slot V st₀ u ∧
      slot V (asg.entries.foldl (applyStep b live) st₀) u = slot V (applyStep b live st₁ (u, cpus)) u ∧
      ((applyStep b live st₁ (u, cpus)).stopped.isSome = true →
        asg.entries.foldl (applyStep b live) st₀ = applyStep b live st₁ (u, cpus)) := by
  obtain ⟨pre, post, hl, h1, h2⟩ := (applyStep_local V live).foldl_at (i := (u, cpus))
    asg.nodup_keys (OrdMap.mem_entries.2 hu) st₀
  refine ⟨pre.foldl (applyStep b live) st₀, h1, h2, fun hs => ?_⟩
  rw [hl, List.foldl_append, List.foldl_cons]
  exact foldl_applyStep_stopped live post hs

/-- Where the loop left a thread it was asked to move. -/
inductive LoopOutcome (k : κ) (a : Actuator) (cpus : Mask) (live : OrdSet Tid) (st : ApplyState κ) (u : Tid) : Prop
  | unreached (stop : st.stopped.isSome = true) (same : slot V st u = slot V { backend := k, actuator := a } u)
  | notLive (absent : u ∉ live) (same : slot V st u = { slot V { backend := k, actuator := a } u with vanished := True })
  | tried (alive : u ∈ live) (previous : st.previousMasks.find? u = some (b.get k u))
      (wasActed : st.previouslyActed.find? u = some (decide (u ∈ a.actedTids)))
      (restoreMask : st.actuator.restoreMasks.find? u = some ((a.restoreMasks.find? u).getD (b.get k u)))
      (outcome : (cpus ≠ [] ∧ (∃ m, V.view k u = some m) ∧ V.view st.backend u = some cpus ∧
          u ∈ st.actuator.actedTids ∧ u ∈ st.completed) ∨
        (V.view st.backend u = none ∧ (u ∈ st.actuator.actedTids ↔ u ∈ a.actedTids) ∧ u ∉ st.completed ∧
          u ∈ st.result.vanishedTids) ∨
        (∃ F : FailedWrite κ, st.stopped = some F ∧ F.tid = u ∧ F.cpus = cpus ∧ F.error ≠ .esrch ∧
          (writeMask b F.before u cpus).2 = some F.error ∧ V.view F.before u = V.view k u ∧
          V.view st.backend u = V.view (writeMask b F.before u cpus).1 u ∧
          (u ∈ st.actuator.actedTids ↔ u ∈ a.actedTids) ∧ u ∉ st.completed))

theorem foldl_applyStep_outcome (live : OrdSet Tid) (asg : OrdMap Tid Mask) (k : κ) (a : Actuator) {r : ApplyResult}
    {u : Tid} {cpus : Mask} (hr : r.vanishedTids = ∅) (hu : asg.find? u = some cpus) :
    LoopOutcome V k a cpus live
      (asg.entries.foldl (applyStep b live) { backend := k, actuator := a, result := r }) u := by
  obtain ⟨st₁, h1, h2, h3⟩ := foldl_applyStep_at V live { backend := k, actuator := a, result := r } hu
  generalize asg.entries.foldl (applyStep b live) { backend := k, actuator := a, result := r } = st at h2 h3 ⊢
  have h0 : slot V ({ backend := k, actuator := a, result := r } : ApplyState κ) u =
      slot V ({ backend := k, actuator := a } : ApplyState κ) u := by
    unfold slot
    rw [hr]
  have hmask : V.view st₁.backend u = V.view k u := congrArg Slot.mask h1
  have hrest : st₁.actuator.restoreMasks.find? u = a.restoreMasks.find? u := congrArg Slot.restoreMask h1
  have hact : u ∈ st₁.actuator.actedTids ↔ u ∈ a.actedTids := iff_of_eq (congrArg Slot.acted h1)
  have hcomp : u ∈ st₁.completed ↔ u ∈ ([] : List Tid) := iff_of_eq (congrArg Slot.completed h1)
  have hget : b.get st₁.backend u = b.get k u := by rw [V.get_eq, V.get_eq, hmask]
  rcases applyStep_cases live st₁ u cpus with ⟨hs, h⟩ | ⟨hs, hl, h⟩ | ⟨hs, hl, st', hb, hp, hpa, hrm, h, hcase⟩
  · rw [h] at h2 h3
    rw [h3 hs]
    exact .unreached hs (h1.trans h0)
  · rw [h] at h2
    refine .notLive hl (h2.trans ?_)
    have hv : (u ∈ (countVanished st₁.result u).vanishedTids) = True := by simp [countVanished]
    rw [← h0, ← h1]
    unfold slot
    simp only [hv]
  · rw [h] at h2 h3
    have e1 : V.view st.backend u = V.view st'.backend u := congrArg Slot.mask h2
    have e2 : st.actuator.restoreMasks.find? u = st'.actuator.restoreMasks.find? u := congrArg Slot.restoreMask h2
    have e3 : u ∈ st.actuator.actedTids ↔ u ∈ st'.actuator.actedTids := iff_of_eq (congrArg Slot.acted h2)
    have e4 : st.previousMasks.find? u = st'.previousMasks.find? u := congrArg Slot.previous h2
    have e5 : st.previouslyActed.find? u = st'.previouslyActed.find? u := congrArg Slot.wasActed h2
    have e6 : u ∈ st.completed ↔ u ∈ st'.completed := iff_of_eq (congrArg Slot.completed h2)
    have e7 : u ∈ st.result.vanishedTids ↔ u ∈ st'.result.vanishedTids := iff_of_eq (congrArg Slot.vanished h2)
    refine .tried hl ?_ ?_ ?_ ?_
    · rw [e4, hp, OrdMap.find?_insert_self, hget]
    · rw [e5, hpa, OrdMap.find?_insert_self]
      congr 1
      exact decide_eq_decide.2 hact
    · rw [e2, hrm, find?_remember, if_pos rfl, hrest, hget]
    · rcases hcase with ⟨hw, ha, hc, -, -⟩ | ⟨hw, ha, hc, hv, -⟩ | ⟨e, hne, hw, ha, hc, -, hstop⟩
      · obtain ⟨hcp, ⟨m, hm⟩, hview⟩ := writeMask_ok V hw
        refine Or.inl ⟨hcp, ⟨m, hmask ▸ hm⟩, by rw [e1, hb, hview], ?_, ?_⟩
        · rw [e3, ha]; exact OrdSet.mem_add.2 (Or.inl rfl)
        · rw [e6, hc]; exact List.mem_cons_self
      · refine Or.inr (Or.inl ⟨by rw [e1, hb]; exact writeMask_esrch V hw, by rw [e3, ha]; exact hact, ?_, ?_⟩)
        · rw [e6, hc, hcomp]; exact List.not_mem_nil
        · rw [e7, hv]; exact OrdSet.mem_add.2 (Or.inl rfl)
      · refine Or.inr (Or.inr ⟨⟨u, cpus, e, st₁.backend⟩, ?_, rfl, rfl, hne, hw, hmask, by rw [e1, hb],
          by rw [e3, ha]; exact hact, ?_⟩)
        · rw [h3 (by rw [hstop]; rfl), hstop]
        · rw [e6, hc, hcomp]; exact List.not_mem_nil

theorem foldl_applyStep_committedTids (live : OrdSet Tid) (l : List (Tid × Mask)) (st : ApplyState κ) :
    (l.foldl (applyStep b live) st).result.committedTids = st.result.committedTids := by
  refine Loop.foldl_keeps (fun s : ApplyState κ => s.result.committedTids = st.result.committedTids) ?_ l rfl
  intro s ⟨t, cpus⟩ hs
  rw [← hs]
  unfold applyStep
  simp only
  split
  · rfl
  · split
    · split <;> rfl
    · rfl

/-- A thread the loop left alone is left alone by either ending. -/
theorem effect_of_untouched {k : κ} {a : Actuator} {assignments : OrdMap Tid Mask} {live : OrdSet Tid}
    {st : ApplyState κ} {u : Tid} (vanished : Prop) (hcomm : st.result.committedTids = ∅)
    (hslot : slot V st u = { slot V { backend := k, actuator := a } u with vanished := vanished })
    (htold : st.stopped = none → u ∈ assignments → u ∉ live ∧ vanished) :
    ApplyEffect V k a assignments live (match st.stopped with | some _ => rollBack b st | none => finishBatch st) u := by
  have hnc : u ∉ st.completed := by
    have h : (u ∈ st.completed) = (u ∈ ([] : List Tid)) := congrArg Slot.completed hslot
    rw [h]; exact List.not_mem_nil
  have hv : (u ∈ st.result.vanishedTids) = vanished := congrArg Slot.vanished hslot
  cases hs : st.stopped with
  | none =>
    refine .skipped (congrArg Slot.mask hslot) (congrArg Slot.restoreMask hslot)
      (iff_of_eq (congrArg Slot.acted hslot)) (congrArg Slot.previous hslot) (fun _ hm => ?_) ?_
    · show u ∉ live ∧ u ∈ st.result.vanishedTids
      rw [hv]; exact htold hs hm
    · show u ∉ OrdSet.ofList st.completed
      rw [OrdSet.mem_ofList]; exact hnc
  | some F =>
    have hkept : slot V (rollBack b st) u = slot V st u :=
      (rollBackStep_local V).foldl_notMem (fun t ht e => hnc (e ▸ ht))
    have hall := hkept.trans hslot
    have hf : RollBackFrame st (rollBack b st) := foldl_rollBackStep_frame st.completed st
    refine .skipped (congrArg Slot.mask hall) (congrArg Slot.restoreMask hall)
      (iff_of_eq (congrArg Slot.acted hall)) (congrArg Slot.previous hall) (fun h => ?_) ?_
    · rw [hf.stopped, hs] at h; cases h
    · rw [hf.committedTids, hcomm]; exact OrdMap.notMem_empty u

/-- **A batch, told thread by thread.** -/
theorem applyRun_effect (k : κ) (a : Actuator) (assignments : OrdMap Tid Mask) (live : OrdSet Tid) (u : Tid) :
    ApplyEffect V k a assignments live (applyRun b k a assignments live) u := by
  have hlocal := (applyStep_local V live).foldl_notMem (u := u) (l := assignments.entries)
    (s := ({ backend := k, actuator := a, result := { requested := assignments.size } } : ApplyState κ))
  have hout : ∀ cpus, assignments.find? u = some cpus → LoopOutcome V k a cpus live _ u := fun _ =>
    foldl_applyStep_outcome V live assignments k a (r := { requested := assignments.size }) rfl
  have hcomm := foldl_applyStep_committedTids (b := b) live assignments.entries
    { backend := k, actuator := a, result := { requested := assignments.size } }
  obtain ⟨c, hsub, hcompl⟩ := foldl_applyStep_completed (b := b) live assignments.entries
    { backend := k, actuator := a, result := { requested := assignments.size } }
  unfold applyRun
  simp only
  generalize assignments.entries.foldl (applyStep b live)
    { backend := k, actuator := a, result := { requested := assignments.size } } = st at hlocal hout hcomm hcompl ⊢
  have hnodup : st.completed.Nodup := by
    rw [hcompl, List.append_nil]
    exact hsub.nodup (List.nodup_reverse.2 assignments.nodup_keys)
  cases hu : assignments.find? u with
  | none =>
    have hnk : ∀ i ∈ assignments.entries, i.1 ≠ u := by
      intro i hi e
      have := OrdMap.mem_entries.1 (show (i.1, i.2) ∈ assignments.entries from hi)
      rw [e, hu] at this
      cases this
    exact effect_of_untouched V False hcomm (by rw [hlocal hnk]; simp [slot])
      (fun _ hm => absurd hm (OrdMap.notMem_iff.2 hu))
  | some cpus =>
    cases hout cpus hu with
    | unreached stop same =>
      refine effect_of_untouched V False hcomm (by rw [same]; simp [slot]) (fun h => ?_)
      rw [h] at stop; cases stop
    | notLive absent same => exact effect_of_untouched V True hcomm same (fun _ _ => ⟨absent, trivial⟩)
    | tried alive previous wasActed restoreMask outcome =>
      have hf : RollBackFrame st (rollBack b st) := foldl_rollBackStep_frame st.completed st
      have hkept : u ∉ st.completed → slot V (rollBack b st) u = slot V st u := fun hnc =>
        (rollBackStep_local V).foldl_notMem (fun t ht e => hnc (e ▸ ht))
      cases hs : st.stopped with
      | none =>
        refine .reached cpus hu alive previous restoreMask ?_
        rcases outcome with ⟨h1, h2, h3, h4, h5⟩ | ⟨h1, h2, h3, h4⟩ | ⟨F, h1, -⟩
        · exact .committed hs h1 h2 h3 h4 (OrdSet.mem_ofList.2 h5)
        · exact .vanished h1 h2 h4 (fun h => h3 (OrdSet.mem_ofList.1 h))
        · rw [hs] at h1; cases h1
      | some F =>
        refine .reached cpus hu alive (by rw [hf.previousMasks]; exact previous)
          (by rw [hf.restoreMasks]; exact restoreMask) ?_
        rcases outcome with ⟨h1, ⟨m, hm⟩, h3, h4, h5⟩ | ⟨h1, h2, h3, h4⟩ | ⟨F', h1, h2, h3, h4, h5, h6, h7, h8, h9⟩
        · have hstop : (rollBack b st).stopped.isSome = true := by rw [hf.stopped, hs]; rfl
          have hget : b.get k u = m := V.get_of_view hm
          rcases rollBack_at V hnodup h5 previous with ⟨hmask, hacted⟩ | ⟨hfail, hacted⟩
          · refine .rolledBack hstop h1 ⟨m, hm⟩ (by rw [hm, ← hget]; exact hmask) ?_
            rw [hacted, OrdMap.getD, wasActed]
            simp [h4]
          · exact .stuck hstop h1 ⟨m, hm⟩ (hacted.2 h4) hfail
        · have hsame := hkept h3
          refine .vanished ((congrArg Slot.mask hsame).trans h1) ((iff_of_eq (congrArg Slot.acted hsame)).trans h2) ?_ ?_
          · rw [hf.vanishedTids]; exact h4
          · rw [hf.committedTids, hcomm]; exact OrdMap.notMem_empty u
        · have hsame := hkept h9
          exact .failed F' (by rw [hf.stopped]; exact h1) h2 h3 h4 h5 h6 ((congrArg Slot.mask hsame).trans h7)
            ((iff_of_eq (congrArg Slot.acted hsame)).trans h8)

include V in
/-- Only a thread of the batch is told as vanished. -/
theorem applyRun_vanished_mem {k : κ} {a : Actuator} {assignments : OrdMap Tid Mask} {live : OrdSet Tid} {u : Tid}
    (h : u ∈ (applyRun b k a assignments live).result.vanishedTids) : u ∈ assignments := by
  by_contra hu
  have hslot := (applyStep_local V live).foldl_notMem (u := u) (l := assignments.entries)
    (s := ({ backend := k, actuator := a, result := { requested := assignments.size } } : ApplyState κ))
    (fun i hi e => hu (by rw [← e]; exact OrdMap.mem_of_find (OrdMap.mem_entries.1 (show (i.1, i.2) ∈ _ from hi))))
  unfold applyRun at h
  simp only at h
  generalize assignments.entries.foldl (applyStep b live)
    { backend := k, actuator := a, result := { requested := assignments.size } } = st at h hslot
  have hnone : (u ∈ st.result.vanishedTids) = (u ∈ (∅ : OrdSet Tid)) := congrArg Slot.vanished hslot
  have hvanished : u ∈ st.result.vanishedTids := by
    cases hs : st.stopped with
    | some F =>
      have hf : RollBackFrame st (rollBack b st) := foldl_rollBackStep_frame st.completed st
      rw [hs] at h
      dsimp only at h
      rw [hf.vanishedTids] at h
      exact h
    | none =>
      rw [hs] at h
      exact h
  rw [hnone] at hvanished
  exact OrdMap.notMem_empty u hvanished

include V in
/-- No thread is told as committed and as vanished. -/
theorem applyRun_committed_notMem {k : κ} {a : Actuator} {assignments : OrdMap Tid Mask} {live : OrdSet Tid} {u : Tid}
    (h : u ∈ (applyRun b k a assignments live).result.committedTids) :
    u ∉ (applyRun b k a assignments live).result.vanishedTids := by
  have hat := fun cpus (hu : assignments.find? u = some cpus) => foldl_applyStep_at V live
    ({ backend := k, actuator := a, result := { requested := assignments.size } } : ApplyState κ) hu
  have hlocal := (applyStep_local V live).foldl_notMem (u := u) (l := assignments.entries)
    (s := ({ backend := k, actuator := a, result := { requested := assignments.size } } : ApplyState κ))
  have hcomm := foldl_applyStep_committedTids (b := b) live assignments.entries
    { backend := k, actuator := a, result := { requested := assignments.size } }
  unfold applyRun at h ⊢
  simp only at h ⊢
  generalize assignments.entries.foldl (applyStep b live)
    { backend := k, actuator := a, result := { requested := assignments.size } } = st at h hat hlocal hcomm ⊢
  cases hs : st.stopped with
  | some F =>
    rw [hs] at h
    have hf : RollBackFrame st (rollBack b st) := foldl_rollBackStep_frame st.completed st
    dsimp only at h
    rw [hf.committedTids, hcomm] at h
    exact absurd h (OrdMap.notMem_empty u)
  | none =>
    rw [hs] at h
    have hdone : u ∈ st.completed := OrdSet.mem_ofList.1 h
    show u ∉ st.result.vanishedTids
    cases hu : assignments.find? u with
    | none =>
      have hslot := hlocal (fun i hi e => by
        have hkey := OrdMap.mem_entries.1 (show (i.1, i.2) ∈ assignments.entries from hi)
        rw [e, hu] at hkey
        cases hkey)
      have hnone : (u ∈ st.completed) = (u ∈ ([] : List Tid)) := congrArg Slot.completed hslot
      rw [hnone] at hdone
      cases hdone
    | some cpus =>
      obtain ⟨st₁, h1, h2, -⟩ := hat cpus hu
      have hc₁ : (u ∈ st₁.completed) = (u ∈ ([] : List Tid)) := congrArg Slot.completed h1
      have hv₁ : (u ∈ st₁.result.vanishedTids) = (u ∈ (∅ : OrdSet Tid)) := congrArg Slot.vanished h1
      have hc : (u ∈ st.completed) = (u ∈ (applyStep b live st₁ (u, cpus)).completed) := congrArg Slot.completed h2
      have hv : (u ∈ st.result.vanishedTids) = (u ∈ (applyStep b live st₁ (u, cpus)).result.vanishedTids) :=
        congrArg Slot.vanished h2
      -- a step that leaves the thread among the completed leaves the vanished as they were
      have hnot : ∀ st' : ApplyState κ, st'.completed = st₁.completed → u ∉ st'.completed := by
        intro st' he hmem
        rw [he, hc₁] at hmem
        cases hmem
      rw [hc] at hdone
      rw [hv]
      rcases applyStep_cases live st₁ u cpus with ⟨-, he⟩ | ⟨-, -, he⟩ | ⟨-, -, st', -, -, -, -, he, hcase⟩
      · exact absurd hdone (hnot _ (by rw [he]))
      · exact absurd hdone (hnot _ (by rw [he]))
      · rw [he] at hdone ⊢
        rcases hcase with ⟨-, -, -, hvan, -⟩ | ⟨-, -, hcomp, -⟩ | ⟨e, -, -, -, hcomp, -⟩
        · rw [hvan, hv₁]
          exact OrdMap.notMem_empty u
        · exact absurd hdone (hnot _ hcomp)
        · exact absurd hdone (hnot _ hcomp)

/-- A loop that stopped stopped at one of its items, and has done nothing since. -/
theorem foldl_applyStep_stop {F : FailedWrite κ} : ∀ (l : List (Tid × Mask)) {st : ApplyState κ}, st.stopped = none →
    (l.foldl (applyStep b live) st).stopped = some F →
    ∃ pre post, l = pre ++ (F.tid, F.cpus) :: post ∧ (pre.foldl (applyStep b live) st).stopped = none ∧
      l.foldl (applyStep b live) st = applyStep b live (pre.foldl (applyStep b live) st) (F.tid, F.cpus)
  | [], st, hs, h => by
    rw [List.foldl_nil, hs] at h; cases h
  | (t, cpus) :: l, st, hs, h => by
    rw [List.foldl_cons] at h ⊢
    cases hstep : (applyStep b live st (t, cpus)).stopped with
    | some F' =>
      have hdone := foldl_applyStep_stopped (b := b) live l (by rw [hstep]; rfl)
      rw [hdone, hstep] at h
      have hF : F' = F := Option.some.inj h
      subst hF
      have hitem : (t, cpus) = (F'.tid, F'.cpus) := by
        rcases applyStep_cases live st t cpus with ⟨h', -⟩ | ⟨-, -, h'⟩ | ⟨-, -, st', -, -, -, -, h', hcase⟩
        · rw [hs] at h'; cases h'
        · rw [h'] at hstep
          exact absurd (hs.symm.trans hstep) (by simp)
        · rw [h'] at hstep
          rcases hcase with ⟨-, -, -, -, hn⟩ | ⟨-, -, -, -, hn⟩ | ⟨e, -, -, -, -, -, hn⟩
          · rw [hn] at hstep; cases hstep
          · rw [hn] at hstep; cases hstep
          · rw [hn] at hstep
            cases hstep
            rfl
      rw [hitem] at hdone
      exact ⟨[], l, by rw [hitem]; rfl, hs, by rw [hitem, hdone]; rfl⟩
    | none =>
      obtain ⟨pre, post, rfl, hn, he⟩ := foldl_applyStep_stop l hstep h
      exact ⟨(t, cpus) :: pre, post, rfl, hn, he⟩

theorem applyRun_stopped_eq (k : κ) (a : Actuator) (assignments : OrdMap Tid Mask) (live : OrdSet Tid) :
    (applyRun b k a assignments live).stopped = (assignments.entries.foldl (applyStep b live)
      { backend := k, actuator := a, result := { requested := assignments.size } }).stopped := by
  unfold applyRun
  simp only
  generalize assignments.entries.foldl (applyStep b live)
    { backend := k, actuator := a, result := { requested := assignments.size } } = st
  cases hs : st.stopped with
  | none => exact hs
  | some F => exact (foldl_rollBackStep_frame st.completed st).stopped.trans hs

/-- **A batch succeeds exactly when no write stopped it.** -/
theorem applyRun_success_iff (k : κ) (a : Actuator) (assignments : OrdMap Tid Mask) (live : OrdSet Tid) :
    (applyRun b k a assignments live).result.success = true ↔ (applyRun b k a assignments live).stopped = none := by
  have hinit : (assignments.entries.foldl (applyStep b live)
      { backend := k, actuator := a, result := { requested := assignments.size } }).result.success = false := by
    refine Loop.foldl_keeps (fun s : ApplyState κ => s.result.success = false) ?_ _ rfl
    intro s ⟨t, cpus⟩ hs
    rw [← hs]
    unfold applyStep
    simp only
    split
    · rfl
    · split
      · split <;> rfl
      · rfl
  rw [applyRun_stopped_eq]
  unfold applyRun
  simp only
  generalize assignments.entries.foldl (applyStep b live)
    { backend := k, actuator := a, result := { requested := assignments.size } } = st at hinit ⊢
  cases hs : st.stopped with
  | none => simp [finishBatch]
  | some F =>
    have hf : (rollBack b st).result.success = st.result.success := (foldl_rollBackStep_frame st.completed st).success
    simp [hf, hinit]

/-- **The write a batch stopped at**: the thread's mask is what that write left, and its mark is as it was. -/
theorem applyRun_stopped {k : κ} {a : Actuator} {assignments : OrdMap Tid Mask} {live : OrdSet Tid} {F : FailedWrite κ}
    (h : (applyRun b k a assignments live).stopped = some F) :
    assignments.find? F.tid = some F.cpus ∧ F.tid ∈ live ∧ F.error ≠ .esrch ∧
    (writeMask b F.before F.tid F.cpus).2 = some F.error ∧ V.view F.before F.tid = V.view k F.tid ∧
    V.view (applyRun b k a assignments live).backend F.tid = V.view (writeMask b F.before F.tid F.cpus).1 F.tid ∧
    (F.tid ∈ (applyRun b k a assignments live).actuator.actedTids ↔ F.tid ∈ a.actedTids) := by
  rw [applyRun_stopped_eq] at h
  obtain ⟨pre, post, hl, hn, he⟩ := foldl_applyStep_stop _ rfl h
  have hkey : assignments.find? F.tid = some F.cpus := OrdMap.mem_entries.1 (by rw [hl]; simp)
  have hnk : ∀ i ∈ pre, i.1 ≠ F.tid := by
    intro i hi e
    have hnd := assignments.nodup_keys
    rw [OrdMap.keys, hl, List.map_append, List.map_cons, List.nodup_append] at hnd
    exact hnd.2.2 i.1 (List.mem_map_of_mem hi) F.tid List.mem_cons_self e
  have hsame := (applyStep_local V live).foldl_notMem
    (s := { backend := k, actuator := a, result := { requested := assignments.size } }) hnk
  have hmask := congrArg Slot.mask hsame
  have hact := iff_of_eq (congrArg Slot.acted hsame)
  have hcomp := iff_of_eq (congrArg Slot.completed hsame)
  unfold applyRun
  simp only [he] at h ⊢
  generalize pre.foldl (applyStep b live)
    { backend := k, actuator := a, result := { requested := assignments.size } } = st₁ at h hn hmask hact hcomp ⊢
  rcases applyStep_cases live st₁ F.tid F.cpus with ⟨h', -⟩ | ⟨-, -, h'⟩ | ⟨-, hlive, st', hb, -, -, -, h', hcase⟩
  · rw [hn] at h'; cases h'
  · rw [h'] at h
    exact absurd (hn.symm.trans h) (by simp)
  · rw [h'] at h ⊢
    rcases hcase with ⟨-, -, -, -, hn'⟩ | ⟨-, -, -, -, hn'⟩ | ⟨e, hne, hw, ha, hc, -, hst⟩
    · rw [hn'] at h; cases h
    · rw [hn'] at h; cases h
    · rw [hst] at h
      have hF : F = ⟨F.tid, F.cpus, e, st₁.backend⟩ := (Option.some.inj h).symm
      have hFb : F.before = st₁.backend := congrArg FailedWrite.before hF
      have hFe : F.error = e := congrArg FailedWrite.error hF
      have hnc : F.tid ∉ st'.completed := by
        rw [hc]; exact fun hm => List.not_mem_nil (hcomp.1 hm)
      have hkept : slot V (rollBack b st') F.tid = slot V st' F.tid :=
        (rollBackStep_local V).foldl_notMem (fun t ht e => hnc (e ▸ ht))
      have hstep : F.tid ∈ st'.actuator.actedTids ↔ F.tid ∈ st₁.actuator.actedTids := by rw [ha]
      simp only [hst]
      rw [hFb, hFe]
      refine ⟨hkey, hlive, hne, hw, hmask, ?_, ?_⟩
      · exact (congrArg Slot.mask hkept).trans (congrArg (V.view · F.tid) hb)
      · exact (iff_of_eq (congrArg Slot.acted hkept)).trans (hstep.trans hact)

end Actuator

/-! ## The failing TID, on Linux -/

/-- The write of `cpus` to `t` leaves the thread's mask as it is: there is no call to make, or the kernel's next answer
refuses it, or what that answer installs is what the thread has. -/
def Kernel.WriteLeavesMask (k : Kernel) (t : Tid) (cpus : Mask) : Prop :=
  cpus = [] ∨ cpus.all inCpuSet = false ∨
  match k.answers.head? with
  | none | some .exact => k.maskOf t = some (OrdSet.ofList cpus).toList
  | some (.installs mask) => k.maskOf t = some mask.toList
  | some (.rejects _) => True
  | some .gone => k.maskOf t = none

theorem schedSetaffinity_maskOf {k : Kernel} {t : Tid} {m : Mask} (hlive : k.maskOf t = some m) (cpus : OrdSet Int) :
    (k.schedSetaffinity t cpus).1.maskOf t = match k.answers.head? with
      | none | some .exact => some cpus.toList
      | some (.installs mask) => some mask.toList
      | some (.rejects _) => k.maskOf t
      | some .gone => none := by
  unfold Kernel.schedSetaffinity
  cases hf : k.threads.find? t with
  | none => simp [Kernel.maskOf, hf] at hlive
  | some th =>
    simp only
    cases ha : k.answers.head? with
    | none => simp only; rw [Kernel.maskOf_putMask, if_pos rfl]
    | some ans =>
      cases ans with
      | exact => simp only; rw [Kernel.maskOf_putMask, if_pos rfl]
      | installs mask => simp only; rw [Kernel.maskOf_putMask, if_pos rfl]
      | rejects code => rfl
      | gone => simp [Kernel.maskOf]

theorem writeMask_linux_leaves_iff {k : Kernel} {t : Tid} {cpus : Mask} {e : Errno}
    (hw : (Actuator.writeMask linux k t cpus).2 = some e) (he : e ≠ .esrch) :
    (Actuator.writeMask linux k t cpus).1.maskOf t = k.maskOf t ↔ k.WriteLeavesMask t cpus := by
  unfold Actuator.writeMask at hw ⊢
  by_cases hc : cpus = []
  · rw [if_pos hc]
    exact iff_of_true rfl (Or.inl hc)
  rw [if_neg hc] at hw ⊢
  by_cases hin : cpus.all inCpuSet = false
  · rw [linux_set_invalid hin]
    exact iff_of_true rfl (Or.inr (Or.inl hin))
  -- the call is made; the thread is alive, or the answer would have been `ESRCH`
  have hfst : (linux.set k t cpus).1 = (k.schedSetaffinity t (OrdSet.ofList cpus)).1 := by
    rcases linux_set_cases k t cpus with ⟨h, -⟩ | ⟨e', -, h⟩ | ⟨-, h, -⟩
    · exact absurd h hin
    · rw [h]
    · exact h
  rw [hfst]
  cases hlive : k.maskOf t with
  | none =>
    exfalso
    rcases linux_set_cases k t cpus with ⟨h, -⟩ | ⟨e', h, h'⟩ | ⟨h, -, -⟩
    · exact hin h
    · rw [schedSetaffinity_dead hlive] at h
      rw [h'] at hw
      cases h
      cases hw
      exact he rfl
    · rw [schedSetaffinity_dead hlive] at h
      cases h
  | some m =>
    rw [schedSetaffinity_maskOf hlive, ← hlive]
    unfold Kernel.WriteLeavesMask
    simp only [hc, hin, Bool.true_eq_false, false_or]
    cases ha : k.answers.head? with
    | none => simp only; exact eq_comm
    | some ans =>
      cases ans with
      | exact => simp only; exact eq_comm
      | installs mask => simp only; exact eq_comm
      | rejects code => simp
      | gone => simp only; exact eq_comm

namespace Actuator

/-- **The TID a batch failed at** has the mask it had before the call or is on record as acted, exactly when it was on
record already or the write that failed did not change its mask. -/
theorem applyRun_failing_tid_iff (k : Kernel) (a : Actuator) (assignments : OrdMap Tid Mask) (live : OrdSet Tid)
    (hs : (applyRun linux k a assignments live).result.success = false)
    (_hr : (applyRun linux k a assignments live).result.rollbackSuccess = true) :
    ∃ F, (applyRun linux k a assignments live).stopped = some F ∧
      (((applyRun linux k a assignments live).backend.maskOf F.tid = k.maskOf F.tid ∨
          F.tid ∈ (applyRun linux k a assignments live).actuator.actedTids) ↔
        (F.tid ∈ a.actedTids ∨ F.before.WriteLeavesMask F.tid F.cpus)) := by
  cases hF : (applyRun linux k a assignments live).stopped with
  | none =>
    rw [(applyRun_success_iff k a assignments live).2 hF] at hs
    cases hs
  | some F =>
    obtain ⟨-, -, hne, hw, hbefore, hmask, hacted⟩ := applyRun_stopped linuxView hF
    have hkept := writeMask_linux_leaves_iff hw hne
    refine ⟨F, rfl, ?_⟩
    rw [hacted]
    show linuxView.view _ F.tid = linuxView.view k F.tid ∨ _ ↔ _
    rw [hmask, ← hbefore]
    exact (or_congr hkept Iff.rfl).trans or_comm

/-- A kernel with the one thread 7 on CPUs 0 to 3, whose next answer installs CPU 0 alone. -/
def narrowingKernel : Kernel where
  threads := OrdMap.ofList [(7, ⟨7, 1, OrdSet.ofList [0, 1, 2, 3]⟩)]
  answers := [.installs (OrdSet.ofList [0])]

def rejectingKernel : Kernel := { narrowingKernel with answers := [.rejects 1] }

theorem applyRun_failing_tid_iff_rejected :
    ∃ F, (applyRun linux rejectingKernel {} (OrdMap.ofList [(7, [0, 1])]) (OrdSet.ofList [7])).stopped = some F ∧
      (((applyRun linux rejectingKernel {} (OrdMap.ofList [(7, [0, 1])]) (OrdSet.ofList [7])).backend.maskOf F.tid =
          rejectingKernel.maskOf F.tid ∨
          F.tid ∈ (applyRun linux rejectingKernel {} (OrdMap.ofList [(7, [0, 1])]) (OrdSet.ofList [7])).actuator.actedTids) ↔
        (F.tid ∈ ({} : Actuator).actedTids ∨ F.before.WriteLeavesMask F.tid F.cpus)) :=
  applyRun_failing_tid_iff rejectingKernel {} (OrdMap.ofList [(7, [0, 1])]) (OrdSet.ofList [7]) (by decide) (by decide)

/-- **A narrowed write is lost**: the kernel takes `{0, 1}` for thread 7 but installs `{0}`, the batch reports failure
with a clean roll-back, and neither the roll-back nor a later full restore touches the thread again. -/
theorem applyRun_narrowed_write_unrecorded :
    let st := applyRun linux narrowingKernel {} (OrdMap.ofList [(7, [0, 1])]) (OrdSet.ofList [7])
    st.result.success = false ∧ st.result.rollbackSuccess = true ∧ st.stopped.map (·.tid) = some 7 ∧
    ¬ (st.backend.maskOf 7 = narrowingKernel.maskOf 7 ∨ 7 ∈ st.actuator.actedTids) ∧
    (restoreAll linux st.backend st.actuator).backend.maskOf 7 = some [0] := by decide

end Actuator

end AffinityGraph
