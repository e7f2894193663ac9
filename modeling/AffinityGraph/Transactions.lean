import AffinityGraph.ActuatorRestore
/-!
# Transactions — what a batch and a restore leave on record (`actuator.cpp`)

`restore` forgets a thread only when its mask was written or the thread has vanished, so that a refused write is tried
again by the next restore.  `restore_all` forgets every thread, whatever the kernel answered (`restores_keep_refused_iff`).

A batch that fails leaves no trace of itself, as long as a refused write changes nothing and the roll-back goes through;
a batch that succeeds tells every thread it was asked for as committed or as vanished (`apply_transaction`).
-/
namespace AffinityGraph
namespace Actuator

variable {κ : Type}

/-! ## What the kernel answered -/

/-- One write: the thread, the mask, the answer. -/
abbrev Answered := Tid × Mask × Option Errno

/-- The thread is there and the mask was not written. -/
def Refused (w : Answered) : Prop := ∃ e, w.2.2 = some e ∧ e ≠ .esrch

/-- The answers to a list of writes, one after the other. -/
def answersTo (b : AffinityBackend κ) : κ → List (Tid × Mask) → List Answered
  | _, [] => []
  | k, (t, m) :: l => (t, m, (b.set k t m).2) :: answersTo b (b.set k t m).1 l

/-- A backend that also keeps the answers it gave, in order. -/
def answered (b : AffinityBackend κ) : AffinityBackend (κ × List Answered) where
  get s t := b.get s.1 t
  set s t m := (((b.set s.1 t m).1, s.2 ++ [(t, m, (b.set s.1 t m).2)]), (b.set s.1 t m).2)

/-- The writes a full restore has to make. -/
def restoreWrites (a : Actuator) : List (Tid × Mask) := a.actedTids.toList.map (fun t => (t, a.restoreMaskOf t))

/-- **What a restore owes the threads it could not write**: they stay on record, the next full restore writes to them,
and only a thread that was written or has vanished is dropped. -/
structure KeepsRefused (b : AffinityBackend κ) (a : Actuator) (st : RestoreState (κ × List Answered)) : Prop where
  kept : ∀ w ∈ st.backend.2, Refused w →
    w.1 ∈ st.actuator.actedTids ∧ st.actuator.restoreMasks.find? w.1 = a.restoreMasks.find? w.1
  again : ∀ w ∈ st.backend.2, Refused w →
    (w.1, a.restoreMaskOf w.1) ∈ (restoreAll (logged b) (st.backend.1, []) st.actuator).backend.2
  dropped : ∀ t ∈ a.actedTids, t ∉ st.actuator.actedTids →
    (t, a.restoreMaskOf t, none) ∈ st.backend.2 ∨ (t, a.restoreMaskOf t, some .esrch) ∈ st.backend.2

section Restores

variable {b : AffinityBackend κ}

theorem answer_cases (w : Answered) : Refused w ∨ w.2.2 = none ∨ w.2.2 = some .esrch := by
  cases h : w.2.2 with
  | none => exact Or.inr (Or.inl rfl)
  | some e =>
    by_cases he : e = .esrch
    · exact Or.inr (Or.inr (by rw [he]))
    · exact Or.inl ⟨e, h, he⟩

/-- What was tried again is what stayed on record with its mask. -/
theorem again_of_kept {k : κ} {a a' : Actuator} {t : Tid} (hmem : t ∈ a'.actedTids)
    (hmask : a'.restoreMasks.find? t = a.restoreMasks.find? t) :
    (t, a.restoreMaskOf t) ∈ (restoreAll (logged b) (k, []) a').backend.2 := by
  refine (restoreAll_calls k a').2 ⟨hmem, ?_⟩
  unfold restoreMaskOf OrdMap.getD
  rw [hmask]

/-! ## `restore` -/

/-- The record against the one the call began with; `done` are the threads the loop went through. -/
structure Restoring (a : Actuator) (done : Tid → Prop) (st : RestoreState (κ × List Answered)) : Prop where
  refused : ∀ w ∈ st.backend.2, Refused w → w.1 ∈ st.actuator.actedTids
  dropped : ∀ t ∈ a.actedTids, t ∉ st.actuator.actedTids →
    (t, a.restoreMaskOf t, none) ∈ st.backend.2 ∨ (t, a.restoreMaskOf t, some .esrch) ∈ st.backend.2
  masks : ∀ t ∈ st.actuator.actedTids, st.actuator.restoreMasks.find? t = a.restoreMasks.find? t
  tried : ∀ w ∈ st.backend.2, done w.1

theorem Restoring.step {a : Actuator} {done : Tid → Prop} {st : RestoreState (κ × List Answered)} (h : Restoring a done st)
    {t : Tid} (hnew : ¬ done t) :
    Restoring a (fun u => done u ∨ u = t) (restoreStep (answered b) st t) := by
  unfold restoreStep
  by_cases ha : t ∈ st.actuator.actedTids
  · have hmask : st.actuator.restoreMaskOf t = a.restoreMaskOf t := by
      unfold restoreMaskOf OrdMap.getD
      rw [h.masks t ha]
    rw [if_pos ha]
    dsimp only [answered]
    generalize hans : (b.set st.backend.1 t (st.actuator.restoreMaskOf t)).2 = ans
    -- the new entry of the log is the thread's own
    have htried : ∀ w ∈ st.backend.2 ++ [(t, st.actuator.restoreMaskOf t, ans)], done w.1 ∨ w.1 = t := by
      intro w hw
      rcases List.mem_append.1 hw with hw | hw
      · exact Or.inl (h.tried w hw)
      · exact Or.inr (by rw [List.mem_singleton.1 hw])
    have hforget : ans = none ∨ ans = some .esrch →
        Restoring a (fun u => done u ∨ u = t)
          ⟨((b.set st.backend.1 t (st.actuator.restoreMaskOf t)).1,
              st.backend.2 ++ [(t, st.actuator.restoreMaskOf t, ans)]), st.actuator.forget t,
            countRestored { st.result with requested := st.result.requested + 1 } ans⟩ := by
      intro hgone
      refine ⟨fun w hw hr => ?_, fun u hu hnot => ?_, fun u hu => ?_, htried⟩
      · rcases List.mem_append.1 hw with hw | hw
        · refine OrdMap.mem_erase.2 ⟨fun e => hnew (e ▸ h.tried w hw), h.refused w hw hr⟩
        · rw [List.mem_singleton.1 hw] at hr
          obtain ⟨e, he, hne⟩ := hr
          rcases hgone with hgone | hgone <;> rw [hgone] at he <;> cases he
          exact absurd rfl hne
      · by_cases hut : u = t
        · subst hut
          rw [hmask]
          rcases hgone with hgone | hgone
          · exact Or.inl (List.mem_append_right _ (by simp [hgone]))
          · exact Or.inr (List.mem_append_right _ (by simp [hgone]))
        · have hnot' : u ∉ st.actuator.actedTids := fun hm => hnot (OrdMap.mem_erase.2 ⟨Ne.symm hut, hm⟩)
          exact (h.dropped u hu hnot').imp (List.mem_append_left _) (List.mem_append_left _)
      · obtain ⟨hne, hm⟩ := OrdMap.mem_erase.1 hu
        exact (OrdMap.find?_erase_ne _ hne).trans (h.masks u hm)
    have hstay : Restoring a (fun u => done u ∨ u = t)
        ⟨((b.set st.backend.1 t (st.actuator.restoreMaskOf t)).1,
            st.backend.2 ++ [(t, st.actuator.restoreMaskOf t, ans)]), st.actuator,
          countRestored { st.result with requested := st.result.requested + 1 } ans⟩ := by
      refine ⟨fun w hw hr => ?_, fun u hu hnot => ?_, h.masks, htried⟩
      · rcases List.mem_append.1 hw with hw | hw
        · exact h.refused w hw hr
        · rw [List.mem_singleton.1 hw]
          exact ha
      · exact (h.dropped u hu hnot).imp (List.mem_append_left _) (List.mem_append_left _)
    cases ans with
    | none => exact hforget (Or.inl rfl)
    | some e =>
      cases e with
      | esrch => exact hforget (Or.inr rfl)
      | eio => exact hstay
      | einval => exact hstay
      | other c => exact hstay
  · rw [if_neg ha]
    exact ⟨h.refused, h.dropped, h.masks, fun w hw => Or.inl (h.tried w hw)⟩

theorem Restoring.fold {a : Actuator} : ∀ {l : List Tid} {done : Tid → Prop} {st : RestoreState (κ × List Answered)},
    l.Nodup → (∀ t ∈ l, ¬ done t) → Restoring a done st →
    ∃ done', Restoring a done' (l.foldl (restoreStep (answered b)) st)
  | [], done, _, _, _, h => ⟨done, h⟩
  | t :: l, done, st, hn, hnew, h => by
    rw [List.nodup_cons] at hn
    rw [List.foldl_cons]
    refine Restoring.fold hn.2 ?_ (h.step (hnew t List.mem_cons_self))
    rintro u hu (hd | rfl)
    · exact hnew u (List.mem_cons_of_mem _ hu) hd
    · exact hn.1 hu

theorem restore_keepsRefused (k : κ) (a : Actuator) (tids : OrdSet Tid) :
    KeepsRefused b a (restore (answered b) (k, []) a tids) := by
  have hstart : Restoring a (fun _ => False) (⟨(k, []), a, {}⟩ : RestoreState (κ × List Answered)) :=
    ⟨fun _ h => absurd h List.not_mem_nil, fun t ht hnot => absurd ht hnot, fun _ _ => rfl,
      fun _ h => absurd h List.not_mem_nil⟩
  obtain ⟨done, h⟩ := Restoring.fold (b := b) (OrdMap.nodup_keys tids) (fun _ _ => not_false) hstart
  have hkept : ∀ w ∈ (restore (answered b) (k, []) a tids).backend.2, Refused w →
      w.1 ∈ (restore (answered b) (k, []) a tids).actuator.actedTids ∧
      (restore (answered b) (k, []) a tids).actuator.restoreMasks.find? w.1 = a.restoreMasks.find? w.1 :=
    fun w hw hr => ⟨h.refused w hw hr, h.masks _ (h.refused w hw hr)⟩
  exact ⟨hkept, fun w hw hr => again_of_kept (hkept w hw hr).1 (hkept w hw hr).2, h.dropped⟩

/-! ## `restore_all` -/

theorem foldl_restoreAllStep_answered (a : Actuator) : ∀ (l : List Tid) (k : κ) (w : List Answered) (r : RestoreResult),
    (l.foldl (restoreAllStep (answered b)) ⟨(k, w), a, r⟩).backend.2 =
      w ++ answersTo b k (l.map (fun t => (t, a.restoreMaskOf t)))
  | [], k, w, r => by simp [answersTo]
  | t :: l, k, w, r => by
    rw [List.foldl_cons, List.map_cons, answersTo]
    have hrest := foldl_restoreAllStep_answered a l (b.set k t (a.restoreMaskOf t)).1
      (w ++ [(t, a.restoreMaskOf t, (b.set k t (a.restoreMaskOf t)).2)])
      (countRestored r (b.set k t (a.restoreMaskOf t)).2)
    rw [List.append_assoc, List.singleton_append] at hrest
    exact hrest

theorem restoreAll_answers (k : κ) (a : Actuator) :
    (restoreAll (answered b) (k, []) a).backend.2 = answersTo b k a.restoreWrites :=
  foldl_restoreAllStep_answered a a.actedTids.toList k [] _

/-- Every write of the list has its answer. -/
theorem exists_answer {t : Tid} {m : Mask} : ∀ {l : List (Tid × Mask)} {k : κ}, (t, m) ∈ l →
    ∃ ans, (t, m, ans) ∈ answersTo b k l
  | (t', m') :: l, k, h => by
    rw [answersTo]
    rcases List.mem_cons.1 h with he | h
    · cases he
      exact ⟨_, List.mem_cons_self⟩
    · obtain ⟨ans, hans⟩ := exists_answer (k := (b.set k t' m').1) h
      exact ⟨ans, List.mem_cons_of_mem _ hans⟩

/-- **A refused write is remembered** by `restore`, whatever the kernel answers; by `restore_all` exactly when there is
none. -/
theorem restores_keep_refused_iff (b : AffinityBackend κ) (k : κ) (a : Actuator) (tids : OrdSet Tid) :
    KeepsRefused b a (restore (answered b) (k, []) a tids) ∧
    (KeepsRefused b a (restoreAll (answered b) (k, []) a) ↔ ∀ w ∈ answersTo b k a.restoreWrites, ¬ Refused w) := by
  refine ⟨restore_keepsRefused k a tids, fun h w hw hr => ?_, fun h => ?_⟩
  · rw [← restoreAll_answers] at hw
    exact OrdMap.notMem_empty _ (h.kept w hw hr).1
  · rw [← restoreAll_answers] at h
    refine ⟨fun w hw hr => absurd hr (h w hw), fun w hw hr => absurd hr (h w hw), fun t ht _ => ?_⟩
    obtain ⟨ans, hans⟩ := exists_answer (b := b) (k := k)
      (List.mem_map_of_mem (f := fun t => (t, a.restoreMaskOf t)) (OrdSet.mem_toList.2 ht))
    rw [show a.actedTids.toList.map (fun t => (t, a.restoreMaskOf t)) = a.restoreWrites from rfl,
      ← restoreAll_answers] at hans
    rcases answer_cases (t, a.restoreMaskOf t, ans) with hr | hnone | hesrch
    · exact absurd hr (h _ hans)
    · exact Or.inl (hnone ▸ hans)
    · exact Or.inr (hesrch ▸ hans)

end Restores

/-- Thread 7 was moved by the policy and is to get CPUs 0 to 3 back. -/
def movedSeven : Actuator :=
  (({} : Actuator).noteApplicationMask 7 [0, 1, 2, 3]).markActed 7 (OrdMap.mem_insert.2 (Or.inl rfl))

/-- **A refused restore is forgotten**: the kernel refuses to give thread 7 its mask back, and it is on no record any
more. -/
theorem restoreAll_forgets_refused :
    ¬ KeepsRefused linux movedSeven (restoreAll (answered linux) (rejectingKernel, []) movedSeven) := by
  intro h
  have hlog : (7, [0, 1, 2, 3], some (.other 1)) ∈
      (restoreAll (answered linux) (rejectingKernel, []) movedSeven).backend.2 := by decide
  exact OrdMap.notMem_empty (7 : Tid) (h.kept _ hlog ⟨.other 1, rfl, by decide⟩).1

/-! ## Batches -/

/-- A backend whose failed writes leave the mask as it is. -/
structure ExactView (b : AffinityBackend κ) extends MaskView b where
  set_failed : ∀ k t m e, (b.set k t m).2 = some e → e ≠ .esrch → view (b.set k t m).1 t = view k t

/-- A failed batch has left no trace: what lives has the mask it had, and the marks are as they were. -/
structure Undone {b : AffinityBackend κ} (V : MaskView b) (k : κ) (a : Actuator) (k' : κ) (a' : Actuator) : Prop where
  masks : ∀ t m, V.view k' t = some m → V.view k t = some m
  acted : a'.actedTids = a.actedTids

/-- A batch that went through: every thread asked for is told once, and a committed one has its mask and its records. -/
structure Performed {b : AffinityBackend κ} (V : MaskView b) (assignments : OrdMap Tid Mask) (k' : κ) (a' : Actuator)
    (result : ApplyResult) : Prop where
  told : ∀ t, t ∈ assignments ↔ t ∈ result.committedTids ∨ t ∈ result.vanishedTids
  once : ∀ t ∈ result.committedTids, t ∉ result.vanishedTids
  masks : ∀ t ∈ result.committedTids, ∃ m, assignments.find? t = some m ∧ V.view k' t = some m
  records : ∀ t ∈ result.committedTids, t ∈ a'.actedTids ∧ t ∈ a'.restoreMasks

/-- The restore masks after a batch: those known are unchanged, a new one is what the thread had before the call, and
the policy had not written to that thread. -/
structure Remembers (b : AffinityBackend κ) (k : κ) (a a' : Actuator) : Prop where
  known : ∀ t m, a.restoreMasks.find? t = some m → a'.restoreMasks.find? t = some m
  new : ∀ t m, a.restoreMasks.find? t = none → a'.restoreMasks.find? t = some m → m = b.get k t ∧ t ∉ a.actedTids

section Batches

variable {b : AffinityBackend κ}

theorem writeMask_failed (V : ExactView b) {k : κ} {t : Tid} {cpus : Mask} {e : Errno}
    (h : (writeMask b k t cpus).2 = some e) (he : e ≠ .esrch) : V.view (writeMask b k t cpus).1 t = V.view k t := by
  unfold writeMask at h ⊢
  by_cases hc : cpus = []
  · rw [if_pos hc]
  · rw [if_neg hc] at h ⊢
    exact V.set_failed k t cpus e h he

/-- What a failed batch did to one thread, when its roll-back went through. -/
theorem applyRun_undone (V : ExactView b) {k : κ} {a : Actuator} {assignments : OrdMap Tid Mask} {live : OrdSet Tid}
    (hs : (applyRun b k a assignments live).result.success = false)
    (hr : (applyRun b k a assignments live).result.rollbackSuccess = true) (u : Tid) :
    (V.view (applyRun b k a assignments live).backend u = V.view k u ∨
      V.view (applyRun b k a assignments live).backend u = none) ∧
    (u ∈ (applyRun b k a assignments live).actuator.actedTids ↔ u ∈ a.actedTids) := by
  have hstop : (applyRun b k a assignments live).stopped ≠ none := by
    intro hnone
    rw [(applyRun_success_iff k a assignments live).2 hnone] at hs
    cases hs
  cases applyRun_effect V.toMaskView k a assignments live u with
  | skipped mask restoreMask acted untried told untold => exact ⟨Or.inl mask, acted⟩
  | reached cpus asked alive tried restoreMask outcome =>
    cases outcome with
    | committed ok nonempty live mask acted told => exact absurd ok hstop
    | vanished mask acted told untold => exact ⟨Or.inr mask, acted⟩
    | failed F stop tid asked error write before mask acted =>
      exact ⟨Or.inl (by rw [mask, writeMask_failed V write error, before]), acted⟩
    | rolledBack stop nonempty live mask acted => exact ⟨mask, acted⟩
    | stuck stop nonempty live acted told =>
      rw [hr] at told
      cases told

theorem applyRun_performed (V : MaskView b) {k : κ} {a : Actuator} {assignments : OrdMap Tid Mask} {live : OrdSet Tid}
    (hs : (applyRun b k a assignments live).result.success = true) :
    Performed V assignments (applyRun b k a assignments live).backend (applyRun b k a assignments live).actuator
      (applyRun b k a assignments live).result := by
  have hstop := (applyRun_success_iff k a assignments live).1 hs
  have hcommitted : ∀ t ∈ (applyRun b k a assignments live).result.committedTids, ∃ m, assignments.find? t = some m ∧
      V.view (applyRun b k a assignments live).backend t = some m ∧
      t ∈ (applyRun b k a assignments live).actuator.actedTids := by
    intro t ht
    cases applyRun_effect V k a assignments live t with
    | skipped mask restoreMask acted untried told untold => exact absurd ht untold
    | reached cpus asked alive tried restoreMask outcome =>
      cases outcome with
      | committed ok nonempty live mask acted told => exact ⟨cpus, asked, mask, acted⟩
      | vanished mask acted told untold => exact absurd ht untold
      | failed F stop tid asked error write before mask acted => rw [hstop] at stop; cases stop
      | rolledBack stop nonempty live mask acted => rw [hstop] at stop; cases stop
      | stuck stop nonempty live acted told => rw [hstop] at stop; cases stop
  refine ⟨fun t => ⟨fun ht => ?_, fun ht => ?_⟩, fun t ht => applyRun_committed_notMem V ht, fun t ht => ?_, fun t ht => ?_⟩
  · cases applyRun_effect V k a assignments live t with
    | skipped mask restoreMask acted untried told untold => exact Or.inr (told hstop ht).2
    | reached cpus asked alive tried restoreMask outcome =>
      cases outcome with
      | committed ok nonempty live mask acted told => exact Or.inl told
      | vanished mask acted told untold => exact Or.inr told
      | failed F stop tid asked error write before mask acted => rw [hstop] at stop; cases stop
      | rolledBack stop nonempty live mask acted => rw [hstop] at stop; cases stop
      | stuck stop nonempty live acted told => rw [hstop] at stop; cases stop
  · rcases ht with ht | ht
    · obtain ⟨m, hm, -⟩ := hcommitted t ht
      exact OrdMap.mem_of_find hm
    · exact applyRun_vanished_mem V ht
  · obtain ⟨m, hm, hmask, -⟩ := hcommitted t ht
    exact ⟨m, hm, hmask⟩
  · obtain ⟨m, -, -, hacted⟩ := hcommitted t ht
    exact ⟨hacted, (applyRun b k a assignments live).actuator.restorable t hacted⟩

theorem applyRun_remembers (V : MaskView b) (k : κ) (a : Actuator) (assignments : OrdMap Tid Mask) (live : OrdSet Tid) :
    Remembers b k a (applyRun b k a assignments live).actuator := by
  refine ⟨fun t m hm => ?_, fun t m hnone hm => ?_⟩
  · cases applyRun_effect V k a assignments live t with
    | skipped mask restoreMask acted untried told untold => rw [restoreMask, hm]
    | reached cpus asked alive tried restoreMask outcome =>
      rw [restoreMask, hm]
      rfl
  · refine ⟨?_, fun ht => ?_⟩
    · cases applyRun_effect V k a assignments live t with
      | skipped mask restoreMask acted untried told untold =>
        rw [restoreMask, hnone] at hm
        cases hm
      | reached cpus asked alive tried restoreMask outcome =>
        rw [restoreMask, hnone] at hm
        exact (Option.some.inj hm).symm
    · exact OrdMap.notMem_iff.2 hnone (a.restorable t ht)

/-- Batches one after the other; what else happens to the threads between them is in the backend each one finds. -/
def applyAll (b : AffinityBackend κ) (a : Actuator) (calls : List (κ × PlacementDelta × OrdSet Tid)) : Actuator :=
  calls.foldl (fun a c => (apply b c.1 a c.2.1 c.2.2).2.1) a

theorem applyAll_known (V : MaskView b) {t : Tid} {m : Mask} : ∀ (calls : List (κ × PlacementDelta × OrdSet Tid))
    {a : Actuator}, a.restoreMasks.find? t = some m → (applyAll b a calls).restoreMasks.find? t = some m
  | [], _, h => h
  | c :: calls, a, h => applyAll_known V calls ((applyRun_remembers V c.1 a (deltaMasks c.2.1) c.2.2).known t m h)

/-- **A batch is a transaction**, as long as a failed write changes nothing and the roll-back's writes go through or find
the thread gone; and what it records to restore, no later batch changes. -/
theorem apply_transaction (V : ExactView b) (k : κ) (a : Actuator) (delta : PlacementDelta) (live : OrdSet Tid)
    (hroll : (apply b k a delta live).2.2.rollbackSuccess = true) :
    ((apply b k a delta live).2.2.success = false →
      Undone V.toMaskView k a (apply b k a delta live).1 (apply b k a delta live).2.1) ∧
    ((apply b k a delta live).2.2.success = true →
      Performed V.toMaskView (deltaMasks delta) (apply b k a delta live).1 (apply b k a delta live).2.1
        (apply b k a delta live).2.2) ∧
    Remembers b k a (apply b k a delta live).2.1 ∧
    ∀ calls t m, (apply b k a delta live).2.1.restoreMasks.find? t = some m →
      (applyAll b (apply b k a delta live).2.1 calls).restoreMasks.find? t = some m := by
  refine ⟨fun hs => ⟨fun t m hm => ?_, OrdSet.ext_mem (fun t => (applyRun_undone V hs hroll t).2)⟩,
    fun hs => applyRun_performed V.toMaskView hs, applyRun_remembers V.toMaskView k a (deltaMasks delta) live,
    fun calls t m hm => applyAll_known V.toMaskView calls hm⟩
  rcases (applyRun_undone V hs hroll t).1 with hsame | hgone
  · exact hsame ▸ hm
  · exact absurd (hgone.symm.trans hm) (by simp)

end Batches

/-- The backend of the tests: every TID has a mask, and one of them cannot be written. -/
structure FakeBackend where
  masks : OrdMap Tid Mask := OrdMap.ofList [(1, [0, 1]), (2, [0, 1])]
  failTid : Tid := -1

def fake : AffinityBackend FakeBackend where
  get k t := k.masks.getD t []
  set k t m := if t = k.failTid then (k, some (.other 1)) else ({ k with masks := k.masks.insert t m }, none)

def fakeView : ExactView fake where
  view k t := some (k.masks.getD t [])
  get_eq _ _ := rfl
  set_other k t m u h := by
    dsimp only [fake]
    split
    · rfl
    · rw [OrdMap.getD_insert, if_neg h]
  set_ok k t m h := by
    dsimp only [fake] at h ⊢
    split at h
    · cases h
    · rename_i hne
      rw [if_neg hne]
      simp [OrdMap.getD_insert]
  set_esrch k t m h := by
    dsimp only [fake] at h
    split at h <;> cases h
  set_dead k t m h := by cases h
  set_failed k t m e h he := by
    dsimp only [fake] at h ⊢
    split at h
    · rename_i heq
      rw [if_pos heq]
    · cases h

/-- Thread 1 goes to CPU 2, thread 2 cannot be moved: thread 1 is back on its CPUs. -/
theorem apply_transaction_rolledBack :
    let delta : PlacementDelta := { tidToCpu := OrdMap.ofList [(1, 2), (2, 3)] }
    let r := apply fake { failTid := 2 } {} delta (OrdSet.ofList [1, 2])
    r.2.2.success = false ∧ Undone fakeView.toMaskView { failTid := 2 } {} r.1 r.2.1 :=
  ⟨by decide, (apply_transaction fakeView { failTid := 2 } {} { tidToCpu := OrdMap.ofList [(1, 2), (2, 3)] }
    (OrdSet.ofList [1, 2]) (by decide)).1 (by decide)⟩

end Actuator
end AffinityGraph
