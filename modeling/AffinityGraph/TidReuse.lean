import AffinityGraph.AppMasks
/-!
# TidReuse — whose masks the restores write

The actuator is keyed by bare TID and nothing tells it that a thread has exited: `thread_exited` and the sweep of
`reconcile_and_sample` drop the lifecycle record and leave `restore_masks_` and `acted_tids_` alone.  A later thread
with the same TID is then restored to the mask of the earlier one.  `Own` is the invariant of a live thread as long as
no fork meets such a leftover, `restores_write_own_masks` the law over whole runs.
-/
namespace AffinityGraph
namespace World

/-- The writes of a call of `restore` or `restore_all`, in order. -/
def restoreWrites (w : World) : Event → List (Tid × Mask)
  | .restore tids => (Actuator.restore (Actuator.logged linux) (w.kernel, []) w.actuator tids).backend.2
  | .pause => (Actuator.restoreAll (Actuator.logged linux) (w.kernel, []) w.actuator).backend.2
  | _ => []

/-- If the sample is noted from a parent's restore mask, that mask is one the application has for the thread. -/
def NoteOwn (history : OrdMap Tid Incarnation) (r : Runtime) (sample : ThreadSample) : Prop :=
  r.actuator.restoreMasks.find? sample.identity.tid = none → r.pendingApplicationMasks.find? sample.identity.tid = none →
  notes (r.lifecycle.find? sample.identity.tid) sample = true →
  ((r.actuator.restoreMasks.find? (notedParent (r.lifecycle.find? sample.identity.tid) sample)).all fun m =>
    (history.find? sample.identity.tid).all fun i => decide (m ∈ i.ownMasks)) = true

/-- **When a restore is of the thread it writes to**: no fork takes a TID that `restore_masks_` or
`pending_application_masks_` still has an entry for; the restore mask a first sample copies from the recorded parent is
one of the application's masks for the thread; the write a batch fails at leaves the mask of a thread without a mark as
it was; and no write of `restore_all` fails, since it forgets every thread in any case. -/
def Cleared (w : World) : Event → Prop
  | .fork _ child _ _ => child ∉ w.actuator.restoreMasks ∧ child ∉ w.runtime.pendingApplicationMasks
  | .reconcile probe =>
      EveryTurn (NoteOwn w.history) w.reconciling (samples w.kernel w.runtime.targetTgids probe)
  | .apply delta live => ∀ F ∈ (w.batch delta live).stopped,
      F.tid ∈ w.actuator.actedTids ∨ F.before.WriteLeavesMask F.tid F.cpus
  | .pause => (Actuator.restoreAll linux w.kernel w.actuator).result.failed = 0
  | _ => True

/-! ## The invariant -/

/-- A live thread of mask `k`: whatever the actuator has under its TID is its own. -/
structure Own (v : View) (k : Mask) (i : Incarnation) : Prop where
  acted : v.acted → i.acted = true ∧ i.before.isSome = true
  /-- a mask noted before the policy first reached for the thread is the one it still has -/
  record : ∀ m, v.record = some m → m ∈ i.masks ∨ i.before = none ∧ m = k
  left : i.before.isSome = true → ¬ v.acted → k ∈ i.masks
  pending : ∀ m, v.pending = some m → m ∈ i.declared
  known : v.record.isSome = true → i.before = none → v.known
  targeted : v.known → v.targeted

def OwnInv (w : World) : Prop := ∀ t k, (w.view t).mask = some k → ∃ i, (w.view t).self = some i ∧ Own (w.view t) k i

theorem Initial.ownInv {w : World} (h : Initial w) : OwnInv w := by
  intro t k hk
  have hrec : (w.view t).record = none := by simp [view, World.actuator, h.actuator]
  have hpend : (w.view t).pending = none := by simp [view, h.pending]
  have hknown : ¬ (w.view t).known := by simp [view, h.lifecycle]
  obtain ⟨th, hth, -⟩ := Option.map_eq_some_iff.1 hk
  refine ⟨_, (h.threads t th hth).2, fun ha => ?_, ?_, ?_, ?_, ?_, fun hk => absurd hk hknown⟩
  · have hsome := record_of_acted ha
    rw [hrec] at hsome
    cases hsome
  · simp [hrec]
  · intro hb
    cases hb
  · simp [hpend]
  · simp [hrec]

/-! ## One event -/

section Steps

variable {v v' : View} {k k' : Mask} {i : Incarnation}

theorem Own.idle (h : Own v k i) (hlive : v'.mask.isSome = true) (hrec : v'.record = v.record)
    (hact : v'.acted ↔ v.acted) (hpend : v'.pending = v.pending) (hb : Books v v') : Own v' k i := by
  refine ⟨fun ha => h.acted (hact.1 ha), fun m hm => h.record m (hrec.symm.trans hm),
    fun hs hna => h.left hs (fun ha => hna (hact.2 ha)), fun m hm => h.pending m (hpend.symm.trans hm),
    fun hs hn => ?_, hb.stillTargeted h.targeted hlive⟩
  rw [hrec] at hs
  exact hb.stillKnown h.targeted (h.known hs hn)

theorem Own.born (hrec : v'.record = none) (hpend : v'.pending = none) (hna : ¬ v'.acted) (hunknown : ¬ v'.known)
    (hb : i.before = none) : Own v' k i := by
  refine ⟨fun ha => absurd ha hna, ?_, ?_, ?_, ?_, fun hk => absurd hk hunknown⟩
  · simp [hrec]
  · simp [hb]
  · simp [hpend]
  · simp [hrec]

theorem Own.declared {m : Mask} (h : Own v k i) (hlive : v'.mask.isSome = true) (hact : v'.acted ↔ v.acted)
    (htold : v.known ∧ v'.record = some m ∧ v'.pending = v.pending ∨
      ¬ v.known ∧ v'.record = v.record ∧ v'.pending = some m) (hb : Books v v') : Own v' m (i.declare m) := by
  refine ⟨fun ha => h.acted (hact.1 ha), fun x hx => ?_, fun _ _ => Incarnation.self_mem_declare, fun x hx => ?_,
    fun hs hn => ?_, hb.stillTargeted h.targeted hlive⟩
  · rcases htold with ⟨-, hr, -⟩ | ⟨hnk, hr, -⟩
    · rw [Option.some.inj (hr.symm.trans hx)] at *
      exact Or.inl Incarnation.self_mem_declare
    · rw [hr] at hx
      rcases h.record x hx with hmem | ⟨hnone, -⟩
      · exact Or.inl (Incarnation.mem_masks_declare hmem)
      · -- a noted thread is a known one
        exact absurd (h.known (by rw [hx]; rfl) hnone) hnk
  · rcases htold with ⟨-, -, hp⟩ | ⟨-, -, hp⟩
    · exact List.mem_cons_of_mem _ (h.pending x (hp.symm.trans hx))
    · rw [Option.some.inj (hp.symm.trans hx)]
      exact List.mem_cons_self
  · rcases htold with ⟨hk, -, -⟩ | ⟨-, hr, -⟩
    · exact hb.stillKnown h.targeted hk
    · rw [hr] at hs
      exact hb.stillKnown h.targeted (h.known hs hn)

theorem Own.sampled (h : Own v k i) (hact : v'.acted ↔ v.acted) (hpend : v'.pending = none) (hknown : v'.known)
    (htgt : v'.targeted) (hrec : ∀ m, v'.record = some m → m ∈ i.masks ∨ i.before = none ∧ m = k) : Own v' k i := by
  refine ⟨fun ha => h.acted (hact.1 ha), hrec, fun hs hna => h.left hs (fun ha => hna (hact.2 ha)), ?_,
    fun _ _ => hknown, fun _ => htgt⟩
  simp [hpend]

/-- The mask a batch keeps for a thread it reaches. -/
theorem Own.kept {acted : Bool} (h : Own v k i) (hacted : v.acted → v.record.isSome = true) :
    v.record.getD k ∈ (i.reach k acted).masks := by
  cases hr : v.record with
  | some m =>
    rcases h.record m hr with hm | ⟨hnone, hmk⟩
    · exact Incarnation.mem_masks_reach hm
    · rw [Option.getD_some, hmk]
      exact Incarnation.self_mem_reach hnone
  | none =>
    have hna : ¬ v.acted := by
      intro ha
      have hsome := hacted ha
      rw [hr] at hsome
      cases hsome
    rw [Option.getD_none]
    cases hb : i.before with
    | none => exact Incarnation.self_mem_reach hb
    | some x => exact Incarnation.mem_masks_reach (h.left (by rw [hb]; rfl) hna)

theorem Own.reached {acted : Bool} (h : Own v k i) (hlive : v'.mask.isSome = true)
    (hacted : v.acted → v.record.isSome = true) (hrec : v'.record = some (v.record.getD k))
    (hpend : v'.pending = v.pending) (hb : Books v v') (hact : v'.acted ↔ acted = true)
    (hout : v'.acted ∨ (v'.acted ↔ v.acted) ∧ k' = k) : Own v' k' (i.reach k acted) := by
  refine ⟨fun ha => ⟨?_, Incarnation.before_reach⟩, fun m hm => ?_, fun _ hna => ?_,
    fun m hm => h.pending m (hpend.symm.trans hm), fun _ hn => ?_, hb.stillTargeted h.targeted hlive⟩
  · simp [Incarnation.reach, hact.1 ha]
  · rw [← Option.some.inj (hrec.symm.trans hm)]
    exact Or.inl (h.kept hacted)
  · rcases hout with ha | ⟨hiff, rfl⟩
    · exact absurd ha hna
    · cases hbef : i.before with
      | none => exact Incarnation.self_mem_reach hbef
      | some x =>
        exact Incarnation.mem_masks_reach (h.left (by rw [hbef]; rfl) (fun ha => hna (hiff.2 ha)))
  · have hsome : (i.reach k acted).before.isSome = true := Incarnation.before_reach
    rw [hn] at hsome
    cases hsome

theorem Own.released (h : Own v k i) (hlive : v'.mask.isSome = true) (hrec : v'.record = none) (hna : ¬ v'.acted)
    (hpend : v'.pending = v.pending) (hb : Books v v') (hk : i.before.isSome = true → k' ∈ i.masks) : Own v' k' i := by
  refine ⟨fun ha => absurd ha hna, ?_, fun hs _ => hk hs, fun m hm => h.pending m (hpend.symm.trans hm), ?_,
    hb.stillTargeted h.targeted hlive⟩
  · simp [hrec]
  · simp [hrec]

/-- A marked thread's restore mask is one of its own. -/
theorem Own.record_of_acted {m : Mask} (h : Own v k i) (ha : v.acted) (hm : v.record = some m) : m ∈ i.masks := by
  rcases h.record m hm with hmem | ⟨hnone, -⟩
  · exact hmem
  · have hsome := (h.acted ha).2
    rw [hnone] at hsome
    cases hsome

/-- The write back failed: the thread may have any mask, and keeps its mark and its restore mask. -/
theorem Own.refused (h : Own v k i) (hlive : v'.mask.isSome = true) (hrec : v'.record = v.record) (ha : v.acted)
    (ha' : v'.acted) (hpend : v'.pending = v.pending) (hb : Books v v') : Own v' k' i := by
  refine ⟨fun _ => h.acted ha, fun m hm => Or.inl (h.record_of_acted ha (hrec.symm.trans hm)),
    fun _ hna => absurd ha' hna, fun m hm => h.pending m (hpend.symm.trans hm), fun hs hn => ?_,
    hb.stillTargeted h.targeted hlive⟩
  rw [hrec] at hs
  exact hb.stillKnown h.targeted (h.known hs hn)

end Steps

theorem OwnInv.step_at {w w' : World} {e : Event} (h : OwnInv w) (hok : Cleared w e) {t : Tid} (hm : Move w w' e t)
    {k' : Mask} (hk' : (w'.view t).mask = some k') : ∃ i, (w'.view t).self = some i ∧ Own (w'.view t) k' i := by
  have hlive' : (w'.view t).mask.isSome = true := by rw [hk']; rfl
  cases hm with
  | idle mask record acted pending self books =>
    have hmask : (w.view t).mask = some k' := by
      rcases mask with hm | hm
      · exact hm.symm.trans hk'
      · rw [hm] at hk'; cases hk'
    obtain ⟨i, hi, ho⟩ := h t k' hmask
    have hpend : (w'.view t).pending = (w.view t).pending := by
      rcases pending with hp | ⟨hp, -⟩
      · exact hp
      · rw [hp] at hmask; cases hmask
    exact ⟨i, self.trans hi, ho.idle hlive' record acted hpend books⟩
  | born parent tgid starttime event p i parentMask parentSelf mask record acted pending self unknown graphed used =>
    rw [event] at hok
    have hrec : (w.view t).record = none := OrdMap.notMem_iff.1 hok.1
    have hpend : (w.view t).pending = none := OrdMap.notMem_iff.1 hok.2
    have hna : ¬ (w'.view t).acted := by
      intro ha
      have hs := record_of_acted (acted.1 ha)
      rw [hrec] at hs
      cases hs
    exact ⟨_, self, Own.born (record.trans hrec) (pending.trans hpend) hna unknown rfl⟩
  | declared m set event asked live mask acted told self books =>
    obtain ⟨k, hk⟩ := Option.isSome_iff_exists.1 live
    obtain ⟨i, hi, ho⟩ := h t k hk
    have hkm : k' = m := Option.some.inj (hk'.symm.trans mask)
    rw [hkm]
    exact ⟨i.declare m, by rw [self, hi]; rfl, ho.declared hlive' acted told books⟩
  | sampled probe event k live mask acted self pending known targeted record =>
    obtain ⟨i, hi, ho⟩ := h t k live
    have hkk : k' = k := Option.some.inj (hk'.symm.trans mask)
    rw [hkk]
    refine ⟨i, self.trans hi, ho.sampled acted pending known targeted ?_⟩
    intro x hx
    rcases record with ⟨m, hp, hr⟩ | ⟨-, hr, -⟩ | ⟨hnone, r, sample, hreach, htid, hobs, hnone', hpnone, hnotes, hr⟩
    · rw [← Option.some.inj (hr.symm.trans hx), Incarnation.mem_masks]
      exact Or.inl (Or.inl (List.mem_cons_of_mem _ (ho.pending m hp)))
    · exact ho.record x (hr.symm.trans hx)
    · have hxm := Option.some.inj (hr.symm.trans hx)
      unfold notedMask at hxm
      cases hparent : r.actuator.restoreMasks.find? (notedParent (r.lifecycle.find? t) sample) with
      | some m =>
        rw [event] at hok
        have hnote := hok.at hreach
        unfold NoteOwn at hnote
        rw [htid] at hnote
        have hall := hnote hnone' hpnone hnotes
        have hself : w.history.find? t = some i := hi
        rw [hparent, hself] at hall
        rw [hparent, Option.getD_some] at hxm
        rw [← hxm, Incarnation.mem_masks]
        exact Or.inl (Or.inl (of_decide_eq_true hall))
      | none =>
        -- its own mask is noted; the policy has not reached for it, or has left it with one of its masks
        rw [hparent, Option.getD_none, hobs] at hxm
        cases hbef : i.before with
        | none => exact Or.inr ⟨rfl, hxm.symm⟩
        | some y =>
          have hna : ¬ (w.view t).acted := by
            intro ha
            have hs := record_of_acted ha
            rw [hnone] at hs
            cases hs
          rw [← hxm]
          exact Or.inl (ho.left (by rw [hbef]; rfl) hna)
  | reached delta live event cpus graphed alive record pending self books mask acted outcome =>
    rw [event] at hok
    have hout := mask_of_reached (fun F hF => hok F hF) outcome (mask.symm.trans hk')
    obtain ⟨k, hk⟩ := Option.isSome_iff_exists.1 (alive hlive')
    obtain ⟨i, hi, ho⟩ := h t k hk
    rw [hk] at record self
    refine ⟨_, by rw [self, hi]; rfl, ho.reached hlive' record_of_acted record pending books ?_ ?_⟩
    · rw [acted]
      simp
    · rcases hout with ha | ⟨hiff, hsame⟩
      · exact Or.inl (acted.2 ha)
      · exact Or.inr ⟨acted.trans hiff, Option.some.inj (hsame.symm.trans hk)⟩
  | restored alive wasActed mask record acted pending self books =>
    obtain ⟨k, hk⟩ := Option.isSome_iff_exists.1 (alive hlive')
    obtain ⟨i, hi, ho⟩ := h t k hk
    refine ⟨i, self.trans hi, ho.released hlive' record acted pending books (fun _ => ?_)⟩
    rcases mask with hm | hm
    · exact ho.record_of_acted wasActed (hm.symm.trans hk')
    · rw [hm] at hk'
      cases hk'
  | refused tids event told alive record wasActed acted pending self books =>
    obtain ⟨k, hk⟩ := Option.isSome_iff_exists.1 (alive hlive')
    obtain ⟨i, hi, ho⟩ := h t k hk
    exact ⟨i, self.trans hi, ho.refused hlive' record wasActed acted pending books⟩
  | paused event alive record acted left written pending self books =>
    obtain ⟨k, hk⟩ := Option.isSome_iff_exists.1 (alive hlive')
    obtain ⟨i, hi, ho⟩ := h t k hk
    rw [event] at hok
    refine ⟨i, self.trans hi, ho.released hlive' record acted pending books (fun hbef => ?_)⟩
    by_cases ha : (w.view t).acted
    · rcases written ha with hm | hm | hm
      · exact ho.record_of_acted ha (hm.symm.trans hk')
      · rw [hm] at hk'
        cases hk'
      · rw [show (Actuator.restoreAll linux w.kernel w.actuator).result.failed = 0 from hok] at hm
        exact absurd hm (lt_irrefl 0)
    · have hkk : k' = k := Option.some.inj (hk'.symm.trans ((left ha).trans hk))
      rw [hkk]
      exact ho.left hbef ha

/-! ## The law -/

theorem restoreWrites_spec {w : World} {e : Event} {t : Tid} {m : Mask} (h : (t, m) ∈ w.restoreWrites e) :
    (w.view t).acted ∧ (w.view t).record = some m := by
  have hspec : t ∈ w.actuator.actedTids ∧ m = w.actuator.restoreMaskOf t := by
    cases e with
    | restore tids => exact ((Actuator.restore_calls w.kernel w.actuator tids).1 h).2
    | pause => exact (Actuator.restoreAll_calls w.kernel w.actuator).1 h
    | fork | started | exit | exited | declare | reconcile | apply => cases h
  refine ⟨hspec.1, ?_⟩
  have hrec := Actuator.restoreMaskOf_eq hspec.1
  rw [← hspec.2] at hrec
  exact hrec

/-- **Every restore is of the thread it writes to**, in every run whose events are `Cleared`: the writes of every call
go to threads that a batch marked, with a mask of that thread, and what the actuator has under the TID of a live thread
is that thread's. -/
theorem restores_write_own_masks {w₀ w : World} {es : List Event} (h0 : Initial w₀)
    (hrun : Run.Obeys step Cleared w₀ es) (hexec : Run.exec step w₀ es = some w) {t : Tid}
    (hlive : t ∈ w.kernel.threads) : ∃ i, w.history.find? t = some i ∧
      (∀ e m, (t, m) ∈ w.restoreWrites e → i.acted = true ∧ m ∈ i.masks) ∧
      (t ∈ w.actuator.actedTids → i.acted = true) ∧
      ∀ m, w.actuator.restoreMasks.find? t = some m → m ∈ i.masks ∨ i.before = none ∧ w.kernel.maskOf t = some m := by
  have hinv : OwnInv w :=
    hrun.invariant OwnInv (fun _ _ _ hi hok hs t k hk => hi.step_at hok (step_move hs t) hk) h0.ownInv hexec
  obtain ⟨k, hk⟩ := Option.isSome_iff_exists.1 (mem_threads_iff.1 hlive)
  obtain ⟨i, hi, ho⟩ := hinv t k hk
  refine ⟨i, hi, fun e m hw => ?_, fun ha => (ho.acted ha).1, fun m hm => ?_⟩
  · obtain ⟨ha, hrec⟩ := restoreWrites_spec hw
    exact ⟨(ho.acted ha).1, ho.record_of_acted ha hrec⟩
  · refine (ho.record m hm).imp_right (fun ⟨hn, hmk⟩ => ⟨hn, ?_⟩)
    rw [hmk]
    exact hk

instance WriteLeavesMask.decidable (k : Kernel) (t : Tid) (cpus : Mask) : Decidable (k.WriteLeavesMask t cpus) := by
  dsimp only [Kernel.WriteLeavesMask]
  split <;> infer_instance

instance NoteOwn.decidable (h : OrdMap Tid Incarnation) (r : Runtime) (s : ThreadSample) :
    Decidable (NoteOwn h r s) := by
  dsimp only [NoteOwn]
  infer_instance

instance Cleared.decidable (w : World) : ∀ e, Decidable (Cleared w e)
  | .fork _ child _ _ =>
    inferInstanceAs (Decidable (child ∉ w.actuator.restoreMasks ∧ child ∉ w.runtime.pendingApplicationMasks))
  | .reconcile probe =>
    inferInstanceAs (Decidable
      (EveryTurn (NoteOwn w.history) w.reconciling (samples w.kernel w.runtime.targetTgids probe)))
  | .apply delta live =>
    inferInstanceAs (Decidable (∀ F ∈ (w.batch delta live).stopped,
      F.tid ∈ w.actuator.actedTids ∨ F.before.WriteLeavesMask F.tid F.cpus))
  | .pause => inferInstanceAs (Decidable ((Actuator.restoreAll linux w.kernel w.actuator).result.failed = 0))
  | .started _ => isTrue trivial
  | .exit _ => isTrue trivial
  | .exited _ => isTrue trivial
  | .declare _ _ => isTrue trivial
  | .restore _ => isTrue trivial

/-- TID 2 is given out twice; the first thread exits before it is sampled, the second is sampled and pinned. -/
def unsampledReuse : List Event :=
  [.fork 1 2 1 11, .exit 2, .exited 2, .fork 1 2 1 12, .reconcile soloProbe, pinned 2]

theorem restores_write_own_masks_unsampledReuse :
    ∃ w, Run.exec step soloWorld unsampledReuse = some w ∧ (2, [0, 1]) ∈ w.restoreWrites .pause ∧
      ∃ i, w.history.find? 2 = some i ∧ i.acted = true ∧ [0, 1] ∈ i.masks := by
  have hend : (Run.exec step soloWorld unsampledReuse).map (fun w =>
      decide (2 ∈ w.kernel.threads ∧ (2, [0, 1]) ∈ w.restoreWrites .pause)) = some true := by
    decide +kernel
  obtain ⟨w, hw, hview⟩ := Option.map_eq_some_iff.1 hend
  obtain ⟨hlive, hwrite⟩ := of_decide_eq_true hview
  obtain ⟨i, hi, hown, -⟩ := restores_write_own_masks soloWorld_initial (by decide +kernel) hw hlive
  exact ⟨w, hw, hwrite, i, hi, hown .pause [0, 1] hwrite⟩

/-- TID 2 is pinned, exits and is given out again, to a thread that inherits CPU 1 alone. -/
def pinnedReuse : List Event :=
  [.fork 1 2 1 11, .reconcile soloProbe, pinned 2, .exit 2, .exited 2, .declare 1 (OrdSet.ofList [1]), .fork 1 2 1 12]

/-- **A restore mask outlives its thread**: the supervisor has handled the exit of the first thread 2, and the restore
still writes that thread's mask to the second, which no batch has touched and whose only mask is `{1}`. -/
theorem restore_writes_earlier_thread :
    ∃ w, Run.exec step soloWorld pinnedReuse = some w ∧ w.kernel.maskOf 2 = some [1] ∧
      (2, [0, 1]) ∈ w.restoreWrites .pause ∧ (w.pause.bind (·.kernel.maskOf 2)) = some [0, 1] ∧
      ∃ i, w.history.find? 2 = some i ∧ i.acted = false ∧ i.masks = [[1]] := by
  have hend : (Run.exec step soloWorld pinnedReuse).map (fun w =>
      decide (w.kernel.maskOf 2 = some [1] ∧ (2, [0, 1]) ∈ w.restoreWrites .pause ∧
        (w.pause.bind (·.kernel.maskOf 2)) = some [0, 1] ∧
        (w.history.find? 2).map (fun i => (i.acted, i.masks)) = some (false, [[1]]))) = some true := by
    decide +kernel
  obtain ⟨w, hw, hview⟩ := Option.map_eq_some_iff.1 hend
  obtain ⟨hmask, hwrite, hafter, hself⟩ := of_decide_eq_true hview
  obtain ⟨i, hi, he⟩ := Option.map_eq_some_iff.1 hself
  exact ⟨w, hw, hmask, hwrite, hafter, i, hi, congrArg Prod.fst he, congrArg Prod.snd he⟩

end World
end AffinityGraph
