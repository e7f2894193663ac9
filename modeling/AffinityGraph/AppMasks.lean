import AffinityGraph.WorldMoves
/-!
# AppMasks — when a full restore gives every thread its application mask

`restore_all` writes to the threads that a batch marked and to no other.  A thread forked from a pinned parent starts
with the policy's mask and no mark, so a restore misses it until a batch or the application gives it a mask of its own;
and what is written is what was noted at the first sample, the mask then on record for the thread's recorded parent.
`Handled` is the condition under which neither goes wrong, `Due` the invariant it gives, and
`pause_gives_application_masks` the law over whole runs.
-/
namespace AffinityGraph
namespace World

/-! ## The runs -/

/-- No TID is given out twice. -/
def NoReuse (w : World) : Event → Prop
  | .fork _ child _ _ => child ∉ w.used
  | _ => True

/-- No backend call fails.  A call for a thread that has exited is not one that failed, and an empty mask is refused
before any call. -/
def NoFailure (w : World) : Event → Prop
  | .apply delta live => (w.batch delta live).result.rollbackSuccess = true ∧
      ((w.batch delta live).stopped.all fun F => decide (F.cpus = [])) = true
  | .restore tids => (w.release tids).result.failed = 0
  | .pause => (Actuator.restoreAll linux w.kernel w.actuator).result.failed = 0
  | _ => True

/-- If the sample is noted, what is noted is the thread's application mask. -/
def NoteRight (history : OrdMap Tid Incarnation) (r : Runtime) (sample : ThreadSample) : Prop :=
  r.actuator.restoreMasks.find? sample.identity.tid = none → r.pendingApplicationMasks.find? sample.identity.tid = none →
  notes (r.lifecycle.find? sample.identity.tid) sample = true →
  ((history.find? sample.identity.tid).all fun i =>
    decide (notedMask r.actuator (r.lifecycle.find? sample.identity.tid) sample = i.appMask)) = true

/-- A condition at every turn of the sampling loop. -/
def EveryTurn (cond : Runtime → ThreadSample → Prop) : Runtime → List ThreadSample → Prop
  | _, [] => True
  | r, s :: l => cond r s ∧ EveryTurn cond (r.sampleThread s) l

theorem EveryTurn.at {cond : Runtime → ThreadSample → Prop} {sample : ThreadSample} {r : Runtime} :
    ∀ {l : List ThreadSample} {r₀ : Runtime}, EveryTurn cond r₀ l → Reaches r₀ l r sample → cond r sample
  | [], _, _, ⟨pre, post, hl, _⟩ => by simp at hl
  | s :: l, r₀, h, ⟨pre, post, hl, hr⟩ => by
    cases pre with
    | nil =>
      simp only [List.nil_append, List.cons.injEq] at hl
      rw [hr, ← hl.1]
      exact h.1
    | cons x pre =>
      simp only [List.cons_append, List.cons.injEq] at hl
      obtain ⟨rfl, hl⟩ := hl
      exact h.2.at ⟨pre, post, hl, hr⟩

/-- **When the supervisor gets it right**: every first sample notes the thread's application mask; once the supervisor
knows a thread, the application does not declare another mask for it than the one still pending; and at a pause every
live thread that was forked under a mask other than its parent's application mask has since been marked by a batch or
declared for by the application. -/
def Handled (w : World) : Event → Prop
  | .reconcile probe =>
      EveryTurn (NoteRight w.history) w.reconciling (samples w.kernel w.runtime.targetTgids probe)
  | .declare tid mask => tid ∈ w.runtime.lifecycle →
      ((w.runtime.pendingApplicationMasks.find? tid).all fun m => decide (m = mask.toList)) = true
  | .pause => ∀ t ∈ w.kernel.threads.keys, ((w.history.find? t).all fun i => !i.foreign) = true
  | _ => True

/-- The supervisor has just started: it has noted nothing, and every thread has its application mask. -/
structure Initial (w : World) : Prop where
  actuator : w.runtime.actuator.restoreMasks = ∅
  lifecycle : w.runtime.lifecycle = ∅
  pending : w.runtime.pendingApplicationMasks = ∅
  graph : w.runtime.graph.threads = ∅
  threads : ∀ t th, w.kernel.threads.find? t = some th →
    t ∈ w.used ∧ w.history.find? t = some { inherited := th.mask.toList }

/-! ## The invariant -/

/-- A live thread of mask `k`, as the supervisor sees it against what it is due. -/
structure Due (v : View) (k : Mask) (i : Incarnation) : Prop where
  record : ∀ m, v.record = some m → m = i.appMask
  left : ¬ v.acted → i.foreign = false → k = i.appMask
  pending : ∀ m, v.pending = some m → m = i.appMask
  known : v.record.isSome = true → v.known
  targeted : v.known → v.targeted
  graphed : v.graphed → v.known
  marked : v.acted → i.foreign = false
  foreign : i.foreign = true → v.graphed ∨ v.dated → v.record.isSome = true

structure AppInv (w : World) : Prop where
  unused : ∀ t, t ∉ w.used → (w.view t).mask = none ∧ (w.view t).record = none ∧ (w.view t).pending = none ∧
    ¬ (w.view t).graphed
  due : ∀ t k, (w.view t).mask = some k → ∃ i, (w.view t).self = some i ∧ Due (w.view t) k i

theorem record_of_acted {w : World} {t : Tid} (h : (w.view t).acted) : (w.view t).record.isSome = true :=
  w.actuator.restorable t h

theorem Initial.appInv {w : World} (h : Initial w) : AppInv w := by
  have hrec : ∀ t, (w.view t).record = none := fun t => by simp [view, World.actuator, h.actuator]
  have hpend : ∀ t, (w.view t).pending = none := fun t => by simp [view, h.pending]
  have hknown : ∀ t, ¬ (w.view t).known := fun t => by simp [view, h.lifecycle]
  have hdated : ∀ t, ¬ (w.view t).dated := fun t => by simp [view, h.lifecycle]
  have hgraph : ∀ t, ¬ (w.view t).graphed := fun t => by simp [view, h.graph]
  refine ⟨fun t ht => ⟨?_, hrec t, hpend t, hgraph t⟩, fun t k hk => ?_⟩
  · cases hm : (w.view t).mask with
    | none => rfl
    | some k =>
      obtain ⟨th, hth, -⟩ := Option.map_eq_some_iff.1 hm
      exact absurd (h.threads t th hth).1 ht
  · obtain ⟨th, hth, hmask⟩ := Option.map_eq_some_iff.1 hk
    refine ⟨_, (h.threads t th hth).2, ?_, fun _ _ => hmask.symm, ?_, ?_, ?_, ?_, fun _ => rfl, ?_⟩
    · intro m hm
      rw [hrec] at hm
      cases hm
    · intro m hm
      rw [hpend] at hm
      cases hm
    · intro hs
      rw [hrec] at hs
      cases hs
    · exact fun hk => absurd hk (hknown t)
    · exact fun hg => absurd hg (hgraph t)
    · intro hf
      cases hf

/-- What a run of the law does at each event. -/
def Lawful (w : World) (e : Event) : Prop := NoReuse w e ∧ NoFailure w e ∧ Handled w e

/-- A thread the kernel has never given out stays untouched. -/
theorem AppInv.unused_step {w w' : World} {e : Event} (h : AppInv w) {t : Tid} (ht : t ∉ w.used) (ht' : t ∉ w'.used)
    (hm : Move w w' e t) : (w'.view t).mask = none ∧ (w'.view t).record = none ∧ (w'.view t).pending = none ∧
      ¬ (w'.view t).graphed := by
  obtain ⟨hmask, hrec, hpend, hgraph⟩ := h.unused t ht
  have hact : ¬ (w.view t).acted := by
    intro ha
    have := record_of_acted ha
    rw [hrec] at this
    cases this
  cases hm with
  | idle mask record acted pending self books =>
    refine ⟨?_, record.trans hrec, ?_, fun hg => hgraph (books.graphed hg)⟩
    · exact mask.elim (fun h => h.trans hmask) id
    · exact pending.elim (fun h => h.trans hpend) And.right
  | born parent tgid starttime event p i parentMask parentSelf mask record acted pending self unknown graphed used =>
    exact absurd used ht'
  | declared m set event asked live mask acted told self books =>
    rw [hmask] at live
    cases live
  | sampled probe event k live mask acted self pending known targeted record =>
    rw [hmask] at live
    cases live
  | reached delta live event cpus graphed alive record pending self books mask acted outcome =>
    exact absurd graphed hgraph
  | restored alive wasActed mask record acted pending self books => exact absurd wasActed hact
  | refused tids event told alive record wasActed acted pending self books => exact absurd wasActed hact
  | paused event alive record acted left written pending self books =>
    exact ⟨(left hact).trans hmask, record, pending.trans hpend, fun hg => hgraph (books.graphed hg)⟩

/-- The part of the invariant that rests on the supervisor's books. -/
theorem Due.books {v v' : View} {k : Mask} {i : Incarnation} (h : Due v k i) (hb : Books v v')
    (hlive : v'.mask.isSome = true) (hrec : v'.record.isSome = true → v.record.isSome = true ∨ v.known) :
    (v'.record.isSome = true → v'.known) ∧ (v'.known → v'.targeted) ∧ (v'.graphed → v'.known) := by
  have hknown : v.known → v'.known := hb.stillKnown h.targeted
  refine ⟨fun hs => ?_, hb.stillTargeted h.targeted hlive, fun hg => hknown (h.graphed (hb.graphed hg))⟩
  rcases hrec hs with hs | hk
  · exact hknown (h.known hs)
  · exact hknown hk

section Steps

variable {v v' : View} {k : Mask} {i : Incarnation}

theorem Due.idle (h : Due v k i) (hlive : v'.mask.isSome = true) (hrec : v'.record = v.record)
    (hact : v'.acted ↔ v.acted) (hpend : v'.pending = v.pending) (hb : Books v v') : Due v' k i := by
  obtain ⟨hknown, htgt, hgr⟩ := h.books hb hlive (fun hs => Or.inl (hrec ▸ hs))
  refine ⟨fun m hm => h.record m (hrec.symm.trans hm), fun hna hf => h.left (fun ha => hna (hact.2 ha)) hf,
    fun m hm => h.pending m (hpend.symm.trans hm), hknown, htgt, hgr, fun ha => h.marked (hact.1 ha), ?_⟩
  intro hf hgd
  rw [hrec]
  exact h.foreign hf (hgd.imp hb.graphed hb.dated)

/-- A thread just forked, whose TID nothing is on record for. -/
theorem Due.born {p : Mask} (hrec : v'.record = none) (hpend : v'.pending = none) (hna : ¬ v'.acted)
    (hunknown : ¬ v'.known) (hundated : ¬ v'.dated) (hgraph : ¬ v'.graphed) :
    Due v' p { inherited := i.appMask, foreign := decide (p ≠ i.appMask) } := by
  refine ⟨?_, ?_, ?_, ?_, fun hk => absurd hk hunknown, fun hg => absurd hg hgraph, fun ha => absurd ha hna, ?_⟩
  · intro m hm
    rw [hrec] at hm
    cases hm
  · intro _ hf
    simpa [Incarnation.appMask] using hf
  · intro m hm
    rw [hpend] at hm
    cases hm
  · intro hs
    rw [hrec] at hs
    cases hs
  · rintro - (hg | hd)
    · exact absurd hg hgraph
    · exact absurd hd hundated

/-- A declaration; `m` is on record at once for a known thread, and pending for another. -/
theorem Due.declared {m : Mask} (h : Due v k i) (hlive : v'.mask.isSome = true)
    (hsame : v.known → ∀ x, v.pending = some x → x = m)
    (htold : v.known ∧ v'.record = some m ∧ v'.pending = v.pending ∨
      ¬ v.known ∧ v'.record = v.record ∧ v'.pending = some m) (hb : Books v v') : Due v' m (i.declare m) := by
  have hnorec : ¬ v.known → v.record = none := by
    intro hnk
    cases hr : v.record with
    | none => rfl
    | some x => exact absurd (h.known (by rw [hr]; rfl)) hnk
  have happ : (i.declare m).appMask = m := rfl
  obtain ⟨hknown, htgt, hgr⟩ := h.books hb hlive (fun hs => by
    rcases htold with ⟨hk, -, -⟩ | ⟨-, hr, -⟩
    · exact Or.inr hk
    · exact Or.inl (hr ▸ hs))
  refine ⟨fun x hx => ?_, fun _ _ => happ.symm, fun x hx => ?_, hknown, htgt, hgr, fun _ => rfl, fun hf => by cases hf⟩
  · rcases htold with ⟨-, hr, -⟩ | ⟨hnk, hr, -⟩
    · exact (Option.some.inj (hr.symm.trans hx)).symm
    · rw [hr, hnorec hnk] at hx
      cases hx
  · rcases htold with ⟨hk, -, hp⟩ | ⟨-, -, hp⟩
    · exact hsame hk x (hp.symm.trans hx)
    · exact (Option.some.inj (hp.symm.trans hx)).symm

/-- A sample; `hrec` is where its record comes from. -/
theorem Due.sampled (h : Due v k i) (hact : v'.acted ↔ v.acted) (hpend : v'.pending = none) (hknown : v'.known)
    (htgt : v'.targeted) (hrec : v'.record = some i.appMask ∨
      v'.record = v.record ∧ (v.record.isSome = true ∨ v.dated)) : Due v' k i := by
  refine ⟨fun m hm => ?_, fun hna hf => h.left (fun ha => hna (hact.2 ha)) hf, fun m hm => ?_, fun _ => hknown,
    fun _ => htgt, fun _ => hknown, fun ha => h.marked (hact.1 ha), fun hf _ => ?_⟩
  · rcases hrec with hr | ⟨hr, -⟩
    · exact (Option.some.inj (hr.symm.trans hm)).symm
    · exact h.record m (hr.symm.trans hm)
  · rw [hpend] at hm
    cases hm
  · rcases hrec with hr | ⟨hr, hs | hd⟩
    · rw [hr]; rfl
    · rw [hr]; exact hs
    · rw [hr]; exact h.foreign hf (Or.inr hd)

/-- The mask a batch keeps for a thread it reaches is its application mask. -/
theorem Due.kept (h : Due v k i) (hgr : v.graphed) (hacted : v.acted → v.record.isSome = true) :
    v.record.getD k = i.appMask := by
  cases hr : v.record with
  | some m => exact h.record m hr
  | none =>
    have hna : ¬ v.acted := by
      intro ha
      have := hacted ha
      rw [hr] at this
      cases this
    refine h.left hna ?_
    cases hf : i.foreign with
    | false => rfl
    | true =>
      have := h.foreign hf (Or.inl hgr)
      rw [hr] at this
      cases this

/-- A batch reached the thread and left it marked, or left it as it was. -/
theorem Due.reached {k' : Mask} {acted : Bool} (h : Due v k i) (hlive : v'.mask.isSome = true) (hgr : v.graphed)
    (hacted : v.acted → v.record.isSome = true) (hrec : v'.record = some (v.record.getD k))
    (hpend : v'.pending = v.pending) (hb : Books v v') (hact : v'.acted ↔ acted = true)
    (hout : v'.acted ∨ (v'.acted ↔ v.acted) ∧ k' = k) : Due v' k' (i.reach k acted) := by
  have happ : (i.reach k acted).appMask = i.appMask := rfl
  obtain ⟨hknown, htgt, hgr'⟩ := h.books hb hlive (fun _ => Or.inr (h.graphed hgr))
  refine ⟨fun m hm => ?_, fun hna hf => ?_, fun m hm => h.pending m (hpend.symm.trans hm), hknown, htgt, hgr',
    fun ha => ?_, fun _ _ => by rw [hrec]; rfl⟩
  · rw [hrec, h.kept hgr hacted] at hm
    exact (Option.some.inj hm).symm
  · rcases hout with ha | ⟨hiff, rfl⟩
    · exact absurd ha hna
    · refine h.left (fun ha => hna (hiff.2 ha)) ?_
      have hno : acted = false := by
        cases acted with
        | false => rfl
        | true => exact absurd (hact.2 rfl) hna
      simpa [Incarnation.reach, hno] using hf
  · simp [Incarnation.reach, hact.1 ha]

/-- The record was written back, or there was none to write; nothing is on record after. -/
theorem Due.released {k' : Mask} (h : Due v k i) (hlive : v'.mask.isSome = true) (hrec : v'.record = none)
    (hact : ¬ v'.acted) (hpend : v'.pending = v.pending) (hb : Books v v') (hk : k' = i.appMask)
    (hf : i.foreign = false) : Due v' k' i := by
  obtain ⟨hknown, htgt, hgr⟩ := h.books hb hlive (fun hs => by rw [hrec] at hs; cases hs)
  refine ⟨fun m hm => ?_, fun _ _ => hk, fun m hm => h.pending m (hpend.symm.trans hm), hknown, htgt, hgr,
    fun ha => absurd ha hact, fun ht => ?_⟩
  · rw [hrec] at hm
    cases hm
  · rw [hf] at ht
    cases ht

end Steps

theorem AppInv.due_step {w w' : World} {e : Event} (h : AppInv w) (hok : Lawful w e) {t : Tid}
    (hm : Move w w' e t) {k' : Mask} (hk' : (w'.view t).mask = some k') :
    ∃ i, (w'.view t).self = some i ∧ Due (w'.view t) k' i := by
  have hlive' : (w'.view t).mask.isSome = true := by rw [hk']; rfl
  cases hm with
  | idle mask record acted pending self books =>
    have hmask : (w.view t).mask = some k' := by
      rcases mask with hm | hm
      · exact hm.symm.trans hk'
      · rw [hm] at hk'; cases hk'
    obtain ⟨i, hi, hd⟩ := h.due t k' hmask
    have hpend : (w'.view t).pending = (w.view t).pending := by
      rcases pending with hp | ⟨hp, -⟩
      · exact hp
      · rw [hp] at hmask; cases hmask
    exact ⟨i, self.trans hi, hd.idle hlive' record acted hpend books⟩
  | born parent tgid starttime event p i parentMask parentSelf mask record acted pending self unknown graphed used =>
    have hfree : t ∉ w.used := by
      have hr := hok.1
      rw [event] at hr
      exact hr
    obtain ⟨-, hrec, hpend, hgraph⟩ := h.unused t hfree
    have hna : ¬ (w'.view t).acted := by
      intro ha
      have hs := record_of_acted (acted.1 ha)
      rw [hrec] at hs
      cases hs
    have hundated : ¬ (w'.view t).dated := fun ⟨x, hx, _⟩ => unknown (OrdMap.mem_of_find hx)
    have hkp : k' = p := Option.some.inj (hk'.symm.trans mask)
    rw [hkp]
    exact ⟨_, self, Due.born (record.trans hrec) (pending.trans hpend) hna unknown hundated
      (fun hg => hgraph (graphed.1 hg))⟩
  | declared m set event asked live mask acted told self books =>
    obtain ⟨k, hk⟩ := Option.isSome_iff_exists.1 live
    obtain ⟨i, hi, hd⟩ := h.due t k hk
    have hsame : (w.view t).known → ∀ x, (w.view t).pending = some x → x = m := by
      intro hknown x hx
      have hh := hok.2.2
      rw [event] at hh
      have hall := hh hknown
      rw [show w.runtime.pendingApplicationMasks.find? t = some x from hx] at hall
      rw [of_decide_eq_true hall, asked]
    have hkm : k' = m := Option.some.inj (hk'.symm.trans mask)
    rw [hkm]
    exact ⟨i.declare m, by rw [self, hi]; rfl, hd.declared hlive' hsame told books⟩
  | sampled probe event k live mask acted self pending known targeted record =>
    obtain ⟨i, hi, hd⟩ := h.due t k live
    have hkk : k' = k := Option.some.inj (hk'.symm.trans mask)
    rw [hkk]
    refine ⟨i, self.trans hi, hd.sampled acted pending known targeted ?_⟩
    rcases record with ⟨m, hp, hr⟩ | ⟨-, hr, hwhy⟩ | ⟨hnone, r, sample, hreach, htid, hobs, hnone', hpnone, hnotes, hr⟩
    · rw [hd.pending m hp] at hr
      exact Or.inl hr
    · exact Or.inr ⟨hr, hwhy⟩
    · have hturn := hok.2.2
      rw [event] at hturn
      have hnote := hturn.at hreach
      unfold NoteRight at hnote
      rw [htid] at hnote
      have hall := hnote hnone' hpnone hnotes
      have hself : w.history.find? t = some i := hi
      rw [hself] at hall
      rw [of_decide_eq_true hall] at hr
      exact Or.inl hr
  | reached delta live event cpus graphed alive record pending self books mask acted outcome =>
    have hfail := hok.2.1
    rw [event] at hfail
    have hleaves : ∀ F, (w.batch delta live).stopped = some F →
        F.tid ∈ w.actuator.actedTids ∨ F.before.WriteLeavesMask F.tid F.cpus := by
      intro F hF
      have hall := hfail.2
      rw [hF] at hall
      exact Or.inr (Or.inl (of_decide_eq_true hall))
    have hout := mask_of_reached hleaves outcome (mask.symm.trans hk')
    obtain ⟨k, hk⟩ := Option.isSome_iff_exists.1 (alive hlive')
    obtain ⟨i, hi, hd⟩ := h.due t k hk
    rw [hk] at record self
    refine ⟨_, by rw [self, hi]; rfl, hd.reached hlive' graphed record_of_acted record pending books ?_ ?_⟩
    · rw [acted]
      simp
    · rcases hout with ha | ⟨hiff, hsame⟩
      · exact Or.inl (acted.2 ha)
      · exact Or.inr ⟨acted.trans hiff, Option.some.inj (hsame.symm.trans hk)⟩
  | restored alive wasActed mask record acted pending self books =>
    obtain ⟨k, hk⟩ := Option.isSome_iff_exists.1 (alive hlive')
    obtain ⟨i, hi, hd⟩ := h.due t k hk
    refine ⟨i, self.trans hi, hd.released hlive' record acted pending books ?_ (hd.marked wasActed)⟩
    rcases mask with hm | hm
    · exact hd.record k' (hm.symm.trans hk')
    · rw [hm] at hk'
      cases hk'
  | refused tids event told alive record wasActed acted pending self books =>
    have hfail := hok.2.1
    rw [event] at hfail
    exact absurd told (by rw [show (w.release tids).result.failed = 0 from hfail]; exact lt_irrefl 0)
  | paused event alive record acted left written pending self books =>
    obtain ⟨k, hk⟩ := Option.isSome_iff_exists.1 (alive hlive')
    obtain ⟨i, hi, hd⟩ := h.due t k hk
    have hok' := hok
    rw [event] at hok'
    obtain ⟨-, hfail, hall⟩ := hok'
    have hforeign : i.foreign = false := by
      have hmem : t ∈ w.kernel.threads.keys := OrdMap.mem_keys.2 (mem_threads_iff.2 (alive hlive'))
      have hown := hall t hmem
      have hself : w.history.find? t = some i := hi
      rw [hself] at hown
      simpa using hown
    refine ⟨i, self.trans hi, hd.released hlive' record acted pending books ?_ hforeign⟩
    by_cases ha : (w.view t).acted
    · rcases written ha with hm | hm | hm
      · exact hd.record k' (hm.symm.trans hk')
      · rw [hm] at hk'
        cases hk'
      · rw [hfail] at hm
        exact absurd hm (lt_irrefl 0)
    · have hkk : k' = k := Option.some.inj (hk'.symm.trans ((left ha).trans hk))
      rw [hkk]
      exact hd.left ha hforeign

theorem AppInv.step {w w' : World} {e : Event} (h : AppInv w) (hok : Lawful w e) (hs : w.step e = some w') :
    AppInv w' := by
  refine ⟨fun t ht' => ?_, fun t k hk => h.due_step hok (step_move hs t) hk⟩
  have ht : t ∉ w.used := fun hu => ht' (used_of_step hs hu)
  exact h.unused_step ht ht' (step_move hs t)

/-! ## The law -/

theorem pause_spec {w w' : World} (h : w.step .pause = some w') : w'.history = w.history ∧
    Kernel.SameTasks w.kernel w'.kernel ∧ ∀ t, ¬ (w'.view t).acted := by
  simp only [World.step, pause, Runtime.pause] at h
  split at h
  · rename_i r hr
    split at hr
    · cases hr
    · cases hr
      cases h
      refine ⟨rfl, ?_, fun t => OrdMap.notMem_empty t⟩
      exact Actuator.restoreAll_keeps (fun k t m => linux_set_sameTasks t m) _ _ (Kernel.SameTasks.refl _)
  · cases h

/-- **After a full restore every live thread has its application mask**, in every run without reuse and without
failures whose events are handled. -/
theorem pause_gives_application_masks {w₀ w' : World} {es : List Event} (h0 : Initial w₀)
    (hrun : Run.Obeys step (fun w e => NoReuse w e ∧ NoFailure w e ∧ Handled w e) w₀ (es ++ [.pause]))
    (hexec : Run.exec step w₀ (es ++ [.pause]) = some w') {t : Tid} {k : Mask} (hlive : w'.kernel.maskOf t = some k) :
    ∃ i, w'.history.find? t = some i ∧ k = i.appMask := by
  have hinv : AppInv w' :=
    hrun.invariant AppInv (fun _ _ _ hi hok hs => hi.step hok hs) h0.appInv hexec
  obtain ⟨w, hw, hs⟩ := Run.exec_concat hexec
  obtain ⟨hhist, hsame, hact⟩ := pause_spec hs
  obtain ⟨i, hi, hd⟩ := hinv.due t k hlive
  refine ⟨i, hi, hd.left (hact t) ?_⟩
  -- the thread was alive before the pause, so it is not a stray
  have hlive' : (w'.view t).mask.isSome = true := by
    rw [show (w'.view t).mask = some k from hlive]
    rfl
  have hmem : t ∈ w.kernel.threads.keys :=
    OrdMap.mem_keys.2 (mem_threads_iff.2 (alive_of_writes hsame hlive'))
  have hown := (hrun.concat.2 w hw).2.2 t hmem
  rw [← hhist, show w'.history.find? t = some i from hi] at hown
  simpa using hown

instance NoReuse.decidable (w : World) (e : Event) : Decidable (NoReuse w e) := by
  cases e <;> dsimp only [NoReuse] <;> infer_instance

instance NoFailure.decidable (w : World) (e : Event) : Decidable (NoFailure w e) := by
  cases e <;> dsimp only [NoFailure] <;> infer_instance

instance EveryTurn.decidable {cond : Runtime → ThreadSample → Prop} [∀ r s, Decidable (cond r s)] :
    ∀ (l : List ThreadSample) (r : Runtime), Decidable (EveryTurn cond r l)
  | [], _ => isTrue trivial
  | s :: l, r =>
    have := @EveryTurn.decidable cond _ l (r.sampleThread s)
    inferInstanceAs (Decidable (cond r s ∧ EveryTurn cond (r.sampleThread s) l))

instance NoteRight.decidable (h : OrdMap Tid Incarnation) (r : Runtime) (s : ThreadSample) :
    Decidable (NoteRight h r s) := by
  dsimp only [NoteRight]
  infer_instance

instance Handled.decidable (w : World) (e : Event) : Decidable (Handled w e) := by
  cases e <;> dsimp only [Handled] <;> infer_instance

/-- One thread, 1, on CPUs 0 and 1, and a supervisor that has just started. -/
def soloWorld : World where
  runtime :=
    { config := { mode := .active, solver := .numaDomain }
      hardware := { cpus := [⟨0, 0, true⟩, ⟨1, 0, true⟩] }
      rootPid := 1
      kernel := { threads := OrdMap.ofList [(1, ⟨1, 10, OrdSet.ofList [0, 1]⟩)] }
      graph := { horizonSeconds := 60, libm := ⟨id, id⟩ }
      targetTgids := OrdSet.ofList [1] }
  history := OrdMap.ofList [(1, { inherited := [0, 1] })]
  used := OrdSet.ofList [1]

theorem soloWorld_initial : Initial soloWorld where
  actuator := rfl
  lifecycle := rfl
  pending := rfl
  graph := rfl
  threads := by
    intro t th h
    have hmem := OrdMap.mem_entries.2 h
    have hone : (t, th) = (1, ⟨1, 10, OrdSet.ofList [0, 1]⟩) := List.mem_singleton.1 hmem
    cases hone
    exact ⟨by decide, rfl⟩

def soloProbe (t : Tid) : ThreadSample := { identity := ⟨1, t, 10⟩, timestampNs := 1000 }

/-- Thread `t` is pinned to CPU 0. -/
def pinned (t : Tid) : Event := .apply { tidToMask := OrdMap.ofList [(t, [0])] } (OrdSet.ofList [t])

/-- A thread is pinned and forks. -/
def pinnedFork : List Event := [.reconcile soloProbe, pinned 1, .fork 1 2 1 11]

/-- The supervisor hears of the fork, samples the new thread and pins it too. -/
def pinnedFamily : List Event :=
  pinnedFork ++ [.started { tgid := 1, tid := 2, parentTid := 1, parentTgid := 1 }, .reconcile soloProbe, pinned 2]

theorem pause_gives_application_masks_pinnedFamily :
    ∃ w', Run.exec step soloWorld (pinnedFamily ++ [.pause]) = some w' ∧
      ∃ i, w'.history.find? 2 = some i ∧ [0, 1] = i.appMask := by
  have hmask : (Run.exec step soloWorld (pinnedFamily ++ [.pause])).map (·.kernel.maskOf 2) = some (some [0, 1]) := by
    decide +kernel
  obtain ⟨w', hw', hlive⟩ := Option.map_eq_some_iff.1 hmask
  exact ⟨w', hw', pause_gives_application_masks soloWorld_initial (by decide +kernel) hw' hlive⟩

/-- **A fork of a pinned thread keeps the policy's mask**: thread 1 is pinned to CPU 0 and forks thread 2; the pause
gives CPUs 0 and 1 back to thread 1 and leaves thread 2 on CPU 0. -/
theorem pause_misses_pinned_fork :
    Initial soloWorld ∧ Run.Obeys step (fun w e => NoReuse w e ∧ NoFailure w e) soloWorld (pinnedFork ++ [.pause]) ∧
    ∃ w', Run.exec step soloWorld (pinnedFork ++ [.pause]) = some w' ∧ w'.kernel.maskOf 1 = some [0, 1] ∧
      w'.kernel.maskOf 2 = some [0] ∧ ∃ i, w'.history.find? 2 = some i ∧ i.appMask = [0, 1] := by
  have hend : (Run.exec step soloWorld (pinnedFork ++ [.pause])).map (fun w =>
      (w.kernel.maskOf 1, w.kernel.maskOf 2, (w.history.find? 2).map (·.appMask))) =
      some (some [0, 1], some [0], some [0, 1]) := by
    decide +kernel
  obtain ⟨w', hw', hview⟩ := Option.map_eq_some_iff.1 hend
  obtain ⟨h1, h2, h3⟩ : w'.kernel.maskOf 1 = some [0, 1] ∧ w'.kernel.maskOf 2 = some [0] ∧
      (w'.history.find? 2).map (·.appMask) = some [0, 1] := by simpa using hview
  exact ⟨soloWorld_initial, by decide +kernel, w', hw', h1, h2, Option.map_eq_some_iff.1 h3⟩

end World
end AffinityGraph
