import AffinityGraph.World
/-!
# WorldMoves — every event of the world, told thread by thread

`View` is what the laws read of one thread: its kernel mask, what the actuator has on it, what the supervisor knows of
it, and its history.  `Move` lists everything one event can do to a thread's view; `step_move` is the case analysis, made
once.
-/
namespace AffinityGraph
namespace World

structure View where
  mask : Option Mask
  record : Option Mask
  acted : Prop
  pending : Option Mask
  known : Prop
  /-- its record has the start time a sample gave it -/
  dated : Prop
  targeted : Prop
  graphed : Prop
  self : Option Incarnation

def view (w : World) (t : Tid) : View where
  mask := w.kernel.maskOf t
  record := w.actuator.restoreMasks.find? t
  acted := t ∈ w.actuator.actedTids
  pending := w.runtime.pendingApplicationMasks.find? t
  known := t ∈ w.runtime.lifecycle
  dated := ∃ record, w.runtime.lifecycle.find? t = some record ∧ record.procStarttime ≠ 0
  targeted := ∃ th, w.kernel.threads.find? t = some th ∧ th.tgid ∈ w.runtime.targetTgids
  graphed := t ∈ w.runtime.graph.threads
  self := w.history.find? t

/-- What the supervisor's own books may do while an event is about something else: a live thread of a target stays
known and targeted, nothing is dated and nothing enters the graph. -/
structure Books (v v' : View) : Prop where
  kept : v.known → v.targeted → v'.known
  fresh : v'.mask.isSome = true → v'.known → v.known ∨ v'.targeted
  dated : v'.dated → v.dated
  targeted : v'.mask.isSome = true → v.targeted → v'.targeted
  graphed : v'.graphed → v.graphed

/-- A sample is noted when it is a thread's first. -/
def notes (life : Option LifecycleRecord) (sample : ThreadSample) : Bool :=
  Runtime.isFresh life sample || life.any (fun record => decide (record.procStarttime = 0))

/-- The thread a sample's thread is taken to inherit from. -/
def notedParent (life : Option LifecycleRecord) (sample : ThreadSample) : Tid :=
  match life with
  | none => sample.identity.tgid
  | some record => if Runtime.isFresh life sample then sample.identity.tgid else record.parentTid

/-- The mask noted for it. -/
def notedMask (a : Actuator) (life : Option LifecycleRecord) (sample : ThreadSample) : Mask :=
  (a.restoreMasks.find? (notedParent life sample)).getD sample.allowedCpus

/-- The loop over the samples `l` comes to `sample` in the state `r`. -/
def Reaches (r₀ : Runtime) (l : List ThreadSample) (r : Runtime) (sample : ThreadSample) : Prop :=
  ∃ pre post, l = pre ++ sample :: post ∧ r = pre.foldl Runtime.sampleThread r₀

/-- The runtime the sampling loop begins with. -/
def reconciling (w : World) : Runtime :=
  { w.runtime with targetTgids := existing w.kernel w.runtime.targetTgids }

inductive Move (w w' : World) (e : Event) (t : Tid) : Prop
  | idle (mask : (w'.view t).mask = (w.view t).mask ∨ (w'.view t).mask = none)
      (record : (w'.view t).record = (w.view t).record) (acted : (w'.view t).acted ↔ (w.view t).acted)
      (pending : (w'.view t).pending = (w.view t).pending ∨ (w.view t).mask = none ∧ (w'.view t).pending = none)
      (self : (w'.view t).self = (w.view t).self) (books : Books (w.view t) (w'.view t))
  | born (parent : Tid) (tgid : Int) (starttime : Nat) (event : e = .fork parent t tgid starttime)
      (p : Mask) (i : Incarnation) (parentMask : (w.view parent).mask = some p) (parentSelf : (w.view parent).self = some i)
      (mask : (w'.view t).mask = some p) (record : (w'.view t).record = (w.view t).record)
      (acted : (w'.view t).acted ↔ (w.view t).acted) (pending : (w'.view t).pending = (w.view t).pending)
      (self : (w'.view t).self = some { inherited := i.appMask, foreign := decide (p ≠ i.appMask) })
      (unknown : ¬ (w'.view t).known) (graphed : (w'.view t).graphed ↔ (w.view t).graphed) (used : t ∈ w'.used)
  | declared (m : Mask) (set : OrdSet Int) (event : e = .declare t set) (asked : set.toList = m)
      (live : (w.view t).mask.isSome = true)
      (mask : (w'.view t).mask = some m)
      (acted : (w'.view t).acted ↔ (w.view t).acted)
      (told : (w.view t).known ∧ (w'.view t).record = some m ∧ (w'.view t).pending = (w.view t).pending ∨
        ¬ (w.view t).known ∧ (w'.view t).record = (w.view t).record ∧ (w'.view t).pending = some m)
      (self : (w'.view t).self = (w.view t).self.map (·.declare m)) (books : Books (w.view t) (w'.view t))
  | sampled (probe : Tid → ThreadSample) (event : e = .reconcile probe) (k : Mask) (live : (w.view t).mask = some k)
      (mask : (w'.view t).mask = some k) (acted : (w'.view t).acted ↔ (w.view t).acted)
      (self : (w'.view t).self = (w.view t).self) (pending : (w'.view t).pending = none)
      (known : (w'.view t).known) (targeted : (w'.view t).targeted)
      (record : (∃ m, (w.view t).pending = some m ∧ (w'.view t).record = some m) ∨
        (w.view t).pending = none ∧ (w'.view t).record = (w.view t).record ∧
          ((w.view t).record.isSome = true ∨ (w.view t).dated) ∨
        (w.view t).record = none ∧ ∃ r sample,
          Reaches w.reconciling (samples w.kernel w.runtime.targetTgids probe) r sample ∧ sample.identity.tid = t ∧
          sample.allowedCpus = k ∧ r.actuator.restoreMasks.find? t = none ∧
          r.pendingApplicationMasks.find? t = none ∧ notes (r.lifecycle.find? t) sample = true ∧
          (w'.view t).record = some (notedMask r.actuator (r.lifecycle.find? t) sample))
  | reached (delta : PlacementDelta) (live : OrdSet Tid) (event : e = .apply delta live) (cpus : Mask)
      (graphed : (w.view t).graphed) (alive : (w'.view t).mask.isSome = true → (w.view t).mask.isSome = true)
      (record : (w'.view t).record = some ((w.view t).record.getD ((w.view t).mask.getD [])))
      (pending : (w'.view t).pending = (w.view t).pending)
      (self : (w'.view t).self = (w.view t).self.map (fun i => i.reach ((w.view t).mask.getD [])
        (decide (t ∈ (w.batch delta live).actuator.actedTids))))
      (books : Books (w.view t) (w'.view t)) (mask : (w'.view t).mask = (w.batch delta live).backend.maskOf t)
      (acted : (w'.view t).acted ↔ t ∈ (w.batch delta live).actuator.actedTids)
      (outcome : Actuator.WriteOutcome linuxView w.kernel w.actuator cpus (w.batch delta live) t)
  | restored (alive : (w'.view t).mask.isSome = true → (w.view t).mask.isSome = true)
      (wasActed : (w.view t).acted) (mask : (w'.view t).mask = (w.view t).record ∨ (w'.view t).mask = none)
      (record : (w'.view t).record = none) (acted : ¬ (w'.view t).acted)
      (pending : (w'.view t).pending = (w.view t).pending) (self : (w'.view t).self = (w.view t).self)
      (books : Books (w.view t) (w'.view t))
  | refused (tids : OrdSet Tid) (event : e = .restore tids) (told : 0 < (w.release tids).result.failed)
      (alive : (w'.view t).mask.isSome = true → (w.view t).mask.isSome = true)
      (record : (w'.view t).record = (w.view t).record) (wasActed : (w.view t).acted) (acted : (w'.view t).acted)
      (pending : (w'.view t).pending = (w.view t).pending) (self : (w'.view t).self = (w.view t).self)
      (books : Books (w.view t) (w'.view t))
  | paused (event : e = .pause) (alive : (w'.view t).mask.isSome = true → (w.view t).mask.isSome = true)
      (record : (w'.view t).record = none) (acted : ¬ (w'.view t).acted)
      (left : ¬ (w.view t).acted → (w'.view t).mask = (w.view t).mask)
      (written : (w.view t).acted → (w'.view t).mask = (w.view t).record ∨ (w'.view t).mask = none ∨
        0 < (Actuator.restoreAll linux w.kernel w.actuator).result.failed)
      (pending : (w'.view t).pending = (w.view t).pending) (self : (w'.view t).self = (w.view t).self)
      (books : Books (w.view t) (w'.view t))

theorem Books.refl (v : View) : Books v v := ⟨fun h _ => h, fun _ => Or.inl, id, fun _ h => h, id⟩

/-- The books when neither the kernel's table nor the supervisor's moved, but for masks. -/
theorem Books.of_eq {v v' : View} (hk : v'.known ↔ v.known) (hd : v'.dated ↔ v.dated)
    (ht : v'.targeted ↔ v.targeted) (hg : v'.graphed ↔ v.graphed) : Books v v' :=
  ⟨fun h _ => hk.2 h, fun _ h => Or.inl (hk.1 h), hd.1, fun _ h => ht.2 h, hg.1⟩

section Books

variable {v v' : View} (h : Books v v') (ht : v.known → v.targeted)

include h ht

/-- A known thread is a target's, so no reconciliation drops it. -/
theorem Books.stillKnown (hk : v.known) : v'.known := h.kept hk (ht hk)

theorem Books.stillTargeted (hlive : v'.mask.isSome = true) (hk : v'.known) : v'.targeted := by
  rcases h.fresh hlive hk with hk | htgt
  · exact h.targeted hlive (ht hk)
  · exact htgt

end Books

/-! ## The application's events -/

section Application

variable {w w' : World} {t : Tid}

theorem mem_threads_iff {k : Kernel} {t : Tid} : t ∈ k.threads ↔ (k.maskOf t).isSome = true := by
  rw [OrdMap.mem_def, Kernel.maskOf, Option.isSome_map]

theorem fork_move {parent child : Tid} {tgid : Int} {starttime : Nat}
    (h : w.fork parent child tgid starttime = some w') : Move w w' (.fork parent child tgid starttime) t := by
  unfold fork at h
  split at h
  · rename_i th i hth hi
    split at h
    · cases h
    · rename_i hfree
      rw [not_or] at hfree
      cases h
      by_cases hc : child = t
      · subst hc
        refine .born parent tgid starttime rfl th.mask.toList i ?_ hi ?_ rfl Iff.rfl rfl ?_ hfree.2 Iff.rfl ?_
        · simp [view, Kernel.maskOf, hth]
        · simp [view, kernel, Kernel.maskOf]
        · simp [view]
        · simp
      · refine .idle (Or.inl ?_) rfl Iff.rfl (Or.inl rfl) ?_ (Books.of_eq Iff.rfl Iff.rfl ?_ Iff.rfl)
        · simp [view, kernel, Kernel.maskOf, OrdMap.find?_insert_ne _ _ hc]
        · simp [view, OrdMap.find?_insert_ne _ _ hc]
        · simp [view, kernel, OrdMap.find?_insert_ne _ _ hc]
  · cases h

theorem exit_move (w : World) (tid t : Tid) : Move w (w.exit tid) (.exit tid) t := by
  by_cases hc : tid = t
  · subst hc
    refine .idle (Or.inr ?_) rfl Iff.rfl (Or.inl rfl) rfl ⟨fun h _ => h, fun _ => Or.inl, id, ?_, id⟩
    · simp [view, exit, kernel, Kernel.maskOf]
    · simp [view, exit, kernel, Kernel.maskOf]
  · refine .idle (Or.inl ?_) rfl Iff.rfl (Or.inl rfl) rfl (Books.of_eq Iff.rfl Iff.rfl ?_ Iff.rfl)
    · simp [view, exit, kernel, Kernel.maskOf, OrdMap.find?_erase_ne _ hc]
    · simp [view, exit, kernel, OrdMap.find?_erase_ne _ hc]

theorem exited_move {tid : Tid} (h : w.exited tid = some w') : Move w w' (.exited tid) t := by
  unfold exited at h
  split at h
  · cases h
  · rename_i hdead
    cases h
    by_cases hc : tid = t
    · subst hc
      have hmask : (w.view tid).mask = none := by
        rw [mem_threads_iff] at hdead
        simpa [view] using hdead
      refine .idle (Or.inl rfl) rfl Iff.rfl (Or.inr ⟨hmask, ?_⟩) rfl ⟨?_, ?_, ?_, fun _ h => h, id⟩
      · simp [view, Runtime.threadExited]
      · rintro - ⟨th, hth, -⟩
        exact absurd (OrdMap.mem_of_find hth) hdead
      · intro _ hk
        simp [view, Runtime.threadExited] at hk
      · intro hk
        simp [view, Runtime.threadExited] at hk
    · refine .idle (Or.inl rfl) rfl Iff.rfl (Or.inl ?_) rfl (Books.of_eq ?_ ?_ Iff.rfl Iff.rfl)
      · simp [view, Runtime.threadExited, OrdMap.find?_erase_ne _ hc]
      · simp [view, Runtime.threadExited, hc]
      · simp [view, Runtime.threadExited, OrdMap.find?_erase_ne _ hc]

theorem started_move {record : LifecycleRecord} (h : w.started record = some w') :
    Move w w' (.started record) t := by
  unfold started at h
  split at h
  · rename_i hok
    cases h
    have hgrow : ∀ g, g ∈ w.runtime.targetTgids → g ∈ (w.runtime.threadStarted record).targetTgids := by
      intro g hg
      unfold Runtime.threadStarted
      dsimp only
      split
      · exact OrdSet.mem_add.2 (Or.inr hg)
      · exact hg
    refine .idle (Or.inl rfl) rfl Iff.rfl (Or.inl rfl) rfl ⟨?_, ?_, ?_, ?_, id⟩
    · intro hk _
      exact OrdMap.mem_insert.2 (Or.inr hk)
    · intro hlive hk
      rcases OrdMap.mem_insert.1 hk with rfl | hk
      · -- the event names the process of a live thread, and that process is now a target
        obtain ⟨th, hth⟩ := OrdMap.mem_iff.1 (mem_threads_iff.2 hlive)
        have hproc := hok.2
        have hth' : w.kernel.threads.find? record.tid = some th := hth
        rw [hth'] at hproc
        obtain ⟨htg, hpos⟩ := of_decide_eq_true hproc
        refine Or.inr ⟨th, hth, ?_⟩
        unfold Runtime.threadStarted
        dsimp only
        rw [if_pos hpos, htg]
        exact OrdSet.mem_add.2 (Or.inl rfl)
      · exact Or.inl hk
    · rintro ⟨x, hx, hdate⟩
      have hins : (w.runtime.lifecycle.insert record.tid record).find? t = some x := hx
      rw [OrdMap.find?_insert] at hins
      split at hins
      · cases hins
        exact absurd hok.1 hdate
      · exact ⟨x, hins, hdate⟩
    · rintro - ⟨th, hth, hg⟩
      exact ⟨th, hth, hgrow _ hg⟩
  · cases h

theorem find?_putMask (k : Kernel) (tid : Tid) (th : KThread) (mask : OrdSet Int) (u : Tid) :
    (k.putMask tid th mask).threads.find? u =
      if tid = u then some { th with mask := mask } else k.threads.find? u := OrdMap.find?_insert _ _ _ _

theorem declare_move {tid : Tid} {mask : OrdSet Int} (h : w.declare tid mask = some w') :
    Move w w' (.declare tid mask) t := by
  unfold declare at h
  split at h
  · rename_i th hth
    split at h
    · cases h
    · rename_i hne
      cases h
      have hm : mask.toList ≠ [] := by
        intro he
        have : mask.entries = [] := List.map_eq_nil_iff.1 he
        exact hne (by rw [OrdMap.isEmpty, this]; rfl)
      have hlive : (w.view tid).mask.isSome = true := mem_threads_iff.1 (OrdMap.mem_of_find hth)
      have hth' : w.runtime.kernel.threads.find? tid = some th := hth
      unfold Runtime.applicationAffinity
      rw [if_neg hm]
      by_cases hc : tid = t
      · subst hc
        have hself := (find?_declared w.history tid mask.toList tid).trans (if_pos rfl)
        by_cases hk : tid ∈ w.runtime.lifecycle
        · rw [if_pos (by exact hk)]
          refine .declared mask.toList mask rfl rfl hlive ?_ Iff.rfl (Or.inl ⟨hk, ?_, rfl⟩) hself (Books.of_eq Iff.rfl Iff.rfl ?_ Iff.rfl)
          · simp [view, kernel, Kernel.maskOf_putMask]
          · simp [view, actuator, Actuator.noteApplicationMask]
          · simp [view, kernel, find?_putMask, hth']
        · rw [if_neg (by exact hk)]
          refine .declared mask.toList mask rfl rfl hlive ?_ Iff.rfl (Or.inr ⟨hk, rfl, ?_⟩) hself (Books.of_eq Iff.rfl Iff.rfl ?_ Iff.rfl)
          · simp [view, kernel, Kernel.maskOf_putMask]
          · simp [view]
          · simp [view, kernel, find?_putMask, hth']
      · have hself := (find?_declared w.history tid mask.toList t).trans (if_neg hc)
        by_cases hk : tid ∈ w.runtime.lifecycle
        · rw [if_pos (by exact hk)]
          refine .idle (Or.inl ?_) ?_ Iff.rfl (Or.inl rfl) hself (Books.of_eq Iff.rfl Iff.rfl ?_ Iff.rfl)
          · simp [view, kernel, Kernel.maskOf_putMask, hc]
          · exact OrdMap.find?_insert_ne _ _ hc
          · simp [view, kernel, find?_putMask, hc]
        · rw [if_neg (by exact hk)]
          refine .idle (Or.inl ?_) rfl Iff.rfl (Or.inl ?_) hself (Books.of_eq Iff.rfl Iff.rfl ?_ Iff.rfl)
          · simp [view, kernel, Kernel.maskOf_putMask, hc]
          · exact OrdMap.find?_insert_ne _ _ hc
          · simp [view, kernel, find?_putMask, hc]
  · cases h

end Application

/-! ## The policy's events -/

section Policy

variable {w w' : World} {t : Tid}

/-- The books after writes: only masks and exits can have changed in the kernel's table. -/
theorem Books.of_writes {w w' : World} (hk : Kernel.SameTasks w.kernel w'.kernel)
    (hlife : w'.runtime.lifecycle = w.runtime.lifecycle) (htg : w'.runtime.targetTgids = w.runtime.targetTgids)
    (hg : w'.runtime.graph = w.runtime.graph) : Books (w.view t) (w'.view t) := by
  refine ⟨fun h _ => ?_, fun _ h => Or.inl ?_, fun h => ?_, fun hlive ⟨th, hth, hmem⟩ => ?_, fun h => ?_⟩
  · simpa [view, hlife] using h
  · simpa [view, hlife] using h
  · simpa [view, hlife] using h
  · obtain ⟨th', hth'⟩ := OrdMap.mem_iff.1 (mem_threads_iff.2 hlive)
    obtain ⟨th₀, hth₀, htgid, -⟩ := hk t th' hth'
    have heq : th₀ = th := Option.some.inj (hth₀.symm.trans hth)
    exact ⟨th', hth', by rw [htgid, heq, htg]; exact hmem⟩
  · simpa [view, hg] using h

theorem alive_of_writes {w w' : World} (hk : Kernel.SameTasks w.kernel w'.kernel)
    (h : (w'.view t).mask.isSome = true) : (w.view t).mask.isSome = true := by
  obtain ⟨th', hth'⟩ := OrdMap.mem_iff.1 (mem_threads_iff.2 h)
  obtain ⟨th, hth, -⟩ := hk t th' hth'
  exact mem_threads_iff.1 (OrdMap.mem_of_find hth)

theorem apply_move {delta : PlacementDelta} {live : OrdSet Tid} (h : w.apply delta live = some w') :
    Move w w' (.apply delta live) t := by
  unfold apply at h
  split at h
  · rename_i hlive
    cases h
    have hkeep : Kernel.SameTasks w.kernel (w.batch delta live).backend :=
      Actuator.applyRun_keeps (fun k t m => linux_set_sameTasks t m) _ _ _ _ (Kernel.SameTasks.refl _)
    have hself : (w.history.mapVal (reachedBy (w.batch delta live))).find? t =
        (w.history.find? t).map (reachedBy (w.batch delta live) t) := OrdMap.find?_mapVal _ _ _
    have heff := Actuator.applyRun_effect linuxView w.kernel w.actuator (Actuator.deltaMasks delta) live t
    change Actuator.ApplyEffect linuxView w.kernel w.actuator (Actuator.deltaMasks delta) live (w.batch delta live) t
      at heff
    rcases heff with ⟨hmask, hrec, hact, hno, -, -⟩ | ⟨cpus, hasked, halive, htried, hrec, hout⟩
    · refine .idle (Or.inl hmask) hrec hact (Or.inl rfl) ?_ (Books.of_writes hkeep rfl rfl rfl)
      refine hself.trans ?_
      have hid : reachedBy (w.batch delta live) t = id := by
        funext i
        simp [reachedBy, hno]
      rw [hid, Option.map_id]
      rfl
    · have hget : linux.get w.kernel t = (w.view t).mask.getD [] := linux_get_eq w.kernel t
      rw [hget] at htried hrec
      have hgr : (w.view t).graphed := by
        have hmem := List.all_eq_true.1 hlive t (OrdSet.mem_toList.2 halive)
        simpa [view] using hmem
      refine .reached delta live rfl cpus hgr (alive_of_writes hkeep) hrec rfl ?_ (Books.of_writes hkeep rfl rfl rfl) rfl Iff.rfl hout
      refine hself.trans ?_
      congr 1
      funext i
      simp only [reachedBy, htried]
  · cases h

theorem restore_move (w : World) (tids : OrdSet Tid) (t : Tid) : Move w (w.restore tids) (.restore tids) t := by
  have hkeep : Kernel.SameTasks w.kernel (w.release tids).backend :=
    Actuator.restore_keeps (fun k t m => linux_set_sameTasks t m) _ _ _ (Kernel.SameTasks.refl _)
  have hbooks : Books (w.view t) ((w.restore tids).view t) := Books.of_writes hkeep rfl rfl rfl
  have heff := Actuator.restore_effect linuxView w.kernel w.actuator tids t
  rcases heff with ⟨-, hmask, hrec, hact⟩ | ⟨-, hwas, hmask, hrec, hact⟩ | ⟨-, hwas, hrec, hact, htold⟩
  · exact .idle (Or.inl hmask) hrec hact (Or.inl rfl) rfl hbooks
  · refine .restored (alive_of_writes hkeep) hwas ?_ hrec hact rfl rfl hbooks
    rw [← Actuator.restoreMaskOf_eq hwas] at hmask
    exact hmask
  · exact .refused tids rfl htold (alive_of_writes hkeep) hrec hwas hact rfl rfl hbooks

theorem pause_move (h : w.pause = some w') : Move w w' .pause t := by
  unfold pause Runtime.pause at h
  split at h
  · rename_i r hr
    split at hr
    · cases hr
    · cases hr
      cases h
      have hkeep : Kernel.SameTasks w.kernel (Actuator.restoreAll linux w.kernel w.actuator).backend :=
        Actuator.restoreAll_keeps (fun k t m => linux_set_sameTasks t m) _ _ (Kernel.SameTasks.refl _)
      obtain ⟨-, hleft, hwritten⟩ := Actuator.restoreAll_effect linuxView w.kernel w.actuator t
      refine .paused rfl (alive_of_writes hkeep) rfl ?_ hleft (fun hacted => ?_) rfl rfl (Books.of_writes hkeep rfl rfl rfl)
      · exact OrdMap.notMem_empty t
      · have := hwritten hacted
        rw [← Actuator.restoreMaskOf_eq hacted] at this
        exact this
  · cases h

/-- **Where a batch leaves a live thread it reached**: marked, or as it was, unless the write it failed at changed the
mask of a thread without a mark. -/
theorem mask_of_reached {w : World} {delta : PlacementDelta} {live : OrdSet Tid} {cpus k' : Mask}
    (hleaves : ∀ F, (w.batch delta live).stopped = some F →
      F.tid ∈ w.actuator.actedTids ∨ F.before.WriteLeavesMask F.tid F.cpus)
    (hout : Actuator.WriteOutcome linuxView w.kernel w.actuator cpus (w.batch delta live) t)
    (hk' : (w.batch delta live).backend.maskOf t = some k') :
    t ∈ (w.batch delta live).actuator.actedTids ∨
    (t ∈ (w.batch delta live).actuator.actedTids ↔ t ∈ w.actuator.actedTids) ∧ w.kernel.maskOf t = some k' := by
  cases hout with
  | committed ok nonempty alive mask acted told => exact Or.inl acted
  | vanished mask acted told untold =>
    have hnone : (w.batch delta live).backend.maskOf t = none := mask
    rw [hnone] at hk'
    cases hk'
  | failed F stop tid asked error write before mask acted =>
    rcases hleaves F stop with hacted | hsame
    · rw [tid] at hacted
      exact Or.inl (acted.2 hacted)
    · rw [tid, asked] at hsame
      have hkept := (writeMask_linux_leaves_iff write error).2 hsame
      have hback : (w.batch delta live).backend.maskOf t = w.kernel.maskOf t := (mask.trans hkept).trans before
      exact Or.inr ⟨acted, hback.symm.trans hk'⟩
  | rolledBack stop nonempty alive mask acted =>
    refine Or.inr ⟨acted, ?_⟩
    rcases mask with hm | hm
    · have hback : (w.batch delta live).backend.maskOf t = w.kernel.maskOf t := hm
      exact hback.symm.trans hk'
    · have hnone : (w.batch delta live).backend.maskOf t = none := hm
      rw [hnone] at hk'
      cases hk'
  | stuck stop nonempty alive acted told => exact Or.inl acted

end Policy

/-! ## The reconciliation -/

section Reconcile

theorem mem_samples {k : Kernel} {targets : OrdSet Int} {probe : Tid → ThreadSample} {s : ThreadSample} :
    s ∈ samples k targets probe ↔
      ∃ t th, k.threads.find? t = some th ∧ th.tgid ∈ targets ∧ s = sampleOf probe (t, th) := by
  simp only [samples, tasksOf, List.mem_flatMap, List.mem_map, List.mem_filter, OrdSet.mem_toList, decide_eq_true_eq]
  constructor
  · rintro ⟨g, hg, ⟨t, th⟩, ⟨hmem, htg⟩, rfl⟩
    exact ⟨t, th, OrdMap.mem_entries.1 hmem, by rw [← htg] at hg; exact hg, rfl⟩
  · rintro ⟨t, th, hth, hg, rfl⟩
    exact ⟨th.tgid, hg, (t, th), ⟨OrdMap.mem_entries.2 hth, rfl⟩, rfl⟩

/-- No thread is sampled twice: it is a task of one process. -/
theorem nodup_samples (k : Kernel) (targets : OrdSet Int) (probe : Tid → ThreadSample) :
    ((samples k targets probe).map (fun s => s.identity.tid)).Nodup := by
  have hpiece : ∀ g, ((tasksOf k g).map (sampleOf probe)).map (fun s => s.identity.tid) = (tasksOf k g).map Prod.fst := by
    intro g
    rw [List.map_map]
    rfl
  rw [samples, List.map_flatMap, List.nodup_flatMap]
  refine ⟨fun g _ => ?_, ?_⟩
  · rw [hpiece]
    exact (OrdMap.nodup_keys k.threads).sublist (List.filter_sublist.map _)
  · refine (OrdMap.sorted_keys targets).imp (fun {a b} hab => ?_)
    change List.Disjoint (((tasksOf k a).map (sampleOf probe)).map (fun s => s.identity.tid))
      (((tasksOf k b).map (sampleOf probe)).map (fun s => s.identity.tid))
    rw [hpiece, hpiece]
    intro t ha hb
    obtain ⟨⟨_, th₁⟩, h1, rfl⟩ := List.mem_map.1 ha
    obtain ⟨⟨_, th₂⟩, h2, he⟩ := List.mem_map.1 hb
    obtain ⟨hm1, hg1⟩ := List.mem_filter.1 h1
    obtain ⟨hm2, hg2⟩ := List.mem_filter.1 h2
    dsimp only at he
    subst he
    have heq : th₁ = th₂ := Option.some.inj ((OrdMap.mem_entries.1 hm1).symm.trans (OrdMap.mem_entries.1 hm2))
    have h3 := of_decide_eq_true hg1
    have h4 := of_decide_eq_true hg2
    dsimp only at h3 h4
    rw [heq] at h3
    exact absurd (h3.symm.trans h4) (ne_of_lt hab)

/-- What the sampling loop reads and writes of one thread. -/
def sampleSlot (r : Runtime) (u : Tid) : Option Mask × Option Mask × Option LifecycleRecord :=
  (r.actuator.restoreMasks.find? u, r.pendingApplicationMasks.find? u, r.lifecycle.find? u)

theorem noteSample_actuator (a : Actuator) (life : Option LifecycleRecord) (sample : ThreadSample) :
    (Runtime.noteSample a life sample).2 =
      if notes life sample then
        a.noteInheritedMask sample.identity.tid (notedParent life sample) sample.allowedCpus
      else a := by
  unfold Runtime.noteSample notes notedParent
  cases life with
  | none => simp [Runtime.isFresh]
  | some record =>
    by_cases hf : Runtime.isFresh (some record) sample = true
    · simp [hf]
    · by_cases hp : record.procStarttime = 0
      · simp [hf, hp]
      · simp [hf, hp]

theorem find?_noteSample (a : Actuator) (life : Option LifecycleRecord) (sample : ThreadSample) (u : Tid)
    (h : sample.identity.tid ≠ u) :
    (Runtime.noteSample a life sample).2.restoreMasks.find? u = a.restoreMasks.find? u := by
  rw [noteSample_actuator]
  split
  · exact (a.find?_noteInheritedMask _ _ _ _).trans (if_neg h)
  · rfl

/-- A record is kept; a thread without one is noted when the sample is its first. -/
theorem noteSample_self (a : Actuator) (life : Option LifecycleRecord) (sample : ThreadSample) :
    let a' := (Runtime.noteSample a life sample).2
    a'.restoreMasks.find? sample.identity.tid = a.restoreMasks.find? sample.identity.tid ∧
      ((a.restoreMasks.find? sample.identity.tid).isSome = true ∨ notes life sample = false) ∨
    a.restoreMasks.find? sample.identity.tid = none ∧ notes life sample = true ∧
      a'.restoreMasks.find? sample.identity.tid = some (notedMask a life sample) := by
  dsimp only
  rw [noteSample_actuator]
  cases hn : notes life sample with
  | false => exact Or.inl ⟨rfl, Or.inr rfl⟩
  | true =>
    rw [if_pos rfl, a.find?_noteInheritedMask, if_pos rfl]
    cases hr : a.restoreMasks.find? sample.identity.tid with
    | some m => exact Or.inl ⟨rfl, Or.inl rfl⟩
    | none => exact Or.inr ⟨rfl, rfl, rfl⟩

/-- A thread whose sample is not noted has a dated record. -/
theorem dated_of_not_notes {life : Option LifecycleRecord} {sample : ThreadSample} (h : notes life sample = false) :
    ∃ record, life = some record ∧ record.procStarttime ≠ 0 := by
  cases life with
  | none => simp [notes, Runtime.isFresh] at h
  | some record =>
    refine ⟨record, rfl, fun h0 => ?_⟩
    simp [notes, h0] at h

theorem sampleThread_local : Loop.Local sampleSlot (fun s : ThreadSample => s.identity.tid) Runtime.sampleThread := by
  intro r s u hu
  have hnote := find?_noteSample r.actuator (r.lifecycle.find? s.identity.tid) s u hu
  unfold sampleSlot Runtime.sampleThread
  dsimp only
  refine Prod.ext ?_ (Prod.ext ?_ ?_)
  · dsimp only
    split
    · exact (OrdMap.find?_insert_ne _ _ hu).trans hnote
    · exact hnote
  · exact OrdMap.find?_erase_ne _ hu
  · exact OrdMap.find?_insert_ne _ _ hu

theorem existing_of_mem {k : Kernel} {targets : OrdSet Int} {t : Tid} {th : KThread}
    (hth : k.threads.find? t = some th) (hg : th.tgid ∈ targets) : th.tgid ∈ existing k targets := by
  obtain ⟨u, hu⟩ := OrdMap.mem_iff.1 hg
  have hmem : (t, th) ∈ tasksOf k th.tgid := List.mem_filter.2 ⟨OrdMap.mem_entries.2 hth, by simp⟩
  have hne : (tasksOf k th.tgid).isEmpty = false := by
    cases hl : tasksOf k th.tgid with
    | nil => rw [hl] at hmem; cases hmem
    | cons _ _ => rfl
  rw [OrdMap.mem_def, existing, OrdMap.find?_filter, hu]
  simp [hne]

theorem mem_existing {k : Kernel} {targets : OrdSet Int} {g : Int} (h : g ∈ existing k targets) : g ∈ targets := by
  rw [OrdMap.mem_def, existing, OrdMap.find?_filter] at h
  rw [OrdMap.mem_def]
  cases hf : targets.find? g with
  | none => simp [hf] at h
  | some x => rfl

/-- The runtime a reconciliation that found tasks leaves, field by field. -/
structure Reconciled (w : World) (probe : Tid → ThreadSample) (r : Runtime) : Prop where
  kernel : r.kernel = w.kernel
  targets : r.targetTgids = existing w.kernel w.runtime.targetTgids
  actuator : r.actuator = ((samples w.kernel w.runtime.targetTgids probe).foldl Runtime.sampleThread w.reconciling).actuator
  pending : r.pendingApplicationMasks =
    ((samples w.kernel w.runtime.targetTgids probe).foldl Runtime.sampleThread w.reconciling).pendingApplicationMasks
  lifecycle : ∀ t, t ∈ r.lifecycle ↔
    t ∈ ((samples w.kernel w.runtime.targetTgids probe).foldl Runtime.sampleThread w.reconciling).lifecycle ∧
    ∃ s ∈ samples w.kernel w.runtime.targetTgids probe, s.identity.tid = t
  graph : ∀ t, t ∈ r.graph.threads → t ∈ w.runtime.graph.threads ∨
    ∃ s ∈ samples w.kernel w.runtime.targetTgids probe, s.identity.tid = t

theorem reconciled_spec (w : World) (probe : Tid → ThreadSample) :
    samples w.kernel w.runtime.targetTgids probe = [] ∧ w.reconciled probe = w.runtime ∨
    Reconciled w probe (w.reconciled probe) := by
  unfold reconciled Runtime.reconcileAndSample
  cases hs : samples w.kernel w.runtime.targetTgids probe with
  | nil => exact Or.inl ⟨rfl, rfl⟩
  | cons s l =>
    refine Or.inr ?_
    rw [← hs]
    have hframe := Runtime.foldl_sampleThread_frame (samples w.kernel w.runtime.targetTgids probe) w.reconciling
    have hne : (samples w.kernel w.runtime.targetTgids probe).isEmpty = false := by rw [hs]; rfl
    simp only [hne]
    refine ⟨hframe.kernel, hframe.targetTgids, rfl, rfl, fun t => ?_, fun t ht => ?_⟩
    · have hkeep : ∀ (m : OrdMap Tid LifecycleRecord) (seen : List Tid),
          t ∈ m.filter (fun u _ => seen.contains u) ↔ t ∈ m ∧ t ∈ seen := by
        intro m seen
        rw [OrdMap.mem_def, OrdMap.find?_filter, OrdMap.mem_def]
        cases m.find? t <;> simp
      refine (hkeep _ _).trans ?_
      simp only [List.mem_map]
      rfl
    · rcases GraphWindow.mem_observeThreads ht with h | ⟨x, hx, hxt⟩
      · have hg : _ = w.runtime.graph := hframe.graph
        refine Or.inl ?_
        rw [← hg]
        exact h
      · obtain ⟨y, hy, rfl⟩ := List.mem_map.1 hx
        refine Or.inr ⟨y, hy, ?_⟩
        rw [← hxt]
        unfold Runtime.enrich
        split <;> rfl

theorem sampled_iff {w : World} {probe : Tid → ThreadSample} {t : Tid} :
    (∃ s ∈ samples w.kernel w.runtime.targetTgids probe, s.identity.tid = t) ↔ (w.view t).targeted := by
  constructor
  · rintro ⟨s, hs, rfl⟩
    obtain ⟨u, th, hth, hg, rfl⟩ := mem_samples.1 hs
    exact ⟨th, hth, hg⟩
  · rintro ⟨th, hth, hg⟩
    exact ⟨_, mem_samples.2 ⟨t, th, hth, hg, rfl⟩, rfl⟩

/-- A thread of no target is not sampled: its record goes, and nothing else. -/
theorem reconcile_move_unsampled {w : World} {probe : Tid → ThreadSample} {t : Tid}
    (hr : Reconciled w probe (w.reconciled probe)) (ht : ¬ (w.view t).targeted) :
    Move w { w with runtime := w.reconciled probe } (.reconcile probe) t := by
  have hno : ¬ ∃ s ∈ samples w.kernel w.runtime.targetTgids probe, s.identity.tid = t := fun h => ht (sampled_iff.1 h)
  have hslot := sampleThread_local.foldl_notMem (u := t) (s := w.reconciling)
    (l := samples w.kernel w.runtime.targetTgids probe) (fun s hs he => hno ⟨s, hs, he⟩)
  have hacted := (Runtime.foldl_sampleThread_frame (samples w.kernel w.runtime.targetTgids probe) w.reconciling).acted
  refine .idle (Or.inl ?_) ?_ ?_ (Or.inl ?_) rfl
    ⟨fun _ h => absurd h ht, fun _ h => ?_, fun h => ?_, fun _ h => absurd h ht, fun h => ?_⟩
  · simp [view, kernel, hr.kernel]
  · have h1 := congrArg Prod.fst hslot
    simpa [view, actuator, sampleSlot, hr.actuator, reconciling] using h1
  · simp only [view, actuator, hr.actuator, hacted]
    rfl
  · have h2 := congrArg (fun x => x.2.1) hslot
    simpa [view, sampleSlot, hr.pending, reconciling] using h2
  · exact absurd ((hr.lifecycle t).1 h).2 hno
  · obtain ⟨record, hrec, -⟩ := h
    exact absurd ((hr.lifecycle t).1 (OrdMap.mem_of_find hrec)).2 hno
  · exact (hr.graph t h).resolve_right hno

theorem reconcile_move_sampled {w : World} {probe : Tid → ThreadSample} {t : Tid}
    (hr : Reconciled w probe (w.reconciled probe)) (ht : (w.view t).targeted) :
    Move w { w with runtime := w.reconciled probe } (.reconcile probe) t := by
  obtain ⟨th, hth, hg⟩ := ht
  have hmem : sampleOf probe (t, th) ∈ samples w.kernel w.runtime.targetTgids probe :=
    mem_samples.2 ⟨t, th, hth, hg, rfl⟩
  have hlive : (w.view t).mask = some th.mask.toList := by
    simp [view, Kernel.maskOf, hth]
  obtain ⟨pre, post, hl, hbefore, hafter⟩ := sampleThread_local.foldl_at
    (nodup_samples w.kernel w.runtime.targetTgids probe) hmem w.reconciling
  have hacted := (Runtime.foldl_sampleThread_frame (samples w.kernel w.runtime.targetTgids probe) w.reconciling).acted
  have hreach : Reaches w.reconciling (samples w.kernel w.runtime.targetTgids probe)
      (pre.foldl Runtime.sampleThread w.reconciling) (sampleOf probe (t, th)) := ⟨pre, post, hl, rfl⟩
  generalize pre.foldl Runtime.sampleThread w.reconciling = r at hbefore hafter hreach
  have hrec0 : r.actuator.restoreMasks.find? t = (w.view t).record := congrArg Prod.fst hbefore
  have hpend0 : r.pendingApplicationMasks.find? t = (w.view t).pending := congrArg (fun x => x.2.1) hbefore
  have hlife0 : r.lifecycle.find? t = w.runtime.lifecycle.find? t := congrArg (fun x => x.2.2) hbefore
  have hrec1 := congrArg Prod.fst hafter
  have hpend1 := congrArg (fun x => x.2.1) hafter
  have hlife1 := congrArg (fun x => x.2.2) hafter
  have hknown : t ∈ (w.reconciled probe).lifecycle := by
    refine (hr.lifecycle t).2 ⟨?_, sampleOf probe (t, th), hmem, rfl⟩
    have hself : t ∈ (Runtime.sampleThread r (sampleOf probe (t, th))).lifecycle :=
      OrdMap.mem_insert.2 (Or.inl rfl)
    rw [OrdMap.mem_def] at hself ⊢
    exact (congrArg Option.isSome hlife1).trans hself
  refine .sampled probe rfl th.mask.toList hlive ?_ ?_ rfl ?_ hknown ?_ ?_
  · simp [view, kernel, hr.kernel] at hlive ⊢
    exact hlive
  · simp only [view, actuator, hr.actuator, hacted]
    rfl
  · simp only [view, hr.pending]
    refine hpend1.trans ?_
    exact OrdMap.find?_erase_self _ _
  · refine ⟨th, ?_, ?_⟩
    · simpa [kernel, hr.kernel] using hth
    · simp only [hr.targets]
      exact existing_of_mem hth hg
  · have hnote := noteSample_self r.actuator (r.lifecycle.find? t) (sampleOf probe (t, th))
    have hrec : (view { w with runtime := w.reconciled probe } t).record =
        (Runtime.sampleThread r (sampleOf probe (t, th))).actuator.restoreMasks.find? t := by
      simp only [view, actuator, hr.actuator]
      exact hrec1
    rw [hrec]
    cases hp : (w.view t).pending with
    | some m =>
      refine Or.inl ⟨m, rfl, ?_⟩
      have hp' : r.pendingApplicationMasks.find? (sampleOf probe (t, th)).identity.tid = some m := hpend0.trans hp
      simp only [Runtime.sampleThread, hp']
      exact OrdMap.find?_insert_self _ _ _
    | none =>
      have hp' : r.pendingApplicationMasks.find? (sampleOf probe (t, th)).identity.tid = none := hpend0.trans hp
      have hact : (Runtime.sampleThread r (sampleOf probe (t, th))).actuator =
          (Runtime.noteSample r.actuator (r.lifecycle.find? t) (sampleOf probe (t, th))).2 := by
        simp only [Runtime.sampleThread, hp']
        rfl
      rw [hact]
      rcases hnote with ⟨hkeep, hwhy⟩ | ⟨hnone, hnotes, hnew⟩
      · refine Or.inr (Or.inl ⟨rfl, hkeep.trans hrec0, ?_⟩)
        rcases hwhy with hsome | hold
        · exact Or.inl (hrec0 ▸ hsome)
        · rw [hlife0] at hold
          exact Or.inr (dated_of_not_notes hold)
      · exact Or.inr (Or.inr ⟨hrec0.symm.trans hnone, r, sampleOf probe (t, th), hreach, rfl, rfl, hnone, hp', hnotes,
          hnew⟩)

end Reconcile

/-- **Every event, thread by thread.** -/
theorem step_move {w w' : World} {e : Event} (h : w.step e = some w') (t : Tid) : Move w w' e t := by
  cases e with
  | fork parent child tgid starttime => exact fork_move h
  | started record => exact started_move h
  | exit tid =>
    cases h
    exact exit_move w tid t
  | exited tid => exact exited_move h
  | declare tid mask => exact declare_move h
  | reconcile probe =>
    cases h
    rcases reconciled_spec w probe with ⟨-, hsame⟩ | hr
    · rw [hsame]
      exact .idle (Or.inl rfl) rfl Iff.rfl (Or.inl rfl) rfl (Books.refl _)
    · by_cases ht : (w.view t).targeted
      · exact reconcile_move_sampled hr ht
      · exact reconcile_move_unsampled hr ht
  | apply delta live => exact apply_move h
  | restore tids =>
    cases h
    exact restore_move w tids t
  | pause => exact pause_move h

/-- TIDs stay used. -/
theorem used_of_step {w w' : World} {e : Event} (h : w.step e = some w') {t : Tid} (ht : t ∈ w.used) : t ∈ w'.used := by
  cases e with
  | fork parent child tgid starttime =>
    simp only [step, fork] at h
    split at h
    · split at h
      · cases h
      · cases h
        exact OrdSet.mem_add.2 (Or.inr ht)
    · cases h
  | started record =>
    simp only [step, started] at h
    split at h
    · cases h; exact ht
    · cases h
  | exit tid => cases h; exact ht
  | exited tid =>
    simp only [step, exited] at h
    split at h
    · cases h
    · cases h; exact ht
  | declare tid mask =>
    simp only [step, declare] at h
    split at h
    · split at h
      · cases h
      · cases h; exact ht
    · cases h
  | reconcile probe => cases h; exact ht
  | apply delta live =>
    simp only [step, apply] at h
    split at h
    · cases h; exact ht
    · cases h
  | restore tids => cases h; exact ht
  | pause =>
    simp only [step, pause] at h
    split at h
    · cases h; exact ht
    · cases h

end World
end AffinityGraph
