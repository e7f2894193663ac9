import AffinityGraph.Gates
import AffinityGraph.WorldMoves
/-!
# ProfileRuns — a static profile over whole runs: which threads keep the mask of their rule

A `Host` is a supervisor with the application beside it: the mask every thread would have without the policy, and the
identities the kernel has given out.  A thread is bound when its kernel mask is what its rule leaves of that mask.

The batch of a sampling holds the new matches only, and an assignment is kept whether the batch went through or not.  So
a thread that is once not bound is never bound again: `Steady` lists what a run must not contain for every sampled thread
to be bound after every sampling, and `reconcile_binds` proves that this is enough.
-/
namespace AffinityGraph

/-! ## Writes the kernel takes -/

/-- The calls of a list, made in order, all succeed, or find their thread gone. -/
def takesAll {κ : Type} (b : AffinityBackend κ) : κ → List (Tid × Mask) → Prop
  | _, [] => True
  | k, c :: l => ((b.set k c.1 c.2).2 = none ∨ (b.set k c.1 c.2).2 = some .esrch) ∧ takesAll b (b.set k c.1 c.2).1 l

instance takesAll.decidable {κ : Type} (b : AffinityBackend κ) : ∀ (l : List (Tid × Mask)) (k : κ), Decidable (takesAll b k l)
  | [], _ => isTrue trivial
  | c :: l, k =>
    have : Decidable (takesAll b (b.set k c.1 c.2).1 l) := takesAll.decidable b l _
    inferInstanceAs (Decidable (((b.set k c.1 c.2).2 = none ∨ (b.set k c.1 c.2).2 = some .esrch) ∧ _))

namespace Actuator

variable {κ : Type} {b : AffinityBackend κ}

theorem foldl_applyStep_takes {live : OrdSet Tid} : ∀ (l : List (Tid × Mask)) (st : ApplyState κ), st.stopped = none →
    (∀ c ∈ l, c.1 ∈ live ∧ c.2 ≠ []) → takesAll b st.backend l → (l.foldl (applyStep b live) st).stopped = none
  | [], st, hs, _, _ => hs
  | c :: l, st, hs, hl, ht => by
    obtain ⟨hlive, hmask⟩ := hl c List.mem_cons_self
    have hwrite : writeMask b st.backend c.1 c.2 = b.set st.backend c.1 c.2 := by rw [writeMask, if_neg hmask]
    rcases applyStep_cases (b := b) live st c.1 c.2 with ⟨hstop, -⟩ | ⟨-, hn, -⟩ | ⟨-, -, st', hb, -, -, -, he, hcase⟩
    · rw [hs] at hstop
      cases hstop
    · exact absurd hlive hn
    · rw [hwrite] at hb hcase
      rw [List.foldl_cons, he]
      refine foldl_applyStep_takes l st' ?_ (fun d hd => hl d (List.mem_cons_of_mem _ hd)) (by rw [hb]; exact ht.2)
      rcases hcase with ⟨-, -, -, -, h⟩ | ⟨-, -, -, -, h⟩ | ⟨e, hne, herr, -⟩
      · exact h
      · exact h
      · rcases ht.1 with h | h
        · rw [herr] at h
          cases h
        · rw [herr] at h
          exact absurd (Option.some.inj h) hne

/-- A batch whose calls the kernel takes goes through. -/
theorem applyRun_takes (k : κ) (a : Actuator) {masks : OrdMap Tid Mask} {live : OrdSet Tid}
    (hlive : ∀ t ∈ masks, t ∈ live) (hmask : ∀ t m, masks.find? t = some m → m ≠ []) (h : takesAll b k masks.entries) :
    (applyRun b k a masks live).stopped = none := by
  have hbatch : ∀ c ∈ masks.entries, c.1 ∈ live ∧ c.2 ≠ [] := by
    intro c hc
    have hfind : masks.find? c.1 = some c.2 := OrdMap.mem_entries.1 hc
    exact ⟨hlive _ (OrdMap.mem_of_find hfind), hmask _ _ hfind⟩
  rw [applyRun_stopped_eq]
  exact foldl_applyStep_takes masks.entries { backend := k, actuator := a, result := { requested := masks.size } } rfl
    hbatch h

theorem foldl_restoreAllStep_takes (a : Actuator) : ∀ (l : List Tid) (k : κ) (r : RestoreResult),
    takesAll b k (l.map (fun t => (t, a.restoreMaskOf t))) →
    (l.foldl (restoreAllStep b) ⟨k, a, r⟩).result.failed = r.failed
  | [], _, _, _ => rfl
  | t :: l, k, r, h => by
    have hcount : (countRestored r (b.set k t (a.restoreMaskOf t)).2).failed = r.failed := by
      rcases h.1 with he | he <;> rw [he] <;> rfl
    rw [List.foldl_cons]
    exact (foldl_restoreAllStep_takes a l _ _ h.2).trans hcount

/-- **A restore that gives every thread the mask it has changes no mask.** -/
theorem restoreAll_keepsMasks (V : MaskView b) (k : κ) (a : Actuator)
    (hsame : ∀ t ∈ a.actedTids, ∀ m, V.view k t = some m → a.restoreMaskOf t = m)
    (htakes : takesAll b k (a.actedTids.toList.map (fun t => (t, a.restoreMaskOf t)))) {t : Tid} {m : Mask}
    (h : V.view (restoreAll b k a).backend t = some m) : V.view k t = some m ∨ (t ∈ a.actedTids ∧ V.view k t = none) := by
  obtain ⟨-, hother, hacted⟩ := restoreAll_effect V k a t
  by_cases ht : t ∈ a.actedTids
  · rcases hacted ht with hm | hm | hm
    · cases hv : V.view k t with
      | none => exact Or.inr ⟨ht, rfl⟩
      | some m' =>
        rw [h, hsame t ht m' hv] at hm
        exact Or.inl hm.symm
    · rw [h] at hm
      cases hm
    · have hzero : (restoreAll b k a).result.failed = 0 :=
        foldl_restoreAllStep_takes a a.actedTids.toList k { requested := a.actedTids.size } htakes
      omega
  · exact Or.inl ((hother ht).symm.trans h)

end Actuator

/-! ## The host -/

structure Host where
  supervisor : Supervisor
  /-- the mask each thread would have without the policy -/
  appMasks : OrdMap Tid Mask := ∅
  /-- every identity the kernel has given out -/
  identities : OrdSet ThreadIdentity := ∅

inductive HostEvent where
  | fork (parent child : Tid) (tgid : Int) (starttime : Nat)
  | exit (tid : Tid)
  | declare (tid : Tid) (mask : OrdSet Int)
  | reconcile (probe : Tid → ThreadSample) (now : Nat)
  | input (e : Input)

/-- The inputs that are no sampling and no doing of the application. -/
def Input.inside : Input → Bool
  | .outside _ => false
  | .reconcile (some _) _ => false
  | _ => true

namespace Host

def kernel (h : Host) : Kernel := h.supervisor.kernel

def withKernel (h : Host) (k : Kernel) : Host := { h with supervisor := { h.supervisor with kernel := k } }

/-- What the collector reads of the targets' tasks. -/
def collected (h : Host) (probe : Tid → ThreadSample) : Collected where
  existing := World.existing h.kernel h.supervisor.targetTgids
  samples := World.samples h.kernel h.supervisor.targetTgids probe
  distinct := World.nodup_samples _ _ _

def identityOf (t : Tid) (th : KThread) : ThreadIdentity := ⟨th.tgid, t, th.starttime⟩

/-- Before the first step every thread has the mask of the application. -/
def start (l : Launch) : Outcome Host :=
  match Supervisor.create l with
  | .ok s => .ok
      { supervisor := s
        appMasks := l.kernel.threads.mapVal (fun _ th => th.mask.toList)
        identities := OrdSet.ofList (l.kernel.threads.entries.map (fun e => identityOf e.1 e.2)) }
  | .error e => .error e

/-- A child has its parent's masks, and an identity no thread had before. -/
def fork (h : Host) (parent child : Tid) (tgid : Int) (starttime : Nat) : Option Host :=
  match h.kernel.threads.find? parent, h.appMasks.find? parent with
  | some th, some app =>
    if child ∈ h.kernel.threads ∨ (⟨tgid, child, starttime⟩ : ThreadIdentity) ∈ h.identities then none else
    some { h.withKernel { h.kernel with threads := h.kernel.threads.insert child ⟨tgid, starttime, th.mask⟩ } with
      appMasks := h.appMasks.insert child app
      identities := h.identities.add ⟨tgid, child, starttime⟩ }
  | _, _ => none

/-- The application sets a mask; that the supervisor is told of it is an input of its own. -/
def declare (h : Host) (tid : Tid) (mask : OrdSet Int) : Option Host :=
  match h.kernel.threads.find? tid with
  | some th =>
    if mask.isEmpty then none
    else some { h.withKernel (h.kernel.putMask tid th mask) with appMasks := h.appMasks.insert tid mask.toList }
  | none => none

def step (h : Host) : HostEvent → Option Host
  | .fork parent child tgid starttime => h.fork parent child tgid starttime
  | .exit tid => some (h.withKernel { h.kernel with threads := h.kernel.threads.erase tid })
  | .declare tid mask => h.declare tid mask
  | .reconcile probe now =>
    (h.supervisor.step (.reconcile (some (h.collected probe)) now)).map (fun s => { h with supervisor := s })
  | .input e => if e.inside then (h.supervisor.step e).map (fun s => { h with supervisor := s }) else none

/-- **A thread is bound**: its kernel mask is what its rule leaves of the application's mask for it, if that is
anything. -/
def Bound (h : Host) (x : ThreadSample) : Prop :=
  ∀ rule ∈ h.supervisor.newRule x, ∀ app ∈ h.appMasks.find? x.identity.tid, setIntersection rule.cpus app ≠ [] →
    ∀ mask ∈ h.kernel.maskOf x.identity.tid, mask = setIntersection rule.cpus app

instance Bound.decidable (h : Host) (x : ThreadSample) : Decidable (h.Bound x) :=
  inferInstanceAs (Decidable (∀ rule ∈ h.supervisor.newRule x, ∀ app ∈ h.appMasks.find? x.identity.tid,
    setIntersection rule.cpus app ≠ [] → ∀ mask ∈ h.kernel.maskOf x.identity.tid, mask = setIntersection rule.cpus app))

/-! ## What a run must not contain -/

/-- An application that moves a thread which already has a rule keeps it on the rule's CPUs. -/
def KeepsRule (h : Host) (tid : Tid) (mask : OrdSet Int) : Prop :=
  ∀ th ∈ h.kernel.threads.find? tid, ∀ a ∈ h.supervisor.books.assignments.find? (identityOf tid th),
    setIntersection a.targetCpus mask.toList ≠ [] → mask.toList = setIntersection a.targetCpus mask.toList

/-- A new match is sampled with all the CPUs that its rule leaves of the application's mask for it, an old one still
matches the rule it has. -/
def SampledWhole (h : Host) (x : ThreadSample) : Prop :=
  ∀ rule ∈ h.supervisor.newRule x,
    (∀ a ∈ h.supervisor.books.assignments.find? x.identity, rule.cpus = a.targetCpus) ∧
    (x.identity ∉ h.supervisor.books.assignments → ∀ app ∈ h.appMasks.find? x.identity.tid,
      setIntersection rule.cpus x.allowedCpus = setIntersection rule.cpus app)

/-- The input makes the supervisor restore everything. -/
def restoresOn (s : Supervisor) : Input → Bool
  | .pause => true
  | .shutdown => true
  | .fatal _ => decide (s.fatalError = "")
  | .reconcile c now =>
    c.all (fun c => c.samples.isEmpty) && !s.paused &&
      decide (s.config.collectorFailureRestoreSeconds * 10 ^ 9 ≤
        subU64 now (if s.collectorFailedSinceNs = 0 then now else s.collectorFailedSinceNs))
  | _ => false

/-- A restore finds every thread with the mask it would give it back. -/
def RestoresNothing (s : Supervisor) (e : Input) : Prop :=
  restoresOn s e = true →
    (∀ t ∈ s.actuator.actedTids.toList, ∀ mask ∈ s.kernel.maskOf t, s.actuator.restoreMaskOf t = mask) ∧
    takesAll linux s.kernel (s.actuator.actedTids.toList.map (fun t => (t, s.actuator.restoreMaskOf t)))

/-- **What no step of a run may go against** for the profile to hold: the kernel takes every mask of the profile's
batches, and nothing takes a thread off its rule's CPUs once it has a rule. -/
def Steady (h : Host) : HostEvent → Prop
  | .fork _ _ _ _ => True
  | .exit _ => True
  | .declare tid mask => h.KeepsRule tid mask
  | .reconcile probe now =>
    (∀ x ∈ (h.collected probe).samples, h.SampledWhole x) ∧
    takesAll linux h.kernel (h.supervisor.matchSamples (h.collected probe).samples).masks.entries ∧
    RestoresNothing h.supervisor (.reconcile (some (h.collected probe)) now)
  | .input e => RestoresNothing h.supervisor e

instance RestoresNothing.decidable (s : Supervisor) (e : Input) : Decidable (RestoresNothing s e) :=
  inferInstanceAs (Decidable (restoresOn s e = true →
    (∀ t ∈ s.actuator.actedTids.toList, ∀ mask ∈ s.kernel.maskOf t, s.actuator.restoreMaskOf t = mask) ∧
    takesAll linux s.kernel (s.actuator.actedTids.toList.map (fun t => (t, s.actuator.restoreMaskOf t)))))

instance SampledWhole.decidable (h : Host) (x : ThreadSample) : Decidable (h.SampledWhole x) :=
  inferInstanceAs (Decidable (∀ rule ∈ h.supervisor.newRule x,
    (∀ a ∈ h.supervisor.books.assignments.find? x.identity, rule.cpus = a.targetCpus) ∧
    (x.identity ∉ h.supervisor.books.assignments → ∀ app ∈ h.appMasks.find? x.identity.tid,
      setIntersection rule.cpus x.allowedCpus = setIntersection rule.cpus app)))

instance Steady.decidable (h : Host) : ∀ e, Decidable (h.Steady e)
  | .fork _ _ _ _ => isTrue trivial
  | .exit _ => isTrue trivial
  | .declare tid mask => inferInstanceAs (Decidable (∀ th ∈ h.kernel.threads.find? tid,
      ∀ a ∈ h.supervisor.books.assignments.find? (identityOf tid th),
        setIntersection a.targetCpus mask.toList ≠ [] → mask.toList = setIntersection a.targetCpus mask.toList))
  | .reconcile probe _ => inferInstanceAs (Decidable ((∀ x ∈ (h.collected probe).samples, h.SampledWhole x) ∧ _ ∧ _))
  | .input e => RestoresNothing.decidable h.supervisor e

/-! ## The invariant -/

/-- Every thread with an assignment has the mask of it. -/
structure Held (h : Host) : Prop where
  active : h.supervisor.config.mode = .active
  static : h.supervisor.staticProfileEffective = true
  /-- assignments are made for threads there were -/
  known : ∀ i ∈ h.supervisor.books.assignments, i ∈ h.identities
  given : ∀ t th, h.kernel.threads.find? t = some th → identityOf t th ∈ h.identities
  bound : ∀ t th, h.kernel.threads.find? t = some th →
    ∀ a, h.supervisor.books.assignments.find? (identityOf t th) = some a → ∀ app, h.appMasks.find? t = some app →
      setIntersection a.targetCpus app ≠ [] → th.mask.toList = setIntersection a.targetCpus app

end Host

/-! ## What one input does to the threads -/

/-- The threads of `k'` are threads of `k`, their masks included. -/
def Kernel.SameThreads (k k' : Kernel) : Prop :=
  ∀ t th', k'.threads.find? t = some th' →
    ∃ th, k.threads.find? t = some th ∧ th'.tgid = th.tgid ∧ th'.starttime = th.starttime ∧ th'.mask.toList = th.mask.toList

theorem Kernel.SameThreads.of_threads {k k' : Kernel} (h : k'.threads = k.threads) : k.SameThreads k' := by
  intro t th' ht
  rw [h] at ht
  exact ⟨th', ht, rfl, rfl, rfl⟩

theorem Kernel.maskOf_of_find {k : Kernel} {t : Tid} {th : KThread} (h : k.threads.find? t = some th) :
    k.maskOf t = some th.mask.toList := by
  rw [Kernel.maskOf, h]
  rfl

namespace Supervisor

variable {s s' : Supervisor}

theorem restoreAll_sameThreads
    (h : (∀ t ∈ s.actuator.actedTids.toList, ∀ mask ∈ s.kernel.maskOf t, s.actuator.restoreMaskOf t = mask) ∧
      takesAll linux s.kernel (s.actuator.actedTids.toList.map (fun t => (t, s.actuator.restoreMaskOf t)))) :
    s.kernel.SameThreads (Actuator.restoreAll linux s.kernel s.actuator).backend := by
  intro t th' ht
  obtain ⟨th, hth, hg, hs⟩ := Actuator.restoreAll_keeps (P := Kernel.SameTasks s.kernel)
    (fun _ t m => linux_set_sameTasks t m) s.kernel s.actuator (Kernel.SameTasks.refl _) t th' ht
  refine ⟨th, hth, hg, hs, ?_⟩
  have hlive := Kernel.maskOf_of_find hth
  rcases Actuator.restoreAll_keepsMasks linuxView s.kernel s.actuator
    (fun t ht => h.1 t (OrdSet.mem_toList.2 ht)) h.2 (Kernel.maskOf_of_find ht) with hm | ⟨-, hm⟩
  · exact Option.some.inj (hm.symm.trans hlive)
  · have hdead : s.kernel.maskOf t = none := hm
    rw [hlive] at hdead
    cases hdead

/-- What an input leaves of the profile's state: everything, and every thread's mask. -/
structure Leaves (s s' : Supervisor) : Prop where
  config : s'.config = s.config
  profile : s'.threadProfile = s.threadProfile
  books : s'.books = s.books
  threads : s.kernel.SameThreads s'.kernel

theorem Leaves.refl (s : Supervisor) : s.Leaves s := ⟨rfl, rfl, rfl, .of_threads rfl⟩

theorem pause_leaves (hrest : (∀ t ∈ s.actuator.actedTids.toList, ∀ mask ∈ s.kernel.maskOf t,
      s.actuator.restoreMaskOf t = mask) ∧
    takesAll linux s.kernel (s.actuator.actedTids.toList.map (fun t => (t, s.actuator.restoreMaskOf t))))
    (h : s.pause = .ok s') : s.Leaves s' := by
  obtain ⟨r, hr, rfl⟩ := pause_ok h
  obtain ⟨-, rfl⟩ := Runtime.pause_ok hr
  exact ⟨rfl, rfl, rfl, restoreAll_sameThreads hrest⟩

theorem collectorFailure_leaves {now : Nat} {c : Option Collected} (hc : c.all (fun c => c.samples.isEmpty) = true)
    (hrest : Host.RestoresNothing s (.reconcile c now)) (h : s.collectorFailure now = .ok s') : s.Leaves s' := by
  unfold Host.RestoresNothing Host.restoresOn at hrest
  dsimp only at hrest
  obtain ⟨since, hsince, ⟨hlong, r, hr, rfl⟩ | ⟨-, rfl⟩⟩ := collectorFailure_ok h
  · rw [← hsince] at hrest
    obtain ⟨-, rfl⟩ := Runtime.pause_ok hr
    exact ⟨rfl, rfl, rfl, restoreAll_sameThreads
      (hrest (by simp only [hc, hlong.2, hlong.1, Bool.not_false, decide_true, Bool.and_self]))⟩
  · exact ⟨rfl, rfl, rfl, .of_threads rfl⟩

/-- **No input but a sampling changes what a static profile holds**, when what it restores is already there. -/
theorem handle_leaves (hstatic : s.staticProfileEffective = true) {e : Input} (hin : e.inside = true)
    (hrest : Host.RestoresNothing s e) (h : s.handle e = .ok s') : s.Leaves s' := by
  cases e with
  | outside kernel => cases hin
  | bpf event startSymbol =>
    cases h
    have hframe := Runtime.handleBpfEvent_frame s.toRuntime s.staticProfileEffective event startSymbol
    exact ⟨hframe.config, rfl, rfl, .of_threads (congrArg Kernel.threads hframe.kernel)⟩
  | retain relations =>
    cases h
    exact ⟨rfl, rfl, rfl, .of_threads rfl⟩
  | health valid windowReady lossRatio =>
    cases h
    exact ⟨rfl, rfl, rfl, .of_threads rfl⟩
  | fatal message =>
    obtain ⟨r, hr, rfl⟩ := triggerFatal_ok h
    obtain ⟨-, ⟨-, rfl⟩ | ⟨hfirst, r₁, hr₁, rfl⟩⟩ := Runtime.triggerFatal_ok hr
    · exact .refl s
    · obtain ⟨-, rfl⟩ := Runtime.pause_ok hr₁
      have hrest' := hrest (by simpa [Host.restoresOn] using hfirst)
      exact ⟨rfl, rfl, rfl, restoreAll_sameThreads hrest'⟩
  | pause => exact pause_leaves (hrest rfl) h
  | resume =>
    cases h
    exact ⟨rfl, rfl, rfl, .of_threads rfl⟩
  | reconcile collected now =>
    cases collected with
    | none => exact collectorFailure_leaves rfl hrest h
    | some c => cases hin
  | solve now dirtyTids =>
    obtain ⟨-, ⟨-, rfl⟩ | ⟨-, -, rfl⟩⟩ | ⟨hdynamic, -⟩ := maybeSolve_ok h
    · exact .refl _
    · exact ⟨rfl, rfl, rfl, .of_threads rfl⟩
    · rw [hstatic] at hdynamic
      cases hdynamic
  | shutdown =>
    cases h
    exact ⟨rfl, rfl, rfl, restoreAll_sameThreads (hrest rfl)⟩

/-! ## What a sampling does -/

/-- What a sampling that finds tasks leaves: the assignments of its matches, and every live thread with the mask of its
new match or with the mask it had. -/
structure Binds (s : Supervisor) (c : Collected) (s' : Supervisor) : Prop where
  config : s'.config = s.config
  profile : s'.threadProfile = s.threadProfile
  books : s'.books = (s.matchSamples c.samples).books
  threads : ∀ t th', s'.kernel.threads.find? t = some th' →
    ∃ th, s.kernel.threads.find? t = some th ∧ th'.tgid = th.tgid ∧ th'.starttime = th.starttime ∧
      th'.mask.toList = ((s.matchSamples c.samples).masks.find? t).getD th.mask.toList

/-- The batch, thread by thread. -/
theorem bindProfile_threads {c : Collected} (hactive : s.config.mode = .active)
    (htakes : takesAll linux s.kernel (s.matchSamples c.samples).masks.entries) {t : Tid} {th' : KThread}
    (ht : ((s.sampled c).bindProfile (s.matchSamples c.samples)).kernel.threads.find? t = some th') :
    ∃ th, s.kernel.threads.find? t = some th ∧ th'.tgid = th.tgid ∧ th'.starttime = th.starttime ∧
      th'.mask.toList = ((s.matchSamples c.samples).masks.find? t).getD th.mask.toList := by
  have hkernel := (sampled_frame s c).kernel
  have hmode : (s.sampled c).config.mode = .active := by rw [(sampled_frame s c).config]; exact hactive
  unfold bindProfile at ht
  split at ht
  · have hnonempty : ∀ t m, (s.matchSamples c.samples).masks.find? t = some m → m ≠ [] := by
      intro t m hm
      obtain ⟨x, -, -, hx⟩ := matchSamples_masks.1 hm
      exact newTarget_ne_nil hx
    have hstop := Actuator.applyRun_takes (b := linux) s.kernel (s.sampled c).actuator
      (fun t ht => matchSamples_live.2 ht) hnonempty htakes
    have hafter : (Actuator.applyRun linux s.kernel (s.sampled c).actuator (s.matchSamples c.samples).masks
        (s.matchSamples c.samples).live).backend.threads.find? t = some th' := by
      rw [← hkernel]
      exact ht
    obtain ⟨th, hth, hg, hs⟩ := Actuator.applyRun_keeps (P := Kernel.SameTasks s.kernel)
      (fun _ t m => linux_set_sameTasks t m) s.kernel (s.sampled c).actuator (s.matchSamples c.samples).masks
      (s.matchSamples c.samples).live (Kernel.SameTasks.refl _) t th' hafter
    refine ⟨th, hth, hg, hs, ?_⟩
    have hmask := Kernel.maskOf_of_find hafter
    have hbefore := Kernel.maskOf_of_find hth
    rcases Actuator.applyRun_effect linuxView s.kernel (s.sampled c).actuator (s.matchSamples c.samples).masks
        (s.matchSamples c.samples).live t with ⟨hsame, -, -, -, htold, -⟩ | ⟨cpus, hasked, -, -, -, hout⟩
    · have hnot : (s.matchSamples c.samples).masks.find? t = none := by
        rw [← OrdMap.notMem_iff]
        exact fun hin => (htold hstop hin).1 (matchSamples_live.2 hin)
      rw [hnot]
      exact Option.some.inj (hmask.symm.trans (hsame.trans hbefore))
    · rw [hasked]
      cases hout with
      | committed ok nonempty alive mask acted told => exact Option.some.inj (hmask.symm.trans mask)
      | vanished mask acted told untold => exact absurd (hmask.symm.trans mask) (by simp)
      | failed F stop tid asked error write before mask acted => exact absurd (hstop.symm.trans stop) (by simp)
      | rolledBack stop nonempty alive mask acted => exact absurd (stop.symm.trans (congrArg _ hstop)) (by simp)
      | stuck stop nonempty alive acted told => exact absurd (stop.symm.trans (congrArg _ hstop)) (by simp)
  · rename_i hempty
    have hnone : (s.matchSamples c.samples).masks.find? t = none := by
      have hall : (s.matchSamples c.samples).masks.isEmpty = true := by
        rw [← Bool.not_eq_false]
        exact fun h => hempty ⟨h, hmode⟩
      exact OrdMap.isEmpty_iff.1 hall t
    rw [hkernel] at ht
    rw [hnone]
    exact ⟨th', ht, rfl, rfl, rfl⟩

theorem reconcile_cases (hactive : s.config.mode = .active) {c : Collected} {now : Nat}
    (htakes : takesAll linux s.kernel (s.matchSamples c.samples).masks.entries)
    (hrest : Host.RestoresNothing s (.reconcile (some c) now)) (h : s.handle (.reconcile (some c) now) = .ok s') :
    (c.samples = [] ∧ s.Leaves s') ∨ s.Binds c s' := by
  change s.reconcileAndSample (some c) now = .ok s' at h
  obtain ⟨hempty, hf⟩ | ⟨c', hc', -, stopped, last, rfl⟩ := reconcileAndSample_ok h
  · exact Or.inl ⟨List.isEmpty_iff.1 (by simpa using hempty), collectorFailure_leaves hempty hrest hf⟩
  · cases hc'
    obtain ⟨kernel, actuator, hbound⟩ := bindProfile_eq (s.sampled c) (s.matchSamples c.samples)
    refine Or.inr ⟨?_, ?_, ?_, fun t th' ht => bindProfile_threads hactive htakes ht⟩
    · rw [hbound]
      exact (sampled_frame s c).config
    · rw [hbound]
      rfl
    · rw [hbound]
      rfl

end Supervisor

/-! ## Runs -/

namespace Host

variable {h h' : Host}

theorem static_of {s s' : Supervisor} (hc : s'.config = s.config) (hp : s'.threadProfile = s.threadProfile)
    (hs : s.staticProfileEffective = true) : s'.staticProfileEffective = true := by
  unfold Supervisor.staticProfileEffective at hs ⊢
  rw [hc, hp]
  exact hs

theorem Held.leaves (hh : h.Held) {s : Supervisor} (hl : h.supervisor.Leaves s) : Held { h with supervisor := s } where
  active := by rw [hl.config]; exact hh.active
  static := static_of hl.config hl.profile hh.static
  known i hi := hh.known i (by rw [← hl.books]; exact hi)
  given t th' ht := by
    obtain ⟨th, hth, hg, hs, -⟩ := hl.threads t th' ht
    rw [identityOf, hg, hs]
    exact hh.given t th hth
  bound t th' ht a ha app happ hne := by
    obtain ⟨th, hth, hg, hs, hmask⟩ := hl.threads t th' ht
    rw [identityOf, hg, hs] at ha
    rw [hmask]
    exact hh.bound t th hth a (by rw [← hl.books]; exact ha) app happ hne

theorem step_supervisor {e : Input}
    (hstep : (h.supervisor.step e).map (fun s => { h with supervisor := s }) = some h') :
    ∃ s, h.supervisor.handle e = .ok s ∧ h' = { h with supervisor := s } := by
  obtain ⟨s, hs, rfl⟩ := Option.map_eq_some_iff.1 hstep
  exact ⟨s, (Supervisor.step_handle hs).2, rfl⟩

section Sampling

variable {probe : Tid → ThreadSample}

/-- A thread of a target is sampled as it is. -/
theorem sampled_of_target {t : Tid} {th : KThread} (ht : h.kernel.threads.find? t = some th)
    (htarget : th.tgid ∈ h.supervisor.targetTgids) :
    World.sampleOf probe (t, th) ∈ (h.collected probe).samples := World.mem_samples.2 ⟨t, th, ht, htarget, rfl⟩

/-- A thread of no target is not. -/
theorem unsampled_of_no_target {t : Tid} {th : KThread} (ht : h.kernel.threads.find? t = some th)
    (htarget : th.tgid ∉ h.supervisor.targetTgids) : ∀ x ∈ (h.collected probe).samples, x.identity.tid ≠ t := by
  intro x hx he
  obtain ⟨u, th', hu, hg, rfl⟩ := World.mem_samples.1 hx
  have hut : u = t := he
  rw [hut, ht] at hu
  cases hu
  exact htarget hg

/-- **After a sampling every thread with an assignment has the mask of it.** -/
theorem Held.binds (hh : h.Held) (hwhole : ∀ x ∈ (h.collected probe).samples, h.SampledWhole x) {s : Supervisor}
    (hb : h.supervisor.Binds (h.collected probe) s) : Held { h with supervisor := s } where
  active := by rw [hb.config]; exact hh.active
  static := static_of hb.config hb.profile hh.static
  known i hi := by
    rw [hb.books] at hi
    rcases Supervisor.mem_matchSamples hi with hi | ⟨x, hx, rfl⟩
    · exact hh.known i hi
    · obtain ⟨t, th, ht, -, rfl⟩ := World.mem_samples.1 hx
      exact hh.given t th ht
  given t th' ht := by
    obtain ⟨th, hth, hg, hs, -⟩ := hb.threads t th' ht
    rw [identityOf, hg, hs]
    exact hh.given t th hth
  bound t th' ht a ha app happ hne := by
    obtain ⟨th, hth, hg, hs, hmask⟩ := hb.threads t th' ht
    rw [identityOf, hg, hs, hb.books] at ha
    rw [hmask]
    by_cases htarget : th.tgid ∈ h.supervisor.targetTgids
    · have hx : World.sampleOf probe (t, th) ∈ (h.collected probe).samples := sampled_of_target hth htarget
      have hm := Supervisor.matchSamples_at (s := h.supervisor) hx
      have hw := hwhole _ hx
      have hmasks : (h.supervisor.matchSamples (h.collected probe).samples).masks.find? t =
          h.supervisor.newTarget (World.sampleOf probe (t, th)) := hm.masks
      rw [hmasks]
      cases hold : h.supervisor.books.assignments.find? (identityOf t th) with
      | some a₀ =>
        have hkept : a₀ = a := Option.some.inj ((hm.kept a₀ hold).symm.trans ha)
        subst hkept
        have hnew : h.supervisor.newTarget (World.sampleOf probe (t, th)) = none :=
          Supervisor.newTarget_of_assigned (OrdMap.mem_of_find hold)
        rw [hnew]
        exact hh.bound t th hth a₀ hold app happ hne
      | none =>
        have hfresh : identityOf t th ∉ h.supervisor.books.assignments := OrdMap.notMem_iff.2 hold
        cases hr : h.supervisor.newRule (World.sampleOf probe (t, th)) with
        | none => exact absurd (OrdMap.mem_of_find ha) (hm.unmatched hfresh hr)
        | some rule =>
          obtain ⟨a', ha', htargets⟩ := hm.assigned hfresh rule hr
          have hsame : a' = a := Option.some.inj (ha'.symm.trans ha)
          subst hsame
          have hfull : setIntersection rule.cpus th.mask.toList = setIntersection rule.cpus app :=
            (hw rule hr).2 hfresh app happ
          rw [htargets] at hne ⊢
          have hnew : h.supervisor.newTarget (World.sampleOf probe (t, th)) =
              some (setIntersection rule.cpus th.mask.toList) :=
            Supervisor.newTarget_of_rule hfresh hr (by rw [← hfull] at hne; exact hne)
          rw [hnew]
          exact hfull
    · have hunseen : ∀ x ∈ (h.collected probe).samples, x.identity.tid ≠ t := unsampled_of_no_target hth htarget
      have hother := Supervisor.matchSamples_other (s := h.supervisor) hunseen
      unfold Supervisor.matchSlot at hother
      simp only [Prod.mk.injEq] at hother
      rw [hother.1]
      have hold := congrFun (congrFun hother.2.2 th.tgid) th.starttime
      exact hh.bound t th hth a (hold.symm.trans ha) app happ hne

/-- A sampled thread that matches a rule has the rule's CPUs as its assignment. -/
theorem assigned_of_sampled (hwhole : ∀ x ∈ (h.collected probe).samples, h.SampledWhole x) {x : ThreadSample}
    (hx : x ∈ (h.collected probe).samples) {rule : ThreadProfileRule} (hr : h.supervisor.newRule x = some rule) :
    ∃ a, (h.supervisor.matchSamples (h.collected probe).samples).books.assignments.find? x.identity = some a ∧
      a.targetCpus = rule.cpus := by
  have hm := Supervisor.matchSamples_at (s := h.supervisor) hx
  cases hold : h.supervisor.books.assignments.find? x.identity with
  | some a => exact ⟨a, hm.kept a hold, ((hwhole x hx rule hr).1 a hold).symm⟩
  | none => exact hm.assigned (OrdMap.notMem_iff.2 hold) rule hr

end Sampling

/-- **Every step keeps it.** -/
theorem Held.step (hh : h.Held) {e : HostEvent} (hs : h.Steady e) (hstep : h.step e = some h') : h'.Held := by
  cases e with
  | fork parent child tgid starttime =>
    simp only [Host.step, fork] at hstep
    split at hstep
    · rename_i th app hth happ
      split at hstep
      · cases hstep
      · rename_i hfree
        rw [not_or] at hfree
        cases hstep
        refine ⟨hh.active, hh.static, fun i hi => OrdSet.mem_add.2 (Or.inr (hh.known i hi)), fun t th' ht => ?_,
          fun t th' ht a ha app' happ' hne => ?_⟩
        · have hfind : (h.kernel.threads.insert child ⟨tgid, starttime, th.mask⟩).find? t = some th' := ht
          rw [OrdMap.find?_insert] at hfind
          split at hfind
          · rename_i he
            subst he
            cases hfind
            exact OrdSet.mem_add.2 (Or.inl rfl)
          · exact OrdSet.mem_add.2 (Or.inr (hh.given t th' hfind))
        · have hfind : (h.kernel.threads.insert child ⟨tgid, starttime, th.mask⟩).find? t = some th' := ht
          rw [OrdMap.find?_insert] at hfind
          split at hfind
          · rename_i he
            subst he
            cases hfind
            exact absurd (hh.known _ (OrdMap.mem_of_find ha)) hfree.2
          · rename_i he
            have happ'' : (h.appMasks.insert child app).find? t = some app' := happ'
            rw [OrdMap.find?_insert_ne _ _ he] at happ''
            exact hh.bound t th' hfind a ha app' happ'' hne
    · cases hstep
  | exit tid =>
    cases hstep
    have hfind : ∀ t th', (h.kernel.threads.erase tid).find? t = some th' → h.kernel.threads.find? t = some th' := by
      intro t th' ht
      rw [OrdMap.find?_erase] at ht
      split at ht
      · cases ht
      · exact ht
    exact ⟨hh.active, hh.static, hh.known, fun t th' ht => hh.given t th' (hfind t th' ht),
      fun t th' ht => hh.bound t th' (hfind t th' ht)⟩
  | declare tid mask =>
    simp only [Host.step, declare] at hstep
    split at hstep
    · rename_i th hth
      split at hstep
      · cases hstep
      · cases hstep
        have hfind : ∀ t th', (h.kernel.threads.insert tid { th with mask := mask }).find? t = some th' →
            (tid = t ∧ th' = { th with mask := mask }) ∨ (tid ≠ t ∧ h.kernel.threads.find? t = some th') := by
          intro t th' ht
          rw [OrdMap.find?_insert] at ht
          split at ht
          · rename_i he
            exact Or.inl ⟨he, (Option.some.inj ht).symm⟩
          · rename_i he
            exact Or.inr ⟨he, ht⟩
        refine ⟨hh.active, hh.static, hh.known, fun t th' ht => ?_, fun t th' ht a ha app happ hne => ?_⟩
        · rcases hfind t th' ht with ⟨he, hth'⟩ | ⟨-, ht'⟩
          · subst he
            rw [hth']
            exact hh.given tid th hth
          · exact hh.given t th' ht'
        · have happ' : (h.appMasks.insert tid mask.toList).find? t = some app := happ
          rcases hfind t th' ht with ⟨he, hth'⟩ | ⟨he, ht'⟩
          · subst he
            rw [OrdMap.find?_insert_self] at happ'
            cases happ'
            rw [hth'] at ha ⊢
            exact hs th hth a ha hne
          · rw [OrdMap.find?_insert_ne _ _ he] at happ'
            exact hh.bound t th' ht' a ha app happ' hne
    · cases hstep
  | reconcile probe now =>
    obtain ⟨hwhole, htakes, hrest⟩ := hs
    obtain ⟨s, hhandle, rfl⟩ := step_supervisor hstep
    rcases Supervisor.reconcile_cases hh.active htakes hrest hhandle with ⟨-, hl⟩ | hb
    · exact hh.leaves hl
    · exact hh.binds hwhole hb
  | input e =>
    simp only [Host.step] at hstep
    split at hstep
    · rename_i hin
      obtain ⟨s, hhandle, rfl⟩ := step_supervisor hstep
      exact hh.leaves (Supervisor.handle_leaves hh.static hin hs hhandle)
    · cases hstep

theorem Held.start {l : Launch} (hstart : start l = .ok h) (hactive : h.supervisor.config.mode = .active)
    (hstatic : h.supervisor.staticProfileEffective = true) : h.Held := by
  unfold Host.start at hstart
  split at hstart
  · rename_i s hs
    have hbooks : s.books = {} ∧ s.kernel = l.kernel := by
      unfold Supervisor.create at hs
      dsimp only at hs
      generalize (if (l.collectorDegraded || (decide (l.config.solver = .numaDomain) && !l.bpfReader)) = true
        then { l.config with mode := .observe } else l.config) = config at hs
      split at hs
      · cases hs
      · cases hs
        exact ⟨rfl, rfl⟩
    cases hstart
    refine ⟨hactive, hstatic, fun i hi => ?_, fun t th ht => ?_, fun t th ht a ha => ?_⟩
    · rw [hbooks.1] at hi
      exact absurd hi (OrdMap.notMem_empty i)
    · have hfind : s.kernel.threads.find? t = some th := ht
      rw [hbooks.2] at hfind
      exact OrdSet.mem_ofList.2 (List.mem_map.2 ⟨(t, th), OrdMap.mem_entries.2 hfind, rfl⟩)
    · rw [hbooks.1] at ha
      cases ha
  · cases hstart

/-- **A static profile holds over every steady run**: after each sampling, every sampled thread that matches a rule and is
still alive has exactly the CPUs its rule leaves of the application's mask for it. -/
theorem reconcile_binds {l : Launch} {h₀ : Host} (hstart : start l = .ok h₀)
    (hactive : h₀.supervisor.config.mode = .active) (hstatic : h₀.supervisor.staticProfileEffective = true)
    {run : List HostEvent} {probe : Tid → ThreadSample} {now : Nat}
    (hsteady : Run.Obeys Host.step Steady h₀ (run ++ [.reconcile probe now])) (hrun : Run.exec Host.step h₀ run = some h)
    (hstep : h.step (.reconcile probe now) = some h') : ∀ x ∈ (h.collected probe).samples, h'.Bound x := by
  obtain ⟨hbefore, hlast⟩ := hsteady.concat
  have hh := hbefore.invariant Held (fun g e g' hg hs he => hg.step hs he) (Held.start hstart hactive hstatic) hrun
  have hh' := hh.step (hlast h hrun) hstep
  obtain ⟨hwhole, htakes, hrest⟩ := hlast h hrun
  obtain ⟨s, hhandle, rfl⟩ := step_supervisor hstep
  intro x hx rule hr app happ hne mask hmask
  rcases Supervisor.reconcile_cases hh.active htakes hrest hhandle with ⟨hnil, -⟩ | hb
  · rw [hnil] at hx
    cases hx
  · have hr' : h.supervisor.newRule x = some rule := by
      rw [Supervisor.newRule, ← hb.profile]
      exact hr
    obtain ⟨a, ha, htargets⟩ := assigned_of_sampled hwhole hx hr'
    obtain ⟨t, th, ht, -, rfl⟩ := World.mem_samples.1 hx
    obtain ⟨th', ht', hm'⟩ := Option.map_eq_some_iff.1 hmask
    obtain ⟨th₀, hth₀, hg, hst, -⟩ := hb.threads t th' ht'
    rw [show th₀ = th from Option.some.inj (hth₀.symm.trans ht)] at hg hst
    have hid : identityOf t th' = (World.sampleOf probe (t, th)).identity := by
      rw [identityOf, hg, hst]
      rfl
    rw [← htargets] at hne ⊢
    rw [← hm']
    refine hh'.bound t th' ht' a ?_ app happ hne
    rw [hid, ← ha, ← hb.books]

/-- Every thread is named `w`. -/
def workers (_ : Tid) : ThreadSample := { identity := ⟨0, 0, 0⟩, comm := "w" }

/-- A thread is bound, forks a child under its narrowed mask, and the child is sampled. -/
theorem reconcile_binds_child : ∃ h₀ h h', start (Supervisor.workerLaunch .active) = .ok h₀ ∧
    Run.exec Host.step h₀ [.reconcile workers 1, .fork 7 8 7 2] = some h ∧
    h.step (.reconcile workers 2) = some h' ∧ (h.collected workers).samples.length = 2 ∧
    h'.appMasks.find? 8 = some [0, 1] ∧ h'.kernel.maskOf 8 = some [0] ∧
    ∀ x ∈ (h.collected workers).samples, h'.Bound x := by
  have hrun : (start (Supervisor.workerLaunch .active)).toOption.any (fun h₀ =>
      decide (h₀.supervisor.config.mode = .active) && h₀.supervisor.staticProfileEffective &&
      decide (Run.Obeys Host.step Steady h₀ [.reconcile workers 1, .fork 7 8 7 2, .reconcile workers 2]) &&
      (Run.exec Host.step h₀ [.reconcile workers 1, .fork 7 8 7 2]).any (fun h =>
        (h.step (.reconcile workers 2)).any (fun h' => decide ((h.collected workers).samples.length = 2 ∧
          h'.appMasks.find? 8 = some [0, 1] ∧ h'.kernel.maskOf 8 = some [0])))) = true := by decide +kernel
  obtain ⟨h₀, hh₀, hall⟩ := (Option.any_eq_true _ _).1 hrun
  simp only [Bool.and_eq_true, decide_eq_true_eq] at hall
  obtain ⟨⟨⟨hactive, hstatic⟩, hsteady⟩, hrest⟩ := hall
  obtain ⟨h, hh, hlast⟩ := (Option.any_eq_true _ _).1 hrest
  obtain ⟨h', hh', hfacts⟩ := (Option.any_eq_true _ _).1 hlast
  obtain ⟨hlen, happ, hmask⟩ := of_decide_eq_true hfacts
  exact ⟨h₀, h, h', toOption_eq_some hh₀, hh, hh', hlen, happ, hmask,
    reconcile_binds (toOption_eq_some hh₀) hactive hstatic hsteady hh hh'⟩

/-- The same thread, but the kernel refuses the first mask it is asked to set. -/
def refusingLaunch : Launch :=
  { Supervisor.workerLaunch .active with
    kernel := { (Supervisor.workerLaunch .active).kernel with answers := [.rejects 1] } }

/-- What the last sampling of a run leaves unbound: it runs while not paused, makes no call that fails, and a sampled
thread that matches its rule does not have the rule's CPUs. -/
def LeftUnbound (l : Launch) (run : List HostEvent) (now : Nat) : Prop :=
  ∃ h₀ h h', start l = .ok h₀ ∧ h₀.supervisor.config.mode = .active ∧ h₀.supervisor.staticProfileEffective = true ∧
    Run.exec Host.step h₀ run = some h ∧ h.supervisor.paused = false ∧
    takesAll linux h.kernel (h.supervisor.matchSamples (h.collected workers).samples).masks.entries ∧
    h.step (.reconcile workers now) = some h' ∧ ∃ x ∈ (h.collected workers).samples, ¬ h'.Bound x

theorem leftUnbound_of_run {l : Launch} {run : List HostEvent} {now : Nat}
    (hrun : (start l).toOption.any (fun h₀ => decide (h₀.supervisor.config.mode = .active) &&
      h₀.supervisor.staticProfileEffective && (Run.exec Host.step h₀ run).any (fun h => !h.supervisor.paused &&
        decide (takesAll linux h.kernel (h.supervisor.matchSamples (h.collected workers).samples).masks.entries) &&
        (h.step (.reconcile workers now)).any (fun h' =>
          (h.collected workers).samples.any (fun x => decide (¬ h'.Bound x))))) = true) : LeftUnbound l run now := by
  obtain ⟨h₀, hh₀, hall⟩ := (Option.any_eq_true _ _).1 hrun
  simp only [Bool.and_eq_true, decide_eq_true_eq] at hall
  obtain ⟨⟨hactive, hstatic⟩, hrest⟩ := hall
  obtain ⟨h, hh, hlast⟩ := (Option.any_eq_true _ _).1 hrest
  simp only [Bool.and_eq_true, Bool.not_eq_true', decide_eq_true_eq] at hlast
  obtain ⟨⟨hpaused, htakes⟩, hlast⟩ := hlast
  obtain ⟨h', hh', hfacts⟩ := (Option.any_eq_true _ _).1 hlast
  obtain ⟨x, hx, hbad⟩ := List.any_eq_true.1 hfacts
  exact ⟨h₀, h, h', toOption_eq_some hh₀, hactive, hstatic, hh, hpaused, htakes, hh', x, hx, of_decide_eq_true hbad⟩

/-- **A mask that was refused once, or given back by a pause, is never set again.** -/
theorem reconcile_leaves_unbound : LeftUnbound refusingLaunch [.reconcile workers 1] 2 ∧
    LeftUnbound (Supervisor.workerLaunch .active) [.reconcile workers 1, .input .pause, .input .resume] 2 :=
  ⟨leftUnbound_of_run (by decide +kernel), leftUnbound_of_run (by decide +kernel)⟩

end Host
end AffinityGraph
