import AffinityGraph.Evidence
import AffinityGraph.Handover
/-!
# Deferral — the exits of a batch are handled last (`runtime.cpp`, `consume_pending_bpf`)

A consume puts the exits of its batch behind all other events, so that the relations of a dying thread still count.  What a
batch does to a TID is read off `Known`, the part of the tables that is about it.  The tables come out as if the batch had been
handled in order exactly when no TID is forked, or given a mask, after its last exit of the batch, and the exits before do not
change which mask of it is noted last (`Deferral.tables_eq_iff`).
-/
namespace AffinityGraph

open AffinityGraph.Runtime

/-- The tables that lifecycle events write. -/
structure Tables where
  lifecycle : OrdMap Tid LifecycleRecord
  pendingApplicationMasks : OrdMap Tid Mask
  targetTgids : OrdSet Int
  restoreMasks : OrdMap Tid Mask

def Runtime.tables (r : Runtime) : Tables where
  lifecycle := r.lifecycle
  pendingApplicationMasks := r.pendingApplicationMasks
  targetTgids := r.targetTgids
  restoreMasks := r.actuator.restoreMasks

/-- The runtime when the pending events have been handled in the order they were drained. -/
def Runtime.handledInOrder (r : Runtime) (staticProfile : Bool) (symbols : BpfEvent → String) : Runtime :=
  r.pendingLifecycleEvents.foldl (handleLifecycle staticProfile symbols) r.takePending

/-- The runtime when a consume has handled its batch, before it looks at the overflow counts. -/
def Runtime.handledDeferred (r : Runtime) (staticProfile : Bool) (order : List PendingRelation) (symbols : BpfEvent → String)
    (now : Nat) : Runtime :=
  (r.pendingLifecycleEvents.filter (fun e => decide (e.kind = .taskExit))).foldl (handleLifecycle staticProfile symbols)
    (((r.pendingLifecycleEvents.filter (fun e => decide (e.kind ≠ .taskExit))).foldl (handleLifecycle staticProfile symbols)
      r.takePending).ingestRelations staticProfile order (r.relationDurationNs now))

namespace Deferral

/-- What the tables have of one TID. -/
@[ext]
structure Known where
  record : Option LifecycleRecord
  pending : Option Mask
  restore : Option Mask

def knownOf (t : Tid) (r : Runtime) : Known :=
  ⟨r.lifecycle.find? t, r.pendingApplicationMasks.find? t, r.actuator.restoreMasks.find? t⟩

def isExit (t : Tid) (e : BpfEvent) : Bool := decide (e.kind = .taskExit ∧ e.tid = t)

def isFork (t : Tid) (e : BpfEvent) : Bool := decide (e.kind = .taskFork ∧ e.tid = t)

/-- The application gives the TID a mask. -/
def isMask (t : Tid) (e : BpfEvent) : Bool := decide (e.kind = .affinity ∧ e.peerTid = t ∧ e.maskCpus ≠ [])

def isRename (t : Tid) (e : BpfEvent) : Bool := decide (e.kind = .taskRename ∧ e.tid = t)

/-- What an event does to one TID. -/
def Known.act (symbols : BpfEvent → String) (t : Tid) (k : Known) (e : BpfEvent) : Known :=
  if isExit t e then { k with record := none, pending := none }
  else if isFork t e then { k with record := some (forkRecord e (symbols e)) }
  else if isRename t e then { k with record := k.record.map (fun record => { record with name := e.comm }) }
  else if isMask t e then
    if k.record.isSome then { k with restore := some e.maskCpus } else { k with pending := some e.maskCpus }
  else k

variable {staticProfile : Bool} {symbols : BpfEvent → String} {t : Tid}

/-- **An event reaches a TID only if it is about it.** -/
theorem knownOf_handle (r : Runtime) (e : BpfEvent) :
    knownOf t (handleLifecycle staticProfile symbols r e) = (knownOf t r).act symbols t e := by
  have hrelation : knownOf t (r.relate staticProfile e) = knownOf t r := by
    rcases r.relate_cases staticProfile e with he | ⟨o, he⟩
    · rw [he]
    · rw [he]
      rfl
  unfold handleLifecycle handleBpfEvent Known.act isExit isFork isRename isMask
  cases hk : e.kind with
  | futex =>
    refine hrelation.trans ?_
    simp
  | vfs =>
    refine hrelation.trans ?_
    simp
  | taskExec => simp [knownOf]
  | taskFork =>
    by_cases ht : e.tid = t
    · simp [ht, knownOf, threadStarted, forkRecord]
    · simp [ht, knownOf, threadStarted, forkRecord, OrdMap.find?_insert]
  | taskExit =>
    by_cases ht : e.tid = t
    · simp [ht, knownOf, threadExited]
    · simp [ht, knownOf, threadExited, OrdMap.find?_erase]
  | taskRename =>
    by_cases ht : e.tid = t
    · subst ht
      unfold knownOf threadRenamed
      cases hf : r.lifecycle.find? e.tid with
      | none => simp [hf]
      | some record => simp
    · unfold knownOf threadRenamed
      cases hf : r.lifecycle.find? e.tid with
      | none => simp [ht]
      | some record => simp [ht, OrdMap.find?_insert]
  | affinity =>
    by_cases hnil : e.maskCpus = []
    · simp [hnil, knownOf, applicationAffinity]
    · by_cases ht : e.peerTid = t
      · subst ht
        by_cases hin : e.peerTid ∈ r.lifecycle
        · have hsome : (r.lifecycle.find? e.peerTid).isSome = true := hin
          simp [hnil, hin, hsome, knownOf, applicationAffinity, Actuator.noteApplicationMask]
        · have hnone : r.lifecycle.find? e.peerTid = none := OrdMap.notMem_iff.1 hin
          simp [hnil, hin, hnone, knownOf, applicationAffinity]
      · by_cases hin : e.peerTid ∈ r.lifecycle
        · simp [hnil, hin, ht, knownOf, applicationAffinity, Actuator.noteApplicationMask, OrdMap.find?_insert]
        · simp [hnil, hin, ht, knownOf, applicationAffinity, OrdMap.find?_insert]

theorem knownOf_foldl (l : List BpfEvent) (r : Runtime) :
    knownOf t (l.foldl (handleLifecycle staticProfile symbols) r) = l.foldl (Known.act symbols t) (knownOf t r) := by
  induction l generalizing r with
  | nil => rfl
  | cons e l ih => rw [List.foldl_cons, ih, knownOf_handle, List.foldl_cons]

/-! ## Reading a batch for one TID -/

/-- The events after the last exit of the TID, when it exits at all. -/
def afterExit (t : Tid) : List BpfEvent → Option (List BpfEvent)
  | [] => none
  | e :: l =>
    match afterExit t l with
    | some rest => some rest
    | none => if isExit t e then some l else none

/-- The mask of the TID that is noted last: a mask counts while the TID is known, which forks and exits decide. -/
def lastMask (t : Tid) : Bool → Option Mask → List BpfEvent → Option Mask
  | _, mask, [] => mask
  | known, mask, e :: l =>
    if isExit t e then lastMask t false mask l
    else if isFork t e then lastMask t true mask l
    else if isMask t e && known then lastMask t known (some e.maskCpus) l
    else lastMask t known mask l

/-- The batch without its exits. -/
def others (l : List BpfEvent) : List BpfEvent := l.filter (fun e => decide (e.kind ≠ .taskExit))

def exits (l : List BpfEvent) : List BpfEvent := l.filter (fun e => decide (e.kind = .taskExit))

/-- **An event of the TID**, told apart by its kind. -/
theorem kinds (t : Tid) (e : BpfEvent) :
    (isFork t e = true → isExit t e = false) ∧ (isRename t e = true → isExit t e = false ∧ isFork t e = false) ∧
    (isMask t e = true → isExit t e = false ∧ isFork t e = false ∧ isRename t e = false) := by
  unfold isFork isExit isRename isMask
  refine ⟨fun h => ?_, fun h => ?_, fun h => ?_⟩
  · simp [(of_decide_eq_true h).1]
  · simp [(of_decide_eq_true h).1]
  · simp [(of_decide_eq_true h).1]

theorem restore_foldl : ∀ (l : List BpfEvent) (k : Known),
    (l.foldl (Known.act symbols t) k).restore = lastMask t k.record.isSome k.restore l
  | [], _ => rfl
  | e :: l, k => by
    rw [List.foldl_cons, restore_foldl l, lastMask]
    unfold Known.act
    by_cases hexit : isExit t e = true
    · rw [if_pos hexit, if_pos hexit]
      rfl
    · rw [if_neg hexit, if_neg hexit]
      by_cases hfork : isFork t e = true
      · rw [if_pos hfork, if_pos hfork]
        rfl
      · rw [if_neg hfork, if_neg hfork]
        by_cases hname : isRename t e = true
        · have hmask : isMask t e = false := by
            cases hm : isMask t e with
            | false => rfl
            | true => rw [((kinds t e).2.2 hm).2.2] at hname; cases hname
          rw [if_pos hname, hmask]
          simp
        · rw [if_neg hname]
          cases hm : isMask t e with
          | false => simp
          | true =>
            cases hr : k.record with
            | none => simp
            | some record => simp

/-- Exits of other TIDs do nothing to this one. -/
theorem act_exit_other (k : Known) {e : BpfEvent} (hkind : e.kind = .taskExit) (he : isExit t e = false) :
    k.act symbols t e = k := by
  have hfork : isFork t e = false := by simp [isFork, hkind]
  have hname : isRename t e = false := by simp [isRename, hkind]
  have hmask : isMask t e = false := by simp [isMask, hkind]
  unfold Known.act
  rw [he, hfork, hname, hmask]
  rfl

theorem foldl_others : ∀ (l : List BpfEvent) (k : Known), (∀ e ∈ l, isExit t e = false) →
    (others l).foldl (Known.act symbols t) k = l.foldl (Known.act symbols t) k
  | [], _, _ => rfl
  | e :: l, k, h => by
    unfold others
    rw [List.filter_cons]
    by_cases hkind : e.kind = .taskExit
    · rw [if_neg (by simp [hkind]), List.foldl_cons, act_exit_other k hkind (h e List.mem_cons_self)]
      exact foldl_others l k (fun x hx => h x (List.mem_cons_of_mem _ hx))
    · rw [if_pos (by simp [hkind]), List.foldl_cons, List.foldl_cons]
      exact foldl_others l _ (fun x hx => h x (List.mem_cons_of_mem _ hx))

/-- The exits at the end leave nothing but the restore mask, if one is the TID's. -/
theorem foldl_exits : ∀ (l : List BpfEvent) (k : Known), (exits l).foldl (Known.act symbols t) k =
    if (afterExit t l).isSome then ⟨none, none, k.restore⟩ else k
  | [], _ => rfl
  | e :: l, k => by
    unfold exits
    rw [List.filter_cons, afterExit]
    by_cases hkind : e.kind = .taskExit
    · rw [if_pos (by simp [hkind]), List.foldl_cons]
      have hrest := foldl_exits l (k.act symbols t e)
      unfold exits at hrest
      rw [hrest]
      cases hx : isExit t e with
      | false =>
        rw [act_exit_other k hkind hx]
        cases afterExit t l <;> rfl
      | true =>
        have hact : k.act symbols t e = ⟨none, none, k.restore⟩ := by
          unfold Known.act
          rw [if_pos hx]
        rw [hact]
        cases afterExit t l <;> rfl
    · rw [if_neg (by simp [hkind])]
      have hrest := foldl_exits l k
      unfold exits at hrest
      have hx : isExit t e = false := by simp [isExit, hkind]
      rw [hrest, hx]
      cases afterExit t l <;> rfl

theorem afterExit_none : ∀ {l : List BpfEvent}, afterExit t l = none → ∀ e ∈ l, isExit t e = false
  | e :: l, h, x, hx => by
    rw [afterExit] at h
    cases hl : afterExit t l with
    | some rest =>
      rw [hl] at h
      cases h
    | none =>
      rw [hl] at h
      rcases List.mem_cons.1 hx with rfl | hx
      · cases hexit : isExit t x with
        | false => rfl
        | true =>
          rw [hexit] at h
          cases h
      · exact afterExit_none hl x hx

/-- **The last exit makes a TID unknown**, and only what comes after it counts. -/
theorem foldl_afterExit : ∀ {l rest : List BpfEvent} (k : Known), afterExit t l = some rest →
    (∀ e ∈ rest, isExit t e = false) ∧ ∃ restore, l.foldl (Known.act symbols t) k =
      rest.foldl (Known.act symbols t) ⟨none, none, restore⟩
  | e :: l, rest, k, h => by
    rw [afterExit] at h
    cases hl : afterExit t l with
    | some rest' =>
      rw [hl] at h
      cases h
      rw [List.foldl_cons]
      exact foldl_afterExit (k.act symbols t e) hl
    | none =>
      rw [hl] at h
      dsimp only at h
      cases hexit : isExit t e with
      | true =>
        rw [hexit, if_pos rfl] at h
        cases h
        refine ⟨afterExit_none hl, k.restore, ?_⟩
        have hact : k.act symbols t e = ⟨none, none, k.restore⟩ := by
          unfold Known.act
          rw [if_pos hexit]
        rw [List.foldl_cons, hact]
      | false =>
        rw [hexit] at h
        cases h

/-- Nothing forks the TID or gives it a mask. -/
def Untouched (t : Tid) (l : List BpfEvent) : Prop := ∀ e ∈ l, isFork t e = false ∧ isMask t e = false

/-- Without an exit, what is known of a TID stays known. -/
theorem foldl_stays (symbols : BpfEvent → String) {l : List BpfEvent} (hexit : ∀ e ∈ l, isExit t e = false) :
    ∀ {k : Known}, k.record.isSome = true ∨ k.pending.isSome = true →
      (l.foldl (Known.act symbols t) k).record.isSome = true ∨ (l.foldl (Known.act symbols t) k).pending.isSome = true := by
  induction l with
  | nil => exact fun h => h
  | cons e l ih =>
    intro k h
    refine ih (fun x hx => hexit x (List.mem_cons_of_mem _ hx)) ?_
    unfold Known.act
    rw [hexit e List.mem_cons_self, if_neg (by simp)]
    split
    · exact Or.inl rfl
    · split
      · simpa using h
      · split
        · split
          · exact h
          · exact Or.inr rfl
        · exact h

/-- **A TID is unknown after a batch without its exits exactly when nothing touched it.** -/
theorem foldl_none_iff : ∀ {l : List BpfEvent} {restore : Option Mask}, (∀ e ∈ l, isExit t e = false) →
    ((l.foldl (Known.act symbols t) ⟨none, none, restore⟩).record = none ∧
      (l.foldl (Known.act symbols t) ⟨none, none, restore⟩).pending = none ↔ Untouched t l)
  | [], _, _ => by simp [Untouched]
  | e :: l, restore, hexit => by
    have hrest : ∀ x ∈ l, isExit t x = false := fun x hx => hexit x (List.mem_cons_of_mem _ hx)
    have hhead : isExit t e = false := hexit e List.mem_cons_self
    have hcons : Untouched t (e :: l) ↔ (isFork t e = false ∧ isMask t e = false) ∧ Untouched t l := List.forall_mem_cons
    rw [List.foldl_cons, hcons]
    by_cases htouch : isFork t e = false ∧ isMask t e = false
    · have hact : Known.act symbols t ⟨none, none, restore⟩ e = ⟨none, none, restore⟩ := by
        unfold Known.act
        rw [hhead, htouch.1, htouch.2]
        simp
      rw [hact, foldl_none_iff hrest]
      exact ⟨fun h => ⟨htouch, h⟩, fun h => h.2⟩
    · have hsome : (Known.act symbols t ⟨none, none, restore⟩ e).record.isSome = true ∨
          (Known.act symbols t ⟨none, none, restore⟩ e).pending.isSome = true := by
        unfold Known.act
        rw [hhead, if_neg (by simp)]
        cases hfork : isFork t e with
        | true => exact Or.inl rfl
        | false =>
          have hmask : isMask t e = true := by
            cases hm : isMask t e with
            | true => rfl
            | false => exact absurd ⟨hfork, hm⟩ htouch
          rw [((kinds t e).2.2 hmask).2.2, hmask]
          exact Or.inr rfl
      refine iff_of_false (fun h => ?_) (fun h => htouch h.1)
      rcases foldl_stays symbols hrest hsome with hs | hs
      · rw [h.1] at hs
        cases hs
      · rw [h.2] at hs
        cases hs

/-! ## The tables -/

theorem Tables.ext_known {r r' : Runtime} : r.tables = r'.tables ↔
    r.targetTgids = r'.targetTgids ∧ ∀ t, knownOf t r = knownOf t r' := by
  constructor
  · intro h
    have hlife : r.lifecycle = r'.lifecycle := congrArg Tables.lifecycle h
    have hpend : r.pendingApplicationMasks = r'.pendingApplicationMasks := congrArg Tables.pendingApplicationMasks h
    have hrestore : r.actuator.restoreMasks = r'.actuator.restoreMasks := congrArg Tables.restoreMasks h
    refine ⟨congrArg Tables.targetTgids h, fun t => ?_⟩
    unfold knownOf
    rw [hlife, hpend, hrestore]
  · rintro ⟨htgids, hknown⟩
    have hlife : r.lifecycle = r'.lifecycle := OrdMap.ext_find (fun t => congrArg Known.record (hknown t))
    have hpend : r.pendingApplicationMasks = r'.pendingApplicationMasks :=
      OrdMap.ext_find (fun t => congrArg Known.pending (hknown t))
    have hrestore : r.actuator.restoreMasks = r'.actuator.restoreMasks :=
      OrdMap.ext_find (fun t => congrArg Known.restore (hknown t))
    unfold Runtime.tables
    rw [hlife, hpend, htgids, hrestore]

/-- What an event adds to the targets. -/
def noteTgid (s : OrdSet Int) (e : BpfEvent) : OrdSet Int :=
  match e.kind with
  | .taskFork => if 0 < e.tgid then s.add e.tgid else s
  | .taskExec => s.add e.tgid
  | _ => s

theorem targetTgids_handle (r : Runtime) (e : BpfEvent) :
    (handleLifecycle staticProfile symbols r e).targetTgids = noteTgid r.targetTgids e := by
  have hrelation : (r.relate staticProfile e).targetTgids = r.targetTgids := by
    rcases r.relate_cases staticProfile e with he | ⟨o, he⟩
    · rw [he]
    · rw [he]
  unfold handleLifecycle handleBpfEvent noteTgid
  cases e.kind with
  | futex => exact hrelation
  | vfs => exact hrelation
  | taskFork => rfl
  | taskExec => rfl
  | taskExit => rfl
  | taskRename =>
    dsimp only [threadRenamed]
    split <;> rfl
  | affinity =>
    dsimp only [applicationAffinity]
    split
    · rfl
    · split <;> rfl

theorem targetTgids_foldl (l : List BpfEvent) (r : Runtime) :
    (l.foldl (handleLifecycle staticProfile symbols) r).targetTgids = l.foldl noteTgid r.targetTgids := by
  induction l generalizing r with
  | nil => rfl
  | cons e l ih => rw [List.foldl_cons, ih, targetTgids_handle, List.foldl_cons]

theorem noteTgid_exits (l : List BpfEvent) (s : OrdSet Int) : (exits l).foldl noteTgid s = s := by
  induction l with
  | nil => rfl
  | cons e l ih =>
    unfold exits at ih ⊢
    rw [List.filter_cons]
    split
    · rename_i hkind
      have hkind' : e.kind = .taskExit := of_decide_eq_true hkind
      have hnote : noteTgid s e = s := by
        unfold noteTgid
        rw [hkind']
      rw [List.foldl_cons, hnote, ih]
    · exact ih

/-- Exits do not touch the targets, so their place does not matter. -/
theorem noteTgid_others (l : List BpfEvent) (s : OrdSet Int) : (others l).foldl noteTgid s = l.foldl noteTgid s := by
  induction l generalizing s with
  | nil => rfl
  | cons e l ih =>
    unfold others at ih ⊢
    rw [List.filter_cons, List.foldl_cons]
    split
    · rw [List.foldl_cons, ih]
    · rename_i hkind
      have hkind' : e.kind = .taskExit := by simpa using hkind
      have hnote : noteTgid s e = s := by
        unfold noteTgid
        rw [hkind']
      rw [hnote, ih]

/-- The relations of a batch do not reach the tables. -/
theorem tables_ingestRelations (staticProfile : Bool) (r : Runtime) {order : List PendingRelation} (horder : ∀ e ∈ order, IsRelation e)
    (durationNs : Nat) : (r.ingestRelations staticProfile order durationNs).tables = r.tables := by
  have hone : ∀ (r : Runtime) (e : PendingRelation), IsRelation e →
      (r.handleBpfEvent staticProfile (relationEvent durationNs e) "").tables = r.tables := by
    intro r e he
    have hrelation : (r.relate staticProfile (relationEvent durationNs e)).tables = r.tables := by
      rcases r.relate_cases staticProfile (relationEvent durationNs e) with he | ⟨o, he⟩
      · rw [he]
      · rw [he]
        rfl
    unfold handleBpfEvent
    rcases he with hk | hk
    · simp only [relationEvent, hk] at hrelation ⊢
      exact hrelation
    · simp only [relationEvent, hk] at hrelation ⊢
      exact hrelation
  have hall : ∀ (l : List PendingRelation) (r : Runtime), (∀ e ∈ l, IsRelation e) →
      (l.foldl (fun r e => r.handleBpfEvent staticProfile (relationEvent durationNs e) "") r).tables = r.tables := by
    intro l
    induction l with
    | nil => exact fun r _ => rfl
    | cons e l ih =>
      intro r hl
      rw [List.foldl_cons, ih _ (fun x hx => hl x (List.mem_cons_of_mem _ hx)), hone r e (hl e List.mem_cons_self)]
  unfold ingestRelations
  dsimp only
  rw [hall _ _ (fun e he => horder e (List.mem_filter.1 he).1)]
  rfl

/-- The place of the exits does not matter to the TID: nothing comes after its last one, and the mask that is noted last is the
same whether the exits count or not. -/
def Settled (r : Runtime) (t : Tid) : Prop :=
  (∀ rest, afterExit t r.pendingLifecycleEvents = some rest → Untouched t rest) ∧
  lastMask t (decide (t ∈ r.lifecycle)) (r.actuator.restoreMasks.find? t) (others r.pendingLifecycleEvents) =
    lastMask t (decide (t ∈ r.lifecycle)) (r.actuator.restoreMasks.find? t) r.pendingLifecycleEvents

/-- One TID, handled with the exits last and in order. -/
theorem known_eq_iff (symbols : BpfEvent → String) (r : Runtime) (t : Tid) :
    (exits r.pendingLifecycleEvents).foldl (Known.act symbols t)
        ((others r.pendingLifecycleEvents).foldl (Known.act symbols t) (knownOf t r)) =
      r.pendingLifecycleEvents.foldl (Known.act symbols t) (knownOf t r) ↔ Settled r t := by
  have hknown : decide (t ∈ r.lifecycle) = (knownOf t r).record.isSome := Bool.decide_eq_true
  have hmask : ∀ l : List BpfEvent, (l.foldl (Known.act symbols t) (knownOf t r)).restore =
      lastMask t (decide (t ∈ r.lifecycle)) (r.actuator.restoreMasks.find? t) l := by
    intro l
    rw [restore_foldl, hknown]
    rfl
  unfold Settled
  rw [foldl_exits]
  cases htail : afterExit t r.pendingLifecycleEvents with
  | none =>
    have hsame : (others r.pendingLifecycleEvents).foldl (Known.act symbols t) (knownOf t r) =
        r.pendingLifecycleEvents.foldl (Known.act symbols t) (knownOf t r) :=
      foldl_others r.pendingLifecycleEvents (knownOf t r) (afterExit_none htail)
    refine iff_of_true hsame ⟨fun rest hrest => ?_, ?_⟩
    · cases hrest
    · rw [← hmask, ← hmask, hsame]
  | some rest =>
    obtain ⟨hexit, restore, hfold⟩ : (∀ e ∈ rest, isExit t e = false) ∧ ∃ restore,
        r.pendingLifecycleEvents.foldl (Known.act symbols t) (knownOf t r) =
          rest.foldl (Known.act symbols t) ⟨none, none, restore⟩ := foldl_afterExit (knownOf t r) htail
    have hnone : (r.pendingLifecycleEvents.foldl (Known.act symbols t) (knownOf t r)).record = none ∧
        (r.pendingLifecycleEvents.foldl (Known.act symbols t) (knownOf t r)).pending = none ↔ Untouched t rest := by
      rw [hfold]
      exact foldl_none_iff hexit
    rw [← hmask, ← hmask, Known.ext_iff]
    constructor
    · rintro ⟨hrecord, hpending, hrestore⟩
      refine ⟨fun rest' hrest' => ?_, hrestore⟩
      cases hrest'
      exact hnone.1 ⟨hrecord.symm, hpending.symm⟩
    · rintro ⟨huntouched, hrestore⟩
      obtain ⟨hrecord, hpending⟩ := hnone.2 (huntouched rest rfl)
      exact ⟨hrecord.symm, hpending.symm, hrestore⟩

/-- **When the place of the exits does not matter**: a consume leaves the tables as if it had handled its events in the order
they were drained exactly when every TID is settled. -/
theorem tables_eq_iff (r : Runtime) {order : List PendingRelation} (horder : ∀ e ∈ order, IsRelation e) (now : Nat) :
    r.consumePendingBpf staticProfile order symbols now =
        (if r.pendingLifecycleOverflow ≠ 0 ∨ r.pendingRelationOverflow ≠ 0 then
          (r.handledDeferred staticProfile order symbols now).triggerFatal "BPF user-space pending buffer overflow"
        else .ok (r.handledDeferred staticProfile order symbols now)) ∧
    ((r.handledDeferred staticProfile order symbols now).tables = (r.handledInOrder staticProfile symbols).tables ↔
      ∀ t, Settled r t) := by
  refine ⟨rfl, ?_⟩
  obtain ⟨r₁, hr₁⟩ : ∃ r₁, (others r.pendingLifecycleEvents).foldl (handleLifecycle staticProfile symbols) r.takePending = r₁ :=
    ⟨_, rfl⟩
  have hdeferred : r.handledDeferred staticProfile order symbols now =
      (exits r.pendingLifecycleEvents).foldl (handleLifecycle staticProfile symbols)
        (r₁.ingestRelations staticProfile order (r.relationDurationNs now)) := by
    rw [← hr₁]
    rfl
  have hinOrder : r.handledInOrder staticProfile symbols =
      r.pendingLifecycleEvents.foldl (handleLifecycle staticProfile symbols) r.takePending := rfl
  obtain ⟨htgids, hknown⟩ := Tables.ext_known.1
    (tables_ingestRelations staticProfile r₁ horder (r.relationDurationNs now))
  have hsame : (r.handledDeferred staticProfile order symbols now).targetTgids =
      (r.handledInOrder staticProfile symbols).targetTgids := by
    rw [hdeferred, hinOrder, targetTgids_foldl, targetTgids_foldl, noteTgid_exits, htgids, ← hr₁, targetTgids_foldl,
      noteTgid_others]
  have hsettled : ∀ t, knownOf t (r.handledDeferred staticProfile order symbols now) =
      knownOf t (r.handledInOrder staticProfile symbols) ↔ Settled r t := by
    intro t
    rw [← known_eq_iff symbols, hdeferred, hinOrder, knownOf_foldl, knownOf_foldl, hknown t, ← hr₁, knownOf_foldl]
    exact Iff.rfl
  rw [Tables.ext_known]
  exact ⟨fun h t => (hsettled t).1 (h.2 t), fun h => ⟨hsame, fun t => (hsettled t).2 (h t)⟩⟩

/-! ### A TID that comes back in the batch -/

/-- Thread 5 is known, and the reader has drained these events. -/
def drainedRuntime (events : List BpfEvent) (h : ∀ e ∈ events, e.kind ≠ .futex ∧ e.kind ≠ .vfs) : Runtime :=
  { Handover.forkedRuntime with lifecycle := OrdMap.ofList [(5, { tgid := 9, tid := 5, bpfStartTimeNs := 1 })] }.drainBpfOnce
    { lifecycle := events, lifecycleKinds := h } 1

def renameEvent : BpfEvent where
  kind := .taskRename
  tgid := 9
  tid := 5
  comm := "w"

/-- The thread is renamed and exits. -/
def leaves : Runtime := drainedRuntime [renameEvent, Handover.exitEvent]
  (by simp [renameEvent, Handover.exitEvent])

theorem leaves_events : leaves.pendingLifecycleEvents = [renameEvent, Handover.exitEvent] := rfl

theorem tables_eq_iff_leaves : leaves.consumePendingBpf false [] (fun _ => "") 2 =
      .ok (leaves.handledDeferred false [] (fun _ => "") 2) ∧
    (leaves.handledDeferred false [] (fun _ => "") 2).tables = (leaves.handledInOrder false (fun _ => "")).tables := by
  have hiff := @tables_eq_iff false (fun _ => "") leaves [] (fun e he => absurd he List.not_mem_nil) 2
  refine ⟨hiff.1, hiff.2.2 (fun t => ⟨fun rest hrest => ?_, ?_⟩)⟩
  · rw [leaves_events] at hrest
    by_cases ht : (5 : Tid) = t
    · have hnil : rest = [] := by simpa [afterExit, isExit, renameEvent, Handover.exitEvent, ht] using hrest
      rw [hnil]
      exact fun e he => absurd he List.not_mem_nil
    · simp [afterExit, isExit, renameEvent, Handover.exitEvent, ht] at hrest
  · rw [leaves_events]
    simp [others, lastMask, isExit, isFork, isMask, renameEvent, Handover.exitEvent]

/-- The thread exits and its TID is forked again. -/
def returns : Runtime := drainedRuntime [Handover.exitEvent, Handover.forkEvent]
  (by simp [Handover.exitEvent, Handover.forkEvent])

/-- **A TID that exits and is forked again in one batch is forgotten.** -/
theorem reborn_is_forgotten : returns.consumePendingBpf false [] (fun _ => "") 2 =
      .ok (returns.handledDeferred false [] (fun _ => "") 2) ∧
    5 ∉ (returns.handledDeferred false [] (fun _ => "") 2).lifecycle ∧
    5 ∈ (returns.handledInOrder false (fun _ => "")).lifecycle ∧
    (returns.handledDeferred false [] (fun _ => "") 2).tables ≠ (returns.handledInOrder false (fun _ => "")).tables := by
  have hgone : (5 : Tid) ∉ (returns.handledDeferred false [] (fun _ => "") 2).lifecycle := by decide +kernel
  have hthere : (5 : Tid) ∈ (returns.handledInOrder false (fun _ => "")).lifecycle := by decide +kernel
  refine ⟨rfl, hgone, hthere, fun h => ?_⟩
  have hlife : (returns.handledDeferred false [] (fun _ => "") 2).lifecycle =
      (returns.handledInOrder false (fun _ => "")).lifecycle := congrArg Tables.lifecycle h
  rw [hlife] at hgone
  exact hgone hthere

end Deferral
end AffinityGraph
