import AffinityGraph.DomainDwell
import AffinityGraph.PlanSound
/-!
# CommitExact — what `NumaDomainSolver::commit` leaves in `placement_`

Three loops update the one map.  The second gives every planned thread that is in the map its planned mask, whether or
not its action was committed; the comment above it says that an action that was not committed must not enter the map.
So a commit is exact when no thread with an earlier mask is left out of it (`commit_exact_iff`).
-/
namespace AffinityGraph
namespace NumaDomainSolver

/-! ## Where an outstanding proposal comes from -/

/-- The proposal was made of a state whose placement has only lost threads since. -/
def MadeFrom (s : NumaDomainSolver) (p : NumaDomainProposal) : Prop :=
  ∃ s₀ input, p = proposalOf s₀ input ∧
    ∀ t, s.placement.find? t = s₀.placement.find? t ∨ s.placement.find? t = none

theorem Reachable.madeFrom {s : NumaDomainSolver} (h : Reachable s) {p : NumaDomainProposal}
    (hp : s.outstanding = some p) : MadeFrom s p := by
  obtain ⟨es, he⟩ := h
  refine Run.exec_keeps (fun s => ∀ p, s.outstanding = some p → MadeFrom s p) ?_ (fun p hp => by cases hp) he p hp
  intro s e s' hs hstep
  cases e with
  | propose input =>
    simp only [solverStep] at hstep
    cases hprop : propose s input with
    | error e => rw [hprop] at hstep; cases hstep
    | ok r =>
      obtain ⟨p, t⟩ := r
      rw [hprop] at hstep
      cases hstep
      obtain ⟨-, -, rfl⟩ := propose_ok hprop
      intro q hq
      cases hq
      exact ⟨s, input, rfl, fun t => Or.inl rfl⟩
  | commit nowNs tids =>
    unfold solverStep at hstep
    obtain ⟨p, hp, hc⟩ := Option.bind_eq_some_iff.1 hstep
    cases hok : commit s p nowNs tids with
    | error e => rw [hok] at hc; cases hc
    | ok t =>
      rw [hok] at hc
      cases hc
      obtain ⟨-, -, hout, -⟩ := commit_ok hok
      intro q hq
      rw [hout] at hq
      cases hq
  | discard =>
    unfold solverStep at hstep
    obtain ⟨p, hp, hc⟩ := Option.map_eq_some_iff.1 hstep
    rw [← hc]
    unfold discard
    split
    · intro q hq
      cases hq
    · exact hs
  | removeThread tid =>
    cases hstep
    intro q hq
    obtain ⟨s₀, input, he, hsub⟩ := hs q hq
    refine ⟨s₀, input, he, fun t => ?_⟩
    show (s.placement.erase tid).find? t = _ ∨ (s.placement.erase tid).find? t = none
    rw [OrdMap.find?_erase]
    split
    · exact Or.inr rfl
    · exact hsub t
  | reset =>
    cases hstep
    intro q hq
    cases hq

/-! ## The three loops, thread by thread -/

section Commit

variable {s₀ : NumaDomainSolver} {input : ProposeInput} {placement : OrdMap Tid Mask} {tids : OrdSet Tid} {t : Tid}

/-- The thread has an action that is committed. -/
def Acts (p : NumaDomainProposal) (tids : OrdSet Tid) (t : Tid) : Prop :=
  (∃ a ∈ p.actions, a.identity.tid = t) ∧ (tids.isEmpty = true ∨ t ∈ tids)

theorem acts_iff {p : NumaDomainProposal} : Acts p tids t ↔
    (p.actions.map (·.identity.tid)).contains t = true ∧ (tids.isEmpty = true ∨ t ∈ tids) := by
  unfold Acts
  rw [List.contains_iff_mem, List.mem_map]

/-- The loop over the actions writes what the loop before it has written. -/
theorem foldl_actions_same : ∀ (l : List NumaDomainAction) (q : OrdMap Tid Mask),
    (∀ a ∈ l, (tids.isEmpty = true ∨ a.identity.tid ∈ tids) → q.find? a.identity.tid = some a.targetMask) →
    l.foldl (fun (q : OrdMap Tid Mask) a =>
      if tids.isEmpty = false ∧ a.identity.tid ∉ tids then q else q.insert a.identity.tid a.targetMask) q = q
  | [], _, _ => rfl
  | a :: l, q, h => by
    rw [List.foldl_cons]
    have hstep : (if tids.isEmpty = false ∧ a.identity.tid ∉ tids then q
        else q.insert a.identity.tid a.targetMask) = q := by
      split
      · rfl
      · rename_i hcommitted
        refine OrdMap.insert_find? (h a List.mem_cons_self ?_)
        rw [not_and_or, Bool.not_eq_false, not_not] at hcommitted
        exact hcommitted
    rw [hstep]
    exact foldl_actions_same l q (fun x hx => h x (List.mem_cons_of_mem _ hx))

/-- The loop over the planned masks: what becomes of one thread. -/
def placed (p : NumaDomainProposal) (tids : OrdSet Tid) (kept : OrdMap Tid Mask) : OrdMap Tid Mask :=
  p.plannedMasks.entries.foldl (fun (q : OrdMap Tid Mask) e =>
    if e.1 ∈ q ∨ e.1 ∈ p.inheritedTids ∨
        ((p.actions.map (·.identity.tid)).contains e.1 = true ∧ (tids.isEmpty = true ∨ e.1 ∈ tids)) then q.insert e.1 e.2
    else q) kept

theorem find?_placed_of_notMem (p : NumaDomainProposal) (tids : OrdSet Tid) (kept : OrdMap Tid Mask)
    (h : p.plannedMasks.find? t = none) : (placed p tids kept).find? t = kept.find? t := by
  refine (placePlanned_local p tids).foldl_notMem (fun e he hk => ?_)
  have hentry := OrdMap.mem_entries.1 (show (e.1, e.2) ∈ p.plannedMasks.entries from he)
  rw [hk, h] at hentry
  cases hentry

theorem find?_placed (p : NumaDomainProposal) (tids : OrdSet Tid) (kept : OrdMap Tid Mask) {m : Mask}
    (h : p.plannedMasks.find? t = some m) :
    ((t ∈ kept ∨ t ∈ p.inheritedTids ∨ Acts p tids t) → (placed p tids kept).find? t = some m) ∧
    (¬ (t ∈ kept ∨ t ∈ p.inheritedTids ∨ Acts p tids t) → (placed p tids kept).find? t = none) := by
  obtain ⟨pre, post, -, hbefore, hafter⟩ :=
    (placePlanned_local p tids).foldl_at p.plannedMasks.nodup_keys (OrdMap.mem_entries.2 h) kept
  dsimp only at hbefore hafter
  -- the map the thread's turn finds has the thread when the loop began with it
  have hsame : ∀ q : OrdMap Tid Mask, q.find? t = kept.find? t → (t ∈ q ↔ t ∈ kept) := by
    intro q hq
    rw [OrdMap.mem_def, OrdMap.mem_def, hq]
  refine ⟨fun hcond => ?_, fun hcond => ?_⟩
  · unfold placed
    rw [hafter, if_pos ?_, OrdMap.find?_insert_self]
    rcases hcond with hcond | hcond | hcond
    · exact Or.inl ((hsame _ hbefore).2 hcond)
    · exact Or.inr (Or.inl hcond)
    · exact Or.inr (Or.inr (acts_iff.1 hcond))
  · have hkept : kept.find? t = none := OrdMap.notMem_iff.1 (fun hin => hcond (Or.inl hin))
    unfold placed
    rw [hafter, if_neg ?_, hbefore, hkept]
    rintro (hin | hin | hin)
    · exact hcond (Or.inl ((hsame _ hbefore).1 hin))
    · exact hcond (Or.inr (Or.inl hin))
    · exact hcond (Or.inr (Or.inr (acts_iff.2 hin)))

theorem commitPlacement_eq : commitPlacement placement (proposalOf s₀ input) tids =
    placed (proposalOf s₀ input) tids ((proposalOf s₀ input).releasedTids.toList.foldl OrdMap.erase placement) := by
  unfold commitPlacement
  refine foldl_actions_same _ _ (fun a ha hcommitted => ?_)
  exact (find?_placed _ tids _ (mem_actions ha).1).1 (Or.inr (Or.inr ⟨⟨a, ha, rfl⟩, hcommitted⟩))

/-- A planned thread is never released. -/
theorem mem_kept {m : Mask} (h : (proposalOf s₀ input).plannedMasks.find? t = some m) :
    t ∈ (proposalOf s₀ input).releasedTids.toList.foldl OrdMap.erase placement ↔ t ∈ placement := by
  have hnot : t ∉ (proposalOf s₀ input).releasedTids.toList := by
    rw [OrdSet.mem_toList, mem_releasedTids]
    exact fun hr => hr.2 (OrdMap.mem_of_find h)
  rw [OrdMap.mem_def, OrdMap.mem_def, OrdMap.find?_foldl_erase, if_neg hnot]

/-- **A planned thread after a commit** has its planned mask if it was there before, or inherited the mask, or its action
was committed; else it is not there. -/
theorem find?_commit {m : Mask} (h : (proposalOf s₀ input).plannedMasks.find? t = some m) :
    ((t ∈ placement ∨ t ∈ (proposalOf s₀ input).inheritedTids ∨ Acts (proposalOf s₀ input) tids t) →
      (commitPlacement placement (proposalOf s₀ input) tids).find? t = some m) ∧
    (¬ (t ∈ placement ∨ t ∈ (proposalOf s₀ input).inheritedTids ∨ Acts (proposalOf s₀ input) tids t) →
      (commitPlacement placement (proposalOf s₀ input) tids).find? t = none) := by
  have hplaced := find?_placed (proposalOf s₀ input) tids
    ((proposalOf s₀ input).releasedTids.toList.foldl OrdMap.erase placement) h
  rw [mem_kept h] at hplaced
  rw [commitPlacement_eq]
  exact hplaced

/-- A thread that is not planned is there after a commit only if the proposal did not know it. -/
theorem find?_commit_of_notMem (h : (proposalOf s₀ input).plannedMasks.find? t = none)
    (hsub : t ∈ placement → t ∈ s₀.placement) :
    (commitPlacement placement (proposalOf s₀ input) tids).find? t = none := by
  rw [commitPlacement_eq, find?_placed_of_notMem _ _ _ h, OrdMap.find?_foldl_erase]
  split
  · rfl
  · rename_i hkept
    rw [OrdSet.mem_toList, mem_releasedTids] at hkept
    exact OrdMap.notMem_iff.1 (fun hin => hkept ⟨hsub hin, OrdMap.notMem_iff.2 h⟩)

end Commit

/-! ## Exactness -/

/-- **An exact commit.** -/
structure CommitsExactly (s : NumaDomainSolver) (p : NumaDomainProposal) (tids : OrdSet Tid) (s' : NumaDomainSolver) :
    Prop where
  released : ∀ t ∈ p.releasedTids, t ∉ s'.placement
  written : ∀ t, t ∈ tids ∨ t ∈ p.inheritedTids →
    ∃ m, p.plannedMasks.find? t = some m ∧ s'.placement.find? t = some m
  /-- a planned thread that needed no action -/
  spared : ∀ t ∈ p.plannedMasks, t ∉ p.inheritedTids → (∀ a ∈ p.actions, a.identity.tid ≠ t) →
    s'.placement.find? t = s.placement.find? t
  uncommitted : ∀ a ∈ p.actions, a.identity.tid ∉ tids →
    s'.placement.find? a.identity.tid = s.placement.find? a.identity.tid
  planned : ∀ t ∈ s'.placement, t ∈ p.plannedMasks

section Exact

variable {s : NumaDomainSolver} {p : NumaDomainProposal} {tids : OrdSet Tid}

theorem acts_of_mem (hne : tids.isEmpty = false) {t : Tid} : Acts p tids t ↔
    (∃ a ∈ p.actions, a.identity.tid = t) ∧ t ∈ tids := by
  unfold Acts
  rw [hne]
  simp

/-- A planned thread without an action and without the mask was placed with it when the plan was made. -/
theorem placement_of_spared {s₀ : NumaDomainSolver} {input : ProposeInput} (hr : (proposalOf s₀ input).ready = true)
    {t : Tid} {m : Mask} (hm : (proposalOf s₀ input).plannedMasks.find? t = some m)
    (hinh : t ∉ (proposalOf s₀ input).inheritedTids) (hact : ∀ a ∈ (proposalOf s₀ input).actions, a.identity.tid ≠ t) :
    s₀.placement.find? t = some m := by
  have hneed : need s₀.placement input.allowedMasks t m ≠ .action := by
    intro hneed
    obtain ⟨a, ha, -⟩ := (written_of_need hr hm hneed).action
    have hmem : a ∈ (proposalOf s₀ input).actions.filter (fun a => decide (a.identity.tid = t)) := by
      rw [ha]
      exact List.mem_singleton.2 rfl
    exact hact a (List.mem_of_mem_filter hmem) (of_decide_eq_true (List.mem_filter.1 hmem).2)
  rcases spared_of_need hm hneed with hplaced | ⟨hinherited, -, -⟩
  · exact hplaced
  · exact absurd (mem_inheritedTids.2 ⟨hr, m, hm, hinherited⟩) hinh

/-- An action is for a thread that does not have the mask. -/
theorem placement_of_action {s₀ : NumaDomainSolver} {input : ProposeInput} {a : NumaDomainAction}
    (ha : a ∈ (proposalOf s₀ input).actions) : s₀.placement.find? a.identity.tid ≠ some a.targetMask := by
  intro hplaced
  have hneed := (mem_actions ha).2
  rw [need, if_pos hplaced] at hneed
  cases hneed

theorem inherited_unplaced {s₀ : NumaDomainSolver} {input : ProposeInput} {t : Tid}
    (h : t ∈ (proposalOf s₀ input).inheritedTids) :
    ∃ m, (proposalOf s₀ input).plannedMasks.find? t = some m ∧ ∀ a ∈ (proposalOf s₀ input).actions, a.identity.tid ≠ t := by
  obtain ⟨-, m, hm, hneed⟩ := mem_inheritedTids.1 h
  refine ⟨m, hm, (unwritten_of_need hm ?_).action⟩
  rw [hneed]
  decide

/-- **When a commit is exact**: for every outstanding ready proposal and every non-empty set of its action TIDs, exactly
when every thread whose action is left out has no mask yet. -/
theorem commit_exact_iff (hs : Reachable s) (hp : s.outstanding = some p) (hr : p.ready = true) (nowNs : Nat)
    (hne : tids.isEmpty = false) (htids : ∀ t ∈ tids, ∃ a ∈ p.actions, a.identity.tid = t) :
    ∃ s', commit s p nowNs tids = .ok s' ∧
      (CommitsExactly s p tids s' ↔ ∀ a ∈ p.actions, a.identity.tid ∈ tids ∨ a.identity.tid ∉ s.placement) := by
  obtain ⟨s₀, input, rfl, hsub⟩ := hs.madeFrom hp
  obtain ⟨s', hok⟩ : ∃ s', commit s (proposalOf s₀ input) nowNs tids = .ok s' := by
    unfold commit
    rw [if_pos (by rw [hp]; rfl)]
    exact ⟨_, rfl⟩
  obtain ⟨-, -, -, hplacement⟩ := commit_ok hok
  have hfound : ∀ {t m}, s.placement.find? t = some m → s₀.placement.find? t = some m := by
    intro t m hm
    rcases hsub t with h | h
    · rw [← h, hm]
    · rw [h] at hm
      cases hm
  have hmem : ∀ {t}, t ∈ s.placement → t ∈ s₀.placement := by
    intro t ht
    obtain ⟨m, hm⟩ := OrdMap.mem_iff.1 ht
    exact OrdMap.mem_of_find (hfound hm)
  refine ⟨s', hok, fun h a ha => ?_, fun h => ⟨fun t ht => ?_, fun t ht => ?_, fun t ht hinh hact => ?_,
    fun a ha hout => ?_, fun t ht => ?_⟩⟩
  · -- a thread left out with a mask gets the planned one, which is not the one it had
    rw [or_iff_not_imp_left]
    intro hout hin
    obtain ⟨hplan, -⟩ := mem_actions ha
    have hkept := h.uncommitted a ha hout
    rw [hplacement, (find?_commit hplan).1 (Or.inl hin)] at hkept
    exact placement_of_action ha (hfound hkept.symm)
  · obtain ⟨-, hnot⟩ := mem_releasedTids.1 ht
    rw [hplacement, OrdMap.notMem_iff]
    exact find?_commit_of_notMem (OrdMap.notMem_iff.1 hnot) hmem
  · rw [hplacement]
    rcases ht with ht | ht
    · obtain ⟨a, ha, rfl⟩ := htids t ht
      obtain ⟨hplan, -⟩ := mem_actions ha
      exact ⟨_, hplan, (find?_commit hplan).1 (Or.inr (Or.inr ⟨⟨a, ha, rfl⟩, Or.inr ht⟩))⟩
    · obtain ⟨m, hm, -⟩ := inherited_unplaced ht
      exact ⟨m, hm, (find?_commit hm).1 (Or.inr (Or.inl ht))⟩
  · obtain ⟨m, hm⟩ := OrdMap.mem_iff.1 ht
    rw [hplacement]
    rcases hsub t with hsame | hgone
    · have hplaced : s.placement.find? t = some m := by
        rw [hsame]
        exact placement_of_spared hr hm hinh hact
      rw [hplaced]
      exact (find?_commit hm).1 (Or.inl (OrdMap.mem_of_find hplaced))
    · rw [hgone]
      refine (find?_commit hm).2 ?_
      rintro (hin | hin | ⟨⟨a, ha, htid⟩, -⟩)
      · exact OrdMap.notMem_iff.2 hgone hin
      · exact hinh hin
      · exact hact a ha htid
  · have hunplaced : a.identity.tid ∉ s.placement := (h a ha).resolve_left hout
    rw [hplacement, OrdMap.notMem_iff.1 hunplaced]
    refine (find?_commit (mem_actions ha).1).2 ?_
    rintro (hin | hin | hin)
    · exact hunplaced hin
    · obtain ⟨m, -, hact⟩ := inherited_unplaced hin
      exact hact a ha rfl
    · exact hout ((acts_of_mem hne).1 hin).2
  · by_contra hnot
    rw [hplacement] at ht
    exact OrdMap.notMem_iff.2 (find?_commit_of_notMem (OrdMap.notMem_iff.1 hnot) hmem) ht

end Exact

/-! Two threads of a committed domain lose CPUs of its node: both are to be written again. -/

def narrowedWindow : ProposeInput := twoFamilies 0 [dwellEdge 1 2, dwellEdge 3 4, dwellEdge 1 3]
  (OrdMap.ofList [(1, [2, 3]), (2, [2, 3])]) 2000

def narrowedRun : List SolverEvent := unionCommitted ++ [.propose narrowedWindow]

/-- The proposal a run leaves outstanding. -/
def leftBy (es : List SolverEvent) (test : NumaDomainSolver → NumaDomainProposal → Bool) : Bool :=
  match Run.exec solverStep {} es with
  | none => false
  | some s => match s.outstanding with
    | none => false
    | some p => test s p

theorem leftBy_spec {es : List SolverEvent} {test : NumaDomainSolver → NumaDomainProposal → Bool}
    (h : leftBy es test = true) : ∃ s p, Reachable s ∧ s.outstanding = some p ∧ test s p = true := by
  unfold leftBy at h
  cases hr : Run.exec solverStep {} es with
  | none => rw [hr] at h; cases h
  | some s =>
    rw [hr] at h
    dsimp only at h
    cases hp : s.outstanding with
    | none => rw [hp] at h; cases h
    | some p =>
      rw [hp] at h
      exact ⟨s, p, ⟨es, hr⟩, hp, h⟩

theorem commit_exact_iff_narrowed : ∃ s p, Reachable s ∧ s.outstanding = some p ∧ p.ready = true ∧
    p.actions.map (·.identity.tid) = [1, 2] ∧ ∃ s', commit s p 2000 (OrdSet.ofList [1, 2]) = .ok s' ∧
      (CommitsExactly s p (OrdSet.ofList [1, 2]) s' ↔
        ∀ a ∈ p.actions, a.identity.tid ∈ OrdSet.ofList [1, 2] ∨ a.identity.tid ∉ s.placement) := by
  have h : leftBy narrowedRun (fun _ p => decide (p.ready = true ∧ p.actions.map (·.identity.tid) = [1, 2])) = true := by
    decide +kernel
  obtain ⟨s, p, hs, hp, ht⟩ := leftBy_spec h
  obtain ⟨hr, hacts⟩ := of_decide_eq_true ht
  refine ⟨s, p, hs, hp, hr, hacts, commit_exact_iff hs hp hr 2000 (by decide) (fun t ht => ?_)⟩
  rw [OrdSet.mem_ofList, ← hacts] at ht
  obtain ⟨a, ha, htid⟩ := List.mem_map.1 ht
  exact ⟨a, ha, htid⟩

/-- **A mask that was never written is recorded**: only thread 1 is committed, and thread 2 is on record with the mask
its action would have written. -/
theorem commit_records_unwritten : ∃ s p s', Reachable s ∧ s.outstanding = some p ∧ p.ready = true ∧
    (∀ t ∈ OrdSet.ofList [(1 : Tid)], ∃ a ∈ p.actions, a.identity.tid = t) ∧
    commit s p 2000 (OrdSet.ofList [1]) = .ok s' ∧ ¬ CommitsExactly s p (OrdSet.ofList [1]) s' := by
  have h : leftBy narrowedRun (fun s p => decide (p.ready = true ∧ p.actions.map (·.identity.tid) = [1, 2] ∧
      ((commit s p 2000 (OrdSet.ofList [1])).toOption.map (·.placement.find? 2)).isSome = true ∧
      (commit s p 2000 (OrdSet.ofList [1])).toOption.map (·.placement.find? 2) ≠ some (s.placement.find? 2))) = true := by
    decide +kernel
  obtain ⟨s, p, hs, hp, ht⟩ := leftBy_spec h
  obtain ⟨hr, hacts, hsome, hdiffers⟩ := of_decide_eq_true ht
  have hacting : ∀ t, t ∈ [(1 : Tid), 2] → ∃ a ∈ p.actions, a.identity.tid = t := by
    intro t ht
    rw [← hacts] at ht
    obtain ⟨a, ha, htid⟩ := List.mem_map.1 ht
    exact ⟨a, ha, htid⟩
  cases hok : commit s p 2000 (OrdSet.ofList [1]) with
  | error e =>
    rw [hok] at hsome
    cases hsome
  | ok s' =>
    rw [hok] at hdiffers
    refine ⟨s, p, s', hs, hp, hr, fun t ht => ?_, hok, fun hexact => ?_⟩
    · rw [OrdSet.mem_ofList, List.mem_singleton] at ht
      exact hacting t (by simp [ht])
    · obtain ⟨a, ha, htid⟩ := hacting 2 (by simp)
      have hkept := hexact.uncommitted a ha (by rw [htid]; decide)
      rw [htid] at hkept
      exact hdiffers (congrArg some hkept)

end NumaDomainSolver
end AffinityGraph
