import AffinityGraph.DomainPlan
/-!
# PlanSound — what every proposal of the domain solver can be trusted for

A domain's mask is that of its nodes, also where the domain is carried over, as long as the hardware stays the same.  So a
planned mask is a part of it and of the thread's own mask, and never empty; the planned threads are those of the valid
domains; and a ready plan sorts each of them into one of three: placed, inherited, to be written.
-/
namespace AffinityGraph
namespace NumaDomainSolver

/-! ## Runs on one machine -/

/-- A call that sees this hardware. -/
def SolverEvent.On (hardware : HardwareGraph) : SolverEvent → Prop
  | .propose input => input.hardware = hardware
  | _ => True

/-- The states of the runs on one machine. -/
def ReachableOn (hardware : HardwareGraph) (s : NumaDomainSolver) : Prop :=
  ∃ es, (∀ e ∈ es, SolverEvent.On hardware e) ∧ Run.exec solverStep {} es = some s

variable {hardware : HardwareGraph} {s s' : NumaDomainSolver} {input : ProposeInput}

/-- The committed domains stand, and so would those of the outstanding proposal. -/
structure Stands (hardware : HardwareGraph) (s : NumaDomainSolver) : Prop where
  domains : Standing hardware s
  outstanding : ∀ p, s.outstanding = some p →
    WellSplit p.domains ∧ ∀ d ∈ p.domains, d.targetMask = maskForNodes hardware d.targetNodes

theorem Stands.step (h : Stands hardware s) {e : SolverEvent} (he : SolverEvent.On hardware e)
    (hstep : solverStep s e = some s') : Stands hardware s' := by
  cases e with
  | propose input =>
    obtain ⟨⟨p, t⟩, hp, rfl⟩ := Option.map_eq_some_iff.1 hstep
    obtain ⟨-, rfl, rfl⟩ := propose_ok (toOption_eq_some hp)
    refine ⟨⟨h.domains.split, h.domains.mask⟩, fun q hq => ?_⟩
    cases hq
    have hin : input.hardware = hardware := he
    subst hin
    exact ⟨proposalOf_wellSplit h.domains.split.nonempty input, fun d hd => (proposalOf_seats h.domains.mask d hd).mask⟩
  | commit nowNs tids =>
    obtain ⟨p, hp, hc⟩ := Option.bind_eq_some_iff.1 hstep
    obtain ⟨-, hdom, hout, -⟩ := commit_ok (toOption_eq_some hc)
    obtain ⟨hsplit, hmask⟩ := h.outstanding p hp
    refine ⟨⟨hdom ▸ hsplit, hdom ▸ hmask⟩, fun q hq => ?_⟩
    rw [hout] at hq
    cases hq
  | discard =>
    obtain ⟨p, -, rfl⟩ := Option.map_eq_some_iff.1 hstep
    unfold discard
    split
    · exact ⟨⟨h.domains.split, h.domains.mask⟩, fun q hq => by cases hq⟩
    · exact h
  | removeThread tid =>
    cases hstep
    exact ⟨⟨h.domains.split, h.domains.mask⟩, h.outstanding⟩
  | reset =>
    cases hstep
    exact ⟨⟨WellSplit.nil, fun d hd => by cases hd⟩, fun q hq => by cases hq⟩

theorem ReachableOn.standing (h : ReachableOn hardware s) : Standing hardware s := by
  obtain ⟨es, hon, hexec⟩ := h
  have hrun : ∀ (es : List SolverEvent) (s₀ : NumaDomainSolver), (∀ e ∈ es, SolverEvent.On hardware e) →
      Stands hardware s₀ → Run.exec solverStep s₀ es = some s → Stands hardware s := by
    intro es
    induction es with
    | nil =>
      intro s₀ _ h₀ he
      cases he
      exact h₀
    | cons e es ih =>
      intro s₀ hall h₀ he
      obtain ⟨s₁, hs₁, hrest⟩ := Run.exec_cons he
      exact ih s₁ (fun x hx => hall x (List.mem_cons_of_mem e hx)) (h₀.step (hall e List.mem_cons_self) hs₁) hrest
  exact (hrun es {} hon ⟨⟨WellSplit.nil, fun d hd => by cases hd⟩, fun q hq => by cases hq⟩ hexec).domains

/-! ## The planned masks -/

/-- The domains of a valid proposal. -/
theorem domains_of_valid (h : (proposalOf s input).valid = true) : (proposalOf s input).domains =
    ((heldStage s input).domains.insertionSort (fun a b => a.id ≤ b.id)).map
      (fun c => { c with confirmation := planConfirmation s input }) := by
  obtain ⟨hnone, -⟩ := planStage_of_valid h
  have hvalid : (planStage s input).1.valid = true := h
  show (planStage s input).1.domains.map _ = _
  congr 1
  unfold planStage finalPlan at hvalid ⊢
  split
  · exact (planDomains_invalid _ _ _ _).2.1 hnone
  · rfl

/-- **A planned thread, unpacked**: it is a member of a valid domain, and has that domain's share. -/
theorem planned_member {t : Tid} {m : Mask} (hm : (proposalOf s input).plannedMasks.find? t = some m) :
    ∃ d ∈ (proposalOf s input).domains, d.valid = true ∧ t ∈ d.tids ∧ m = targetFor input.allowedMasks d.targetMask t ∧
      m ≠ [] := by
  have hvalid : (proposalOf s input).valid = true := by
    by_contra hno
    rw [plannedMasks_of_invalid (by simpa using hno)] at hm
    cases hm
  obtain ⟨hnone, hmasks⟩ := planStage_of_valid hvalid
  rw [hmasks] at hm
  rcases (find?_planDomains (t := t) hnone).1 m hm with hm' | ⟨htid, c, hc, hcv, htc, rfl⟩
  · cases hm'
  · refine ⟨{ c with confirmation := planConfirmation s input }, ?_, hcv, htc, rfl, ?_⟩
    · rw [domains_of_valid hvalid]
      exact List.mem_map.2 ⟨c, hc, rfl⟩
    · exact ((planDomains_invalid _ _ _ _).1.1 hnone) c hc hcv t htc htid

/-- The planned threads are the members of the valid domains. -/
theorem mem_plannedMasks_iff (hs : Standing input.hardware s) (hn : (input.threads.map (·.identity.tid)).Nodup)
    (hvalid : (proposalOf s input).valid = true) {t : Tid} :
    t ∈ (proposalOf s input).plannedMasks ↔ ∃ d ∈ (proposalOf s input).domains, d.valid = true ∧ t ∈ d.tids := by
  constructor
  · intro ht
    obtain ⟨m, hm⟩ := OrdMap.mem_iff.1 ht
    obtain ⟨d, hd, hdv, htd, -⟩ := planned_member hm
    exact ⟨d, hd, hdv, htd⟩
  · rintro ⟨d, hd, hdv, htd⟩
    exact OrdMap.mem_of_find (plannedMasks_of_member hs hn hvalid hd hdv htd)

/-- No thread is in two domains of a proposal. -/
theorem eq_of_shared_member (hs : Standing input.hardware s) (hn : (input.threads.map (·.identity.tid)).Nodup)
    {a b : NumaDomain} (ha : a ∈ (proposalOf s input).domains) (hb : b ∈ (proposalOf s input).domains) {t : Tid}
    (hta : t ∈ a.tids) (htb : t ∈ b.tids) : a = b :=
  eq_of_shared_tid (proposalOf_wellSplit hs.split.nonempty input) (proposalOf_seats hs.mask) hn ha hb hta htb

/-! ## The actions -/

theorem actions_of_unready (h : (proposalOf s input).ready = false) :
    (proposalOf s input).actions = [] ∧ (proposalOf s input).delta = {} := by
  have hnil : (proposalOf s input).actions = [] := if_neg (ne_true_of_eq_false h)
  refine ⟨hnil, ?_⟩
  show ({ tidToMask := (proposalOf s input).actions.foldl (fun m a => OrdMap.insert m a.identity.tid a.targetMask) ∅ } :
    PlacementDelta) = {}
  rw [hnil]
  rfl

/-- Each thread has one action at most. -/
theorem nodup_actions : ((proposalOf s input).actions.map (·.identity.tid)).Nodup := by
  cases hr : (proposalOf s input).ready with
  | false =>
    rw [(actions_of_unready hr).1]
    exact List.nodup_nil
  | true =>
    have hlist : (proposalOf s input).actions = (planned s input .action).filterMap
        (actionFor (byTid input.threads) input.allowedMasks (proposalOf s input).domains) := if_pos hr
    rw [hlist]
    have hkeys : ∀ l : List (Tid × Mask), ((l.filterMap (actionFor (byTid input.threads) input.allowedMasks
        (proposalOf s input).domains)).map (·.identity.tid)).Sublist (l.map Prod.fst) := by
      intro l
      induction l with
      | nil => exact List.Sublist.slnil
      | cons e l ih =>
        rw [List.filterMap_cons]
        cases ha : actionFor (byTid input.threads) input.allowedMasks (proposalOf s input).domains e with
        | none => exact ih.cons _
        | some a =>
          obtain ⟨th, hth, rfl⟩ := Option.map_eq_some_iff.1 ha
          have htid : th.identity.tid = e.1 := (find_byTid hth).2
          rw [List.map_cons, List.map_cons]
          show List.Sublist (th.identity.tid :: _) _
          rw [htid]
          exact ih.cons_cons _
    refine List.Nodup.sublist (hkeys _) ?_
    exact ((planStage s input).2.nodup_keys).sublist (List.filter_sublist.map Prod.fst)

theorem mem_inheritedTids {t : Tid} : t ∈ (proposalOf s input).inheritedTids ↔ (proposalOf s input).ready = true ∧
    ∃ m, (proposalOf s input).plannedMasks.find? t = some m ∧ need s.placement input.allowedMasks t m = .inherited := by
  show t ∈ (if planReady s input then OrdSet.ofList ((planned s input .inherited).map Prod.fst) else ∅) ↔ planReady s input = true ∧ _
  cases hr : planReady s input with
  | false => simp
  | true =>
    rw [if_pos rfl, OrdSet.mem_ofList]
    simp only [true_and, List.mem_map, planned, List.mem_filter, decide_eq_true_eq]
    constructor
    · rintro ⟨⟨u, m⟩, ⟨hentry, hneed⟩, rfl⟩
      exact ⟨m, OrdMap.mem_entries.1 hentry, hneed⟩
    · rintro ⟨m, hm, hneed⟩
      exact ⟨(t, m), ⟨OrdMap.mem_entries.2 hm, hneed⟩, rfl⟩

/-! ## Soundness -/

/-- The one action of a thread, and its entry in the batch. -/
structure Written (p : NumaDomainProposal) (t : Tid) (m : Mask) : Prop where
  action : ∃ a, p.actions.filter (fun a => decide (a.identity.tid = t)) = [a] ∧ a.targetMask = m
  delta : p.delta.tidToMask.find? t = some m

/-- Nothing is to be written for a thread. -/
structure Unwritten (p : NumaDomainProposal) (t : Tid) : Prop where
  action : ∀ a ∈ p.actions, a.identity.tid ≠ t
  delta : t ∉ p.delta.tidToMask

/-- **What a proposal can be trusted for.** -/
structure Sound (s : NumaDomainSolver) (input : ProposeInput) (p : NumaDomainProposal) : Prop where
  /-- a planned mask is a part of its domain's and of the thread's, and not empty -/
  masks : ∀ t m, p.plannedMasks.find? t = some m → m ≠ [] ∧ ∃ d ∈ p.domains, t ∈ d.tids ∧
    (∀ x ∈ p.domains, t ∈ x.tids → x = d) ∧ ∀ c ∈ m, c ∈ maskForNodes input.hardware d.targetNodes ∧
      ∀ allowed, input.allowedMasks.find? t = some allowed → c ∈ allowed
  covers : p.valid = true → ∀ t, t ∈ p.plannedMasks ↔ ∃ d ∈ p.domains, d.valid = true ∧ t ∈ d.tids
  unready : p.ready = false → p.actions = [] ∧ p.delta = {}
  /-- placed, inherited, or written, and one of these only -/
  ready : p.ready = true → ∀ t m, p.plannedMasks.find? t = some m →
    (s.placement.find? t = some m ∧ t ∉ p.inheritedTids ∧ Unwritten p t) ∨
    (s.placement.find? t ≠ some m ∧ (t ∈ p.inheritedTids ∧ input.allowedMasks.find? t = some m) ∧ Unwritten p t) ∨
    (s.placement.find? t ≠ some m ∧ t ∉ p.inheritedTids ∧ Written p t m)
  released : ∀ t, t ∈ p.releasedTids ↔ t ∈ s.placement ∧ t ∉ p.plannedMasks

theorem mem_targetFor {targetMask : Mask} (hsorted : targetMask.Pairwise (· < ·)) {t : Tid} {c : Int}
    (h : c ∈ targetFor input.allowedMasks targetMask t) :
    c ∈ targetMask ∧ ∀ allowed, input.allowedMasks.find? t = some allowed → c ∈ allowed := by
  unfold targetFor at h
  split at h
  · rename_i hnone
    refine ⟨h, fun allowed ha => ?_⟩
    rw [hnone] at ha
    cases ha
  · rename_i allowed' hsome
    obtain ⟨hd, ha'⟩ := (mem_intersectMasks hsorted).1 h
    refine ⟨hd, fun allowed ha => ?_⟩
    rw [hsome] at ha
    cases ha
    exact ha'

/-- A planned thread that needs no write is placed with its mask, or it was sampled with it. -/
theorem spared_of_need {t : Tid} {m : Mask} (hm : (proposalOf s input).plannedMasks.find? t = some m)
    (hneed : need s.placement input.allowedMasks t m ≠ .action) : s.placement.find? t = some m ∨
      need s.placement input.allowedMasks t m = .inherited ∧ s.placement.find? t = none ∧
        input.allowedMasks.find? t = some m := by
  obtain ⟨-, -, -, -, -, hne⟩ := planned_member hm
  unfold need at hneed ⊢
  by_cases hplaced : s.placement.find? t = some m
  · exact Or.inl hplaced
  · rw [if_neg hplaced] at hneed ⊢
    by_cases hhas : s.placement.find? t = none ∧ input.allowedMasks.getD t [] = m
    · rw [if_pos hhas]
      refine Or.inr ⟨rfl, hhas.1, ?_⟩
      have hmask := hhas.2
      unfold OrdMap.getD at hmask
      cases ha : input.allowedMasks.find? t with
      | none =>
        rw [ha] at hmask
        exact absurd hmask.symm hne
      | some allowed =>
        rw [ha] at hmask
        exact congrArg some hmask
    · rw [if_neg hhas] at hneed
      exact absurd rfl hneed

theorem unwritten_of_need {t : Tid} {m : Mask} (hm : (proposalOf s input).plannedMasks.find? t = some m)
    (hneed : need s.placement input.allowedMasks t m ≠ .action) : Unwritten (proposalOf s input) t := by
  refine ⟨fun a ha htid => ?_, fun hin => ?_⟩
  · obtain ⟨hplan, hact⟩ := mem_actions ha
    rw [htid, hm] at hplan
    rw [htid, ← Option.some.inj hplan] at hact
    exact hneed hact
  · obtain ⟨m', hm'⟩ := OrdMap.mem_iff.1 hin
    obtain ⟨-, hplan, hact⟩ := find?_delta.1 hm'
    rw [hm] at hplan
    rw [← Option.some.inj hplan] at hact
    exact hneed hact

theorem written_of_need {t : Tid} {m : Mask} (hr : (proposalOf s input).ready = true)
    (hm : (proposalOf s input).plannedMasks.find? t = some m)
    (hneed : need s.placement input.allowedMasks t m = .action) : Written (proposalOf s input) t m := by
  have hdelta := find?_delta.2 ⟨hr, hm, hneed⟩
  refine ⟨?_, hdelta⟩
  obtain ⟨a, ha, htid⟩ : ∃ a ∈ (proposalOf s input).actions, a.identity.tid = t := by
    by_contra hno
    push Not at hno
    have hskip : (proposalOf s input).delta.tidToMask.find? t = (∅ : OrdMap Tid Mask).find? t :=
      OrdMap.find?_foldl_insert_of_notMem (fun a : NumaDomainAction => a.identity.tid) (·.targetMask)
        (proposalOf s input).actions ∅ hno
    have hnone : (proposalOf s input).delta.tidToMask.find? t = none := hskip
    have hsome : (proposalOf s input).delta.tidToMask.find? t = some m := hdelta
    rw [hnone] at hsome
    cases hsome
  obtain ⟨hplan, -⟩ := mem_actions ha
  rw [htid, hm] at hplan
  refine ⟨a, ?_, (Option.some.inj hplan).symm⟩
  -- a second action of the thread would be a second of its TID
  have hone : ∀ l : List NumaDomainAction, (l.map (·.identity.tid)).Nodup → a ∈ l →
      l.filter (fun a => decide (a.identity.tid = t)) = [a] := by
    intro l
    induction l with
    | nil => simp
    | cons b l ih =>
      intro hnd hmem
      rw [List.map_cons, List.nodup_cons] at hnd
      rw [List.filter_cons]
      rcases List.mem_cons.1 hmem with rfl | hmem
      · rw [if_pos (decide_eq_true htid)]
        refine congrArg (a :: ·) (List.filter_eq_nil_iff.2 (fun x hx hxt => hnd.1 ?_))
        rw [htid, ← of_decide_eq_true hxt]
        exact List.mem_map_of_mem hx
      · have hbt : b.identity.tid ≠ t := by
          rintro rfl
          refine hnd.1 ?_
          rw [← htid]
          exact List.mem_map_of_mem hmem
        rw [if_neg (by simpa using hbt)]
        exact ih hnd.2 hmem
  exact hone _ nodup_actions ha

/-- **Every proposal is sound**: on constant hardware, in every reachable state, for threads with distinct TIDs and any
allowed masks. -/
theorem propose_sound (hs : ReachableOn input.hardware s) (hn : (input.threads.map (·.identity.tid)).Nodup)
    {p : NumaDomainProposal} (hp : propose s input = .ok (p, s')) : Sound s input p := by
  have hstanding := hs.standing
  obtain ⟨-, rfl, -⟩ := propose_ok hp
  refine ⟨fun t m hm => ?_, fun hvalid t => mem_plannedMasks_iff hstanding hn hvalid, actions_of_unready, ?_,
    fun t => mem_releasedTids⟩
  · obtain ⟨d, hd, -, htd, heq, hne⟩ := planned_member hm
    refine ⟨hne, d, hd, htd, fun x hx htx => eq_of_shared_member hstanding hn hx hd htx htd, fun c hc => ?_⟩
    rw [heq, (proposalOf_seats hstanding.mask d hd).mask] at hc
    exact mem_targetFor (OrdMap.sorted_keys _) hc
  · intro hr t m hm
    have hinherited : t ∈ (proposalOf s input).inheritedTids ↔
        need s.placement input.allowedMasks t m = .inherited := by
      rw [mem_inheritedTids]
      constructor
      · rintro ⟨-, m', hm', hneed⟩
        rw [hm] at hm'
        rw [Option.some.inj hm']
        exact hneed
      · exact fun hneed => ⟨hr, m, hm, hneed⟩
    by_cases hneed : need s.placement input.allowedMasks t m = .action
    · have hplaced : s.placement.find? t ≠ some m := fun h => by
        rw [need, if_pos h] at hneed
        cases hneed
      refine Or.inr (Or.inr ⟨hplaced, ?_, written_of_need hr hm hneed⟩)
      rw [hinherited, hneed]
      simp
    · rcases spared_of_need hm hneed with hplaced | ⟨hhas, hnone, hallowed⟩
      · refine Or.inl ⟨hplaced, ?_, unwritten_of_need hm hneed⟩
        rw [hinherited, need, if_pos hplaced]
        simp
      · refine Or.inr (Or.inl ⟨?_, ⟨hinherited.2 hhas, hallowed⟩, unwritten_of_need hm hneed⟩)
        rw [hnone]
        simp

/-- The window in which `a` and `b` qualify for a merge while `b+c` is carried over. -/
theorem propose_sound_merge : ∃ s p s', ReachableOn dwellHardware s ∧ propose s mergeWindow = .ok (p, s') ∧
    p.plannedMasks.keys = [3, 4, 5, 6] ∧ Sound s mergeWindow p := by
  have h : afterRun pairCommitted mergeWindow (fun _ p _ => decide (p.plannedMasks.keys = [3, 4, 5, 6])) = true := by
    decide +kernel
  unfold afterRun at h
  cases hr : Run.exec solverStep {} pairCommitted with
  | none => rw [hr] at h; cases h
  | some s =>
    rw [hr] at h
    dsimp only at h
    have hs : ReachableOn dwellHardware s := by
      refine ⟨pairCommitted, fun e he => ?_, hr⟩
      simp only [pairCommitted, List.mem_cons, List.not_mem_nil, or_false] at he
      rcases he with rfl | rfl
      · rfl
      · trivial
    cases hp : propose s mergeWindow with
    | error e => rw [hp] at h; cases h
    | ok x =>
      rw [hp] at h
      exact ⟨s, x.1, x.2, hs, hp, of_decide_eq_true h, propose_sound hs (by decide) hp⟩

end NumaDomainSolver
end AffinityGraph
