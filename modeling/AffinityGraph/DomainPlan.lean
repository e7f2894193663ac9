import AffinityGraph.Actuator
import AffinityGraph.DomainDwell
/-!
# DomainPlan — what a proposal plans and what a commit places

The masks of a proposal are decided domain by domain: a member of a valid domain gets the domain's mask cut down to its
own allowed mask.  No thread is in two domains, since a thread has one family and the domains share none, so the order
of the rebuild does not matter.  From a planned mask on there are three ways: it is placed already, the thread has it
already, or it is an action.
-/
namespace AffinityGraph
namespace NumaDomainSolver

/-! ## The threads of a window -/

section Threads

variable {threads : List ThreadDemand} {t : Tid} {th : ThreadDemand}

theorem find_byTid (h : (byTid threads).find? t = some th) : th ∈ threads ∧ th.identity.tid = t := by
  rcases OrdMap.find?_foldl_insert (fun th : ThreadDemand => th.identity.tid) id threads ∅ h with ⟨x, hx, hk, rfl⟩ | h
  · exact ⟨hx, hk⟩
  · cases h

theorem mem_byTid (hn : (threads.map (·.identity.tid)).Nodup) (h : th ∈ threads) :
    (byTid threads).find? th.identity.tid = some th :=
  OrdMap.find?_foldl_insert_of_mem (fun th : ThreadDemand => th.identity.tid) id threads ∅ hn h

/-- A family's threads are the window's threads of that group, in their order. -/
theorem getD_byFamily (name : String) :
    (byFamily threads).getD name [] = threads.filter (fun th => decide (th.group = name)) := by
  have hrun : ∀ (l : List ThreadDemand) (m : OrdMap String (List ThreadDemand)),
      (l.foldl (fun m t => m.update t.group [] (· ++ [t])) m).getD name [] =
        m.getD name [] ++ l.filter (fun th => decide (th.group = name)) := by
    intro l
    induction l with
    | nil => simp
    | cons y l ih =>
      intro m
      rw [List.foldl_cons, ih]
      have hput : (m.update y.group [] (· ++ [y])).getD name [] =
          if y.group = name then m.getD y.group [] ++ [y] else m.getD name [] := OrdMap.getD_insert ..
      rw [hput]
      by_cases hy : y.group = name <;> simp [hy]
  exact hrun threads ∅

theorem mem_byFamily {name : String} : th ∈ (byFamily threads).getD name [] ↔ th ∈ threads ∧ th.group = name := by
  rw [getD_byFamily]
  simp

theorem mem_membersOf {names : List String} :
    th ∈ membersOf (byFamily threads) names ↔ th ∈ threads ∧ th.group ∈ names := by
  unfold membersOf
  simp [mem_byFamily, and_comm]

end Threads

/-! ## The domains of a proposal -/

/-- The mask of a domain is that of its nodes, and its TIDs are threads of its families. -/
structure Seats (input : ProposeInput) (d : NumaDomain) : Prop where
  mask : d.targetMask = maskForNodes input.hardware d.targetNodes
  members : ∀ t ∈ d.tids, ∃ th ∈ input.threads, th.identity.tid = t ∧ th.group ∈ d.families

theorem exists_member {input : ProposeInput} {names : List String} {t : Tid}
    (h : t ∈ ((membersOf (byFamily input.threads) names).map (·.identity.tid)).insertionSort (· ≤ ·)) :
    ∃ th ∈ input.threads, th.identity.tid = t ∧ th.group ∈ names := by
  obtain ⟨th, hth, rfl⟩ := List.mem_map.1 ((List.mem_insertionSort _).1 h)
  obtain ⟨hmem, hgroup⟩ := mem_membersOf.1 hth
  exact ⟨th, hmem, rfl, hgroup⟩

theorem candidateStage_seats (s : NumaDomainSolver) (input : ProposeInput) :
    ∀ d ∈ (candidateStage s input).domains, Seats input d := by
  unfold candidateStage candidates
  dsimp only
  refine Loop.foldl_keeps (fun st : CandidateState => ∀ d ∈ st.domains, Seats input d) (fun st c hst d hd => ?_) _ ?_
  · rcases List.mem_append.1 hd with hd | hd
    · exact hst d hd
    · rw [List.mem_singleton] at hd
      rw [hd]
      exact ⟨rfl, fun t ht => exists_member ht⟩
  · intro d hd
    cases hd

/-- What the dwell loop ends with is a candidate or a committed domain carried over inside its dwell. -/
theorem mem_heldStage_cases {s : NumaDomainSolver} {input : ProposeInput} {d : NumaDomain}
    (hd : d ∈ (heldStage s input).domains) : d ∈ (candidateStage s input).domains ∨
      ∃ c ∈ s.domains, inDwell input.options input.nowNs (evidenceStage s input) c.id = true ∧
        d = holdDomain input.options (byFamily input.threads) c := by
  have hrun : ∀ (l : List NumaDomain) (st : Held), (∀ c ∈ l, c ∈ s.domains) →
      (∀ d ∈ st.domains, d ∈ (candidateStage s input).domains ∨
        ∃ c ∈ s.domains, inDwell input.options input.nowNs (evidenceStage s input) c.id = true ∧
          d = holdDomain input.options (byFamily input.threads) c) →
      ∀ d ∈ (l.foldl (holdStep input.options input.nowNs (evidenceStage s input) (byFamily input.threads)) st).domains,
        d ∈ (candidateStage s input).domains ∨
          ∃ c ∈ s.domains, inDwell input.options input.nowNs (evidenceStage s input) c.id = true ∧
            d = holdDomain input.options (byFamily input.threads) c := by
    intro l
    induction l with
    | nil => exact fun st _ h => h
    | cons c l ih =>
      intro st hl hst
      refine ih _ (fun x hx => hl x (List.mem_cons_of_mem _ hx)) (fun d hd => ?_)
      rcases holdStep_cases input.options input.nowNs (evidenceStage s input) (byFamily input.threads) st c
        with ⟨he, -⟩ | ⟨hdwell, -, -, he, -⟩
      · rw [he] at hd
        exact hst d hd
      · rw [he] at hd
        rcases List.mem_append.1 hd with hd | hd
        · exact hst d (List.mem_of_mem_filter hd)
        · exact Or.inr ⟨c, hl c List.mem_cons_self, hdwell, List.mem_singleton.1 hd⟩
  unfold heldStage at hd
  dsimp only at hd
  refine hrun s.domains _ (fun _ h => h) (fun d hd => Or.inl ?_) d hd
  exact hd

theorem heldStage_seats {s : NumaDomainSolver} {input : ProposeInput}
    (hs : ∀ d ∈ s.domains, d.targetMask = maskForNodes input.hardware d.targetNodes) :
    ∀ d ∈ (heldStage s input).domains, Seats input d := by
  intro d hd
  rcases mem_heldStage_cases hd with hd | ⟨c, hc, -, rfl⟩
  · exact candidateStage_seats s input d hd
  · exact ⟨hs c hc, fun t ht => exists_member ht⟩

theorem proposalOf_seats {s : NumaDomainSolver} {input : ProposeInput}
    (hs : ∀ d ∈ s.domains, d.targetMask = maskForNodes input.hardware d.targetNodes) :
    ∀ d ∈ (proposalOf s input).domains, Seats input d := by
  intro d hd
  obtain ⟨c, hc, he⟩ := exists_held (fun d => (d.targetMask, d.targetNodes, d.tids, d.families)) (fun _ _ _ _ => rfl) hd
  simp only [Prod.mk.injEq] at he
  obtain ⟨hmask, hnodes, htids, hfamilies⟩ := he
  have hseats := heldStage_seats hs c hc
  refine ⟨?_, ?_⟩
  · rw [hmask, hnodes]
    exact hseats.mask
  · rw [htids, hfamilies]
    exact hseats.members

/-! ## The planned masks -/

section Masks

variable {tidMap : OrdMap Tid ThreadDemand} {allowedMasks : OrdMap Tid Mask}

theorem find?_planTids {targetMask : Mask} {t : Tid} : ∀ {tids : List Tid} {masks masks' : OrdMap Tid Mask},
    planTids tidMap allowedMasks targetMask tids masks = some masks' →
      masks'.find? t = if t ∈ tids ∧ t ∈ tidMap then some (targetFor allowedMasks targetMask t) else masks.find? t
  | [], masks, masks', h => by
    cases h
    simp
  | u :: tids, masks, masks', h => by
    unfold planTids at h
    split at h
    · rename_i hu
      dsimp only at h
      split at h
      · cases h
      · rw [find?_planTids h, OrdMap.find?_insert]
        by_cases htail : t ∈ tids ∧ t ∈ tidMap
        · rw [if_pos htail, if_pos ⟨List.mem_cons_of_mem _ htail.1, htail.2⟩]
        · rw [if_neg htail]
          by_cases hut : u = t
          · subst hut
            rw [if_pos rfl, if_pos ⟨List.mem_cons_self, hu⟩]
          · rw [if_neg hut, if_neg]
            rintro ⟨hmem, ht⟩
            exact htail ⟨(List.mem_cons.1 hmem).resolve_left (Ne.symm hut), ht⟩
    · rename_i hu
      rw [find?_planTids h]
      refine if_congr ?_ rfl rfl
      refine and_congr_left (fun ht => ⟨List.mem_cons_of_mem _, fun hmem => ?_⟩)
      rcases List.mem_cons.1 hmem with rfl | hmem
      · exact absurd ht hu
      · exact hmem

/-- **A member of a valid domain is planned its domain's mask**, when no other valid domain has it. -/
theorem find?_planDomains {t : Tid} : ∀ {ds : List NumaDomain} {masks : OrdMap Tid Mask},
    (planDomains tidMap allowedMasks ds masks).invalid = none →
    (∀ m, (planDomains tidMap allowedMasks ds masks).masks.find? t = some m →
      masks.find? t = some m ∨ t ∈ tidMap ∧ ∃ d ∈ ds, d.valid = true ∧ t ∈ d.tids ∧
        m = targetFor allowedMasks d.targetMask t) ∧
    (t ∈ tidMap → (∃ d ∈ ds, d.valid = true ∧ t ∈ d.tids) →
      t ∈ (planDomains tidMap allowedMasks ds masks).masks) ∧
    (t ∈ masks → t ∈ (planDomains tidMap allowedMasks ds masks).masks)
  | [], masks, _ => by
    refine ⟨fun m hm => Or.inl hm, ?_, id⟩
    rintro - ⟨d, hd, -⟩
    cases hd
  | c :: ds, masks, h => by
    unfold planDomains at h ⊢
    split
    · rename_i hv
      rw [if_pos hv] at h
      obtain ⟨h1, h2, h3⟩ := find?_planDomains (t := t) h
      refine ⟨fun m hm => ?_, fun ht hd => h2 ht ?_, h3⟩
      · rcases h1 m hm with hm | ⟨ht, d, hd, hrest⟩
        · exact Or.inl hm
        · exact Or.inr ⟨ht, d, List.mem_cons_of_mem _ hd, hrest⟩
      · obtain ⟨d, hd, hvalid, hmem⟩ := hd
        rcases List.mem_cons.1 hd with rfl | hd
        · simp [hvalid] at hv
        · exact ⟨d, hd, hvalid, hmem⟩
    · rename_i hv
      have hvalid : c.valid = true := by simpa using hv
      rw [if_neg hv] at h
      cases hp : planTids tidMap allowedMasks c.targetMask c.tids masks with
      | none =>
        rw [hp] at h
        cases h
      | some masks₁ =>
        rw [hp] at h
        obtain ⟨h1, h2, h3⟩ := find?_planDomains (t := t) h
        have hfind := find?_planTids (t := t) hp
        refine ⟨fun m hm => ?_, fun ht hd => ?_, fun hmem => h3 ?_⟩
        · rcases h1 m hm with hm | ⟨ht, d, hd, hrest⟩
          · rw [hfind] at hm
            split at hm
            · rename_i hin
              exact Or.inr ⟨hin.2, c, List.mem_cons_self, hvalid, hin.1, (Option.some.inj hm).symm⟩
            · exact Or.inl hm
          · exact Or.inr ⟨ht, d, List.mem_cons_of_mem _ hd, hrest⟩
        · obtain ⟨d, hd, hdv, hmem⟩ := hd
          rcases List.mem_cons.1 hd with rfl | hd
          · refine h3 ?_
            rw [OrdMap.mem_def, hfind, if_pos ⟨hmem, ht⟩]
            rfl
          · exact h2 ht ⟨d, hd, hdv, hmem⟩
        · rw [OrdMap.mem_def] at hmem ⊢
          rw [hfind]
          split
          · rfl
          · exact hmem

/-- A plan that fails plans nothing. -/
theorem masks_of_planDomains_invalid : ∀ {ds : List NumaDomain} {masks : OrdMap Tid Mask},
    (planDomains tidMap allowedMasks ds masks).invalid ≠ none → (planDomains tidMap allowedMasks ds masks).masks = ∅
  | [], _, h => absurd rfl h
  | c :: ds, masks, h => by
    unfold planDomains at h ⊢
    split
    · rename_i hv
      rw [if_pos hv] at h
      exact masks_of_planDomains_invalid h
    · rename_i hv
      rw [if_neg hv] at h
      cases hp : planTids tidMap allowedMasks c.targetMask c.tids masks with
      | none => rfl
      | some masks₁ =>
        rw [hp] at h
        exact masks_of_planDomains_invalid h

end Masks

section Proposal

variable {s : NumaDomainSolver} {input : ProposeInput}

theorem plannedMasks_of_invalid (h : (proposalOf s input).valid = false) : (proposalOf s input).plannedMasks = ∅ := by
  have hvalid : (planStage s input).1.valid = false := h
  show (planStage s input).2 = ∅
  unfold planStage finalPlan at hvalid ⊢
  split
  · rename_i hheld
    rw [if_pos hheld] at hvalid
    refine masks_of_planDomains_invalid (fun hnone => ?_)
    dsimp only at hvalid
    rw [hnone] at hvalid
    cases hvalid
  · rfl

/-- The final domains of a valid proposal are the held ones, sorted, and its masks are the rebuild's. -/
theorem planStage_of_valid (h : (proposalOf s input).valid = true) :
    (planDomains (byTid input.threads) input.allowedMasks
      ((heldStage s input).domains.insertionSort (fun a b => a.id ≤ b.id)) ∅).invalid = none ∧
    (proposalOf s input).plannedMasks = (planDomains (byTid input.threads) input.allowedMasks
      ((heldStage s input).domains.insertionSort (fun a b => a.id ≤ b.id)) ∅).masks := by
  have hvalid : (planStage s input).1.valid = true := h
  show _ ∧ (planStage s input).2 = _
  unfold planStage finalPlan at hvalid ⊢
  split
  · rename_i hheld
    rw [if_pos hheld] at hvalid
    exact ⟨Option.isNone_iff_eq_none.1 hvalid, rfl⟩
  · rename_i hheld
    rw [if_neg hheld] at hvalid
    exact absurd hvalid hheld

theorem mem_domains_of_valid (h : (proposalOf s input).valid = true) {d : NumaDomain}
    (hd : d ∈ (proposalOf s input).domains) : ∃ c ∈ (heldStage s input).domains.insertionSort (fun a b => a.id ≤ b.id),
      d = { c with confirmation := planConfirmation s input } := by
  have hmap : d ∈ (planStage s input).1.domains.map (fun c => { c with confirmation := planConfirmation s input }) := hd
  obtain ⟨c, hc, rfl⟩ := List.mem_map.1 hmap
  refine ⟨c, ?_, rfl⟩
  obtain ⟨hnone, -⟩ := planStage_of_valid h
  unfold planStage finalPlan at hc
  split at hc
  · dsimp only at hc
    rw [(planDomains_invalid _ _ _ _).2.1 hnone] at hc
    exact hc
  · exact hc

/-- A thread is in one domain only. -/
theorem eq_of_shared_tid {ds : List NumaDomain} (hsplit : WellSplit ds) (hseats : ∀ d ∈ ds, Seats input d)
    (hn : (input.threads.map (·.identity.tid)).Nodup) {a b : NumaDomain} (ha : a ∈ ds) (hb : b ∈ ds) {t : Tid}
    (hta : t ∈ a.tids) (htb : t ∈ b.tids) : a = b := by
  obtain ⟨x, hx, hxt, hxa⟩ := (hseats a ha).members t hta
  obtain ⟨y, hy, hyt, hyb⟩ := (hseats b hb).members t htb
  have hxy : x = y := by
    have h1 := mem_byTid hn hx
    have h2 := mem_byTid hn hy
    rw [hxt] at h1
    rw [hyt] at h2
    exact Option.some.inj (h1.symm.trans h2)
  rw [hxy] at hxa
  exact hsplit.eq_of_shared ha hb hxa hyb

/-- What the proof of a window needs of the solver's state. -/
structure Standing (hardware : HardwareGraph) (s : NumaDomainSolver) : Prop where
  split : WellSplit s.domains
  mask : ∀ d ∈ s.domains, d.targetMask = maskForNodes hardware d.targetNodes

/-- **The mask planned for a member** of a valid domain of a valid proposal. -/
theorem plannedMasks_of_member (hs : Standing input.hardware s) (hn : (input.threads.map (·.identity.tid)).Nodup)
    (hvalid : (proposalOf s input).valid = true) {d : NumaDomain} (hd : d ∈ (proposalOf s input).domains)
    (hdv : d.valid = true) {t : Tid} (ht : t ∈ d.tids) :
    (proposalOf s input).plannedMasks.find? t =
      some (targetFor input.allowedMasks (maskForNodes input.hardware d.targetNodes) t) := by
  obtain ⟨c, hc, rfl⟩ := mem_domains_of_valid hvalid hd
  obtain ⟨hnone, hmasks⟩ := planStage_of_valid hvalid
  have hseats : ∀ x ∈ (heldStage s input).domains.insertionSort (fun a b => a.id ≤ b.id), Seats input x :=
    fun x hx => heldStage_seats hs.mask x ((List.mem_insertionSort _).1 hx)
  have hsplit : WellSplit ((heldStage s input).domains.insertionSort (fun a b => a.id ≤ b.id)) :=
    (heldStage_wellSplit hs.split.nonempty input).perm (List.perm_insertionSort _ _).symm
  obtain ⟨th, hth, htid, -⟩ := (hseats c hc).members t ht
  have hin : t ∈ byTid input.threads := by
    rw [← htid]
    exact OrdMap.mem_of_find (mem_byTid hn hth)
  obtain ⟨h1, h2, -⟩ := find?_planDomains (t := t) hnone
  rw [hmasks]
  obtain ⟨m, hm⟩ := OrdMap.mem_iff.1 (h2 hin ⟨c, hc, hdv, ht⟩)
  rcases h1 m hm with hm' | ⟨-, x, hx, -, htx, rfl⟩
  · cases hm'
  · have hcx : x = c := eq_of_shared_tid hsplit hseats hn hx hc htx ht
    rw [hm, hcx, (hseats c hc).mask]

/-- Only threads of the window are planned. -/
theorem mem_byTid_of_planned {t : Tid} {m : Mask} (h : (proposalOf s input).plannedMasks.find? t = some m) :
    t ∈ byTid input.threads := by
  cases hv : (proposalOf s input).valid with
  | false =>
    rw [plannedMasks_of_invalid hv] at h
    cases h
  | true =>
    obtain ⟨hnone, hmasks⟩ := planStage_of_valid hv
    rw [hmasks] at h
    rcases (find?_planDomains (t := t) hnone).1 m h with hm | ⟨ht, -⟩
    · cases hm
    · exact ht

/-! ## From the planned masks to the actions -/

theorem mem_releasedTids {t : Tid} :
    t ∈ (proposalOf s input).releasedTids ↔ t ∈ s.placement ∧ t ∉ (proposalOf s input).plannedMasks := by
  show t ∈ releasedBy s.placement (proposalOf s input).plannedMasks ↔ _
  rw [OrdMap.mem_def, releasedBy, OrdMap.find?_mapVal, OrdMap.find?_filter]
  cases hp : s.placement.find? t with
  | none => simp [OrdMap.mem_def, hp]
  | some m =>
    have hplaced : t ∈ s.placement := OrdMap.mem_of_find hp
    by_cases hin : t ∈ (proposalOf s input).plannedMasks <;> simp [hin, hplaced]

theorem mem_actions {a : NumaDomainAction} (h : a ∈ (proposalOf s input).actions) :
    (proposalOf s input).plannedMasks.find? a.identity.tid = some a.targetMask ∧
    need s.placement input.allowedMasks a.identity.tid a.targetMask = .action := by
  have hmem : a ∈ if planReady s input then (planned s input .action).filterMap
      (actionFor (byTid input.threads) input.allowedMasks (proposalOf s input).domains) else [] := h
  split at hmem
  · obtain ⟨⟨u, m⟩, hin, hact⟩ := List.mem_filterMap.1 hmem
    obtain ⟨hentry, hneed⟩ := List.mem_filter.1 hin
    obtain ⟨th, hth, rfl⟩ := Option.map_eq_some_iff.1 hact
    have hu : th.identity.tid = u := (find_byTid hth).2
    dsimp only
    rw [hu]
    exact ⟨OrdMap.mem_entries.1 hentry, of_decide_eq_true hneed⟩
  · cases hmem

/-- **The batch of a proposal** is the planned masks that need a write. -/
theorem find?_delta {t : Tid} {m : Mask} : (Actuator.deltaMasks (proposalOf s input).delta).find? t = some m ↔
    (proposalOf s input).ready = true ∧ (proposalOf s input).plannedMasks.find? t = some m ∧
    need s.placement input.allowedMasks t m = .action := by
  show ((proposalOf s input).actions.foldl (fun m a => OrdMap.insert m a.identity.tid a.targetMask) ∅).find? t = some m ↔ _
  constructor
  · intro h
    rcases OrdMap.find?_foldl_insert (fun a : NumaDomainAction => a.identity.tid) (·.targetMask) _ _ h
      with ⟨a, ha, rfl, rfl⟩ | h
    · refine ⟨?_, mem_actions ha⟩
      cases hr : (proposalOf s input).ready with
      | true => rfl
      | false =>
        have hnil : (proposalOf s input).actions = [] := if_neg (ne_true_of_eq_false hr)
        rw [hnil] at ha
        cases ha
    · cases h
  · rintro ⟨hready, hplan, hneed⟩
    obtain ⟨th, hth⟩ := OrdMap.mem_iff.1 (mem_byTid_of_planned hplan)
    -- the action made for the thread is in the list, so its TID has a mask, and it can only be this one
    have haction : ∃ a ∈ (proposalOf s input).actions, a.identity.tid = t := by
      have hlist : (proposalOf s input).actions = (planned s input .action).filterMap
          (actionFor (byTid input.threads) input.allowedMasks (proposalOf s input).domains) := if_pos hready
      rw [hlist]
      refine ⟨_, List.mem_filterMap.2 ⟨(t, m), List.mem_filter.2 ⟨OrdMap.mem_entries.2 hplan, by simpa using hneed⟩,
        by rw [actionFor, hth]; rfl⟩, ?_⟩
      exact (find_byTid hth).2
    obtain ⟨a, ha, rfl⟩ := haction
    obtain ⟨x, hx⟩ := OrdMap.mem_iff.1 (OrdMap.mem_foldl_insert (fun a : NumaDomainAction => a.identity.tid)
      (·.targetMask) (proposalOf s input).actions ∅ ha)
    rcases OrdMap.find?_foldl_insert (fun a : NumaDomainAction => a.identity.tid) (·.targetMask) _ _ hx
      with ⟨b, hb, hbt, hbm⟩ | hx'
    · have hplan' := (mem_actions hb).1
      rw [hbt, hplan] at hplan'
      rw [Option.some.inj hplan', hbm]
      exact hx
    · cases hx'

/-! ## What a commit places -/

/-- The loop of `commit` over the planned masks decides each thread by itself. -/
theorem placePlanned_local (p : NumaDomainProposal) (tids : OrdSet Tid) :
    Loop.Local (fun (q : OrdMap Tid Mask) u => q.find? u) (Prod.fst : Tid × Mask → Tid)
      (fun (q : OrdMap Tid Mask) e =>
        if e.1 ∈ q ∨ e.1 ∈ p.inheritedTids ∨
          ((p.actions.map (·.identity.tid)).contains e.1 = true ∧ (tids.isEmpty = true ∨ e.1 ∈ tids)) then q.insert e.1 e.2
        else q) := by
  intro q e u hu
  dsimp only
  split
  · exact OrdMap.find?_insert_ne _ _ hu
  · rfl

theorem find?_placePlanned (p : NumaDomainProposal) (tids : OrdSet Tid) (kept : OrdMap Tid Mask) {t : Tid} {m : Mask}
    (h : (p.plannedMasks.entries.foldl (fun (q : OrdMap Tid Mask) e =>
      if e.1 ∈ q ∨ e.1 ∈ p.inheritedTids ∨
          ((p.actions.map (·.identity.tid)).contains e.1 = true ∧ (tids.isEmpty = true ∨ e.1 ∈ tids)) then q.insert e.1 e.2
      else q) kept).find? t = some m) :
    p.plannedMasks.find? t = some m ∨ t ∉ p.plannedMasks ∧ kept.find? t = some m := by
  have hlocal := placePlanned_local p tids
  cases hp : p.plannedMasks.find? t with
  | none =>
    have hskip := hlocal.foldl_notMem (u := t) (l := p.plannedMasks.entries) (s := kept) (fun e he hk => by
      have hentry := OrdMap.mem_entries.1 (show (e.1, e.2) ∈ p.plannedMasks.entries from he)
      rw [hk, hp] at hentry
      cases hentry)
    exact Or.inr ⟨OrdMap.notMem_iff.2 hp, hskip.symm.trans h⟩
  | some m' =>
    obtain ⟨pre, post, -, hbefore, hafter⟩ := hlocal.foldl_at p.plannedMasks.nodup_keys (OrdMap.mem_entries.2 hp) kept
    have hat := hafter.symm.trans h
    dsimp only at hat
    split at hat
    · rw [OrdMap.find?_insert_self] at hat
      exact Or.inl hat
    · rename_i hno
      rw [not_or] at hno
      exact absurd (OrdMap.mem_of_find hat) hno.1

/-- **Everything a commit places is planned.** -/
theorem find?_commitPlacement {placement : OrdMap Tid Mask} {tids : OrdSet Tid} {t : Tid} {m : Mask}
    (hsub : t ∈ placement → t ∈ s.placement)
    (h : (commitPlacement placement (proposalOf s input) tids).find? t = some m) :
    (proposalOf s input).plannedMasks.find? t = some m := by
  have hactions : ∀ (l : List NumaDomainAction) (q : OrdMap Tid Mask), (∀ a ∈ l, a ∈ (proposalOf s input).actions) →
      (l.foldl (fun (q : OrdMap Tid Mask) a =>
        if tids.isEmpty = false ∧ a.identity.tid ∉ tids then q else q.insert a.identity.tid a.targetMask) q).find? t =
        some m → (proposalOf s input).plannedMasks.find? t = some m ∨ q.find? t = some m := by
    intro l
    induction l with
    | nil => exact fun q _ hq => Or.inr hq
    | cons a l ih =>
      intro q hl hq
      rcases ih _ (fun x hx => hl x (List.mem_cons_of_mem _ hx)) hq with hq | hq
      · exact Or.inl hq
      · dsimp only at hq
        split at hq
        · exact Or.inr hq
        · rw [OrdMap.find?_insert] at hq
          split at hq
          · rename_i htid
            have hplan := (mem_actions (hl a List.mem_cons_self)).1
            rw [htid, Option.some.inj hq] at hplan
            exact Or.inl hplan
          · exact Or.inr hq
  unfold commitPlacement at h
  rcases hactions _ _ (fun _ ha => ha) h with h | h
  · exact h
  · rcases find?_placePlanned (proposalOf s input) tids _ h with h | ⟨hno, h⟩
    · exact h
    · -- a managed thread that is not planned was released
      rw [OrdMap.find?_foldl_erase] at h
      split at h
      · cases h
      · rename_i hkept
        rw [OrdSet.mem_toList, mem_releasedTids] at hkept
        exact absurd ⟨hsub (OrdMap.mem_of_find h), hno⟩ hkept

end Proposal

end NumaDomainSolver
end AffinityGraph
