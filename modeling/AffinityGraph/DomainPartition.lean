import AffinityGraph.DomainPlan
/-!
# DomainPartition — the domains of a proposal list the window's threads once

A domain's TIDs are read off its families, so it has every thread of them; the families of one domain are distinct and
those of two domains are apart, so no TID is listed twice.  For a held domain both come from the run that committed it.
-/
namespace AffinityGraph
namespace NumaDomainSolver

/-! ## The families of one domain are distinct -/

theorem candidateStage_nodup (s : NumaDomainSolver) (input : ProposeInput) :
    ∀ d ∈ (candidateStage s input).domains, d.families.Nodup := by
  intro d hd
  obtain ⟨done, hsplit⟩ := components_split (nodup_anchorNames (pairStage s input).metrics)
    (pairStage s input).confirmedSeeds
  have hm := List.mem_map_of_mem (f := fun d : NumaDomain => d.families) hd
  rw [candidateStage_families] at hm
  obtain ⟨e, he, hef⟩ := List.mem_map.1 hm
  rw [← hef, (List.perm_insertionSort _ _).nodup_iff]
  exact (hsplit.filled e.1 e.2 (OrdMap.mem_entries.1 he)).2.1

theorem heldStage_nodup {s : NumaDomainSolver} (hs : ∀ d ∈ s.domains, d.families.Nodup) (input : ProposeInput) :
    ∀ d ∈ (heldStage s input).domains, d.families.Nodup := by
  intro d hd
  rcases mem_heldStage_cases hd with hd | ⟨c, hc, -, rfl⟩
  · exact candidateStage_nodup s input d hd
  · exact hs c hc

theorem proposalOf_nodup {s : NumaDomainSolver} (hs : ∀ d ∈ s.domains, d.families.Nodup) (input : ProposeInput) :
    ∀ d ∈ (proposalOf s input).domains, d.families.Nodup := by
  intro d hd
  obtain ⟨c, hc, he⟩ := exists_held (fun d : NumaDomain => d.families) (fun _ _ _ _ => rfl) hd
  rw [he]
  exact heldStage_nodup hs input c hc

theorem Reachable.nodup {s : NumaDomainSolver} (h : Reachable s) : ∀ d ∈ s.domains, d.families.Nodup :=
  h.domains_keep (P := fun ds => ∀ d ∈ ds, d.families.Nodup) (fun _ hd => absurd hd List.not_mem_nil)
    (fun _ input hs => proposalOf_nodup hs input)

/-! ## The TIDs of a domain are those of its families -/

theorem candidateStage_tids (s : NumaDomainSolver) (input : ProposeInput) :
    ∀ d ∈ (candidateStage s input).domains, d.tids =
      ((membersOf (byFamily input.threads) d.families).map (·.identity.tid)).insertionSort (· ≤ ·) := by
  unfold candidateStage candidates
  dsimp only
  refine Loop.foldl_keeps (fun st : CandidateState => ∀ d ∈ st.domains, d.tids =
    ((membersOf (byFamily input.threads) d.families).map (·.identity.tid)).insertionSort (· ≤ ·))
    (fun st c hst d hd => ?_) _ (fun d hd => ?_)
  · rcases List.mem_append.1 hd with hd | hd
    · exact hst d hd
    · rw [List.mem_singleton] at hd
      rw [hd]
      rfl
  · cases hd

theorem proposalOf_tids (s : NumaDomainSolver) (input : ProposeInput) :
    ∀ d ∈ (proposalOf s input).domains, d.tids =
      ((membersOf (byFamily input.threads) d.families).map (·.identity.tid)).insertionSort (· ≤ ·) := by
  intro d hd
  obtain ⟨c, hc, he⟩ := exists_held (fun d => (d.tids, d.families)) (fun _ _ _ _ => rfl) hd
  simp only [Prod.mk.injEq] at he
  rw [he.1, he.2]
  rcases mem_heldStage_cases hc with hc | ⟨x, -, -, rfl⟩
  · exact candidateStage_tids s input c hc
  · rfl

section Threads

variable {threads : List ThreadDemand} (hn : (threads.map (·.identity.tid)).Nodup)

include hn

/-- Threads with distinct TIDs, taken family by family over distinct families, keep them distinct. -/
theorem nodup_membersOf {names : List String} (hnames : names.Nodup) :
    ((membersOf (byFamily threads) names).map (·.identity.tid)).Nodup := by
  have hinj : ∀ x ∈ threads, ∀ y ∈ threads, x.identity.tid = y.identity.tid → x = y := by
    intro x hx y hy he
    have hxy := mem_byTid hn hx
    rw [he, mem_byTid hn hy] at hxy
    exact (Option.some.inj hxy).symm
  have hmembers : (membersOf (byFamily threads) names).Nodup := by
    unfold membersOf
    refine List.nodup_flatMap.2 ⟨fun n _ => ?_, ?_⟩
    · rw [getD_byFamily]
      exact (List.Nodup.of_map _ hn).filter _
    · refine hnames.imp (fun {a b} hab x hxa hxb => ?_)
      exact hab ((mem_byFamily.1 hxa).2.symm.trans (mem_byFamily.1 hxb).2)
  refine List.Nodup.map_on (fun x hx y hy he => ?_) hmembers
  exact hinj x (mem_membersOf.1 hx).1 y (mem_membersOf.1 hy).1 he

end Threads

/-- A domain has the threads of its families, each once. -/
def ListsMembers (threads : List ThreadDemand) (d : NumaDomain) : Prop :=
  d.tids.Nodup ∧ ∀ t, t ∈ d.tids ↔ ∃ th ∈ threads, th.identity.tid = t ∧ th.group ∈ d.families

theorem proposalOf_listsMembers {s : NumaDomainSolver} (hs : Reachable s) {input : ProposeInput}
    (hn : (input.threads.map (·.identity.tid)).Nodup) :
    ∀ d ∈ (proposalOf s input).domains, ListsMembers input.threads d := by
  intro d hd
  unfold ListsMembers
  rw [proposalOf_tids s input d hd, (List.perm_insertionSort _ _).nodup_iff]
  refine ⟨nodup_membersOf hn (proposalOf_nodup hs.nodup input d hd), fun t => ?_⟩
  rw [List.mem_insertionSort, List.mem_map]
  constructor
  · rintro ⟨th, hth, rfl⟩
    obtain ⟨h1, h2⟩ := mem_membersOf.1 hth
    exact ⟨th, h1, rfl, h2⟩
  · rintro ⟨th, hth, rfl, hgroup⟩
    exact ⟨th, mem_membersOf.2 ⟨hth, hgroup⟩, rfl⟩

/-- **The domains of a proposal partition the threads of their families**, and those of a commit stay apart. -/
theorem domains_partition_threads {s : NumaDomainSolver} (hs : Reachable s) :
    (∀ (input : ProposeInput) (p : NumaDomainProposal) (s' : NumaDomainSolver),
      (input.threads.map (·.identity.tid)).Nodup → propose s input = .ok (p, s') →
      (∀ d ∈ p.domains, ListsMembers input.threads d) ∧
      p.domains.Pairwise (fun a b => (∀ f ∈ a.families, f ∉ b.families) ∧ ∀ t ∈ a.tids, t ∉ b.tids)) ∧
    ∀ (q : NumaDomainProposal) (nowNs : Nat) (tids : OrdSet Tid) (s' : NumaDomainSolver), s.outstanding = some q →
      commit s q nowNs tids = .ok s' → s'.domains.Pairwise (fun a b => ∀ f ∈ a.families, f ∉ b.families) := by
  refine ⟨fun input p s' hn hp => ?_, fun q nowNs tids s' hq hc => ?_⟩
  · obtain ⟨-, rfl, rfl⟩ := propose_ok hp
    have hlists := proposalOf_listsMembers hs hn
    refine ⟨hlists, ?_⟩
    refine (proposalOf_wellSplit hs.wellSplit.nonempty input).disjoint.imp_of_mem
      (fun {a b} ha hb hab => ⟨hab, fun t hta htb => ?_⟩)
    -- a TID of both is one thread, whose one family would be in both
    obtain ⟨x, hx, hxt, hxa⟩ := ((hlists a ha).2 t).1 hta
    obtain ⟨y, hy, hyt, hyb⟩ := ((hlists b hb).2 t).1 htb
    have hxy := mem_byTid hn hx
    rw [hxt, ← hyt, mem_byTid hn hy] at hxy
    rw [← Option.some.inj hxy] at hxa
    exact hab _ hxa hyb
  · obtain ⟨es, he⟩ := hs
    have hstep : solverStep s (.commit nowNs tids) = some s' := by
      rw [solverStep, hq, Option.bind_some, hc]
      rfl
    have hreach : Reachable s' := ⟨_, Run.exec_snoc he hstep⟩
    exact hreach.wellSplit.disjoint

theorem domains_partition_threads_merge :
    ∃ s p s', Reachable s ∧ propose s mergeWindow = .ok (p, s') ∧ s.domains.length = 2 ∧
      (mergeWindow.threads.map (·.identity.tid)).Nodup ∧
      (∀ d ∈ p.domains, ListsMembers mergeWindow.threads d) ∧
      p.domains.Pairwise (fun a b => (∀ f ∈ a.families, f ∉ b.families) ∧ ∀ t ∈ a.tids, t ∉ b.tids) := by
  have h : afterRun pairCommitted mergeWindow (fun s _ _ => decide (s.domains.length = 2)) = true := by decide +kernel
  obtain ⟨s, p, s', hs, hp, ht⟩ := afterRun_spec h
  have hn : (mergeWindow.threads.map (·.identity.tid)).Nodup := by decide +kernel
  exact ⟨s, p, s', hs, hp, of_decide_eq_true ht, hn, (domains_partition_threads hs).1 mergeWindow p s' hn hp⟩

end NumaDomainSolver
end AffinityGraph
