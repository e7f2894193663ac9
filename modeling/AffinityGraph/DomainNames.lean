import AffinityGraph.FamilyComponents
import AffinityGraph.FamilyKeys
/-!
# DomainNames — when the id of a domain tells its families

An id is the family keys with plus signs between them, and a key may have plus signs of its own: it is made of a thread's
name and a symbol.  Cut at every plus sign, an id gives the parts of all its keys; which of the cuts lie between two keys is
lost.  Two lists of keys share an id exactly when they have the same parts (`domainId_eq_iff`).
-/
namespace AffinityGraph
namespace NumaDomainSolver

open GraphWindow (normalizeGroup)

/-! ## Ids -/

/-- The parts of a key, cut at its plus signs. -/
def parts (key : String) : List (List Char) := key.toList.splitOn '+'

/-- What `normalize_group` can return. -/
def IsFamilyKey (key : String) : Prop := ∃ comm routine symbol, key = normalizeGroup comm routine symbol

/-- The families of a domain: keys, ascending. -/
def FamilyKeys (keys : List String) : Prop := keys.Pairwise (· < ·) ∧ ∀ k ∈ keys, IsFamilyKey k

/-- The same parts, but in keys cut at other places. -/
def Recut (a b : List String) : Prop :=
  a.flatMap parts = b.flatMap parts ∧ a.map (fun k => (parts k).length) ≠ b.map (fun k => (parts k).length)

section Ids

variable {a b : List String} {key : String}

theorem IsFamilyKey.ne_empty (h : IsFamilyKey key) : key ≠ "" := by
  obtain ⟨comm, routine, symbol, rfl⟩ := h
  intro hempty
  have hlength := congrArg String.length hempty
  unfold normalizeGroup at hlength
  simp only [String.length_append] at hlength
  have hat : "@".length = 1 := by decide
  have hnil : "".length = 0 := by decide
  omega

theorem parts_injective : Function.Injective parts := by
  intro k l h
  have hjoin := congrArg (fun ps => ['+'].intercalate ps) h
  unfold parts at hjoin
  rw [List.intercalate_splitOn, List.intercalate_splitOn] at hjoin
  exact String.toList_inj.1 hjoin

theorem parts_domainId : ∀ {keys : List String}, keys ≠ [] → parts (domainId keys) = keys.flatMap parts
  | [], h => absurd rfl h
  | [k], _ => by
    unfold parts domainId
    rw [String.toList_intercalate]
    simp
  | k :: l :: keys, _ => by
    have ih := parts_domainId (List.cons_ne_nil l keys)
    unfold parts domainId at ih ⊢
    rw [String.toList_intercalate] at ih ⊢
    rw [List.flatMap_cons, ← ih, List.map_cons, List.map_cons, List.intercalate_cons_cons]
    change (k.toList ++ ['+'] ++ ['+'].intercalate ((l :: keys).map String.toList)).splitOn '+' =
      k.toList.splitOn '+' ++ (['+'].intercalate ((l :: keys).map String.toList)).splitOn '+'
    rw [List.append_assoc, List.singleton_append, List.splitOn_append_cons_self]

theorem domainId_ne_empty (hne : a ≠ []) (h : ∀ k ∈ a, k ≠ "") : domainId a ≠ "" := by
  intro hempty
  cases a with
  | nil => exact hne rfl
  | cons k keys =>
    have hlength := congrArg String.length hempty
    have hk : k.length ≠ 0 := fun hzero => h k List.mem_cons_self (String.length_eq_zero_iff.1 hzero)
    unfold domainId at hlength
    cases keys with
    | nil =>
      simp at hlength
      exact h k List.mem_cons_self hlength
    | cons l keys =>
      rw [String.intercalate_cons_cons] at hlength
      simp only [String.length_append] at hlength
      have hnil : "".length = 0 := by decide
      omega

/-- **Two lists of keys share an id exactly when they have the same parts.** -/
theorem domainId_eq_iff (ha : ∀ k ∈ a, k ≠ "") (hb : ∀ k ∈ b, k ≠ "") :
    domainId a = domainId b ↔ a.flatMap parts = b.flatMap parts := by
  have hparts : ∀ k, parts k ≠ [] := fun k => List.splitOn_ne_nil _ _
  by_cases hna : a = []
  · subst hna
    by_cases hnb : b = []
    · subst hnb
      exact iff_of_true rfl rfl
    · refine iff_of_false (fun h => domainId_ne_empty hnb hb h.symm) (fun h => ?_)
      obtain ⟨k, keys, rfl⟩ := List.exists_cons_of_ne_nil hnb
      rw [List.flatMap_cons, List.flatMap_nil, eq_comm, List.append_eq_nil_iff] at h
      exact hparts k h.1
  · by_cases hnb : b = []
    · subst hnb
      refine iff_of_false (fun h => domainId_ne_empty hna ha h) (fun h => ?_)
      obtain ⟨k, keys, rfl⟩ := List.exists_cons_of_ne_nil hna
      rw [List.flatMap_cons, List.flatMap_nil, List.append_eq_nil_iff] at h
      exact hparts k h.1
    · rw [← parts_domainId hna, ← parts_domainId hnb, parts_injective.eq_iff]

/-- The parts and where the keys end give the keys. -/
theorem eq_of_parts (h : a.flatMap parts = b.flatMap parts)
    (hcuts : a.map (fun k => (parts k).length) = b.map (fun k => (parts k).length)) : a = b := by
  have hmap : a.map parts = b.map parts := by
    rw [List.eq_iff_flatten_eq]
    refine ⟨by rw [← List.flatMap_def, ← List.flatMap_def, h], ?_⟩
    rw [List.map_map, List.map_map]
    exact hcuts
  exact parts_injective.list_map hmap

theorem not_recut_of_plain (ha : ∀ k ∈ a, '+' ∉ k.toList) (hb : ∀ k ∈ b, '+' ∉ k.toList) : ¬ Recut a b := by
  have hflat : ∀ {l : List String}, (∀ k ∈ l, '+' ∉ k.toList) → l.flatMap parts = l.map String.toList := by
    intro l hl
    induction l with
    | nil => rfl
    | cons k l ih =>
      rw [List.flatMap_cons, List.map_cons, ih (fun x hx => hl x (List.mem_cons_of_mem _ hx)), parts,
        List.splitOn_eq_singleton (hl k List.mem_cons_self)]
      rfl
  rintro ⟨hparts, hcuts⟩
  rw [hflat ha, hflat hb] at hparts
  have hab : a = b := List.map_injective_iff.2 (fun k l h => String.toList_inj.1 h) hparts
  exact hcuts (by rw [hab])

end Ids

/-! ## Runs -/

/-- A domain with its own id, all of whose families meet `F`. -/
def Named (F : String → Prop) (d : NumaDomain) : Prop := d.id = domainId d.families ∧ ∀ f ∈ d.families, F f

section Runs

variable {F : String → Prop} {s : NumaDomainSolver} {input : ProposeInput}

theorem cross_groups {tids : OrdMap Tid ThreadDemand} (htids : ∀ t th, tids.find? t = some th → F th.group)
    {edges : List RelationEdge} {pair : FamilyPair} (h : pair ∈ (relations tids edges).cross) :
    F (ofLex pair).1 ∧ F (ofLex pair).2 := by
  unfold relations at h
  refine Loop.foldl_keeps (fun r : Relations => ∀ pair ∈ r.cross, F (ofLex pair).1 ∧ F (ofLex pair).2)
    (fun r e hr pair hp => ?_) edges (s := {}) (fun pair hp => absurd hp (OrdMap.notMem_empty pair)) pair h
  unfold addRelation at hp
  split at hp
  · rename_i a b ha hb
    have hga := htids _ _ ha
    have hgb := htids _ _ hb
    split at hp
    · exact hr pair hp
    · rcases OrdMap.mem_insert.1 hp with rfl | hp
      · change F (min a.group b.group) ∧ F (max a.group b.group)
        rcases le_total a.group b.group with hle | hle
        · rw [min_eq_left hle, max_eq_right hle]
          exact ⟨hga, hgb⟩
        · rw [min_eq_right hle, max_eq_left hle]
          exact ⟨hgb, hga⟩
      · exact hr pair hp
  · exact hr pair hp

/-- A metric is one of a thread's family. -/
theorem metrics_groups (h : ∀ th ∈ input.threads, F th.group) : ∀ f ∈ (pairStage s input).metrics, F f := by
  have hcross : ∀ pair ∈ (relationStage input).cross, F (ofLex pair).1 ∧ F (ofLex pair).2 := fun pair hp =>
    cross_groups (fun t th hth => h th (find_byTid hth).1) hp
  have hfirst : ∀ f ∈ metricStage s input, F f := by
    intro f hf
    have hfamily : f ∈ byFamily input.threads := OrdMap.mem_mapVal.1 hf
    unfold byFamily at hfamily
    refine List.foldlRecOn (motive := fun m : OrdMap String (List ThreadDemand) => ∀ f ∈ m, F f) input.threads _
      (fun f hf => absurd hf (OrdMap.notMem_empty f)) (fun m hm th hth f hf => ?_) f hfamily
    rcases OrdMap.mem_insert.1 hf with rfl | hf
    · exact h th hth
    · exact hm f hf
  unfold pairStage confirmPairs
  dsimp only
  refine Loop.foldl_keeps (fun m : OrdMap String FamilyMetric => ∀ f ∈ m, F f) (fun m e hm f hf => ?_) _ ?_
  · unfold markPending at hf
    dsimp only at hf
    split at hf
    · rename_i hin
      rcases OrdMap.mem_insert.1 hf with rfl | hf
      · exact hm _ hin.2.2.2
      · rcases OrdMap.mem_insert.1 hf with rfl | hf
        · exact hm _ hin.2.2.1
        · exact hm f hf
    · exact hm f hf
  · refine List.foldlRecOn (motive := fun st : PairState => ∀ f ∈ st.metrics, F f) _ _ hfirst
      (fun st hst pair hpair f hf => ?_)
    have hends := hcross pair (mem_of_selected (OrdSet.mem_toList.1 hpair))
    unfold confirmPair at hf
    rcases OrdMap.mem_insert.1 hf with rfl | hf
    · exact hends.2
    · rcases OrdMap.mem_insert.1 hf with rfl | hf
      · exact hends.1
      · exact hst f hf

theorem candidates_ids (cross : OrdMap FamilyPair ℚ) (families : OrdMap String (List ThreadDemand)) :
    ∀ (comps : List (List String)) (st : CandidateState), (∀ d ∈ st.domains, d.id = domainId d.families) →
      ∀ d ∈ (comps.foldl (addCandidate input s families cross) st).domains, d.id = domainId d.families
  | [], _, h => h
  | c :: comps, st, h => by
    refine candidates_ids cross families comps _ (fun d hd => ?_)
    unfold addCandidate at hd
    rcases List.mem_append.1 hd with hd | hd
    · exact h d hd
    · rw [List.mem_singleton.1 hd]

theorem candidates_named (h : ∀ th ∈ input.threads, F th.group) : ∀ d ∈ (candidateStage s input).domains, Named F d := by
  intro d hd
  refine ⟨candidates_ids _ _ _ _ (fun d hd => absurd hd List.not_mem_nil) d hd, fun f hf => ?_⟩
  obtain ⟨r, l, hl, hmem⟩ := component_of_candidate hd
  have hanchor := (component_sublist (fun f g hs => (seed_ends hs).1) hl).subset ((hmem f).1 hf)
  obtain ⟨e, he, rfl⟩ := List.mem_map.1 hanchor
  exact metrics_groups h e.1 (OrdMap.mem_of_find (OrdMap.mem_entries.1 (List.mem_filter.1 he).1))

/-- **A proposal names its domains after their families.** -/
theorem proposalOf_named (h : ∀ th ∈ input.threads, F th.group) (hs : ∀ d ∈ s.domains, Named F d) :
    ∀ d ∈ (proposalOf s input).domains, Named F d := by
  have hheld : ∀ d ∈ (heldStage s input).domains, Named F d := by
    unfold heldStage
    refine List.foldlRecOn (motive := fun st : Held => ∀ d ∈ st.domains, Named F d) _ _ (candidates_named h)
      (fun st hst d hd c hc => ?_)
    rcases holdStep_cases input.options input.nowNs (evidenceStage s input) (byFamily input.threads) st d with
      ⟨he, -⟩ | ⟨-, -, -, he, -⟩
    · rw [he] at hc
      exact hst c hc
    · rw [he] at hc
      rcases List.mem_append.1 hc with hc | hc
      · exact hst c (List.mem_of_mem_filter hc)
      · rw [List.mem_singleton.1 hc]
        exact hs d hd
  intro d hd
  obtain ⟨c, hc, he⟩ := exists_held (fun d : NumaDomain => (d.id, d.families)) (fun _ _ _ _ => rfl) hd
  obtain ⟨hid, hfamilies⟩ := Prod.mk.inj he
  unfold Named
  rw [hid, hfamilies]
  exact hheld c hc

/-- The threads have family keys. -/
def Keyed (input : ProposeInput) : Prop := ∀ th ∈ input.threads, IsFamilyKey th.group

/-- The committed domains of a state and those of the proposal that is out. -/
def Known (s : NumaDomainSolver) (d : NumaDomain) : Prop :=
  d ∈ s.domains ∨ ∃ p, s.outstanding = some p ∧ d ∈ p.domains

/-- The states runs lead to in which every call gets threads with family keys. -/
def KeyedReachable (s : NumaDomainSolver) : Prop :=
  ∃ es, Run.Obeys solverStep (OnInputs Keyed) {} es ∧ Run.exec solverStep {} es = some s

theorem KeyedReachable.named (h : KeyedReachable s) {d : NumaDomain} (hd : Known s d) : Named IsFamilyKey d := by
  obtain ⟨es, hobeys, he⟩ := h
  obtain ⟨hdomains, hout⟩ := domains_keep_on (P := fun ds => ∀ d ∈ ds, Named IsFamilyKey d)
    (fun d hd => absurd hd List.not_mem_nil) (fun s input hok hs => proposalOf_named hok hs) hobeys he
  rcases hd with hd | ⟨p, hp, hd⟩
  · exact hdomains d hd
  · exact hout p hp d hd

theorem faithful_iff {a b : List String} (ha : ∀ k ∈ a, IsFamilyKey k) (hb : ∀ k ∈ b, IsFamilyKey k) :
    (domainId a = domainId b → a = b) ↔ ¬ Recut a b := by
  rw [domainId_eq_iff (fun k hk => (ha k hk).ne_empty) (fun k hk => (hb k hk).ne_empty)]
  constructor
  · rintro h ⟨hparts, hcuts⟩
    exact hcuts (by rw [h hparts])
  · intro h hparts
    by_contra hne
    exact h ⟨hparts, fun hcuts => hne (eq_of_parts hparts hcuts)⟩

/-- **An id tells the families of its domain unless they are recut**: for lists of keys, and for the domains of any two
states of runs, so that the maps kept by id are never those of two domains.  Keys without a plus sign cannot be. -/
theorem domain_ids_faithful (a b : List String) (s s' : NumaDomainSolver) (d d' : NumaDomain) :
    (FamilyKeys a → FamilyKeys b → ((domainId a = domainId b → a = b) ↔ ¬ Recut a b)) ∧
    (KeyedReachable s → KeyedReachable s' → Known s d → Known s' d' →
      ((d.id = d'.id → d.families = d'.families) ↔ ¬ Recut d.families d'.families)) ∧
    ((∀ k ∈ a, '+' ∉ k.toList) → (∀ k ∈ b, '+' ∉ k.toList) → ¬ Recut a b) := by
  refine ⟨fun ha hb => faithful_iff ha.2 hb.2, fun hs hs' hd hd' => ?_, not_recut_of_plain⟩
  obtain ⟨hid, hkeys⟩ := hs.named hd
  obtain ⟨hid', hkeys'⟩ := hs'.named hd'
  rw [hid, hid']
  exact faithful_iff hkeys hkeys'

theorem isFamilyKey_of (comm symbol : String) {key : String} (h : key = normalizeGroup comm 0 symbol) : IsFamilyKey key :=
  ⟨comm, 0, symbol, h⟩

/-- Two families of two threads each, that talk to each other. -/
def talking : ProposeInput :=
  { hardware := { cpus := [⟨0, 0, true⟩, ⟨1, 1, true⟩] }
    threads := [⟨⟨1, 1, 0⟩, "a@x", 1, 1, 0⟩, ⟨⟨1, 2, 0⟩, "a@x", 1, 1, 0⟩, ⟨⟨1, 3, 0⟩, "b@y", 1, 1, 1⟩,
      ⟨⟨1, 4, 0⟩, "b@y", 1, 1, 1⟩]
    edges := [{ fromTid := 1, toTid := 2, score := 5 }, { fromTid := 3, toTid := 4, score := 5 },
      { fromTid := 1, toTid := 3, score := 5 }]
    options := { familyStabilityConfirmations := 1, domainStabilityConfirmations := 1, planConfirmations := 1 }
    nowNs := 1 }

theorem familyKeys_talking : FamilyKeys ["a@x", "b@y"] := by
  refine ⟨by decide, fun k hk => ?_⟩
  rcases List.mem_cons.1 hk with rfl | hk
  · exact isFamilyKey_of "a" "x" (by decide)
  · rw [List.mem_singleton.1 hk]
    exact isFamilyKey_of "b" "y" (by decide)

theorem keyed_talking : Keyed talking := by
  intro th hth
  simp only [talking, List.mem_cons, List.not_mem_nil, or_false] at hth
  rcases hth with rfl | rfl | rfl | rfl
  · exact isFamilyKey_of "a" "x" (by decide)
  · exact isFamilyKey_of "a" "x" (by decide)
  · exact isFamilyKey_of "b" "y" (by decide)
  · exact isFamilyKey_of "b" "y" (by decide)

/-- The pool of the two, proposed in one run and committed in another, and a single family. -/
theorem domain_ids_faithful_pair :
    (domainId ["a@x", "b@y"] = domainId ["c@z"] → ["a@x", "b@y"] = ["c@z"]) ∧
    ∃ s s' d d', Run.exec solverStep {} [.propose talking] = some s ∧
      Run.exec solverStep {} [.propose talking, .commit 2 ∅] = some s' ∧ Known s d ∧ Known s' d' ∧
      d.id = "a@x+b@y" ∧ d'.id = "a@x+b@y" ∧ d.families = d'.families := by
  have hc : FamilyKeys ["c@z"] := by
    refine ⟨by decide, fun k hk => ?_⟩
    rw [List.mem_singleton.1 hk]
    exact isFamilyKey_of "c" "z" (by decide)
  refine ⟨?_, ?_⟩
  · obtain ⟨hfaithful, -, hplain⟩ := domain_ids_faithful ["a@x", "b@y"] ["c@z"] {} {} { id := "", families := [] }
      { id := "", families := [] }
    exact (hfaithful familyKeys_talking hc).2 (hplain (by decide) (by decide))
  have hproposed : (Run.exec solverStep {} [.propose talking]).any (fun s => s.outstanding.any (fun p => p.domains.any
      (fun d => decide (d.id = "a@x+b@y" ∧ ∀ k ∈ d.families, '+' ∉ k.toList)))) = true := by decide +kernel
  have hcommitted : (Run.exec solverStep {} [.propose talking, .commit 2 ∅]).any (fun s => s.domains.any
      (fun d => decide (d.id = "a@x+b@y" ∧ ∀ k ∈ d.families, '+' ∉ k.toList))) = true := by decide +kernel
  obtain ⟨s, hs, h⟩ := (Option.any_eq_true _ _).1 hproposed
  obtain ⟨p, hp, h⟩ := (Option.any_eq_true _ _).1 h
  obtain ⟨d, hd, h⟩ := List.any_eq_true.1 h
  obtain ⟨hid, hplain⟩ := of_decide_eq_true h
  obtain ⟨s', hs', h⟩ := (Option.any_eq_true _ _).1 hcommitted
  obtain ⟨d', hd', h⟩ := List.any_eq_true.1 h
  obtain ⟨hid', hplain'⟩ := of_decide_eq_true h
  have hok : ∀ s : NumaDomainSolver, OnInputs Keyed s (.propose talking) := fun _ input heq => by
    cases heq
    exact keyed_talking
  have hreach : KeyedReachable s := ⟨[.propose talking], ⟨hok _, fun _ _ => trivial⟩, hs⟩
  have hreach' : KeyedReachable s' :=
    ⟨[.propose talking, .commit 2 ∅], ⟨hok _, fun _ _ => ⟨fun _ heq => (nomatch heq), fun _ _ => trivial⟩⟩, hs'⟩
  have hknown : Known s d := Or.inr ⟨p, hp, hd⟩
  have hknown' : Known s' d' := Or.inl hd'
  obtain ⟨-, hruns, hnot⟩ := domain_ids_faithful d.families d'.families s s' d d'
  exact ⟨s, s', d, d', hs, hs', hknown, hknown', hid, hid',
    (hruns hreach hreach' hknown hknown').2 (hnot hplain hplain') (hid.trans hid'.symm)⟩

/-- **Two families, and one whose name has the plus sign**: one id. -/
theorem domain_ids_collide : FamilyKeys ["a@x", "b@y"] ∧ FamilyKeys ["a@x+b@y"] ∧
    domainId ["a@x", "b@y"] = domainId ["a@x+b@y"] ∧ ["a@x", "b@y"] ≠ ["a@x+b@y"] := by
  refine ⟨familyKeys_talking, ⟨by decide, fun k hk => ?_⟩, by decide, by decide⟩
  rw [List.mem_singleton.1 hk]
  exact isFamilyKey_of "a@x+b" "y" (by decide)

end Runs

end NumaDomainSolver
end AffinityGraph
