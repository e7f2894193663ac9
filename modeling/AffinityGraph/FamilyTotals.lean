import AffinityGraph.DomainPlan
import Mathlib.Algebra.BigOperators.Group.Finset.Piecewise
/-!
# FamilyTotals — what of the relation edges reaches a domain plan

`propose` aggregates before it prunes: of the edges it uses what they add up to inside each family and between any two,
which pairs of families have one at all, and the grand total.  So two windows with the same threads in some order and the
same totals are one window to the solver, whatever threads carry the weight (`propose_of_totals`), and two runs told such
windows go through the same states (`runs_of_totals`).
-/
namespace AffinityGraph

/-- An edge between a thread of one family and a thread of the other, in either direction; inside a family when both are
one. -/
def RelationEdge.Links (threads : List ThreadDemand) (f g : String) (e : RelationEdge) : Prop :=
  ∃ a ∈ threads, ∃ b ∈ threads, a.identity.tid = e.fromTid ∧ b.identity.tid = e.toTid ∧
    (a.group = f ∧ b.group = g ∨ a.group = g ∧ b.group = f)

instance (threads : List ThreadDemand) (f g : String) (e : RelationEdge) : Decidable (e.Links threads f g) :=
  inferInstanceAs (Decidable (∃ a ∈ threads, ∃ b ∈ threads, _))

namespace ProposeInput

/-- The score of all edges between two families, or inside one. -/
def total (i : ProposeInput) (f g : String) : ℚ :=
  ((i.edges.filter (fun e => decide (e.Links i.threads f g))).map (·.score)).sum

def Joined (i : ProposeInput) (f g : String) : Prop := ∃ e ∈ i.edges, e.Links i.threads f g

/-- Two windows with the same threads and the same family totals. -/
structure SameTotals (i i' : ProposeInput) : Prop where
  hardware : i.hardware = i'.hardware
  threads : i.threads.Perm i'.threads
  distinct : (i.threads.map (·.identity.tid)).Nodup
  allowedMasks : i.allowedMasks = i'.allowedMasks
  options : i.options = i'.options
  nowNs : i.nowNs = i'.nowNs
  totals : ∀ f g, i.total f g = i'.total f g
  joined : ∀ f g, f ≠ g → (i.Joined f g ↔ i'.Joined f g)
  overall : (i.edges.map (·.score)).sum = (i'.edges.map (·.score)).sum

end ProposeInput

namespace NumaDomainSolver

/-! ## The aggregation, edge by edge -/

section Aggregation

variable {threads : List ThreadDemand} {r : Relations} {e : RelationEdge} {f g : String}

theorem minmax_eq_iff {a b : String} : minmax a b = minmax f g ↔ a = f ∧ b = g ∨ a = g ∧ b = f := by
  unfold minmax
  rw [EmbeddingLike.apply_eq_iff_eq, Prod.mk.injEq]
  constructor
  · rintro ⟨hmin, hmax⟩
    rcases le_total a b with hab | hab <;> rcases le_total f g with hfg | hfg <;>
      simp only [min_eq_left, min_eq_right, max_eq_left, max_eq_right, hab, hfg] at hmin hmax
    · exact Or.inl ⟨hmin, hmax⟩
    · exact Or.inr ⟨hmin, hmax⟩
    · exact Or.inr ⟨hmax, hmin⟩
    · exact Or.inl ⟨hmax, hmin⟩
  · rintro (⟨rfl, rfl⟩ | ⟨rfl, rfl⟩)
    · exact ⟨rfl, rfl⟩
    · exact ⟨min_comm _ _, max_comm _ _⟩

/-- With one thread a TID, an edge links the families of its ends and no others. -/
theorem links_iff (hn : (threads.map (·.identity.tid)).Nodup) {a b : ThreadDemand}
    (ha : (byTid threads).find? e.fromTid = some a) (hb : (byTid threads).find? e.toTid = some b) :
    e.Links threads f g ↔ minmax a.group b.group = minmax f g := by
  rw [minmax_eq_iff]
  constructor
  · rintro ⟨a', ha', b', hb', hfrom, hto, h⟩
    have hself := mem_byTid hn ha'
    have hpeer := mem_byTid hn hb'
    rw [hfrom, ha] at hself
    rw [hto, hb] at hpeer
    cases hself
    cases hpeer
    exact h
  · intro h
    obtain ⟨hma, hta⟩ := find_byTid ha
    obtain ⟨hmb, htb⟩ := find_byTid hb
    exact ⟨a, hma, b, hmb, hta, htb, h⟩

/-- An edge without both its ends links nothing. -/
theorem not_links (hn : (threads.map (·.identity.tid)).Nodup)
    (h : (byTid threads).find? e.fromTid = none ∨ (byTid threads).find? e.toTid = none) : ¬ e.Links threads f g := by
  rintro ⟨a, ha, b, hb, hfrom, hto, -⟩
  have hself := mem_byTid hn ha
  have hpeer := mem_byTid hn hb
  rw [hfrom] at hself
  rw [hto] at hpeer
  rcases h with h | h
  · rw [h] at hself
    cases hself
  · rw [h] at hpeer
    cases hpeer

/-- **One edge.**  What it adds to a family's internal score, to a pair's score, and to the set of pairs. -/
theorem addRelation_spec (hn : (threads.map (·.identity.tid)).Nodup) (r : Relations) (e : RelationEdge) :
    (∀ f, (addRelation (byTid threads) r e).internal.getD f 0 =
      r.internal.getD f 0 + if e.Links threads f f then e.score else 0) ∧
    ∀ f g, f ≠ g →
      (addRelation (byTid threads) r e).cross.getD (minmax f g) 0 =
        r.cross.getD (minmax f g) 0 + (if e.Links threads f g then e.score else 0) ∧
      (minmax f g ∈ (addRelation (byTid threads) r e).cross ↔ minmax f g ∈ r.cross ∨ e.Links threads f g) := by
  unfold addRelation
  cases ha : (byTid threads).find? e.fromTid with
  | none =>
    have hno : ∀ f g, ¬ e.Links threads f g := fun f g => not_links hn (Or.inl ha)
    simp [hno]
  | some a =>
    cases hb : (byTid threads).find? e.toTid with
    | none =>
      have hno : ∀ f g, ¬ e.Links threads f g := fun f g => not_links hn (Or.inr hb)
      simp [hno]
    | some b =>
      have hlinks : ∀ f g, e.Links threads f g ↔ minmax a.group b.group = minmax f g := fun f g => links_iff hn ha hb
      simp only [hlinks]
      by_cases hab : a.group = b.group
      · rw [if_pos hab]
        have hpair : ∀ f g, f ≠ g → minmax a.group b.group ≠ minmax f g := by
          rintro f g hne h
          rw [minmax_eq_iff] at h
          rcases h with ⟨rfl, rfl⟩ | ⟨rfl, rfl⟩
          · exact hne hab
          · exact hne hab.symm
        refine ⟨fun f => ?_, fun f g hne => ⟨by rw [if_neg (hpair f g hne), add_zero], by simp [hpair f g hne]⟩⟩
        have hself : minmax a.group b.group = minmax f f ↔ a.group = f := by
          rw [minmax_eq_iff, ← hab]
          simp
        rw [OrdMap.getD_update]
        by_cases hf : a.group = f
        · rw [if_pos hf, if_pos (hself.2 hf)]
        · rw [if_neg hf, if_neg (fun h => hf (hself.1 h)), add_zero]
      · rw [if_neg hab]
        refine ⟨fun f => ?_, fun f g _ => ⟨?_, ?_⟩⟩
        · have hno : minmax a.group b.group ≠ minmax f f := by
            intro h
            rw [minmax_eq_iff] at h
            rcases h with ⟨rfl, h⟩ | ⟨rfl, h⟩ <;> exact hab h.symm
          rw [if_neg hno, add_zero]
        · rw [OrdMap.getD_update]
          split
          · rfl
          · rw [add_zero]
        · exact OrdMap.mem_insert.trans or_comm

/-- **All edges.**  What they add up to. -/
theorem relations_spec (hn : (threads.map (·.identity.tid)).Nodup) : ∀ (es : List RelationEdge) (r : Relations),
    (∀ f, (es.foldl (addRelation (byTid threads)) r).internal.getD f 0 =
      r.internal.getD f 0 + ((es.filter (fun e => decide (e.Links threads f f))).map (·.score)).sum) ∧
    ∀ f g, f ≠ g →
      (es.foldl (addRelation (byTid threads)) r).cross.getD (minmax f g) 0 =
        r.cross.getD (minmax f g) 0 + ((es.filter (fun e => decide (e.Links threads f g))).map (·.score)).sum ∧
      (minmax f g ∈ (es.foldl (addRelation (byTid threads)) r).cross ↔
        minmax f g ∈ r.cross ∨ ∃ e ∈ es, e.Links threads f g)
  | [], r => by simp
  | e :: es, r => by
    obtain ⟨hinternal, hcross⟩ := addRelation_spec hn r e
    obtain ⟨ihinternal, ihcross⟩ := relations_spec hn es (addRelation (byTid threads) r e)
    have hsum : ∀ f g, ((((e :: es).filter (fun e => decide (e.Links threads f g))).map (·.score)).sum : ℚ) =
        (if e.Links threads f g then e.score else 0) +
          ((es.filter (fun e => decide (e.Links threads f g))).map (·.score)).sum := by
      intro f g
      by_cases h : e.Links threads f g <;> simp [h]
    refine ⟨fun f => ?_, fun f g hne => ⟨?_, ?_⟩⟩
    · rw [List.foldl_cons, ihinternal, hinternal, hsum, add_assoc]
    · rw [List.foldl_cons, (ihcross f g hne).1, (hcross f g hne).1, hsum, add_assoc]
    · rw [List.foldl_cons, (ihcross f g hne).2, (hcross f g hne).2, or_assoc]
      simp

/-- The books of the aggregation: pairs are of two families of the window, and a family's external score is what its pairs
add up to. -/
structure Books (names : Finset String) (r : Relations) : Prop where
  pairs : ∀ pair ∈ r.cross, ∃ f g, f ≠ g ∧ pair = minmax f g
  external : ∀ f, r.external.getD f 0 = ∑ g ∈ names.erase f, r.cross.getD (minmax f g) 0

theorem Books.addRelation {names : Finset String} {tids : OrdMap Tid ThreadDemand}
    (htids : ∀ t th, tids.find? t = some th → th.group ∈ names) (h : Books names r) :
    Books names (addRelation tids r e) := by
  unfold NumaDomainSolver.addRelation
  split
  · rename_i a b ha hb
    have hga := htids _ _ ha
    have hgb := htids _ _ hb
    by_cases hab : a.group = b.group
    · rw [if_pos hab]
      exact ⟨h.pairs, h.external⟩
    · rw [if_neg hab]
      refine ⟨fun pair hp => ?_, fun f => ?_⟩
      · rcases OrdMap.mem_insert.1 hp with rfl | hp
        · exact ⟨a.group, b.group, hab, rfl⟩
        · exact h.pairs pair hp
      · -- of the family's pairs the edge raises one, when one of its ends is the family's
        have hraise : ∀ g ∈ names.erase f, (r.cross.update (minmax a.group b.group) 0 (· + e.score)).getD (minmax f g) 0 =
            r.cross.getD (minmax f g) 0 +
              ((if g = b.group then if a.group = f then e.score else 0 else 0) +
                if g = a.group then if b.group = f then e.score else 0 else 0) := by
          intro g hg
          have hne : g ≠ f := (Finset.mem_erase.1 hg).1
          rw [OrdMap.getD_update]
          simp only [minmax_eq_iff]
          by_cases h1 : a.group = f ∧ b.group = g
          · have h2 : ¬ g = a.group := fun h => hne (h.trans h1.1)
            rw [if_pos (Or.inl h1), if_pos h1.2.symm, if_pos h1.1, if_neg h2, add_zero]
          · by_cases h2 : a.group = g ∧ b.group = f
            · have h3 : ¬ g = b.group := fun h => hne (h.trans h2.2)
              rw [if_pos (Or.inr h2), if_neg h3, if_pos h2.1.symm, if_pos h2.2, zero_add]
            · rw [if_neg (not_or.2 ⟨h1, h2⟩)]
              have h3 : (if g = b.group then if a.group = f then e.score else 0 else 0) = 0 := by
                split_ifs with hb' ha'
                · exact absurd ⟨ha', hb'.symm⟩ h1
                · rfl
                · rfl
              have h4 : (if g = a.group then if b.group = f then e.score else 0 else 0) = 0 := by
                split_ifs with ha' hb'
                · exact absurd ⟨ha'.symm, hb'⟩ h2
                · rfl
                · rfl
              rw [h3, h4, add_zero, add_zero]
        dsimp only
        rw [Finset.sum_congr rfl hraise, Finset.sum_add_distrib, Finset.sum_add_distrib, Finset.sum_ite_eq',
          Finset.sum_ite_eq', ← h.external f, OrdMap.getD_update, OrdMap.getD_update]
        by_cases hfa : a.group = f
        · have hfb : b.group ≠ f := fun h => hab (hfa.trans h.symm)
          have hb' : b.group ∈ names.erase f := Finset.mem_erase.2 ⟨hfb, hgb⟩
          simp [hfa, hfb, hb']
        · by_cases hfb : b.group = f
          · have ha' : a.group ∈ names.erase f := Finset.mem_erase.2 ⟨hfa, hga⟩
            simp [hfa, hfb, ha']
          · simp [hfa, hfb]
  · exact h

end Aggregation

/-! ## The relations of two windows with the same totals -/

/-- Relations that no stage can tell apart. -/
structure Relations.Alike (r r' : Relations) : Prop where
  internal : ∀ f, r.internal.getD f 0 = r'.internal.getD f 0
  external : ∀ f, r.external.getD f 0 = r'.external.getD f 0
  cross : r.cross = r'.cross
  maximum : r.internal.entries.foldl (fun m e => max m e.2) 0 = r'.internal.entries.foldl (fun m e => max m e.2) 0

section Alike

variable {i i' : ProposeInput}

theorem foldl_max_le {y : ℚ} : ∀ (l : List (String × ℚ)) (x : ℚ),
    l.foldl (fun m e => max m e.2) x ≤ y ↔ x ≤ y ∧ ∀ e ∈ l, e.2 ≤ y
  | [], x => by simp
  | e :: l, x => by
    rw [List.foldl_cons, foldl_max_le l, max_le_iff, List.forall_mem_cons, and_assoc]

/-- The largest score counts from zero, so a family that has no entry and one with a zero are the same. -/
theorem maximum_eq {m m' : OrdMap String ℚ} (h : ∀ f, m.getD f 0 = m'.getD f 0) :
    m.entries.foldl (fun m e => max m e.2) 0 = m'.entries.foldl (fun m e => max m e.2) 0 := by
  have hbound : ∀ {m m' : OrdMap String ℚ}, (∀ f, m.getD f 0 = m'.getD f 0) → ∀ y, 0 ≤ y → (∀ e ∈ m.entries, e.2 ≤ y) →
      ∀ e ∈ m'.entries, e.2 ≤ y := by
    intro m m' h y hy hm e he
    have hval : m'.getD e.1 0 = e.2 := by rw [OrdMap.getD, OrdMap.mem_entries.1 he, Option.getD_some]
    rw [← hval, ← h e.1, OrdMap.getD]
    cases hf : m.find? e.1 with
    | none => exact hy
    | some v => exact hm (e.1, v) (OrdMap.mem_entries.2 hf)
  refine eq_of_forall_ge_iff (fun y => ?_)
  rw [foldl_max_le, foldl_max_le]
  exact and_congr_right (fun hy => ⟨hbound h y hy, hbound (fun f => (h f).symm) y hy⟩)

theorem byTid_perm {l l' : List ThreadDemand} (h : l.Perm l') (hn : (l.map (·.identity.tid)).Nodup) :
    byTid l = byTid l' := by
  have hn' : (l'.map (·.identity.tid)).Nodup := (h.map _).nodup_iff.1 hn
  refine OrdMap.ext_find (fun t => Option.ext (fun th => ⟨fun hf => ?_, fun hf => ?_⟩))
  · obtain ⟨hm, rfl⟩ := find_byTid hf
    exact mem_byTid hn' (h.mem_iff.1 hm)
  · obtain ⟨hm, rfl⟩ := find_byTid hf
    exact mem_byTid hn (h.mem_iff.2 hm)

theorem books_relationStage (i : ProposeInput) :
    Books (i.threads.map (·.group)).toFinset (relationStage i) := by
  have htids : ∀ t th, (byTid i.threads).find? t = some th → th.group ∈ (i.threads.map (·.group)).toFinset := by
    intro t th hf
    exact List.mem_toFinset.2 (List.mem_map_of_mem (find_byTid hf).1)
  unfold relationStage relations
  refine List.foldlRecOn (motive := Books (i.threads.map (·.group)).toFinset) i.edges _ ?_
    (fun r hr e _ => hr.addRelation htids)
  exact ⟨fun pair hp => absurd hp (OrdMap.notMem_empty pair), fun f => (Finset.sum_eq_zero (fun _ _ => rfl)).symm⟩

theorem relationStage_totals (h : i.SameTotals i') : (relationStage i).Alike (relationStage i') := by
  have hn' : (i'.threads.map (·.identity.tid)).Nodup := (h.threads.map _).nodup_iff.1 h.distinct
  have hspec := relations_spec h.distinct i.edges {}
  have hspec' := relations_spec hn' i'.edges {}
  have hinternal : ∀ f, (relationStage i).internal.getD f 0 =
      (relationStage i').internal.getD f 0 := by
    intro f
    exact (hspec.1 f).trans ((congrArg _ (h.totals f f)).trans (hspec'.1 f).symm)
  have hpairs : ∀ f g, f ≠ g → (relationStage i).cross.getD (minmax f g) 0 =
        (relationStage i').cross.getD (minmax f g) 0 ∧
      (minmax f g ∈ (relationStage i).cross ↔ minmax f g ∈ (relationStage i').cross) := by
    intro f g hne
    refine ⟨(hspec.2 f g hne).1.trans ((congrArg _ (h.totals f g)).trans (hspec'.2 f g hne).1.symm), ?_⟩
    exact (hspec.2 f g hne).2.trans ((or_congr_right (h.joined f g hne)).trans (hspec'.2 f g hne).2.symm)
  have hcross : (relationStage i).cross = (relationStage i').cross := by
    refine OrdMap.ext_find (fun pair => ?_)
    by_cases hp : pair ∈ (relationStage i).cross
    · obtain ⟨f, g, hne, rfl⟩ := (books_relationStage i).pairs pair hp
      obtain ⟨v, hv⟩ := OrdMap.mem_iff.1 hp
      obtain ⟨v', hv'⟩ := OrdMap.mem_iff.1 ((hpairs f g hne).2.1 hp)
      have hval := (hpairs f g hne).1
      rw [OrdMap.getD, OrdMap.getD, hv, hv'] at hval
      rw [hv, hv']
      exact congrArg some hval
    · have hp' : pair ∉ (relationStage i').cross := by
        intro hp'
        obtain ⟨f, g, hne, rfl⟩ := (books_relationStage i').pairs pair hp'
        exact hp ((hpairs f g hne).2.2 hp')
      rw [OrdMap.notMem_iff.1 hp, OrdMap.notMem_iff.1 hp']
  have hnames : (i.threads.map (·.group)).toFinset = (i'.threads.map (·.group)).toFinset :=
    List.toFinset_eq_of_perm _ _ (h.threads.map _)
  refine ⟨hinternal, fun f => ?_, hcross, maximum_eq hinternal⟩
  rw [(books_relationStage i).external f, (books_relationStage i').external f, hnames, hcross]

end Alike

/-! ## Families with their members in another order -/

structure Regrouped (m m' : OrdMap String (List ThreadDemand)) : Prop where
  keys : ∀ f, f ∈ m ↔ f ∈ m'
  perm : ∀ f, (m.getD f []).Perm (m'.getD f [])

section Regrouped

variable {families families' : OrdMap String (List ThreadDemand)}

theorem mem_byFamily_iff {f : String} (l : List ThreadDemand) : f ∈ byFamily l ↔ ∃ th ∈ l, th.group = f := by
  have hrun : ∀ (l : List ThreadDemand) (m : OrdMap String (List ThreadDemand)),
      f ∈ l.foldl (fun m t => m.update t.group [] (· ++ [t])) m ↔ f ∈ m ∨ ∃ th ∈ l, th.group = f := by
    intro l
    induction l with
    | nil => simp
    | cons th l ih =>
      intro m
      rw [List.foldl_cons, ih, OrdMap.update, OrdMap.mem_insert]
      simp only [List.exists_mem_cons_iff]
      tauto
  exact (hrun l ∅).trans (or_iff_right (OrdMap.notMem_empty f))

theorem regrouped_byFamily {l l' : List ThreadDemand} (h : l.Perm l') : Regrouped (byFamily l) (byFamily l') := by
  refine ⟨fun f => ?_, fun f => ?_⟩
  · rw [mem_byFamily_iff, mem_byFamily_iff]
    simp only [h.mem_iff]
  · rw [getD_byFamily, getD_byFamily]
    exact h.filter _

/-- What does not depend on the order of a family's members is the same for all families. -/
theorem Regrouped.mapVal_eq {β : Type} (h : Regrouped families families') {φ : String → List ThreadDemand → β}
    (hφ : ∀ name l l', l.Perm l' → φ name l = φ name l') : families.mapVal φ = families'.mapVal φ := by
  refine OrdMap.ext_find (fun f => ?_)
  rw [OrdMap.find?_mapVal, OrdMap.find?_mapVal]
  have hkeys := h.keys f
  have hperm := h.perm f
  rw [OrdMap.mem_def, OrdMap.mem_def] at hkeys
  rw [OrdMap.getD, OrdMap.getD] at hperm
  cases hf : families.find? f with
  | none =>
    rw [hf] at hkeys
    cases hf' : families'.find? f with
    | none => rfl
    | some l' => exact absurd (hkeys.2 (by rw [hf']; rfl)) Bool.false_ne_true
  | some l =>
    rw [hf] at hkeys hperm
    cases hf' : families'.find? f with
    | none =>
      rw [hf'] at hkeys
      exact absurd (hkeys.1 rfl) Bool.false_ne_true
    | some l' =>
      rw [hf'] at hperm
      exact congrArg some (hφ f l l' hperm)

theorem Regrouped.size_eq (h : Regrouped families families') : families.size = families'.size := by
  rw [← OrdMap.size_mapVal families (fun _ _ => ()), ← OrdMap.size_mapVal families' (fun _ _ => ()),
    h.mapVal_eq (fun _ _ _ _ => rfl)]

theorem Regrouped.membersOf (h : Regrouped families families') : ∀ names : List String,
    (membersOf families names).Perm (membersOf families' names)
  | [] => List.Perm.refl _
  | n :: names => (h.perm n).append (h.membersOf names)

theorem sort_perm {l l' : List Int} (h : l.Perm l') : l.insertionSort (· ≤ ·) = l'.insertionSort (· ≤ ·) :=
  List.Perm.eq_of_pairwise' (List.pairwise_insertionSort _ _) (List.pairwise_insertionSort _ _)
    ((List.perm_insertionSort _ _).trans (h.trans (List.perm_insertionSort _ _).symm))

end Regrouped

/-! ## The stages -/

section Stages

variable {r r' : Relations} {families families' : OrdMap String (List ThreadDemand)} {members members' : List ThreadDemand}

theorem familyMetrics_alike (h : r.Alike r') (hf : Regrouped families families') (options : NumaDomainOptions)
    (confirmations : OrdMap String Int) :
    familyMetrics options r confirmations families = familyMetrics options r' confirmations families' := by
  unfold familyMetrics
  dsimp only
  rw [h.maximum]
  have hmetric : familyMetric options r = familyMetric options r' := by
    funext maximum confirmations name members
    unfold familyMetric
    rw [h.internal, h.external]
  rw [hmetric]
  refine hf.mapVal_eq (fun name l l' hl => ?_)
  unfold familyMetric
  rw [(hl.map _).sum_eq, hl.length_eq]

theorem confirmPairs_alike (h : r.Alike r') (options : NumaDomainOptions) (s : NumaDomainSolver)
    (metrics : OrdMap String FamilyMetric) : confirmPairs options r s metrics = confirmPairs options r' s metrics := by
  have hbody : confirmPair options r = confirmPair options r' := by
    funext st pair
    unfold confirmPair
    simp only [h.internal, h.cross]
  unfold confirmPairs
  rw [hbody, h.cross]

theorem evaluateNodes_perm (hm : members.Perm members') {threads threads' : List ThreadDemand}
    (ht : threads.Perm threads') (hardware : HardwareGraph) (nodes : List Int) (demand ratio : ℚ)
    (placed : List (List String × List Int)) (names : List String) (cross : OrdMap FamilyPair ℚ) :
    evaluateNodes hardware nodes demand ratio members threads placed names cross =
      evaluateNodes hardware nodes demand ratio members' threads' placed names cross := by
  have hmember : ∀ t : Tid, (members.map (·.identity.tid)).contains t = (members'.map (·.identity.tid)).contains t :=
    fun t => (hm.map _).contains_eq
  unfold evaluateNodes
  simp only [hmember, (hm.filter _).length_eq, ((ht.filter _).map (·.demand)).sum_eq]

theorem chooseNodes_perm (hm : members.Perm members') {threads threads' : List ThreadDemand}
    (ht : threads.Perm threads') (hardware : HardwareGraph) (demand ratio : ℚ) (placed : List (List String × List Int))
    (names : List String) (cross : OrdMap FamilyPair ℚ) :
    chooseNodes hardware demand ratio members threads placed names cross =
      chooseNodes hardware demand ratio members' threads' placed names cross := by
  unfold chooseNodes
  simp only [evaluateNodes_perm hm ht]

theorem holdStep_regrouped (h : Regrouped families families') (options : NumaDomainOptions) (nowNs : Nat)
    (evidence : OrdMap String Nat) : holdStep options nowNs evidence families = holdStep options nowNs evidence families' := by
  funext st committed
  have hm := h.membersOf committed.families
  unfold holdStep holdDomain
  simp only [sort_perm (hm.map (·.identity.tid)), (hm.map (·.demand)).sum_eq, hm.isEmpty_eq]

end Stages

/-! ## The proposal -/

section Propose

variable {i i' : ProposeInput}

theorem metricStage_totals (h : i.SameTotals i') (s : NumaDomainSolver) : metricStage s i = metricStage s i' := by
  unfold metricStage
  rw [familyMetrics_alike (relationStage_totals h) (regrouped_byFamily h.threads), h.options]

theorem pairStage_totals (h : i.SameTotals i') (s : NumaDomainSolver) : pairStage s i = pairStage s i' := by
  unfold pairStage
  rw [confirmPairs_alike (relationStage_totals h), metricStage_totals h, h.options]

theorem addCandidate_totals (h : i.SameTotals i') (s : NumaDomainSolver) (cross : OrdMap FamilyPair ℚ) :
    addCandidate i s (byFamily i.threads) cross = addCandidate i' s (byFamily i'.threads) cross := by
  funext st component
  have hm := (regrouped_byFamily h.threads).membersOf (component.insertionSort (· ≤ ·))
  unfold membersOf at hm
  unfold addCandidate decideNodes
  simp only [← h.hardware, ← h.options, ← h.allowedMasks, ← h.nowNs, sort_perm (hm.map (·.identity.tid)),
    (hm.map (·.demand)).sum_eq, chooseNodes_perm hm h.threads, evaluateNodes_perm hm h.threads, hm.any_eq]

theorem candidateStage_totals (h : i.SameTotals i') (s : NumaDomainSolver) : candidateStage s i = candidateStage s i' := by
  unfold candidateStage candidates
  rw [pairStage_totals h, (relationStage_totals h).cross, addCandidate_totals h]

theorem evidenceStage_totals (h : i.SameTotals i') (s : NumaDomainSolver) : evidenceStage s i = evidenceStage s i' := by
  unfold evidenceStage
  rw [candidateStage_totals h, h.nowNs]

theorem heldStage_totals (h : i.SameTotals i') (s : NumaDomainSolver) : heldStage s i = heldStage s i' := by
  unfold heldStage
  rw [candidateStage_totals h, evidenceStage_totals h, holdStep_regrouped (regrouped_byFamily h.threads), h.options, h.nowNs]

theorem planStage_totals (h : i.SameTotals i') (s : NumaDomainSolver) : planStage s i = planStage s i' := by
  unfold planStage
  rw [heldStage_totals h, byTid_perm h.threads h.distinct, h.allowedMasks]

theorem planReady_totals (h : i.SameTotals i') (s : NumaDomainSolver) :
    planConfirmation s i = planConfirmation s i' ∧ planReady s i = planReady s i' := by
  have hconfirmation : planConfirmation s i = planConfirmation s i' := by
    unfold planConfirmation
    rw [planStage_totals h]
  refine ⟨hconfirmation, ?_⟩
  unfold planReady
  rw [hconfirmation, planStage_totals h, h.options]

theorem proposalOf_totals (h : i.SameTotals i') (s : NumaDomainSolver) : proposalOf s i = proposalOf s i' := by
  have hplanned : ∀ n, planned s i n = planned s i' n := by
    intro n
    unfold planned
    rw [planStage_totals h, h.allowedMasks]
  unfold proposalOf
  rw [pairStage_totals h, planStage_totals h, (planReady_totals h s).1, (planReady_totals h s).2, hplanned, hplanned,
    (relationStage_totals h).cross, (regrouped_byFamily h.threads).size_eq, byTid_perm h.threads h.distinct,
    (h.threads.map _).sum_eq, h.overall, h.options, h.allowedMasks]

theorem propose_totals (h : i.SameTotals i') (s : NumaDomainSolver) : propose s i = propose s i' := by
  unfold propose proposed
  rw [proposalOf_totals h, metricStage_totals h, pairStage_totals h, candidateStage_totals h, evidenceStage_totals h,
    planStage_totals h, (planReady_totals h s).1]

/-- **Only family totals reach a plan.**  In any state, two windows with the same threads and the same totals are proposed the
same, and leave the same solver. -/
theorem propose_of_totals (h : i.SameTotals i') (s : NumaDomainSolver) : propose s i = propose s i' := propose_totals h s

/-- Two threads of "a", the first talking to the one of "b". -/
def spokenByFirst : ProposeInput :=
  { hardware := { cpus := [⟨0, 0, true⟩, ⟨1, 1, true⟩] }
    threads := [⟨⟨1, 1, 0⟩, "a", 1, 1, 0⟩, ⟨⟨1, 2, 0⟩, "a", 1, 1, 0⟩, ⟨⟨1, 3, 0⟩, "b", 1, 1, 1⟩]
    edges := [{ fromTid := 1, toTid := 2, score := 5 }, { fromTid := 1, toTid := 3, score := 2 }]
    nowNs := 7 }

/-- The same, but it is the second that "b" is told by, and "b" is listed first. -/
def spokenBySecond : ProposeInput :=
  { spokenByFirst with
    threads := [⟨⟨1, 3, 0⟩, "b", 1, 1, 1⟩, ⟨⟨1, 1, 0⟩, "a", 1, 1, 0⟩, ⟨⟨1, 2, 0⟩, "a", 1, 1, 0⟩]
    edges := [{ fromTid := 3, toTid := 2, score := 2 }, { fromTid := 2, toTid := 1, score := 5 }] }

theorem sameTotals_spoken : spokenByFirst.SameTotals spokenBySecond where
  hardware := rfl
  threads := by decide
  distinct := by decide
  allowedMasks := rfl
  options := rfl
  nowNs := rfl
  totals f g := by
    have hturned : "b" = f ∧ "a" = g ∨ "b" = g ∧ "a" = f ↔ "a" = f ∧ "b" = g ∨ "a" = g ∧ "b" = f := by tauto
    simp [ProposeInput.total, RelationEdge.Links, spokenByFirst, spokenBySecond, List.filter_cons, hturned]
    split_ifs <;> simp [add_comm]
  joined f g hne := by
    simp [ProposeInput.Joined, RelationEdge.Links, spokenByFirst, spokenBySecond]
    tauto
  overall := by decide +kernel

/-- Whichever of the two speaks, the first window finds the two families and their relation. -/
theorem propose_of_totals_spoken : ∃ p s, propose {} spokenByFirst = .ok (p, s) ∧ propose {} spokenBySecond = .ok (p, s) ∧
    p.totalRelation = 7 ∧ p.inputCrossFamilyPairCount = 1 := by
  have hsome : (propose {} spokenByFirst).toOption.any (fun r =>
      decide (r.1.totalRelation = 7 ∧ r.1.inputCrossFamilyPairCount = 1)) = true := by decide +kernel
  obtain ⟨r, hr, hp⟩ := (Option.any_eq_true _ _).1 hsome
  have hfirst : propose {} spokenByFirst = .ok r := toOption_eq_some hr
  have hsame := propose_of_totals sameTotals_spoken {}
  obtain ⟨htotal, hpairs⟩ := of_decide_eq_true hp
  exact ⟨r.1, r.2, hfirst, hsame.symm.trans hfirst, htotal, hpairs⟩

/-- Two calls that tell the solver the same. -/
inductive SameCall : SolverEvent → SolverEvent → Prop where
  | propose {i i' : ProposeInput} (h : i.SameTotals i') : SameCall (.propose i) (.propose i')
  | same (e : SolverEvent) : SameCall e e

theorem step_of_totals {e e' : SolverEvent} (h : SameCall e e') (s : NumaDomainSolver) : solverStep s e = solverStep s e' := by
  cases h with
  | propose h =>
    rename_i i i'
    show (propose s i).toOption.map Prod.snd = (propose s i').toOption.map Prod.snd
    rw [propose_totals h]
  | same => rfl

/-- **Two runs told the same totals window by window go through the same states**, so they also return and commit the same
proposals. -/
theorem runs_of_totals {run run' : List SolverEvent} (h : List.Forall₂ SameCall run run') (s : NumaDomainSolver) :
    Run.exec solverStep s run = Run.exec solverStep s run' := by
  induction h generalizing s with
  | nil => rfl
  | cons hcall _ ih =>
    unfold Run.exec
    rw [step_of_totals hcall]
    exact congrArg _ (funext ih)

theorem runs_of_totals_spoken :
    Run.exec solverStep {} [.propose spokenByFirst, .commit 8 ∅] = Run.exec solverStep {} [.propose spokenBySecond, .commit 8 ∅] :=
  runs_of_totals (.cons (.propose sameTotals_spoken) (.cons (.same _) .nil)) {}

end Propose

end NumaDomainSolver
end AffinityGraph
