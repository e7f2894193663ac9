import AffinityGraph.Actuator
/-!
# ActuatorRestore — what `restore` and `restore_all` do, thread by thread

Both loops write a thread at most once, with the restore mask it had when the call began: `restore_effect` and
`restoreAll_effect` say where that leaves it, `restore_calls` and `restoreAll_calls` list the writes themselves.  A
failed write is counted, so `failed = 0` rules it out.
-/
namespace AffinityGraph
namespace Actuator

variable {κ : Type} {b : AffinityBackend κ} (V : MaskView b)

/-! ## The loop bodies -/

/-- What the restores read and write of one thread: its mask, its restore mask, its mark. -/
def restoreSlot (st : RestoreState κ) (u : Tid) : Option Mask × Option Mask × Prop :=
  (V.view st.backend u, st.actuator.restoreMasks.find? u, u ∈ st.actuator.actedTids)

theorem restoreSlot_ext {st st' : RestoreState κ} {u : Tid} (h1 : V.view st'.backend u = V.view st.backend u)
    (h2 : st'.actuator.restoreMasks.find? u = st.actuator.restoreMasks.find? u)
    (h3 : u ∈ st'.actuator.actedTids ↔ u ∈ st.actuator.actedTids) : restoreSlot V st' u = restoreSlot V st u := by
  unfold restoreSlot
  rw [h1, h2, propext h3]

theorem failed_le_countRestored (r : RestoreResult) (e : Option Errno) : r.failed ≤ (countRestored r e).failed := by
  unfold countRestored
  split
  · exact le_rfl
  · exact le_rfl
  · exact Nat.le_succ _

theorem failed_countRestored {r : RestoreResult} {e : Errno} (h : e ≠ .esrch) :
    0 < (countRestored r (some e)).failed := by
  cases e with
  | esrch => exact absurd rfl h
  | eio => exact Nat.succ_pos _
  | einval => exact Nat.succ_pos _
  | other c => exact Nat.succ_pos _

/-- **Everything the body of `restore` can do.** -/
theorem restoreStep_cases (st : RestoreState κ) (t : Tid) :
    let w := b.set st.backend t (st.actuator.restoreMaskOf t)
    let st' := restoreStep b st t
    st.result.failed ≤ st'.result.failed ∧
    ((t ∉ st.actuator.actedTids ∧ st' = st) ∨
      (t ∈ st.actuator.actedTids ∧ st'.backend = w.1 ∧
        (((w.2 = none ∨ w.2 = some .esrch) ∧ st'.actuator = st.actuator.forget t) ∨
          (st'.actuator = st.actuator ∧ 0 < st'.result.failed)))) := by
  simp only
  unfold restoreStep
  by_cases ha : t ∈ st.actuator.actedTids
  · simp only [ha, if_true]
    have hle := failed_le_countRestored { st.result with requested := st.result.requested + 1 }
      (b.set st.backend t (st.actuator.restoreMaskOf t)).2
    cases hw : (b.set st.backend t (st.actuator.restoreMaskOf t)).2 with
    | none =>
      rw [hw] at hle
      exact ⟨hle, Or.inr ⟨trivial, rfl, Or.inl ⟨Or.inl rfl, rfl⟩⟩⟩
    | some e =>
      rw [hw] at hle
      by_cases he : e = .esrch
      · subst he
        exact ⟨hle, Or.inr ⟨trivial, rfl, Or.inl ⟨Or.inr rfl, rfl⟩⟩⟩
      · have hpos := failed_countRestored (r := { st.result with requested := st.result.requested + 1 }) he
        cases e with
        | esrch => exact absurd rfl he
        | eio => exact ⟨hle, Or.inr ⟨trivial, rfl, Or.inr ⟨rfl, hpos⟩⟩⟩
        | einval => exact ⟨hle, Or.inr ⟨trivial, rfl, Or.inr ⟨rfl, hpos⟩⟩⟩
        | other c => exact ⟨hle, Or.inr ⟨trivial, rfl, Or.inr ⟨rfl, hpos⟩⟩⟩
  · simp only [ha, if_false]
    exact ⟨le_rfl, Or.inl ⟨not_false, trivial⟩⟩

theorem restoreStep_local : Loop.Local (restoreSlot V) id (restoreStep b) := by
  intro st t u hne
  have hne' : t ≠ u := hne
  obtain ⟨-, ⟨-, h⟩ | ⟨-, hb, hcase⟩⟩ := restoreStep_cases (b := b) st t
  · rw [h]
  · have h1 : V.view (restoreStep b st t).backend u = V.view st.backend u := by
      rw [hb]; exact V.set_other _ _ _ _ hne'
    rcases hcase with ⟨-, ha⟩ | ⟨ha, -⟩
    · refine restoreSlot_ext V h1 ?_ ?_
      · rw [ha]; exact OrdMap.find?_erase_ne _ hne'
      · rw [ha]; exact OrdMap.mem_erase.trans (and_iff_right hne')
    · exact restoreSlot_ext V h1 (by rw [ha]) (by rw [ha])

theorem foldl_restoreStep_failed (l : List Tid) (st : RestoreState κ) :
    st.result.failed ≤ (l.foldl (restoreStep b) st).result.failed :=
  Loop.foldl_keeps (fun s : RestoreState κ => st.result.failed ≤ s.result.failed)
    (fun s t hs => hs.trans (restoreStep_cases s t).1) l le_rfl

theorem restoreAllStep_local : Loop.Local (restoreSlot V) id (restoreAllStep b) := by
  intro st t u hne
  exact restoreSlot_ext V (V.set_other _ _ _ _ hne) rfl Iff.rfl

theorem foldl_restoreAllStep_actuator (l : List Tid) (st : RestoreState κ) :
    (l.foldl (restoreAllStep b) st).actuator = st.actuator := by
  refine Loop.foldl_keeps (fun s : RestoreState κ => s.actuator = st.actuator) ?_ l rfl
  intro s t hs
  exact hs

theorem foldl_restoreAllStep_failed (l : List Tid) (st : RestoreState κ) :
    st.result.failed ≤ (l.foldl (restoreAllStep b) st).result.failed :=
  Loop.foldl_keeps (fun s : RestoreState κ => st.result.failed ≤ s.result.failed)
    (fun s t hs => hs.trans (failed_le_countRestored s.result (b.set s.backend t (s.actuator.restoreMaskOf t)).2)) l le_rfl

/-! ## A restore, told thread by thread -/

/-- What one `restore` did to one thread. -/
inductive RestoreEffect (k : κ) (a : Actuator) (tids : OrdSet Tid) (st : RestoreState κ) (u : Tid) : Prop
  | untouched (why : ¬ (u ∈ tids ∧ u ∈ a.actedTids)) (mask : V.view st.backend u = V.view k u)
      (restoreMask : st.actuator.restoreMasks.find? u = a.restoreMasks.find? u)
      (acted : u ∈ st.actuator.actedTids ↔ u ∈ a.actedTids)
  | written (asked : u ∈ tids) (wasActed : u ∈ a.actedTids)
      (mask : V.view st.backend u = some (a.restoreMaskOf u) ∨ V.view st.backend u = none)
      (restoreMask : st.actuator.restoreMasks.find? u = none) (acted : u ∉ st.actuator.actedTids)
  | failed (asked : u ∈ tids) (wasActed : u ∈ a.actedTids)
      (restoreMask : st.actuator.restoreMasks.find? u = a.restoreMasks.find? u)
      (acted : u ∈ st.actuator.actedTids) (told : 0 < st.result.failed)

/-- **A restore, told thread by thread.** -/
theorem restore_effect (k : κ) (a : Actuator) (tids : OrdSet Tid) (u : Tid) :
    RestoreEffect V k a tids (restore b k a tids) u := by
  unfold restore
  by_cases hu : u ∈ tids
  · obtain ⟨pre, post, hl, h1, h2⟩ := (restoreStep_local V).foldl_at (i := u)
      (by rw [List.map_id]; exact OrdMap.nodup_keys tids) (OrdSet.mem_toList.2 hu) ⟨k, a, {}⟩
    have hfail := foldl_restoreStep_failed (b := b) post (restoreStep b (pre.foldl (restoreStep b) ⟨k, a, {}⟩) u)
    have hrest : post.foldl (restoreStep b) (restoreStep b (pre.foldl (restoreStep b) ⟨k, a, {}⟩) u) =
        tids.toList.foldl (restoreStep b) ⟨k, a, {}⟩ := by
      conv_rhs => rw [hl, List.foldl_append, List.foldl_cons]
    rw [hrest] at hfail
    generalize pre.foldl (restoreStep b) ⟨k, a, {}⟩ = st₁ at h1 h2 hfail
    generalize tids.toList.foldl (restoreStep b) ⟨k, a, {}⟩ = st at h2 hfail ⊢
    have hmask : V.view st₁.backend u = V.view k u := congrArg Prod.fst h1
    have hrm : st₁.actuator.restoreMasks.find? u = a.restoreMasks.find? u := congrArg (·.2.1) h1
    have hact : u ∈ st₁.actuator.actedTids ↔ u ∈ a.actedTids := iff_of_eq (congrArg (·.2.2) h1)
    have e1 : V.view st.backend u = V.view (restoreStep b st₁ u).backend u := congrArg Prod.fst h2
    have e2 : st.actuator.restoreMasks.find? u = (restoreStep b st₁ u).actuator.restoreMasks.find? u :=
      congrArg (·.2.1) h2
    have e3 : u ∈ st.actuator.actedTids ↔ u ∈ (restoreStep b st₁ u).actuator.actedTids :=
      iff_of_eq (congrArg (·.2.2) h2)
    have hof : st₁.actuator.restoreMaskOf u = a.restoreMaskOf u := by
      unfold restoreMaskOf OrdMap.getD
      rw [hrm]
    obtain ⟨-, ⟨hna, h⟩ | ⟨ha, hb, hcase⟩⟩ := restoreStep_cases (b := b) st₁ u
    · rw [h] at e1 e2 e3
      exact .untouched (fun hh => hna (hact.2 hh.2)) (e1.trans hmask) (e2.trans hrm) (e3.trans hact)
    · rw [hof] at hb hcase
      rcases hcase with ⟨hw, hf⟩ | ⟨hf, hpos⟩
      · refine .written hu (hact.1 ha) ?_ ?_ ?_
        · rw [e1, hb]
          rcases hw with hw | hw
          · exact Or.inl (V.set_ok _ _ _ hw)
          · exact Or.inr (V.set_esrch _ _ _ hw)
        · rw [e2, hf]; exact OrdMap.find?_erase_self _ _
        · rw [e3, hf]
          exact fun h => (OrdMap.mem_erase.1 h).1 rfl
      · refine .failed hu (hact.1 ha) ?_ ?_ (hpos.trans_le hfail)
        · rw [e2, hf]; exact hrm
        · rw [e3, hf]; exact ha
  · have h := (restoreStep_local V).foldl_notMem (u := u) (l := tids.toList) (s := ⟨k, a, {}⟩)
      (fun t ht e => hu (OrdSet.mem_toList.1 (e ▸ ht)))
    exact .untouched (fun hh => hu hh.1) (congrArg Prod.fst h) (congrArg (·.2.1) h) (iff_of_eq (congrArg (·.2.2) h))

/-- **A full restore, told thread by thread**: an acted thread has its restore mask, or has exited, or the failure is
counted; no other thread is written; and nothing is remembered. -/
theorem restoreAll_effect (k : κ) (a : Actuator) (u : Tid) :
    (restoreAll b k a).actuator = {} ∧
    (u ∉ a.actedTids → V.view (restoreAll b k a).backend u = V.view k u) ∧
    (u ∈ a.actedTids → V.view (restoreAll b k a).backend u = some (a.restoreMaskOf u) ∨
      V.view (restoreAll b k a).backend u = none ∨ 0 < (restoreAll b k a).result.failed) := by
  refine ⟨rfl, fun hu => ?_, fun hu => ?_⟩
  · exact congrArg Prod.fst ((restoreAllStep_local V).foldl_notMem (u := u) (l := a.actedTids.toList)
      (s := ⟨k, a, { requested := a.actedTids.size }⟩) (fun t ht e => hu (OrdSet.mem_toList.1 (e ▸ ht))))
  · unfold restoreAll
    simp only
    obtain ⟨pre, post, hl, -, h2⟩ := (restoreAllStep_local V).foldl_at (i := u)
      (by rw [List.map_id]; exact OrdMap.nodup_keys a.actedTids) (OrdSet.mem_toList.2 hu)
      ⟨k, a, { requested := a.actedTids.size }⟩
    have hsame : _ = a := foldl_restoreAllStep_actuator (b := b) pre ⟨k, a, { requested := a.actedTids.size }⟩
    have hfail := foldl_restoreAllStep_failed (b := b) post
      (restoreAllStep b (pre.foldl (restoreAllStep b) ⟨k, a, { requested := a.actedTids.size }⟩) u)
    have hrest : post.foldl (restoreAllStep b)
        (restoreAllStep b (pre.foldl (restoreAllStep b) ⟨k, a, { requested := a.actedTids.size }⟩) u) =
        a.actedTids.toList.foldl (restoreAllStep b) ⟨k, a, { requested := a.actedTids.size }⟩ := by
      conv_rhs => rw [hl, List.foldl_append, List.foldl_cons]
    rw [hrest] at hfail
    generalize pre.foldl (restoreAllStep b) ⟨k, a, { requested := a.actedTids.size }⟩ = st₁ at h2 hsame hfail
    have e1 := congrArg Prod.fst h2
    simp only [restoreSlot, id, restoreAllStep, hsame] at e1
    rw [e1]
    cases hw : (b.set st₁.backend u (a.restoreMaskOf u)).2 with
    | none =>
      exact Or.inl (V.set_ok _ _ _ hw)
    | some e =>
      refine Or.inr ?_
      by_cases he : e = .esrch
      · rw [he] at hw
        exact Or.inl (V.set_esrch _ _ _ hw)
      · refine Or.inr (lt_of_lt_of_le ?_ hfail)
        unfold restoreAllStep
        simp only [hsame, hw]
        exact failed_countRestored he

/-! ## What every write keeps, every call keeps -/

section Keeps

variable {P : κ → Prop} (hset : ∀ k t m, P k → P (b.set k t m).1)

include hset

theorem applyStep_keeps (live : OrdSet Tid) (st : ApplyState κ) (item : Tid × Mask) (h : P st.backend) :
    P (applyStep b live st item).backend := by
  have hwrite : P (writeMask b st.backend item.1 item.2).1 := by
    unfold writeMask
    split
    · exact h
    · exact hset _ _ _ h
  rcases applyStep_cases live st item.1 item.2 with ⟨-, he⟩ | ⟨-, -, he⟩ | ⟨-, -, st', hb, -, -, -, he, -⟩
  · rw [he]; exact h
  · rw [he]; exact h
  · rw [he, hb]; exact hwrite

theorem rollBackStep_keeps (st : ApplyState κ) (t : Tid) (h : P st.backend) : P (rollBackStep b st t).backend := by
  unfold rollBackStep
  dsimp only
  split <;> exact hset _ _ _ h

theorem applyRun_keeps (k : κ) (a : Actuator) (assignments : OrdMap Tid Mask) (live : OrdSet Tid) (h : P k) :
    P (applyRun b k a assignments live).backend := by
  have hloop := Loop.foldl_keeps (fun s : ApplyState κ => P s.backend) (applyStep_keeps hset live) assignments.entries
    (s := { backend := k, actuator := a, result := { requested := assignments.size } }) h
  unfold applyRun
  dsimp only
  split
  · exact Loop.foldl_keeps (fun s : ApplyState κ => P s.backend) (rollBackStep_keeps hset) _ hloop
  · exact hloop

theorem restore_keeps (k : κ) (a : Actuator) (tids : OrdSet Tid) (h : P k) : P (restore b k a tids).backend := by
  refine Loop.foldl_keeps (fun s : RestoreState κ => P s.backend) (fun s t hs => ?_) _ h
  obtain ⟨-, ⟨-, he⟩ | ⟨-, hb, -⟩⟩ := restoreStep_cases (b := b) s t
  · rw [he]; exact hs
  · rw [hb]; exact hset _ _ _ hs

theorem restoreAll_keeps (k : κ) (a : Actuator) (h : P k) : P (restoreAll b k a).backend :=
  Loop.foldl_keeps (fun s : RestoreState κ => P s.backend) (fun _ _ hs => hset _ _ _ hs) _ h

end Keeps

/-! ## The writes themselves -/

/-- A backend that also keeps the list of the `set` calls made, in order. -/
def logged (b : AffinityBackend κ) : AffinityBackend (κ × List (Tid × Mask)) where
  get s t := b.get s.1 t
  set s t m := (((b.set s.1 t m).1, s.2 ++ [(t, m)]), (b.set s.1 t m).2)

/-- The loop of `restore` under the log: the same results, and one call for each acted TID of the list. -/
theorem foldl_restoreStep_logged : ∀ (l : List Tid), l.Nodup → ∀ (k : κ) (a : Actuator) (r : RestoreResult)
    (w : List (Tid × Mask)),
    l.foldl (restoreStep (logged b)) ⟨(k, w), a, r⟩ =
      ⟨((l.foldl (restoreStep b) ⟨k, a, r⟩).backend,
          w ++ (l.filter (fun t => decide (t ∈ a.actedTids))).map (fun t => (t, a.restoreMaskOf t))),
        (l.foldl (restoreStep b) ⟨k, a, r⟩).actuator, (l.foldl (restoreStep b) ⟨k, a, r⟩).result⟩
  | [], _, k, a, r, w => by simp
  | t :: l, hn, k, a, r, w => by
    rw [List.nodup_cons] at hn
    simp only [List.foldl_cons]
    by_cases ha : t ∈ a.actedTids
    · obtain ⟨k', a', r', hstep, hlog, hactor⟩ : ∃ k' a' r', restoreStep b ⟨k, a, r⟩ t = ⟨k', a', r'⟩ ∧
          restoreStep (logged b) ⟨(k, w), a, r⟩ t = ⟨(k', w ++ [(t, a.restoreMaskOf t)]), a', r'⟩ ∧
          ∀ u, u ≠ t → (u ∈ a'.actedTids ↔ u ∈ a.actedTids) ∧ a'.restoreMaskOf u = a.restoreMaskOf u := by
        have hforget : ∀ u, u ≠ t → (u ∈ (a.forget t).actedTids ↔ u ∈ a.actedTids) ∧
            (a.forget t).restoreMaskOf u = a.restoreMaskOf u := by
          intro u hu
          refine ⟨OrdMap.mem_erase.trans (and_iff_right (Ne.symm hu)), ?_⟩
          unfold restoreMaskOf OrdMap.getD forget
          rw [OrdMap.find?_erase_ne _ (Ne.symm hu)]
        unfold restoreStep
        simp only [ha, if_true, logged]
        cases (b.set k t (a.restoreMaskOf t)).2 with
        | none => exact ⟨_, _, _, rfl, rfl, hforget⟩
        | some e =>
          cases e with
          | esrch => exact ⟨_, _, _, rfl, rfl, hforget⟩
          | eio => exact ⟨_, _, _, rfl, rfl, fun u _ => ⟨Iff.rfl, rfl⟩⟩
          | einval => exact ⟨_, _, _, rfl, rfl, fun u _ => ⟨Iff.rfl, rfl⟩⟩
          | other c => exact ⟨_, _, _, rfl, rfl, fun u _ => ⟨Iff.rfl, rfl⟩⟩
      have hkeep : l.filter (fun u => decide (u ∈ a'.actedTids)) = l.filter (fun u => decide (u ∈ a.actedTids)) :=
        List.filter_congr (fun u hu => decide_eq_decide.2 (hactor u (fun e => hn.1 (e ▸ hu))).1)
      have hmasks : (l.filter (fun u => decide (u ∈ a.actedTids))).map (fun u => (u, a'.restoreMaskOf u)) =
          (l.filter (fun u => decide (u ∈ a.actedTids))).map (fun u => (u, a.restoreMaskOf u)) := by
        refine List.map_congr_left (fun u hu => ?_)
        rw [(hactor u (fun e => hn.1 (e ▸ List.mem_of_mem_filter hu))).2]
      rw [hstep, hlog, foldl_restoreStep_logged l hn.2 k' a' r', hkeep, hmasks,
        List.filter_cons_of_pos (by simpa using ha), List.map_cons, List.append_assoc, List.singleton_append]
    · have hstep : restoreStep b ⟨k, a, r⟩ t = ⟨k, a, r⟩ := by unfold restoreStep; rw [if_neg ha]
      have hlog : restoreStep (logged b) ⟨(k, w), a, r⟩ t = ⟨(k, w), a, r⟩ := by unfold restoreStep; rw [if_neg ha]
      rw [hstep, hlog, foldl_restoreStep_logged l hn.2 k a r w, List.filter_cons_of_neg (by simpa using ha)]

/-- **The writes of a restore** are one for each acted TID asked for, with the restore mask it had at the call. -/
theorem restore_calls (k : κ) (a : Actuator) (tids : OrdSet Tid) {t : Tid} {m : Mask} :
    (t, m) ∈ (restore (logged b) (k, []) a tids).backend.2 ↔ t ∈ tids ∧ t ∈ a.actedTids ∧ m = a.restoreMaskOf t := by
  unfold restore
  rw [foldl_restoreStep_logged tids.toList (OrdMap.nodup_keys tids)]
  simp only [List.nil_append, List.mem_map, List.mem_filter, decide_eq_true_eq, OrdSet.mem_toList, Prod.mk.injEq]
  refine ⟨fun ⟨u, ⟨hu, ha⟩, e, hm⟩ => ?_, fun ⟨hu, ha, hm⟩ => ⟨t, ⟨hu, ha⟩, rfl, hm.symm⟩⟩
  subst e
  exact ⟨hu, ha, hm.symm⟩

theorem foldl_restoreAllStep_logged : ∀ (l : List Tid) (k : κ) (a : Actuator) (r : RestoreResult)
    (w : List (Tid × Mask)),
    (l.foldl (restoreAllStep (logged b)) ⟨(k, w), a, r⟩).backend.2 = w ++ l.map (fun t => (t, a.restoreMaskOf t))
  | [], k, a, r, w => by simp
  | t :: l, k, a, r, w => by
    rw [List.foldl_cons]
    have := foldl_restoreAllStep_logged l (b.set k t (a.restoreMaskOf t)).1 a
      (countRestored r (b.set k t (a.restoreMaskOf t)).2) (w ++ [(t, a.restoreMaskOf t)])
    simpa [restoreAllStep, logged] using this

theorem restoreAll_calls (k : κ) (a : Actuator) {t : Tid} {m : Mask} :
    (t, m) ∈ (restoreAll (logged b) (k, []) a).backend.2 ↔ t ∈ a.actedTids ∧ m = a.restoreMaskOf t := by
  unfold restoreAll
  simp only
  rw [foldl_restoreAllStep_logged, List.nil_append, List.mem_map]
  simp only [OrdSet.mem_toList, Prod.mk.injEq]
  refine ⟨fun ⟨u, ha, e, hm⟩ => ?_, fun ⟨ha, hm⟩ => ⟨t, ha, rfl, hm.symm⟩⟩
  subst e
  exact ⟨ha, hm.symm⟩

end Actuator
end AffinityGraph
