import Mathlib.Logic.Basic
/-!
# Runs of a transition system

A system is a partial step function: `step s e = none` when the event cannot happen in `s`.  `exec` takes a list of
events in order, `Obeys` says that every step taken meets a condition read at the state before it, and `Obeys.invariant`
is the one induction every law about whole runs goes through.
-/

namespace Run

variable {σ : Type*} {ε : Type*}

/-- The state a list of events leads to, when each can happen in its turn. -/
def exec (step : σ → ε → Option σ) : σ → List ε → Option σ
  | s, [] => some s
  | s, e :: es => (step s e).bind (fun s' => exec step s' es)

/-- Every event of the run meets `ok` at the state it happens in. -/
def Obeys (step : σ → ε → Option σ) (ok : σ → ε → Prop) : σ → List ε → Prop
  | _, [] => True
  | s, e :: es => ok s e ∧ ∀ s' ∈ step s e, Obeys step ok s' es

variable {step : σ → ε → Option σ} {ok : σ → ε → Prop}

instance Obeys.decidable [∀ s e, Decidable (ok s e)] : ∀ (es : List ε) (s : σ), Decidable (Obeys step ok s es)
  | [], _ => isTrue trivial
  | e :: es, s =>
    match h : step s e with
    | none => decidable_of_iff (ok s e) (by simp [Obeys, h])
    | some s' =>
      have : Decidable (Obeys step ok s' es) := Obeys.decidable es s'
      decidable_of_iff (ok s e ∧ Obeys step ok s' es) (by simp [Obeys, h])

theorem exec_cons {s s' : σ} {e : ε} {es : List ε} (h : exec step s (e :: es) = some s') :
    ∃ t, step s e = some t ∧ exec step t es = some s' := by
  simpa [exec, Option.bind_eq_some_iff] using h

/-- **An event taken last.** -/
theorem exec_concat {e : ε} {s' : σ} : ∀ {es : List ε} {s : σ}, exec step s (es ++ [e]) = some s' →
    ∃ t, exec step s es = some t ∧ step t e = some s'
  | [], s, h => by
    obtain ⟨t, ht, hs⟩ := exec_cons h
    cases hs
    exact ⟨s, rfl, ht⟩
  | a :: es, s, h => by
    obtain ⟨t, ht, hs⟩ := exec_cons h
    obtain ⟨u, hu, he⟩ := exec_concat hs
    exact ⟨u, by rw [exec, ht]; exact hu, he⟩

theorem exec_snoc {e : ε} {t s' : σ} : ∀ {es : List ε} {s : σ}, exec step s es = some t → step t e = some s' →
    exec step s (es ++ [e]) = some s'
  | [], s, h, he => by
    cases h
    simp [exec, he]
  | a :: es, s, h, he => by
    obtain ⟨u, hu, hrest⟩ := exec_cons h
    rw [List.cons_append, exec, hu]
    exact exec_snoc hrest he

theorem exec_append {t : σ} {es' : List ε} : ∀ {es : List ε} {s : σ}, exec step s es = some t →
    exec step s (es ++ es') = exec step t es'
  | [], s, h => by
    cases h
    rfl
  | e :: es, s, h => by
    obtain ⟨u, hu, hrest⟩ := exec_cons h
    rw [List.cons_append, exec, hu]
    exact exec_append hrest

theorem Obeys.concat {e : ε} : ∀ {es : List ε} {s : σ}, Obeys step ok s (es ++ [e]) →
    Obeys step ok s es ∧ ∀ t, exec step s es = some t → ok t e
  | [], s, h => ⟨trivial, fun t ht => by cases ht; exact h.1⟩
  | a :: es, s, h => by
    refine ⟨⟨h.1, fun s' hs' => (h.2 s' hs').concat.1⟩, fun t ht => ?_⟩
    obtain ⟨u, hu, he⟩ := exec_cons ht
    exact (h.2 u hu).concat.2 t he

theorem Obeys.snoc {e : ε} : ∀ {es : List ε} {s : σ}, Obeys step ok s es → (∀ t, exec step s es = some t → ok t e) →
    Obeys step ok s (es ++ [e])
  | [], s, _, h => ⟨h s rfl, fun _ _ => trivial⟩
  | _ :: es, s, ho, h => by
    refine ⟨ho.1, fun s' hs' => (ho.2 s' hs').snoc (fun t ht => h t ?_)⟩
    rw [exec, show step s _ = some s' from hs']
    exact ht

theorem Obeys.imp {ok' : σ → ε → Prop} (h : ∀ s e, ok s e → ok' s e) :
    ∀ {es : List ε} {s : σ}, Obeys step ok s es → Obeys step ok' s es
  | [], _, _ => trivial
  | _ :: _, _, ho => ⟨h _ _ ho.1, fun s' hs' => (ho.2 s' hs').imp h⟩

theorem Obeys.of_forall (h : ∀ s e, ok s e) : ∀ (es : List ε) (s : σ), Obeys step ok s es
  | [], _ => trivial
  | e :: es, s => ⟨h s e, fun s' _ => of_forall h es s'⟩

theorem Obeys.of_mem {p : ε → Prop} (h : ∀ s e, p e → ok s e) : ∀ {es : List ε} (s : σ), (∀ e ∈ es, p e) → Obeys step ok s es
  | [], _, _ => trivial
  | e :: _, s, hp =>
    ⟨h s e (hp e List.mem_cons_self), fun s' _ => of_mem h s' (fun x hx => hp x (List.mem_cons_of_mem _ hx))⟩

/-- **What every step keeps, a run keeps.** -/
theorem Obeys.invariant (Inv : σ → Prop)
    (hstep : ∀ s e s', Inv s → ok s e → step s e = some s' → Inv s') :
    ∀ {es : List ε} {s s' : σ}, Obeys step ok s es → Inv s → exec step s es = some s' → Inv s'
  | [], _, _, _, hi, h => by cases h; exact hi
  | _ :: _, _, _, ho, hi, h => by
    obtain ⟨t, ht, hs⟩ := exec_cons h
    exact (ho.2 t ht).invariant Inv hstep (hstep _ _ _ hi ho.1 ht) hs

/-- What every step keeps, whatever the events. -/
theorem exec_keeps (Inv : σ → Prop) (hstep : ∀ s e s', Inv s → step s e = some s' → Inv s') :
    ∀ {es : List ε} {s s' : σ}, Inv s → exec step s es = some s' → Inv s'
  | [], _, _, hi, h => by cases h; exact hi
  | _ :: _, _, _, hi, h => by
    obtain ⟨t, ht, hs⟩ := exec_cons h
    exact exec_keeps Inv hstep (hstep _ _ _ hi ht) hs

end Run

/-! ## Loops that handle each key once -/

namespace Loop

variable {σ : Type*} {ι : Type*} {κ : Type*} {β : Type*}

/-- A loop body that changes what is seen of the state only at its item's key. -/
def Local (proj : σ → κ → β) (key : ι → κ) (body : σ → ι → σ) : Prop :=
  ∀ s i u, key i ≠ u → proj (body s i) u = proj s u

variable {proj : σ → κ → β} {key : ι → κ} {body : σ → ι → σ}

/-- A key no item has is left alone. -/
theorem Local.foldl_notMem (h : Local proj key body) {u : κ} :
    ∀ {l : List ι} {s : σ}, (∀ i ∈ l, key i ≠ u) → proj (l.foldl body s) u = proj s u
  | [], _, _ => rfl
  | i :: l, s, hl => by
    rw [List.foldl_cons, h.foldl_notMem (fun j hj => hl j (List.mem_cons_of_mem _ hj))]
    exact h s i u (hl i List.mem_cons_self)

/-- **A key is decided by its own item**: the body runs on it once, from a state that still shows what the loop began
with, and nothing after that changes it. -/
theorem Local.foldl_at (h : Local proj key body) {i : ι} :
    ∀ {l : List ι}, (l.map key).Nodup → i ∈ l → ∀ (s : σ),
      ∃ pre post, l = pre ++ i :: post ∧ proj (pre.foldl body s) (key i) = proj s (key i) ∧
        proj (l.foldl body s) (key i) = proj (body (pre.foldl body s) i) (key i)
  | j :: l, hn, hi, s => by
    rw [List.map_cons, List.nodup_cons] at hn
    by_cases hij : i = j
    · subst hij
      refine ⟨[], l, rfl, rfl, ?_⟩
      rw [List.foldl_cons, List.foldl_nil]
      refine h.foldl_notMem (fun x hx hk => hn.1 ?_)
      rw [← hk]
      exact List.mem_map_of_mem hx
    · have hil : i ∈ l := (List.mem_cons.1 hi).resolve_left hij
      have hk : key j ≠ key i := by
        intro e
        rw [e] at hn
        exact hn.1 (List.mem_map_of_mem hil)
      obtain ⟨pre, post, rfl, h1, h2⟩ := h.foldl_at hn.2 hil (body s j)
      exact ⟨j :: pre, post, rfl, h1.trans (h s j _ hk), h2⟩

/-- What the body keeps, the loop keeps. -/
theorem foldl_keeps (Inv : σ → Prop) (h : ∀ s i, Inv s → Inv (body s i)) :
    ∀ (l : List ι) {s : σ}, Inv s → Inv (l.foldl body s)
  | [], _, hs => hs
  | i :: l, s, hs => foldl_keeps Inv h l (h s i hs)

/-- What the body makes true at one item, and keeps, is true after the loop. -/
theorem foldl_reaches (P : σ → Prop) (hkeep : ∀ s i, P s → P (body s i)) {i : ι} (hput : ∀ s, P (body s i)) {l : List ι}
    (hi : i ∈ l) (s : σ) : P (l.foldl body s) := by
  obtain ⟨pre, post, rfl⟩ := List.append_of_mem hi
  rw [List.foldl_append, List.foldl_cons]
  exact foldl_keeps P hkeep post (hput _)

/-- What the body makes of the items so far, the loop makes of all. -/
theorem foldl_so_far (Inv : List ι → σ → Prop) (h : ∀ done s i, Inv done s → Inv (done ++ [i]) (body s i)) :
    ∀ (l done : List ι) {s : σ}, Inv done s → Inv (done ++ l) (l.foldl body s)
  | [], done, s, hs => by
    rw [List.append_nil]
    exact hs
  | i :: l, done, s, hs => by
    have hrest := foldl_so_far Inv h l (done ++ [i]) (h done s i hs)
    rw [List.append_assoc] at hrest
    exact hrest

end Loop
