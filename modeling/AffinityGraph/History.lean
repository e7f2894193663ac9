import AffinityGraph.Run
import Mathlib.Algebra.Group.Defs
import Mathlib.Data.List.Induction
/-!
# History — what the end of a run says about its events

Two readings of a run.  A quantity that each event changes by its own amount ends as the sum of them (`exec_total`).  A
value that each event sets, clears or leaves alone is at the end what the last event to touch it made of it
(`exec_last_touch`).
-/

namespace Run

variable {σ : Type*} {ε : Type*} {step : σ → ε → Option σ}

/-! ## Sums -/

section Total

variable {μ : Type*} [AddMonoid μ]

/-- The amounts of a run's events, each read at the state it happens in. -/
def total (step : σ → ε → Option σ) (amount : σ → ε → μ) : σ → List ε → μ
  | _, [] => 0
  | s, e :: es => amount s e + (step s e).elim 0 (fun s' => total step amount s' es)

theorem exec_total (measure : σ → μ) {amount : σ → ε → μ}
    (hstep : ∀ s e s', step s e = some s' → measure s' = measure s + amount s e) :
    ∀ {es : List ε} {s s' : σ}, exec step s es = some s' → measure s' = measure s + total step amount s es
  | [], s, s', h => by
    cases h
    exact (add_zero _).symm
  | e :: es, s, s', h => by
    obtain ⟨t, ht, hrest⟩ := exec_cons h
    have hlast := exec_total measure hstep hrest
    rw [hstep s e t ht] at hlast
    rw [hlast, total, ht, add_assoc]
    rfl

/-- Amounts that are all zero add up to none. -/
theorem Obeys.total_eq_zero {ok : σ → ε → Prop} {amount : σ → ε → μ} (h : ∀ s e, ok s e → amount s e = 0) :
    ∀ {es : List ε} {s : σ}, Obeys step ok s es → total step amount s es = 0
  | [], _, _ => rfl
  | e :: es, s, ho => by
    rw [total, h s e ho.1, zero_add]
    cases ht : step s e with
    | none => rfl
    | some t => exact (ho.2 t ht).total_eq_zero h

end Total

/-! ## The last touch -/

section Touch

variable {ν : Type*} {touch : σ → ε → Option (Option ν)}

/-- The event `e` at the place `pre` of a run touched the value last, and made it `o`. -/
structure LastTouch (step : σ → ε → Option σ) (touch : σ → ε → Option (Option ν)) (s : σ) (pre : List ε) (e : ε)
    (post : List ε) (o : Option ν) : Prop where
  reached : ∃ t, exec step s pre = some t ∧ touch t e = some o
  /-- nothing after it touches the value -/
  last : ∀ mid x rest t, post = mid ++ x :: rest → exec step s (pre ++ e :: mid) = some t → touch t x = none

theorem LastTouch.snoc {s : σ} {pre post : List ε} {e x : ε} {o : Option ν} (h : LastTouch step touch s pre e post o)
    (hx : ∀ t, exec step s (pre ++ e :: post) = some t → touch t x = none) :
    LastTouch step touch s pre e (post ++ [x]) o := by
  refine ⟨h.reached, fun mid y rest t hsplit hexec => ?_⟩
  cases rest using List.reverseRecOn with
  | nil =>
    have hsingle : post ++ [x] = mid ++ [y] := hsplit
    obtain ⟨hmid, hy⟩ := List.append_inj' hsingle rfl
    cases hy
    subst hmid
    exact hx t hexec
  | append_singleton rest z _ =>
    have hassoc : post ++ [x] = (mid ++ y :: rest) ++ [z] := by rw [hsplit]; simp
    obtain ⟨hmid, -⟩ := List.append_inj' hassoc rfl
    exact h.last mid y rest t hmid hexec

/-- **The last touch.**  A value that a new state does not have was set by some event of the run, and not touched again. -/
theorem exec_last_touch (read : σ → Option ν)
    (hstep : ∀ s e s', step s e = some s' → read s' = (touch s e).getD (read s)) {s : σ}
    (hs : read s = none) {v : ν} : ∀ {es : List ε} {s' : σ}, exec step s es = some s' → read s' = some v →
      ∃ pre e post, es = pre ++ e :: post ∧ LastTouch step touch s pre e post (some v) := by
  intro es
  induction es using List.reverseRecOn with
  | nil =>
    intro s' h hv
    cases h
    rw [hs] at hv
    cases hv
  | append_singleton es x ih =>
    intro s' h hv
    obtain ⟨t, ht, hx⟩ := exec_concat h
    have hread := hstep t x s' hx
    cases htouch : touch t x with
    | some o =>
      rw [htouch, Option.getD_some, hv] at hread
      refine ⟨es, x, [], rfl, ⟨t, ht, ?_⟩, fun mid y rest u hsplit => ?_⟩
      · rw [htouch, hread]
      · cases mid <;> cases hsplit
    | none =>
      rw [htouch, Option.getD_none, hv] at hread
      obtain ⟨pre, e, post, rfl, hlast⟩ := ih ht hread.symm
      refine ⟨pre, e, post ++ [x], by simp, hlast.snoc (fun u hu => ?_)⟩
      rw [ht] at hu
      cases hu
      exact htouch

end Touch

end Run
