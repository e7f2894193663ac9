import AffinityGraph.Supervisor
/-!
# ProfileMatch — what one sampling makes of the profile, thread by thread

The loop handles every sampled thread once, so what it gathers is decided by each sample alone: the mask of a new match
(`matchSamples_masks`) and the assignment kept of it (`matchSamples_assigned`).
-/
namespace AffinityGraph
namespace Supervisor

/-- The mask a sample asks for: its first matching rule's, when its identity has no assignment yet and the CPUs meet. -/
def newTarget (s : Supervisor) (sample : ThreadSample) : Option Mask :=
  if sample.identity ∈ s.books.assignments then none else
  (s.threadProfile.bind (·.ruleFor sample)).bind (fun rule =>
    if setIntersection rule.cpus sample.allowedCpus = [] then none
    else some (setIntersection rule.cpus sample.allowedCpus))

/-- What the loop reads and writes of one TID. -/
def matchSlot (m : Matching) (u : Tid) : Option Mask × Prop × (Int → Nat → Option ProfileAssignment) :=
  (m.masks.find? u, u ∈ m.live, fun tgid starttime => m.books.assignments.find? ⟨tgid, u, starttime⟩)

/-- **Everything the profile's part of the loop body can do.** -/
theorem matchSample_cases (profile : ThreadProfile) (m : Matching) (x : ThreadSample) :
    (x.identity ∈ m.books.assignments ∧ matchSample profile m x = m) ∨
    (x.identity ∉ m.books.assignments ∧ profile.ruleFor x = none ∧ matchSample profile m x = m) ∨
    (x.identity ∉ m.books.assignments ∧ ∃ rule, profile.ruleFor x = some rule ∧
      (matchSample profile m x).books = (m.books.assign rule x.identity).2 ∧
      ((setIntersection rule.cpus x.allowedCpus = [] ∧ (matchSample profile m x).masks = m.masks ∧
          (matchSample profile m x).live = m.live) ∨
        (setIntersection rule.cpus x.allowedCpus ≠ [] ∧
          (matchSample profile m x).masks =
            m.masks.insert x.identity.tid (setIntersection rule.cpus x.allowedCpus) ∧
          (matchSample profile m x).live = m.live.add x.identity.tid))) := by
  unfold matchSample profileAssignment
  cases hf : m.books.assignments.find? x.identity with
  | some a =>
    have hin : x.identity ∈ m.books.assignments := OrdMap.mem_of_find hf
    exact Or.inl ⟨hin, by simp [hin]⟩
  | none =>
    have hin : x.identity ∉ m.books.assignments := OrdMap.notMem_iff.2 hf
    refine Or.inr ?_
    cases hr : profile.ruleFor x with
    | none => exact Or.inl ⟨hin, rfl, rfl⟩
    | some rule =>
      refine Or.inr ⟨hin, rule, rfl, ?_⟩
      have htarget : (m.books.assign rule x.identity).1.targetCpus = rule.cpus := rfl
      by_cases ht : setIntersection rule.cpus x.allowedCpus = []
      · simp [hin, htarget, ht]
      · simp [hin, htarget, ht]

theorem matchSample_local (profile : ThreadProfile) :
    Loop.Local matchSlot (fun x : ThreadSample => x.identity.tid) (matchSample profile) := by
  intro m x u hu
  have hne : x.identity.tid ≠ u := hu
  have hassign : ∀ rule : ThreadProfileRule, ∀ tgid starttime,
      (m.books.assign rule x.identity).2.assignments.find? ⟨tgid, u, starttime⟩ =
        m.books.assignments.find? ⟨tgid, u, starttime⟩ := by
    intro rule tgid starttime
    refine OrdMap.find?_insert_ne _ _ (fun e => hne ?_)
    rw [e]
  unfold matchSlot
  rcases matchSample_cases profile m x with ⟨-, he⟩ | ⟨-, -, he⟩ | ⟨-, rule, -, hbooks, htarget⟩
  · rw [he]
  · rw [he]
  · rcases htarget with ⟨-, hmasks, hlive⟩ | ⟨-, hmasks, hlive⟩
    · simp only [hbooks, hmasks, hlive, hassign]
    · simp only [hbooks, hmasks, hlive, hassign, OrdMap.find?_insert_ne _ _ hne, OrdSet.mem_add, hne, false_or]

variable {s : Supervisor} {c : Collected} {x : ThreadSample}

/-- What the profile says of a sampled thread that has no assignment yet. -/
def newRule (s : Supervisor) (x : ThreadSample) : Option ThreadProfileRule := s.threadProfile.bind (·.ruleFor x)

theorem newTarget_eq (hnew : x.identity ∉ s.books.assignments) :
    s.newTarget x = (s.newRule x).bind (fun rule =>
      if setIntersection rule.cpus x.allowedCpus = [] then none else some (setIntersection rule.cpus x.allowedCpus)) := by
  unfold newTarget newRule
  rw [if_neg hnew]

theorem newTarget_of_assigned (h : x.identity ∈ s.books.assignments) : s.newTarget x = none := by
  unfold newTarget
  rw [if_pos h]

theorem newTarget_of_rule (hnew : x.identity ∉ s.books.assignments) {rule : ThreadProfileRule}
    (hr : s.newRule x = some rule) (hne : setIntersection rule.cpus x.allowedCpus ≠ []) :
    s.newTarget x = some (setIntersection rule.cpus x.allowedCpus) := by
  rw [newTarget_eq hnew, hr, Option.bind_some, if_neg hne]

theorem newTarget_ne_nil {mask : Mask} (h : s.newTarget x = some mask) : mask ≠ [] := by
  unfold newTarget at h
  split at h
  · cases h
  · obtain ⟨rule, -, hr⟩ := Option.bind_eq_some_iff.1 h
    split at hr
    · cases hr
    · rename_i hne
      cases hr
      exact hne

/-- What the loop leaves of one sampled thread. -/
structure Matched (s : Supervisor) (x : ThreadSample) (m : Matching) : Prop where
  masks : m.masks.find? x.identity.tid = s.newTarget x
  live : x.identity.tid ∈ m.live ↔ (s.newTarget x).isSome = true
  kept : ∀ a, s.books.assignments.find? x.identity = some a → m.books.assignments.find? x.identity = some a
  assigned : x.identity ∉ s.books.assignments → ∀ rule, s.newRule x = some rule →
    ∃ a, m.books.assignments.find? x.identity = some a ∧ a.targetCpus = rule.cpus
  unmatched : x.identity ∉ s.books.assignments → s.newRule x = none → x.identity ∉ m.books.assignments

theorem matched_step {profile : ThreadProfile} (hp : s.threadProfile = some profile) {m : Matching}
    (hslot : matchSlot m x.identity.tid = matchSlot { books := s.books } x.identity.tid) :
    Matched s x (matchSample profile m x) := by
  unfold matchSlot at hslot
  simp only [Prod.mk.injEq] at hslot
  obtain ⟨hmasks, hlive, hbooks⟩ := hslot
  have hfind : m.books.assignments.find? x.identity = s.books.assignments.find? x.identity :=
    congrFun (congrFun hbooks x.identity.tgid) x.identity.starttime
  have hin : x.identity ∈ m.books.assignments ↔ x.identity ∈ s.books.assignments := by
    rw [OrdMap.mem_def, OrdMap.mem_def, hfind]
  have hnone : m.masks.find? x.identity.tid = none := hmasks
  have hdead : x.identity.tid ∉ m.live := by
    intro h
    rw [hlive] at h
    exact OrdMap.notMem_empty _ h
  have hrule : s.newRule x = profile.ruleFor x := by
    rw [newRule, hp]
    rfl
  rcases matchSample_cases profile m x with ⟨ha, he⟩ | ⟨ha, hr, he⟩ | ⟨ha, rule, hr, hbook, htarget⟩
  · have hold := newTarget_of_assigned (hin.1 ha)
    rw [he]
    refine ⟨by rw [hold]; exact hnone, ?_, fun a h => hfind.trans h, fun h => absurd (hin.1 ha) h,
      fun h => absurd (hin.1 ha) h⟩
    rw [hold]
    simpa using hdead
  · have hold : s.newTarget x = none := by
      rw [newTarget_eq (fun h => ha (hin.2 h)), hrule, hr]
      rfl
    rw [he]
    refine ⟨by rw [hold]; exact hnone, ?_, fun a h => hfind.trans h, fun _ r' hr' => ?_, fun _ _ => ha⟩
    · rw [hold]
      simpa using hdead
    · rw [hrule, hr] at hr'
      cases hr'
  · have hnew : x.identity ∉ s.books.assignments := fun h => ha (hin.2 h)
    have hself : (matchSample profile m x).books.assignments.find? x.identity = some (m.books.assign rule x.identity).1 := by
      rw [hbook]
      exact OrdMap.find?_insert_self _ _ _
    have heq := newTarget_eq hnew
    rw [hrule, hr, Option.bind_some] at heq
    refine ⟨?_, ?_, fun a h => absurd (OrdMap.mem_of_find h) hnew, fun _ r' hr' => ⟨_, hself, ?_⟩, fun _ h => ?_⟩
    · rw [heq]
      rcases htarget with ⟨ht, hmask, -⟩ | ⟨ht, hmask, -⟩
      · rw [if_pos ht, hmask, hnone]
      · rw [if_neg ht, hmask]
        exact OrdMap.find?_insert_self _ _ _
    · rw [heq]
      rcases htarget with ⟨ht, -, hl⟩ | ⟨ht, -, hl⟩
      · rw [if_pos ht, hl]
        simpa using hdead
      · rw [if_neg ht, hl]
        simp [OrdSet.mem_add]
    · rw [hrule, hr] at hr'
      cases hr'
      rfl
    · rw [hrule, hr] at h
      cases h

/-- **A sampled thread's match is decided by its own sample.** -/
theorem matchSamples_at (hx : x ∈ c.samples) : Matched s x (s.matchSamples c.samples) := by
  unfold matchSamples
  cases hp : s.threadProfile with
  | none =>
    have hrule : s.newRule x = none := by rw [newRule, hp]; rfl
    have hold : s.newTarget x = none := by
      unfold newTarget
      split
      · rfl
      · rw [hp]; rfl
    refine ⟨by rw [hold]; rfl, ?_, fun a h => h, fun _ r' hr' => ?_, fun h _ => h⟩
    · rw [hold]
      exact ⟨fun h => absurd h (OrdMap.notMem_empty _), fun h => by cases h⟩
    · rw [hrule] at hr'
      cases hr'
  | some profile =>
    obtain ⟨pre, post, -, hbefore, hafter⟩ := (matchSample_local profile).foldl_at c.distinct hx { books := s.books }
    have hm := matched_step hp hbefore
    unfold matchSlot at hafter
    simp only [Prod.mk.injEq] at hafter
    obtain ⟨hmasks, hlive, hbooks⟩ := hafter
    have hfind := congrFun (congrFun hbooks x.identity.tgid) x.identity.starttime
    refine ⟨hmasks.trans hm.masks, by rw [hlive]; exact hm.live, fun a h => hfind.trans (hm.kept a h),
      fun hn rule hr => ?_, fun hn hr h => hm.unmatched hn hr ?_⟩
    · obtain ⟨a, ha, ht⟩ := hm.assigned hn rule hr
      exact ⟨a, hfind.trans ha, ht⟩
    · rw [OrdMap.mem_def] at h ⊢
      rw [← hfind]
      exact h

/-- A TID that was not sampled is left alone. -/
theorem matchSamples_other {u : Tid} (hu : ∀ x ∈ c.samples, x.identity.tid ≠ u) :
    matchSlot (s.matchSamples c.samples) u = matchSlot { books := s.books } u := by
  unfold matchSamples
  split
  · exact (matchSample_local _).foldl_notMem hu
  · rfl

/-- **The masks of a batch are those of the new matches.** -/
theorem matchSamples_masks {u : Tid} {mask : Mask} : (s.matchSamples c.samples).masks.find? u = some mask ↔
    ∃ x ∈ c.samples, x.identity.tid = u ∧ s.newTarget x = some mask := by
  constructor
  · intro h
    by_cases hu : ∃ x ∈ c.samples, x.identity.tid = u
    · obtain ⟨x, hx, rfl⟩ := hu
      exact ⟨x, hx, rfl, (matchSamples_at hx).masks.symm.trans h⟩
    · have hother := matchSamples_other (s := s) (c := c) (u := u) (fun x hx e => hu ⟨x, hx, e⟩)
      unfold matchSlot at hother
      simp only [Prod.mk.injEq] at hother
      rw [hother.1] at h
      cases h
  · rintro ⟨x, hx, rfl, ht⟩
    exact (matchSamples_at hx).masks.trans ht

theorem matchSamples_live {u : Tid} : u ∈ (s.matchSamples c.samples).live ↔ u ∈ (s.matchSamples c.samples).masks := by
  by_cases hu : ∃ x ∈ c.samples, x.identity.tid = u
  · obtain ⟨x, hx, rfl⟩ := hu
    rw [(matchSamples_at hx).live, OrdMap.mem_def, (matchSamples_at hx).masks]
  · have hother := matchSamples_other (s := s) (c := c) (u := u) (fun x hx e => hu ⟨x, hx, e⟩)
    unfold matchSlot at hother
    simp only [Prod.mk.injEq] at hother
    have hmasks : u ∉ (s.matchSamples c.samples).masks := OrdMap.notMem_iff.2 hother.1
    rw [hother.2.1]
    exact ⟨fun h => absurd h (OrdMap.notMem_empty u), fun h => absurd h hmasks⟩

theorem matchSamples_isEmpty : (s.matchSamples c.samples).masks.isEmpty = true ↔
    ∀ x ∈ c.samples, s.newTarget x = none := by
  rw [OrdMap.isEmpty_iff]
  constructor
  · intro h x hx
    exact (matchSamples_at hx).masks.symm.trans (h _)
  · intro h u
    rw [← OrdMap.notMem_iff]
    intro hu
    obtain ⟨mask, hmask⟩ := OrdMap.mem_iff.1 hu
    obtain ⟨x, hx, -, ht⟩ := matchSamples_masks.1 hmask
    rw [h x hx] at ht
    cases ht

theorem mem_foldl_matchSample (profile : ThreadProfile) {i : ThreadIdentity} : ∀ (l : List ThreadSample) (m : Matching),
    i ∈ (l.foldl (matchSample profile) m).books.assignments → i ∈ m.books.assignments ∨ ∃ x ∈ l, x.identity = i
  | [], _, h => Or.inl h
  | x :: l, m, h => by
    rcases mem_foldl_matchSample profile l _ h with h | ⟨y, hy, he⟩
    · rcases matchSample_cases profile m x with ⟨-, he⟩ | ⟨-, -, he⟩ | ⟨-, rule, -, hbooks, -⟩
      · rw [he] at h
        exact Or.inl h
      · rw [he] at h
        exact Or.inl h
      · rw [hbooks] at h
        rcases OrdMap.mem_insert.1 h with h | h
        · exact Or.inr ⟨x, List.mem_cons_self, h⟩
        · exact Or.inl h
    · exact Or.inr ⟨y, List.mem_cons_of_mem _ hy, he⟩

/-- An assignment is an old one, or that of a sampled thread. -/
theorem mem_matchSamples {samples : List ThreadSample} {i : ThreadIdentity}
    (h : i ∈ (s.matchSamples samples).books.assignments) :
    i ∈ s.books.assignments ∨ ∃ x ∈ samples, x.identity = i := by
  unfold matchSamples at h
  split at h
  · exact mem_foldl_matchSample _ samples _ h
  · exact Or.inl h

end Supervisor
end AffinityGraph
