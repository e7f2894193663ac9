import AffinityGraph.Pending
import AffinityGraph.RelationWindow
import AffinityGraph.Supervisor
/-!
# Evidence — relations over whole runs of the reader and the worker

`Witnessed` is the supervisor beside the ledger of what its graph was told.  The reader drains, the worker consumes,
samples, and reads the edges, in any order.  A consume hands `retain_relations` the pairs of its own batch alone, so a pair
that is silent for one batch loses what it had; the edges keep all evidence within the horizon in the runs where no pair
with standing evidence is silent (`Witnessed.evidence_contributes`), and not in others (`Witnessed.silence_erases`).
-/
namespace AffinityGraph

namespace Runtime

/-- What the worker's own calls leave alone of the supervisor's inputs. -/
structure InputFrame (r r' : Runtime) : Prop where
  config : r'.config = r.config
  graph : r'.graph = r.graph
  lifecycleEvents : r'.pendingLifecycleEvents = r.pendingLifecycleEvents
  relations : r'.pendingRelations = r.pendingRelations

namespace InputFrame

variable {r r' r'' : Runtime}

theorem refl (r : Runtime) : InputFrame r r := ⟨rfl, rfl, rfl, rfl⟩

theorem trans (h : InputFrame r r') (h' : InputFrame r' r'') : InputFrame r r'' :=
  ⟨h'.config.trans h.config, h'.graph.trans h.graph, h'.lifecycleEvents.trans h.lifecycleEvents,
    h'.relations.trans h.relations⟩

theorem foldl {ι : Type} {body : Runtime → ι → Runtime} {l : List ι} (h : ∀ r, ∀ i ∈ l, InputFrame r (body r i)) :
    ∀ r, InputFrame r (l.foldl body r) := by
  induction l with
  | nil => exact InputFrame.refl
  | cons i l ih =>
    intro r
    have hstep := h r i List.mem_cons_self
    have hrest := ih (fun r j hj => h r j (List.mem_cons_of_mem i hj)) (body r i)
    exact hstep.trans hrest

end InputFrame

variable {r r' : Runtime}

/-- A lifecycle event does not reach the graph. -/
theorem handleLifecycle_frame {event : BpfEvent} (hkind : event.kind ≠ .futex ∧ event.kind ≠ .vfs) (staticProfile : Bool)
    (symbols : BpfEvent → String) (r : Runtime) : InputFrame r (handleLifecycle staticProfile symbols r event) := by
  unfold handleLifecycle handleBpfEvent
  cases hk : event.kind with
  | futex => exact absurd hk hkind.1
  | vfs => exact absurd hk hkind.2
  | taskFork => exact ⟨rfl, rfl, rfl, rfl⟩
  | taskExec => exact ⟨rfl, rfl, rfl, rfl⟩
  | taskExit => exact ⟨rfl, rfl, rfl, rfl⟩
  | taskRename =>
    dsimp only [threadRenamed]
    split
    · exact ⟨rfl, rfl, rfl, rfl⟩
    · exact InputFrame.refl r
  | affinity =>
    dsimp only [applicationAffinity]
    split
    · exact InputFrame.refl r
    · split <;> exact ⟨rfl, rfl, rfl, rfl⟩

theorem pause_frame (h : r.pause = .ok r') : InputFrame r r' := by
  obtain ⟨-, rfl⟩ := pause_ok h
  exact ⟨rfl, rfl, rfl, rfl⟩

theorem triggerFatal_frame {message : String} (h : r.triggerFatal message = .ok r') : InputFrame r r' := by
  obtain ⟨-, ⟨-, rfl⟩ | ⟨-, r₁, hr₁, rfl⟩⟩ := triggerFatal_ok h
  · exact InputFrame.refl _
  · have hpause := pause_frame hr₁
    exact ⟨hpause.config, hpause.graph, hpause.lifecycleEvents, hpause.relations⟩

/-! ## One batch -/

/-- The kinds that carry a relation. -/
def IsRelation (e : PendingRelation) : Prop := e.1.kind = .futex ∨ e.1.kind = .vfs

/-- The relations of a batch whose threads are known: what the graph is told. -/
def acceptedRelations (r : Runtime) (order : List PendingRelation) (durationNs : Nat) : List RelationObservation :=
  order.filterMap (fun e => r.relationOf (relationEvent durationNs e))

/-- The runtime once the events that are no exits have been handled. -/
def begun (r : Runtime) (symbols : BpfEvent → String) : Runtime :=
  (r.pendingLifecycleEvents.filter (fun e => decide (e.kind ≠ .taskExit))).foldl (handleLifecycle false symbols) r.takePending

/-- The relations a consume hands to the graph. -/
def consumed (r : Runtime) (order : List PendingRelation) (symbols : BpfEvent → String) (now : Nat) :
    List RelationObservation :=
  (r.begun symbols).acceptedRelations order (r.relationDurationNs now)

theorem handleRelation {e : PendingRelation} (he : IsRelation e) (r : Runtime) (durationNs : Nat) :
    r.handleBpfEvent false (relationEvent durationNs e) "" =
      { r with graph := (r.relationOf (relationEvent durationNs e)).toList.foldl GraphWindow.observeRelation r.graph } := by
  have hbranch : r.relate false (relationEvent durationNs e) =
      { r with graph := (r.relationOf (relationEvent durationNs e)).toList.foldl GraphWindow.observeRelation r.graph } := by
    unfold relate
    cases r.relationOf (relationEvent durationNs e) with
    | none => rfl
    | some o => rfl
  unfold handleBpfEvent
  rcases he with hk | hk
  · simp only [relationEvent, hk] at hbranch ⊢
    exact hbranch
  · simp only [relationEvent, hk] at hbranch ⊢
    exact hbranch

/-- The batch reaches the graph and nothing else. -/
theorem foldl_handleRelation (durationNs : Nat) : ∀ (l : List PendingRelation) (r : Runtime), (∀ e ∈ l, IsRelation e) →
    l.foldl (fun r e => r.handleBpfEvent false (relationEvent durationNs e) "") r =
      { r with graph := (r.acceptedRelations l durationNs).foldl GraphWindow.observeRelation r.graph }
  | [], _, _ => rfl
  | e :: l, r, hl => by
    rw [List.foldl_cons, handleRelation (hl e List.mem_cons_self),
      foldl_handleRelation durationNs l _ (fun x hx => hl x (List.mem_cons_of_mem e hx))]
    have hsame : ∀ (g : GraphWindow), acceptedRelations { r with graph := g } l durationNs =
        r.acceptedRelations l durationNs := fun _ => rfl
    rw [hsame]
    unfold acceptedRelations
    rw [List.filterMap_cons]
    cases r.relationOf (relationEvent durationNs e) with
    | none => rfl
    | some o => rfl

theorem mem_pairWeights {k : EdgeKey} (r : Runtime) (seconds : ℚ) (order : List PendingRelation) :
    k ∈ r.pairWeights seconds order ↔ ∃ e ∈ order, pairOf e = k := by
  have hloop : ∀ (l : List PendingRelation) (m : OrdMap EdgeKey ℚ),
      k ∈ l.foldl (fun m e => m.update (pairOf e) 0 (· + r.relationWeight seconds e)) m ↔
        k ∈ m ∨ ∃ e ∈ l, pairOf e = k := by
    intro l
    induction l with
    | nil => simp
    | cons e l ih =>
      intro m
      rw [List.foldl_cons, ih, OrdMap.update, OrdMap.mem_insert]
      simp only [List.mem_cons, exists_eq_or_imp]
      tauto
  unfold pairWeights
  rw [hloop]
  simp

/-- For the domain solver the pairs of the batch are retained, and no others. -/
theorem mem_retainedPairs (hsolver : r.config.solver = .numaDomain) {k : EdgeKey} (seconds : ℚ)
    (order : List PendingRelation) :
    k ∈ r.retainedPairs (r.pairWeights seconds order) ↔ ∃ e ∈ order, pairOf e = k := by
  unfold retainedPairs
  rw [hsolver, ← mem_pairWeights r seconds order]
  simp only [OrdMap.mem_def, OrdMap.find?_mapVal, Option.isSome_map]

theorem ingestRelations_eq (hsolver : r.config.solver = .numaDomain) {order : List PendingRelation}
    (hkinds : ∀ e ∈ order, IsRelation e) (durationNs : Nat) : ∃ retained : OrdSet EdgeKey,
      (∀ k, k ∈ retained ↔ ∃ e ∈ order, pairOf e = k) ∧ r.ingestRelations false order durationNs =
      { r with graph := ((r.acceptedRelations order durationNs).foldl GraphWindow.observeRelation (r.graph.retainRelations retained)) } := by
  refine ⟨_, fun k => mem_retainedPairs hsolver ((durationNs : ℚ) / 10 ^ 9) order, ?_⟩
  unfold ingestRelations
  have hall : order.filter (fun e => decide (pairOf e ∈ r.retainedPairs (r.pairWeights ((durationNs : ℚ) / 10 ^ 9) order))) =
      order := by
    refine List.filter_eq_self.2 (fun e he => decide_eq_true ?_)
    exact (mem_retainedPairs hsolver _ order).2 ⟨e, he, rfl⟩
  dsimp only
  rw [hall, foldl_handleRelation durationNs order _ hkinds]
  rfl

/-- **A consume**: the pairs of the batch are retained, the accepted relations of the batch are observed. -/
theorem consumePendingBpf_spec (hsolver : r.config.solver = .numaDomain)
    (hlife : ∀ e ∈ r.pendingLifecycleEvents, e.kind ≠ .futex ∧ e.kind ≠ .vfs) {order : List PendingRelation}
    (hkinds : ∀ e ∈ order, IsRelation e) {symbols : BpfEvent → String} {now : Nat}
    (h : r.consumePendingBpf false order symbols now = .ok r') : ∃ retained : OrdSet EdgeKey,
      (∀ k, k ∈ retained ↔ ∃ e ∈ order, pairOf e = k) ∧ r'.config = r.config ∧ r'.pendingLifecycleEvents = [] ∧
      r'.pendingRelations = [] ∧ r'.graph = (r.consumed order symbols now).foldl GraphWindow.observeRelation
        (r.graph.retainRelations retained) := by
  have hothers : InputFrame r.takePending (r.begun symbols) := by
    refine InputFrame.foldl (fun r' e he => ?_) _
    exact handleLifecycle_frame (hlife e (List.mem_filter.1 he).1) false symbols r'
  obtain ⟨retained, hretained, hingest⟩ := ingestRelations_eq (r := r.begun symbols)
    (by rw [hothers.config]; exact hsolver) hkinds (r.relationDurationNs now)
  have hexits : ∀ r', InputFrame r' ((r.pendingLifecycleEvents.filter (fun e => decide (e.kind = .taskExit))).foldl
      (handleLifecycle false symbols) r') := by
    refine InputFrame.foldl (fun r' e he => ?_)
    exact handleLifecycle_frame (hlife e (List.mem_filter.1 he).1) false symbols r'
  have hlast := hexits ((r.begun symbols).ingestRelations false order (r.relationDurationNs now))
  have hend : InputFrame ((r.begun symbols).ingestRelations false order (r.relationDurationNs now)) r' := by
    unfold consumePendingBpf at h
    dsimp only at h
    split at h
    · exact hlast.trans (triggerFatal_frame h)
    · cases h
      exact hlast
  rw [hingest] at hend
  refine ⟨retained, hretained, hend.config.trans hothers.config, hend.lifecycleEvents.trans hothers.lifecycleEvents,
    hend.relations.trans hothers.relations, ?_⟩
  have hgraph := hothers.graph
  rw [hend.graph]
  show List.foldl _ ((r.begun symbols).graph.retainRelations retained) _ = _
  rw [hgraph]
  rfl

/-! ## Draining -/

/-- What is pending is of the kinds its buffer is for. -/
structure Sorted (r : Runtime) : Prop where
  lifecycle : ∀ e ∈ r.pendingLifecycleEvents, e.kind ≠ .futex ∧ e.kind ≠ .vfs
  relations : ∀ e ∈ r.pendingRelations, IsRelation e

/-- What a drain leaves alone. -/
structure DrainFrame (r r' : Runtime) : Prop where
  config : r'.config = r.config
  graph : r'.graph = r.graph

theorem DrainFrame.trans {r r' r'' : Runtime} (h : DrainFrame r r') (h' : DrainFrame r' r'') : DrainFrame r r'' :=
  ⟨h'.config.trans h.config, h'.graph.trans h.graph⟩

theorem Sorted.queueLifecycle (h : r.Sorted) {e : BpfEvent} (he : e.kind ≠ .futex ∧ e.kind ≠ .vfs) :
    (r.queueLifecycle e).Sorted ∧ DrainFrame r (r.queueLifecycle e) := by
  unfold Runtime.queueLifecycle
  split
  · exact ⟨⟨h.lifecycle, h.relations⟩, rfl, rfl⟩
  · refine ⟨⟨fun x hx => ?_, h.relations⟩, rfl, rfl⟩
    rcases List.mem_append.1 hx with hx | hx
    · exact h.lifecycle x hx
    · rw [List.mem_singleton.1 hx]
      exact he

theorem Sorted.mergeRelation (h : r.Sorted) {e : BpfEvent} (he : e.kind = .futex ∨ e.kind = .vfs) (now : Nat) :
    (Runtime.mergeRelation now r e).Sorted ∧ DrainFrame r (Runtime.mergeRelation now r e) := by
  unfold Runtime.mergeRelation
  dsimp only
  split
  · refine ⟨⟨h.lifecycle, fun x hx => ?_⟩, rfl, rfl⟩
    obtain ⟨y, hy, rfl⟩ := List.mem_map.1 hx
    split
    · exact h.relations y hy
    · exact h.relations y hy
  · split
    · exact ⟨⟨h.lifecycle, h.relations⟩, rfl, rfl⟩
    · refine ⟨⟨h.lifecycle, fun x hx => ?_⟩, rfl, rfl⟩
      rcases List.mem_append.1 hx with hx | hx
      · exact h.relations x hx
      · rw [List.mem_singleton.1 hx]
        exact he

theorem Sorted.foldl {body : Runtime → BpfEvent → Runtime} {l : List BpfEvent}
    (hbody : ∀ r : Runtime, r.Sorted → ∀ e ∈ l, (body r e).Sorted ∧ DrainFrame r (body r e)) :
    ∀ r : Runtime, r.Sorted → (l.foldl body r).Sorted ∧ DrainFrame r (l.foldl body r) := by
  induction l with
  | nil => exact fun r hr => ⟨hr, rfl, rfl⟩
  | cons e l ih =>
    intro r hr
    have hstep := hbody r hr e List.mem_cons_self
    have hrest := ih (fun r hr x hx => hbody r hr x (List.mem_cons_of_mem e hx)) (body r e) hstep.1
    exact ⟨hrest.1, hstep.2.trans hrest.2⟩

theorem Sorted.drainBpfOnce (h : r.Sorted) (d : Drained) (now : Nat) :
    (r.drainBpfOnce d now).Sorted ∧ DrainFrame r (r.drainBpfOnce d now) := by
  unfold Runtime.drainBpfOnce
  split
  · exact ⟨h, rfl, rfl⟩
  · have hqueued := Sorted.foldl (l := d.lifecycle) (fun r hr e he => hr.queueLifecycle (d.lifecycleKinds e he)) r h
    have hmerged := Sorted.foldl (l := d.futex ++ d.vfs) (fun r hr e he => hr.mergeRelation (by
      rcases List.mem_append.1 he with he | he
      · exact Or.inl (d.futexKinds e he)
      · exact Or.inr (d.vfsKinds e he)) now) _ hqueued.1
    exact ⟨hmerged.1, hqueued.2.trans hmerged.2⟩

end Runtime

/-! ## Sampling -/

namespace Supervisor

variable {s s' : Supervisor}

theorem collectorFailure_input {now : Nat} (h : s.collectorFailure now = .ok s') :
    Runtime.InputFrame s.toRuntime s'.toRuntime ∧ s'.threadProfile = s.threadProfile := by
  obtain ⟨since, -, ⟨-, r, hr, rfl⟩ | ⟨-, rfl⟩⟩ := collectorFailure_ok h
  · exact ⟨Runtime.pause_frame hr, rfl⟩
  · exact ⟨Runtime.InputFrame.refl _, rfl⟩

/-- The ledger reads of a sample what the record does not add. -/
theorem foldl_note_enrich (life : OrdMap Tid LifecycleRecord) : ∀ (samples : List ThreadSample) (L : Ledger),
    (samples.map (Runtime.enrich life)).foldl Ledger.note L = samples.foldl Ledger.note L
  | [], _ => rfl
  | x :: samples, L => by
    have hx : L.note (Runtime.enrich life x) = L.note x := by
      unfold Runtime.enrich
      split <;> rfl
    rw [List.map_cons, List.foldl_cons, List.foldl_cons, hx]
    exact foldl_note_enrich life samples (L.note x)

/-- Without a profile, the runtime after a sampling pass. -/
theorem reconcileAndSample_spec (hp : s.threadProfile = none) {collected : Option Collected} {now : Nat}
    (h : s.reconcileAndSample collected now = .ok s') : s'.threadProfile = none ∧ s'.config = s.config ∧
      s'.pendingLifecycleEvents = s.pendingLifecycleEvents ∧ s'.pendingRelations = s.pendingRelations ∧
      (s'.graph = s.graph ∧ (collected.map (·.samples)).getD [] = [] ∨
        ∃ c life, collected = some c ∧ s'.graph = s.graph.observeThreads (c.samples.map (Runtime.enrich life))) := by
  have hstatic : s.staticProfileEffective = false := by
    unfold staticProfileEffective
    rw [hp]
    rfl
  obtain ⟨hempty, hf⟩ | ⟨c, rfl, -, stopped, last, rfl⟩ := reconcileAndSample_ok h
  · obtain ⟨hframe, hprofile⟩ := collectorFailure_input hf
    refine ⟨hprofile.trans hp, hframe.config, hframe.lifecycleEvents, hframe.relations, Or.inl ⟨hframe.graph, ?_⟩⟩
    cases collected with
    | none => rfl
    | some c => exact List.isEmpty_iff.1 hempty
  · have hmatch : s.matchSamples c.samples = { books := s.books } := by
      unfold matchSamples
      rw [hp]
    have hbind : (s.sampled c).bindProfile { books := s.books } = s.sampled c := if_neg (fun hc => by cases hc.1)
    rw [hmatch, hbind]
    have hloop := Runtime.InputFrame.foldl (l := c.samples)
      (fun r (x : ThreadSample) _ => (⟨rfl, rfl, rfl, rfl⟩ : Runtime.InputFrame r (r.sampleThread x)))
      { s.toRuntime with targetTgids := c.existing }
    let life := (c.samples.foldl Runtime.sampleThread { s.toRuntime with targetTgids := c.existing }).lifecycle
    unfold sampled
    rw [hstatic]
    exact ⟨hp, hloop.config, hloop.lifecycleEvents, hloop.relations, Or.inr ⟨c, life, rfl,
      congrArg (fun g : GraphWindow => g.observeThreads (c.samples.map (Runtime.enrich life))) hloop.graph⟩⟩

end Supervisor

/-! ## Runs -/

/-- The supervisor, and what its graph was told. -/
structure Witnessed where
  supervisor : Supervisor
  ledger : Ledger := {}

/-- One call of the reader or of the worker; `read` is a caller of `edges`. -/
inductive Turn where
  | drain (d : Drained) (now : Nat)
  | consume (order : List Runtime.PendingRelation) (symbols : BpfEvent → String) (now : Nat)
  | reconcile (collected : Option Collected) (now : Nat)
  | read

namespace Witnessed

/-- A consume walks the pending relations in some order. -/
def step (w : Witnessed) : Turn → Option Witnessed
  | .drain d now =>
    some { w with supervisor := { w.supervisor with toRuntime := w.supervisor.toRuntime.drainBpfOnce d now } }
  | .consume order symbols now =>
    if order.isPerm w.supervisor.pendingRelations then
      (w.supervisor.consumePendingBpf w.supervisor.staticProfileEffective order symbols now).toOption.map (fun r =>
        { supervisor := { w.supervisor with toRuntime := r }
          ledger := (w.supervisor.consumed order symbols now).foldl Ledger.accept w.ledger })
    else none
  | .reconcile collected now =>
    (w.supervisor.reconcileAndSample collected now).toOption.map (fun s =>
      { supervisor := s, ledger := ((collected.map (·.samples)).getD []).foldl Ledger.note w.ledger })
  | .read => some { w with supervisor := { w.supervisor with graph := w.supervisor.graph.edges.2 } }

/-- No pair with evidence within the horizon is without an event in the batch that a consume takes. -/
def NoneSilent (w : Witnessed) : Turn → Prop
  | .consume _ _ _ => ∀ o ∈ w.ledger.accepted,
      w.ledger.newest ≤ o.timestampNs + w.supervisor.graph.horizonSeconds * 10 ^ 9 →
        ∃ e ∈ w.supervisor.pendingRelations, Runtime.pairOf e = Ledger.keyOf o
  | _ => True

instance NoneSilent.decidable (w : Witnessed) : ∀ e, Decidable (w.NoneSilent e)
  | .consume _ _ _ => inferInstanceAs (Decidable (∀ o ∈ w.ledger.accepted,
      w.ledger.newest ≤ o.timestampNs + w.supervisor.graph.horizonSeconds * 10 ^ 9 →
        ∃ e ∈ w.supervisor.pendingRelations, Runtime.pairOf e = Ledger.keyOf o))
  | .drain _ _ => isTrue trivial
  | .reconcile _ _ => isTrue trivial
  | .read => isTrue trivial

/-- What the graph has of the ledger, with its caches. -/
structure Holds (horizonSeconds : Nat) (g : GraphWindow) (L : Ledger) : Prop where
  faithful : Faithful g L
  cached : g.Cached
  horizon : g.horizonSeconds = horizonSeconds

variable {horizonSeconds : Nat} {g : GraphWindow} {L : Ledger}

theorem Holds.observeRelations : ∀ (os : List RelationObservation) {g : GraphWindow} {L : Ledger}, Holds horizonSeconds g L →
    Holds horizonSeconds (os.foldl GraphWindow.observeRelation g) (os.foldl Ledger.accept L)
  | [], _, _, h => h
  | o :: os, g, _, h => by
    refine Holds.observeRelations os ⟨h.faithful.observeRelation o, h.cached.observeRelation o, ?_⟩
    unfold GraphWindow.observeRelation
    split <;> exact h.horizon

theorem Holds.retainRelations (h : Holds horizonSeconds g L) {relations : OrdSet EdgeKey}
    (hall : ∀ k, L.standing g.horizonSeconds k ≠ [] → k ∈ relations) : Holds horizonSeconds (g.retainRelations relations) L := by
  refine ⟨h.faithful.retainRelations hall, h.cached.retainRelations relations, ?_⟩
  unfold GraphWindow.retainRelations
  dsimp only
  split <;> exact h.horizon

theorem Holds.observeThreads (h : Holds horizonSeconds g L) (samples : List ThreadSample) :
    Holds horizonSeconds (g.observeThreads samples) (samples.foldl Ledger.note L) := by
  refine ⟨h.faithful.observeThreads samples, ?_, ?_⟩
  · exact GraphWindow.cached_of_none (GraphWindow.demandCache_observeThreads g samples)
      (GraphWindow.edgeCache_observeThreads g samples)
  · exact (Faithful.horizon_foldl_observeSample samples { g with demandCache := none, edgeCache := none }).trans h.horizon

theorem Holds.read (h : Holds horizonSeconds g L) : Holds horizonSeconds g.edges.2 L := by
  have hsame : g.edges.2 = { g with demandCache := g.edges.2.demandCache, edgeCache := g.edges.2.edgeCache } := by
    unfold GraphWindow.edges
    cases g.edgeCache with
    | some es => rfl
    | none =>
      unfold GraphWindow.demands
      cases g.demandCache <;> rfl
  have hf := h.faithful
  refine ⟨?_, h.cached.read, ?_⟩
  · rw [hsame]
    exact ⟨hf.keyed, ⟨hf.summed.sums, hf.summed.filled⟩, hf.last, hf.sampled, hf.standing⟩
  · rw [hsame]
    exact h.horizon

/-- What every state of such a run has. -/
structure Remembers (horizonSeconds : Nat) (w : Witnessed) : Prop where
  holds : Holds horizonSeconds w.supervisor.graph w.ledger
  solver : w.supervisor.config.solver = .numaDomain
  profile : w.supervisor.threadProfile = none
  sorted : Runtime.Sorted w.supervisor.toRuntime

theorem Remembers.drain {w : Witnessed} (h : Remembers horizonSeconds w) (d : Drained) (now : Nat) :
    Remembers horizonSeconds
      { w with supervisor := { w.supervisor with toRuntime := w.supervisor.toRuntime.drainBpfOnce d now } } := by
  obtain ⟨hsorted, hframe⟩ := h.sorted.drainBpfOnce d now
  refine ⟨?_, ?_, h.profile, hsorted⟩
  · show Holds horizonSeconds (w.supervisor.toRuntime.drainBpfOnce d now).graph w.ledger
    rw [hframe.graph]
    exact h.holds
  · show (w.supervisor.toRuntime.drainBpfOnce d now).config.solver = _
    rw [hframe.config]
    exact h.solver

/-- **A consume keeps what stands** when no pair with something standing is silent. -/
theorem Remembers.consume {w w' : Witnessed} (h : Remembers horizonSeconds w)
    {order : List Runtime.PendingRelation} {symbols : BpfEvent → String} {now : Nat}
    (hok : w.NoneSilent (.consume order symbols now)) (hstep : w.step (.consume order symbols now) = some w') :
    Remembers horizonSeconds w' := by
  simp only [step] at hstep
  split at hstep
  · rename_i hperm
    have hstatic : w.supervisor.staticProfileEffective = false := by
      unfold Supervisor.staticProfileEffective
      rw [h.profile]
      rfl
    rw [hstatic] at hstep
    obtain ⟨r, hr, rfl⟩ := Option.map_eq_some_iff.1 hstep
    have hmem : ∀ e, e ∈ order ↔ e ∈ w.supervisor.pendingRelations := fun e => (List.isPerm_iff.1 hperm).mem_iff
    obtain ⟨retained, hretained, hconfig, hlife, hrel, hgraph⟩ := Runtime.consumePendingBpf_spec h.solver h.sorted.lifecycle
      (fun e he => h.sorted.relations e ((hmem e).1 he)) (toOption_eq_some hr)
    refine ⟨?_, hconfig ▸ h.solver, h.profile, ⟨?_, ?_⟩⟩
    · show Holds horizonSeconds r.graph _
      rw [hgraph]
      refine (h.holds.retainRelations (fun k hk => ?_)).observeRelations _
      obtain ⟨o, ho⟩ := List.exists_mem_of_ne_nil _ hk
      obtain ⟨hin, hkey, hyoung⟩ := Ledger.mem_standing.1 ho
      obtain ⟨e, he, hpair⟩ := hok o hin hyoung
      exact (hretained k).2 ⟨e, (hmem e).2 he, hpair.trans hkey⟩
    · show ∀ e ∈ r.pendingLifecycleEvents, _
      rw [hlife]
      simp
    · show ∀ e ∈ r.pendingRelations, _
      rw [hrel]
      simp
  · cases hstep

theorem Remembers.reconcile {w w' : Witnessed} (h : Remembers horizonSeconds w) {collected : Option Collected} {now : Nat}
    (hstep : w.step (.reconcile collected now) = some w') : Remembers horizonSeconds w' := by
  obtain ⟨s, hs, rfl⟩ := Option.map_eq_some_iff.1 hstep
  obtain ⟨hprofile, hconfig, hlife, hrel, hgraph⟩ := Supervisor.reconcileAndSample_spec h.profile (toOption_eq_some hs)
  refine ⟨?_, hconfig ▸ h.solver, hprofile, ⟨?_, ?_⟩⟩
  · rcases hgraph with ⟨hgraph, hnone⟩ | ⟨c, life, rfl, hgraph⟩
    · show Holds horizonSeconds s.graph (((collected.map (·.samples)).getD []).foldl Ledger.note w.ledger)
      rw [hgraph, hnone]
      exact h.holds
    · show Holds horizonSeconds s.graph (c.samples.foldl Ledger.note w.ledger)
      rw [hgraph, ← Supervisor.foldl_note_enrich life]
      exact h.holds.observeThreads _
  · show ∀ e ∈ s.pendingLifecycleEvents, _
    rw [hlife]
    exact h.sorted.lifecycle
  · show ∀ e ∈ s.pendingRelations, _
    rw [hrel]
    exact h.sorted.relations

theorem Remembers.step {w w' : Witnessed} {e : Turn} (h : Remembers horizonSeconds w) (hok : w.NoneSilent e)
    (hstep : w.step e = some w') : Remembers horizonSeconds w' := by
  cases e with
  | drain d now =>
    cases hstep
    exact h.drain d now
  | consume order symbols now => exact h.consume hok hstep
  | reconcile collected now => exact h.reconcile hstep
  | read =>
    cases hstep
    exact ⟨h.holds.read, h.solver, h.profile, ⟨h.sorted.lifecycle, h.sorted.relations⟩⟩

theorem remembers_create {l : Launch} {s₀ : Supervisor} (hsolver : l.config.solver = .numaDomain)
    (hprofile : l.threadProfile = none) (hstart : Supervisor.create l = .ok s₀) :
    Remembers l.horizonSeconds ⟨s₀, {}⟩ := by
  unfold Supervisor.create at hstart
  dsimp only at hstart
  -- the mode may be lowered, the solver stays
  have hlowered : (if (l.collectorDegraded || (decide (l.config.solver = .numaDomain) && !l.bpfReader)) = true
      then { l.config with mode := .observe } else l.config).solver = .numaDomain := by
    split
    · exact hsolver
    · exact hsolver
  generalize (if (l.collectorDegraded || (decide (l.config.solver = .numaDomain) && !l.bpfReader)) = true
    then { l.config with mode := .observe } else l.config) = config at hstart hlowered
  split at hstart
  · cases hstart
  · cases hstart
    have hfaithful : Faithful { horizonSeconds := l.horizonSeconds, calibration := l.calibration, libm := l.libm } {} := by
      refine ⟨?_, ⟨fun k => rfl, ?_⟩, ?_, ?_, fun k => List.nil_sublist _⟩
      · intro t hist hf
        cases hf
      · intro k hist hf
        cases hf
      · intro t hist hf
        cases hf
      · rintro t ⟨e, he, -⟩
        cases he
    exact ⟨⟨hfaithful, GraphWindow.cached_of_none rfl rfl, rfl⟩, hlowered, hprofile, ⟨by simp, by simp⟩⟩

/-- Every accepted observation that is within the horizon, and whose threads were both sampled within it, is part of the sums
of an edge. -/
def Contributing (horizonSeconds : Nat) (w : Witnessed) : Prop :=
  ∀ o ∈ w.ledger.accepted, w.ledger.newest ≤ o.timestampNs + horizonSeconds * 10 ^ 9 →
    w.ledger.Recent horizonSeconds o.fromTid → w.ledger.Recent horizonSeconds o.toTid →
      ∃ os, o ∈ os ∧ w.supervisor.graph.Contributes (Ledger.keyOf o) os

theorem Remembers.contributing {w : Witnessed} (h : Remembers horizonSeconds w) : Contributing horizonSeconds w := by
  intro o ho hyoung hfrom hto
  have hin : o ∈ w.ledger.standing horizonSeconds (Ledger.keyOf o) := Ledger.mem_standing.2 ⟨ho, rfl, hyoung⟩
  have hboth : w.ledger.Recent horizonSeconds (ofLex (Ledger.keyOf o)).1 ∧
      w.ledger.Recent horizonSeconds (ofLex (Ledger.keyOf o)).2 := by
    show w.ledger.Recent horizonSeconds (min o.fromTid o.toTid) ∧ w.ledger.Recent horizonSeconds (max o.fromTid o.toTid)
    rcases le_total o.fromTid o.toTid with hle | hle
    · rw [min_eq_left hle, max_eq_right hle]
      exact ⟨hfrom, hto⟩
    · rw [min_eq_right hle, max_eq_left hle]
      exact ⟨hto, hfrom⟩
  refine ⟨w.ledger.standing horizonSeconds (Ledger.keyOf o), hin, ?_⟩
  obtain ⟨hholds, -, -, -⟩ := h
  have hhorizon := hholds.horizon
  subst hhorizon
  exact hholds.faithful.contributes hholds.cached (List.ne_nil_of_mem hin) hboth.1 hboth.2

/-- **Evidence within the horizon contributes to the edges**, in every state of a run where no pair with such evidence is
silent at a consume. -/
theorem evidence_contributes {l : Launch} {s₀ : Supervisor} (hsolver : l.config.solver = .numaDomain)
    (hprofile : l.threadProfile = none) (hstart : Supervisor.create l = .ok s₀) {run : List Turn}
    (hloud : Run.Obeys step NoneSilent ⟨s₀, {}⟩ run) {w : Witnessed} (hrun : Run.exec step ⟨s₀, {}⟩ run = some w) :
    Contributing l.horizonSeconds w := by
  have hremembers := hloud.invariant (Remembers l.horizonSeconds) (fun w e w' hw hok hstep => hw.step hok hstep)
    (remembers_create hsolver hprofile hstart) hrun
  exact hremembers.contributing

/-! ### A pair that is silent for one batch -/

def pairLaunch : Launch where
  config := { mode := .active, solver := .numaDomain }
  hardware := { cpus := [⟨0, 0, true⟩, ⟨1, 1, true⟩] }
  rootPid := 9
  kernel := { threads := OrdMap.ofList [(1, ⟨9, 10, OrdSet.ofList [0, 1]⟩), (2, ⟨9, 10, OrdSet.ofList [0, 1]⟩)] }
  horizonSeconds := 60
  libm := ⟨id, id⟩

def sampleAt (tid : Tid) (seconds : Nat) : ThreadSample where
  identity := ⟨9, tid, 10⟩
  timestampNs := seconds * 10 ^ 9
  runtimeNs := seconds * 10 ^ 8
  recentCpu := 1
  comm := "w"
  allowedCpus := [0, 1]

def pairAt (seconds : Nat) : Turn :=
  .reconcile (some
    { existing := OrdSet.ofList [9]
      samples := [sampleAt 1 seconds, sampleAt 2 seconds]
      distinct := by simp [sampleAt] }) (seconds * 10 ^ 9)

/-- The first thread wakes the second. -/
def wakeAt (seconds : Nat) : BpfEvent where
  kind := .futex
  tgid := 9
  tid := 1
  peerTid := 2
  timestampNs := seconds * 10 ^ 9
  valueNs := 1

def wakes (seconds : Nat) : List Turn :=
  [.drain { futex := [wakeAt seconds] , futexKinds := by simp [wakeAt] } (seconds * 10 ^ 9),
    .consume [(Runtime.relationKey (wakeAt seconds), ⟨seconds * 10 ^ 9, 1⟩)] (fun _ => "") (seconds * 10 ^ 9)]

/-- Whether the run ends in a state that meets `ok`. -/
def endsIn (run : List Turn) (ok : Witnessed → Bool) : Bool :=
  (Supervisor.create pairLaunch).toOption.any (fun s₀ => (Run.exec step ⟨s₀, {}⟩ run).any ok)

theorem exists_of_endsIn {run : List Turn} {ok : Witnessed → Bool} (h : endsIn run ok = true) :
    ∃ s₀ w, Supervisor.create pairLaunch = .ok s₀ ∧ Run.exec step ⟨s₀, {}⟩ run = some w ∧ ok w = true := by
  obtain ⟨s₀, hs₀, h⟩ := (Option.any_eq_true _ _).1 h
  obtain ⟨w, hw, h⟩ := (Option.any_eq_true _ _).1 h
  exact ⟨s₀, w, toOption_eq_some hs₀, hw, h⟩

/-- The pair is in every batch. -/
theorem evidence_contributes_pair : ∃ s₀ w, Supervisor.create pairLaunch = .ok s₀ ∧
    Run.exec step ⟨s₀, {}⟩ (pairAt 1 :: wakes 2 ++ [pairAt 3] ++ wakes 3) = some w ∧ w.ledger.accepted.length = 2 ∧
    Contributing 60 w := by
  have hends : endsIn (pairAt 1 :: wakes 2 ++ [pairAt 3] ++ wakes 3) (fun w => decide (w.ledger.accepted.length = 2)) =
      true := by decide +kernel
  have hloud : (Supervisor.create pairLaunch).toOption.all (fun s₀ => decide (Run.Obeys step NoneSilent ⟨s₀, {}⟩
      (pairAt 1 :: wakes 2 ++ [pairAt 3] ++ wakes 3))) = true := by decide +kernel
  obtain ⟨s₀, w, hcreate, hrun, hok⟩ := exists_of_endsIn hends
  rw [hcreate] at hloud
  exact ⟨s₀, w, hcreate, hrun, of_decide_eq_true hok,
    evidence_contributes rfl rfl hcreate (of_decide_eq_true hloud) hrun⟩

/-- **One empty batch takes the evidence of a second ago**: the pair was told of, both threads are sampled, and there is no
edge. -/
theorem silence_erases : ∃ s₀ w, Supervisor.create pairLaunch = .ok s₀ ∧
    Run.exec step ⟨s₀, {}⟩ (pairAt 1 :: wakes 2 ++ [.consume [] (fun _ => "") (3 * 10 ^ 9), pairAt 3]) = some w ∧
    w.ledger.accepted ≠ [] ∧ w.supervisor.graph.edges.1 = [] ∧ ¬ Contributing 60 w := by
  have hends : endsIn (pairAt 1 :: wakes 2 ++ [.consume [] (fun _ => "") (3 * 10 ^ 9), pairAt 3]) (fun w =>
      w.supervisor.graph.edges.1.isEmpty && (w.ledger.accepted.map (fun o => (o.fromTid, o.toTid, o.timestampNs)) ==
        [(1, 2, 2 * 10 ^ 9)] && decide (w.ledger.newest = 3 * 10 ^ 9 ∧ w.ledger.last.find? 1 = some (10, 3 * 10 ^ 9) ∧
          w.ledger.last.find? 2 = some (10, 3 * 10 ^ 9)))) = true := by decide +kernel
  obtain ⟨s₀, w, hcreate, hrun, hok⟩ := exists_of_endsIn hends
  simp only [Bool.and_eq_true, List.isEmpty_iff, beq_iff_eq, decide_eq_true_eq] at hok
  obtain ⟨hedges, haccepted, hnewest, hfirst, hsecond⟩ := hok
  obtain ⟨o, hone, hat⟩ := List.map_eq_singleton_iff.1 haccepted
  obtain ⟨hfrom, hto, htime⟩ : o.fromTid = 1 ∧ o.toTid = 2 ∧ o.timestampNs = 2 * 10 ^ 9 := by simpa using hat
  refine ⟨s₀, w, hcreate, hrun, by simp [hone], hedges, fun hall => ?_⟩
  have hrecent : w.ledger.Recent 60 1 ∧ w.ledger.Recent 60 2 :=
    ⟨⟨_, hfirst, by rw [hnewest]; omega⟩, ⟨_, hsecond, by rw [hnewest]; omega⟩⟩
  obtain ⟨os, -, history, d₁, d₂, -, hedge⟩ := hall o (by simp [hone]) (by rw [hnewest, htime]; omega)
    (by rw [hfrom]; exact hrecent.1) (by rw [hto]; exact hrecent.2)
  rw [hedges] at hedge
  cases hedge

end Witnessed
end AffinityGraph
