import AffinityGraph.DomainTwins
import AffinityGraph.ProfileRuns
import AffinityGraph.RuntimeLog
/-!
# ReplayRuns — when a domain replay finds what happened online

The log carries the windows and nothing of what happens between them: a solver that is reset or loses a placed thread
there has a past the replay does not know.  And the windows are carried as text.  A run is lossless when neither makes a
difference (`Recorder.Lossless`); then the replay of its log shows, window by window, what the solver proposed online
(`Recorder.replay_finds`).
-/
namespace AffinityGraph

/-! ## The threads on the lines -/

/-- The demand on a window's record. -/
def ThreadWindowRecord.toDemand (r : ThreadWindowRecord) : ThreadDemand where
  identity := r.identity
  group := r.group
  demand := r.demand
  confidence := r.confidence
  currentCpu := r.currentCpu

namespace GraphWindow

variable {g : GraphWindow}

/-- A record is that of the thread's own demand. -/
theorem recordOf_toDemand (hg : g.WellKeyed) {e : Tid × List ThreadSample} (he : e ∈ g.threads.entries) :
    (recordOf g.computeDemands e.1 e.2).map ThreadWindowRecord.toDemand = demandOf g e.2 := by
  obtain ⟨hne, hkey⟩ := hg e.1 e.2 (OrdMap.mem_entries.1 he)
  have hlast : e.2.getLast? = some (e.2.getLast hne) := List.getLast?_eq_some_getLast hne
  obtain ⟨d, hd⟩ : ∃ d, demandOf g e.2 = some d := by
    unfold demandOf
    rw [hlast]
    exact ⟨_, rfl⟩
  have hmem : d ∈ g.computeDemands := by
    unfold computeDemands
    rw [List.mem_insertionSort, List.mem_filterMap]
    exact ⟨e, he, hd⟩
  have htid : d.identity.tid = e.1 := demandOf_tid hg he hd
  have hfind : g.computeDemands.find? (fun x => decide (x.identity.tid = e.1)) = some d := by
    obtain ⟨d', hd'⟩ : ∃ d', g.computeDemands.find? (fun x => decide (x.identity.tid = e.1)) = some d' :=
      Option.isSome_iff_exists.1 (List.find?_isSome.2 ⟨d, hmem, decide_eq_true htid⟩)
    have htid' : d'.identity.tid = e.1 := by simpa using List.find?_some hd'
    have hsame : d' = d := List.inj_on_of_nodup_map (nodup_computeDemands hg) (List.mem_of_find?_eq_some hd') hmem
      (htid'.trans htid.symm)
    rw [hd', hsame]
  have hfields : d = { identity := (e.2.getLast hne).identity, group := d.group, demand := d.demand
                       confidence := d.confidence, currentCpu := (e.2.getLast hne).recentCpu } := by
    unfold demandOf at hd
    rw [hlast] at hd
    cases hd
    rfl
  unfold recordOf
  rw [List.head?_eq_some_head hne, hlast, hfind, hd]
  dsimp only
  rw [Option.map_some, hfields]
  rfl

/-- **The records of a window show its demands.** -/
theorem threadRecords_toDemand (hg : g.WellKeyed) (hc : g.Current) :
    g.demands.2.threadRecords.1.map ThreadWindowRecord.toDemand = g.demands.1 := by
  have hthreads : g.demands.2.threads = g.threads := by
    unfold demands
    split <;> rfl
  have hnext : g.demands.2.demands.1 = g.computeDemands := by
    rw [hc.demands.2.demands.1]
    unfold demands
    split <;> rfl
  have hshow : g.demands.2.threadRecords.1 = (g.threads.entries.filterMap (fun e => recordOf g.computeDemands e.1 e.2)).insertionSort
      (fun a b => a.identity.tid ≤ b.identity.tid) := by
    unfold threadRecords
    rw [← hnext, ← hthreads]
  have hsort := List.map_insertionSort (fun a b : ThreadWindowRecord => a.identity.tid ≤ b.identity.tid)
    (fun a b : ThreadDemand => a.identity.tid ≤ b.identity.tid) ThreadWindowRecord.toDemand
    (g.threads.entries.filterMap (fun e => recordOf g.computeDemands e.1 e.2)) (fun a _ b _ => Iff.rfl)
  rw [hshow, hc.demands.1, hsort, List.map_filterMap]
  unfold computeDemands
  congr 1
  exact List.filterMap_congr (fun e he => recordOf_toDemand hg he)

end GraphWindow

/-! ## Reading a window back -/

/-- The frame that a window's lines make. -/
def frameOf (window : WindowId) (timestampNs : Nat) (records : List ThreadWindowRecord) (edges : List RelationEdge)
    (planned : Bool) : ReplayFrame where
  windowId := window
  timestampNs := timestampNs
  planned := planned
  relationInputComplete := !decide (min relationLogLimit edges.length < edges.length)
  threads := records.map printedThread
  edges := (loggedEdges edges).map printedEdge
  allowedMasks := records.foldl (fun m record => m.insert record.identity.tid record.allowedCpus) ∅

namespace Reading

variable {r : Reading} {w : WindowId} {fs : List ReplayFrame} {f : ReplayFrame}

theorem atFrame_fresh (h : ∀ f ∈ r.frames, f.windowId ≠ w) (change : ReplayFrame → ReplayFrame) :
    r.atFrame w change = { r with frames := r.frames ++ [change { windowId := w }] } := by
  unfold atFrame
  rw [if_neg]
  rw [List.any_eq_true]
  rintro ⟨f, hf, he⟩
  exact h f hf (of_decide_eq_true he)

theorem atFrame_last (hfs : ∀ g ∈ fs, g.windowId ≠ w) (hf : f.windowId = w) (change : ReplayFrame → ReplayFrame) :
    atFrame { r with frames := fs ++ [f] } w change = { r with frames := fs ++ [change f] } := by
  have hany : (fs ++ [f]).any (fun g => decide (g.windowId = w)) = true :=
    List.any_eq_true.2 ⟨f, List.mem_append_right _ (List.mem_singleton_self f), decide_eq_true hf⟩
  have hothers : fs.map (fun g => if g.windowId = w then change g else g) = fs := by
    have hid : fs.map (fun g => if g.windowId = w then change g else g) = fs.map id :=
      List.map_congr_left (fun g hg => if_neg (hfs g hg))
    rw [hid, List.map_id]
  unfold atFrame
  dsimp only
  rw [if_pos hany, List.map_append, hothers, List.map_singleton, if_pos hf]

/-- Lines that each change the last frame, and leave its window. -/
theorem foldl_last {α : Type} (hfs : ∀ g ∈ fs, g.windowId ≠ w) (line : α → LogRecord) {change : α → ReplayFrame → ReplayFrame}
    (hline : ∀ (r : Reading) a, readRecord r (line a) = r.atFrame w (change a))
    (hstays : ∀ a g, (change a g).windowId = g.windowId) : ∀ (l : List α) {f : ReplayFrame}, f.windowId = w →
      (l.map line).foldl readRecord { r with frames := fs ++ [f] } =
        { r with frames := fs ++ [l.foldl (fun g a => change a g) f] }
  | [], _, _ => rfl
  | a :: l, f, hf => by
    rw [List.map_cons, List.foldl_cons, hline, atFrame_last hfs hf]
    exact foldl_last hfs line hline hstays l ((hstays a f).trans hf)

theorem foldl_threads : ∀ (records : List ThreadWindowRecord) (f : ReplayFrame),
    records.foldl (fun (g : ReplayFrame) record =>
      { g with
        threads := g.threads ++ [printedThread record]
        allowedMasks := g.allowedMasks.insert (printedThread record).identity.tid record.allowedCpus }) f =
      { f with
        threads := f.threads ++ records.map printedThread
        allowedMasks := records.foldl (fun m record => m.insert record.identity.tid record.allowedCpus) f.allowedMasks }
  | [], f => by simp
  | record :: records, f => by
    rw [List.foldl_cons, foldl_threads records]
    simp [printedThread]

theorem foldl_edges : ∀ (edges : List RelationEdge) (f : ReplayFrame),
    edges.foldl (fun (g : ReplayFrame) edge => { g with edges := g.edges ++ [printedEdge edge] }) f =
      { f with edges := f.edges ++ edges.map printedEdge }
  | [], f => by simp
  | edge :: edges, f => by
    rw [List.foldl_cons, foldl_edges edges]
    simp

/-- **The lines of a window are read as its frame.** -/
theorem foldl_window (hfresh : ∀ f ∈ r.frames, f.windowId ≠ w) (timestampNs : Nat) (records : List ThreadWindowRecord)
    (edges : List RelationEdge) (planned : Bool) :
    (windowRecords w timestampNs records edges ++ if planned then [LogRecord.plan w] else []).foldl readRecord r =
      { r with frames := r.frames ++ [frameOf w timestampNs records edges planned] } := by
  unfold windowRecords
  rw [List.cons_append, List.foldl_cons, List.append_assoc, List.foldl_append, List.cons_append]
  have hbegin : readRecord r (.solveWindowBegin w timestampNs) =
      { r with frames := r.frames ++ [{ windowId := w, timestampNs := timestampNs }] } := atFrame_fresh hfresh _
  rw [hbegin, foldl_last hfresh (fun record => .threadWindow w (printedThread record) record.allowedCpus)
    (fun _ _ => rfl) (fun _ _ => rfl) records rfl, foldl_threads, List.foldl_cons]
  have hsummary : ∀ (f : ReplayFrame) (truncated : Bool), f.windowId = w →
      readRecord { r with frames := r.frames ++ [f] } (.relationEdgeSummary w truncated) =
        { r with frames := r.frames ++ [{ f with relationInputComplete := !truncated }] } :=
    fun f truncated hf => atFrame_last hfresh hf _
  rw [hsummary _ _ rfl, List.foldl_append, foldl_last hfresh (fun edge => .relationEdge w (printedEdge edge))
    (fun _ _ => rfl) (fun _ _ => rfl) (loggedEdges edges) rfl, foldl_edges]
  cases planned with
  | false => simp [frameOf]
  | true =>
    rw [if_pos rfl, List.foldl_cons, List.foldl_nil]
    have hplan : ∀ f : ReplayFrame, f.windowId = w → readRecord { r with frames := r.frames ++ [f] } (.plan w) =
        { r with frames := r.frames ++ [{ f with planned := true }] } := fun f hf => atFrame_last hfresh hf _
    rw [hplan _ rfl]
    simp [frameOf]

/-! ### The topology -/

theorem foldl_cpus : ∀ (cpus : List Cpu) (r : Reading),
    (cpus.map (fun cpu => LogRecord.topologyCpu cpu true)).foldl readRecord r = { r with cpus := r.cpus ++ cpus }
  | [], r => by simp
  | cpu :: cpus, r => by
    rw [List.map_cons, List.foldl_cons, foldl_cpus cpus]
    simp [readRecord]

theorem foldl_distances : ∀ (entries : List ((Int ×ₗ Int) × ℚ)) (r : Reading), (∀ e ∈ entries, sixDecimals e.2 = e.2) →
    (entries.map (fun e => LogRecord.topologyEdge (ofLex e.1).1 (ofLex e.1).2 (sixDecimals e.2))).foldl readRecord r =
      { r with nodeDistance := entries.foldl (fun m e => m.insert e.1 e.2) r.nodeDistance }
  | [], _, _ => rfl
  | e :: entries, r, h => by
    rw [List.map_cons, List.foldl_cons, foldl_distances entries _ (fun x hx => h x (List.mem_cons_of_mem _ hx)),
      h e List.mem_cons_self]
    rfl

theorem foldl_topology {hardware : HardwareGraph} (h : ∀ e ∈ hardware.nodeDistance.entries, sixDecimals e.2 = e.2) :
    (topologyRecords hardware).foldl readRecord {} =
      { cpus := hardware.cpus, nodeDistance := hardware.nodeDistance } := by
  unfold topologyRecords
  rw [List.foldl_append, foldl_cpus, foldl_distances _ _ h]
  congr 1
  exact OrdMap.ofList_entries hardware.nodeDistance

end Reading

/-- **The reader's answer**, once the lines are gathered. -/
theorem readRuntimeLog_ok {log : List LogRecord} {hardware : HardwareGraph} {frames : List ReplayFrame}
    (hread : log.foldl readRecord {} = { cpus := hardware.cpus, nodeDistance := hardware.nodeDistance, frames := frames })
    (hcpus : hardware.cpus ≠ []) (hids : hardware.cpus.Pairwise (fun a b => a.id < b.id))
    (hplanned : frames.filter (·.planned) ≠ [])
    (hcomplete : ∀ f ∈ frames, f.relationInputComplete = true) :
    readRuntimeLog log = .ok (hardware.bare, frames.filter (·.planned)) := by
  have hsorted : hardware.cpus.insertionSort (fun a b => a.id ≤ b.id) = hardware.cpus :=
    (hids.imp (fun h => le_of_lt h)).insertionSort_eq
  have hdistinct : hardware.cpus.destutter (fun a b => a.id ≠ b.id) = hardware.cpus :=
    (List.destutter_eq_self_iff _ _).2 (hids.imp (fun h => ne_of_lt h)).isChain
  have hfind : (frames.filter (·.planned)).find? (fun f => !f.relationInputComplete) = none := by
    rw [List.find?_eq_none]
    intro f hf
    rw [hcomplete f (List.mem_filter.1 hf).1]
    simp
  unfold readRuntimeLog
  rw [hread]
  dsimp only
  rw [hsorted, hdistinct, if_neg (by simpa using hcpus), if_neg (by simpa using hplanned), hfind]
  rfl

/-! ## The edges on the lines -/

/-- All of the edges are logged when they fit. -/
theorem loggedEdges_perm {edges : List RelationEdge} (h : edges.length ≤ relationLogLimit) :
    (loggedEdges edges).Perm edges := by
  unfold loggedEdges
  rw [min_eq_right h, List.take_of_length_le (le_of_eq (List.length_insertionSort _ _))]
  exact List.perm_insertionSort _ _

theorem printedEdge_bare {e : RelationEdge} (h : sixDecimals e.score = e.score) : (printedEdge e).bare = e.bare := by
  unfold RelationEdge.bare printedEdge
  dsimp only
  rw [h]

/-! ## Settling a proposal -/

namespace NumaDomainSolver

/-- A proposal that is not taken up in full, or has something to do, is committed; the others are discarded. -/
def settles (p : NumaDomainProposal) (placement : OrdMap Tid Mask) : Bool :=
  !p.valid || (p.ready && (!p.actions.isEmpty || !p.releasedTids.isEmpty || decide (p.plannedMasks ≠ placement)))

theorem settles_of_ready {p : NumaDomainProposal} (hvalid : p.valid = true) (hready : p.ready = true)
    (placement : OrdMap Tid Mask) : settles p placement =
      !(p.actions.isEmpty && p.releasedTids.isEmpty && decide (p.plannedMasks = placement)) := by
  unfold settles
  rw [hvalid, hready, decide_not]
  cases p.actions.isEmpty <;> cases p.releasedTids.isEmpty <;> rfl

/-- The solver after a window that has no actuator. -/
def settle (s : NumaDomainSolver) (i : ProposeInput) : Outcome NumaDomainSolver :=
  if settles (proposalOf s i) s.placement then (proposed s i).commit (proposalOf s i) i.nowNs
  else .ok ((proposed s i).discard (proposalOf s i))

variable {times : List (Nat × Nat)} {s s' t : NumaDomainSolver} {i j : ProposeInput} {es : List RelationEdge} {now' : Nat}

theorem settle_outstanding (h : s.settle i = .ok t) : t.outstanding = none := by
  unfold settle at h
  split at h
  · unfold commit at h
    split at h
    · cases h
      rfl
    · cases h
  · cases h
    have hout : (proposed s i).outstanding.map (·.id) = some (proposalOf s i).id := rfl
    unfold discard
    rw [if_pos hout]

theorem settle_bare (s : NumaDomainSolver) (i : ProposeInput) : s.settle (bareInput i) = s.settle i := by
  unfold settle
  rw [proposalOf_bare, proposed_bare]
  rfl

theorem Twin.placement (h : Twin times s s') : s'.placement = s.placement := by
  rw [h.same]
  rfl

theorem Twin.outstanding (h : Twin times s s') : s'.outstanding = s.outstanding := by
  rw [h.same]
  rfl

theorem Twin.settle (h : Twin times s s') (hagree : Agree i.options.minimumDwellNs i.nowNs now' times)
    (hedges : (es.map RelationEdge.bare).Perm (i.edges.map RelationEdge.bare)) (hs : s.settle i = .ok t) :
    ∃ t', s'.settle (retold i es now') = .ok t' ∧ Twin ((i.nowNs, now') :: times) t t' := by
  obtain ⟨hproposal, htwin⟩ := h.propose hagree hedges
  unfold NumaDomainSolver.settle at hs ⊢
  rw [hproposal, h.placement]
  split at hs
  · rename_i hsettles
    rw [if_pos hsettles]
    exact htwin.commit List.mem_cons_self hs
  · rename_i hsettles
    rw [if_neg hsettles]
    cases hs
    exact ⟨_, rfl, htwin.discard _⟩

end NumaDomainSolver

section Replaying

open NumaDomainSolver

variable {hardware : HardwareGraph} {options : NumaDomainOptions} {s s' t : NumaDomainSolver} {frame : ReplayFrame}

theorem replayFrame_ok (hidle : s.outstanding = none) (hs : s.settle (frameInput hardware options frame) = .ok t) :
    replayFrame hardware options s frame =
      .ok (FrameResult.ofProposal frame.windowId (proposalOf s (frameInput hardware options frame)), t) := by
  have hpropose : s.propose (frameInput hardware options frame) =
      .ok (proposalOf s (frameInput hardware options frame), proposed s (frameInput hardware options frame)) := by
    unfold propose
    rw [hidle]
    rfl
  unfold replayFrame
  rw [hpropose]
  change Except.map _ (s.settle (frameInput hardware options frame)) = _
  rw [hs]
  rfl

/-- **A twin that reads the window from the log proposes what was proposed online.** -/
theorem replayFrame_twin {times : List (Nat × Nat)} (h : Twin times s s') (hidle : s.outstanding = none) {i : ProposeInput}
    {es : List RelationEdge} {now' : Nat}
    (hinput : bareInput (frameInput hardware options frame) = bareInput (retold i es now'))
    (hagree : Agree i.options.minimumDwellNs i.nowNs now' times)
    (hedges : (es.map RelationEdge.bare).Perm (i.edges.map RelationEdge.bare)) (hs : s.settle i = .ok t) :
    ∃ t', replayFrame hardware options s' frame = .ok (FrameResult.ofProposal frame.windowId (proposalOf s i), t') ∧
      Twin ((i.nowNs, now') :: times) t t' := by
  obtain ⟨t', ht', htwin⟩ := h.settle hagree hedges hs
  have hsettle : s'.settle (frameInput hardware options frame) = .ok t' := by
    rw [← settle_bare, hinput, settle_bare]
    exact ht'
  have hproposal : proposalOf s' (frameInput hardware options frame) = proposalOf s i := by
    rw [← proposalOf_bare, hinput, proposalOf_bare]
    exact (h.propose hagree hedges).1
  refine ⟨t', ?_, htwin⟩
  rw [replayFrame_ok (h.outstanding.trans hidle) hsettle, hproposal]

theorem replayFrom_snoc {results : List FrameResult} {result : FrameResult} :
    ∀ {frames : List ReplayFrame} {s₀ : NumaDomainSolver}, replayFrom hardware options s₀ frames = .ok (results, s) →
      replayFrame hardware options s frame = .ok (result, t) →
      replayFrom hardware options s₀ (frames ++ [frame]) = .ok (results ++ [result], t)
  | [], s₀, h, hf => by
    cases h
    simp only [List.nil_append, replayFrom, hf]
  | f :: frames, s₀, h, hf => by
    rw [replayFrom] at h
    rw [List.cons_append, replayFrom]
    split at h
    · cases h
    · split at h
      · cases h
      · rename_i s₁ hs₁ results' s₂ hs₂
        cases h
        rw [replayFrom_snoc hs₂ hf]
        rfl

end Replaying

/-! ## What the log does not carry -/

/-- What the domain solver of a replay depends on is left alone. -/
structure Supervisor.Keeps (s s' : Supervisor) : Prop where
  config : s'.config = s.config
  hardware : s'.hardware = s.hardware
  sequence : s'.solveWindowSequence = s.solveWindowSequence
  domainSolver : s'.domainSolver = s.domainSolver

namespace Recorder

/-- A reader finds on the window's lines what the window was solved with. -/
def Legible (i : ProposeInput) : Prop :=
  (∀ th ∈ i.threads, sixDecimals th.demand = th.demand ∧ escapedText th.group = th.group) ∧
  ∀ e ∈ i.edges, sixDecimals e.score = e.score

/-- The TIDs an input takes out of the domain solver. -/
def removedBy (s : Supervisor) : Input → List Tid
  | .bpf event _ => if event.kind = .taskExit then [event.tid] else []
  | .reconcile (some c) _ =>
    if c.samples.isEmpty || s.staticProfileEffective then [] else
    let r := c.samples.foldl Runtime.sampleThread { s.toRuntime with targetTgids := c.existing }
    r.lifecycle.keys.filter (fun t => !(c.samples.map (·.identity.tid)).contains t)
  | _ => []

/-- **What no step of a run may go against** for its log to be enough: the numbers and the names of a window that is
solved survive their printing, and its first line has a time that falls within the dwell of an earlier window's just when
the window's own does; between the windows no placed thread is removed, and a reset finds a new solver. -/
def Lossless (r : Recorder) (t : Tick) : Prop :=
  match t.input with
  | .solve now _ => r.supervisor.due now = true → r.supervisor.bpfGatePassed = true →
      Legible (r.supervisor.windowInput now).1 ∧
      NumaDomainSolver.Agree r.supervisor.config.domainOptions.minimumDwellNs now t.clockNs r.times
  | .shutdown => True
  | e => (∀ u ∈ removedBy r.supervisor e, u ∉ r.supervisor.domainSolver.placement) ∧
      (Host.restoresOn r.supervisor e = true → r.supervisor.domainSolver = {})

end Recorder

section Between

variable {s s' : Supervisor}

theorem NumaDomainSolver.foldl_removeThread_of_notMem : ∀ (gone : List Tid) (n : NumaDomainSolver),
    (∀ u ∈ gone, u ∉ n.placement) → gone.foldl NumaDomainSolver.removeThread n = n
  | [], _, _ => rfl
  | u :: gone, n, h => by
    have hsame : n.removeThread u = n := by
      have hplacement : n.placement.erase u = n.placement := by
        refine OrdMap.ext_find (fun k => ?_)
        rw [OrdMap.find?_erase]
        split
        · rename_i hk
          rw [← hk]
          exact (OrdMap.notMem_iff.1 (h u List.mem_cons_self)).symm
        · rfl
      unfold removeThread
      rw [hplacement]
    rw [List.foldl_cons, hsame]
    exact foldl_removeThread_of_notMem gone n (fun v hv => h v (List.mem_cons_of_mem _ hv))

theorem Supervisor.Keeps.of_pause (hnew : s.domainSolver = {}) (h : s.pause = .ok s') : s.Keeps s' := by
  obtain ⟨r, hr, rfl⟩ := Supervisor.pause_ok h
  obtain ⟨-, rfl⟩ := Runtime.pause_ok hr
  exact ⟨rfl, rfl, rfl, hnew.symm⟩

theorem Supervisor.Keeps.of_bpf (event : BpfEvent) (startSymbol : String)
    (hgone : ∀ u ∈ Recorder.removedBy s (.bpf event startSymbol), u ∉ s.domainSolver.placement)
    (h : s.handle (.bpf event startSymbol) = .ok s') : s.Keeps s' := by
  cases h
  dsimp only [Recorder.removedBy] at hgone
  unfold Runtime.handleBpfEvent
  have hrelation : s.Keeps { s with toRuntime := s.toRuntime.relate s.staticProfileEffective event } := by
    rcases s.toRuntime.relate_cases s.staticProfileEffective event with he | ⟨o, he⟩
    · rw [he]
      exact ⟨rfl, rfl, rfl, rfl⟩
    · rw [he]
      exact ⟨rfl, rfl, rfl, rfl⟩
  cases hkind : event.kind with
  | futex => exact hrelation
  | vfs => exact hrelation
  | taskFork => exact ⟨rfl, rfl, rfl, rfl⟩
  | taskExec => exact ⟨rfl, rfl, rfl, rfl⟩
  | taskExit =>
    rw [if_pos hkind] at hgone
    exact ⟨rfl, rfl, rfl, NumaDomainSolver.foldl_removeThread_of_notMem [event.tid] s.domainSolver hgone⟩
  | taskRename =>
    dsimp only [Runtime.threadRenamed]
    split <;> exact ⟨rfl, rfl, rfl, rfl⟩
  | affinity =>
    dsimp only [Runtime.applicationAffinity]
    split
    · exact ⟨rfl, rfl, rfl, rfl⟩
    · split <;> exact ⟨rfl, rfl, rfl, rfl⟩

theorem Supervisor.Keeps.of_failure {now : Nat} {c : Option Collected} (hc : c.all (fun c => c.samples.isEmpty) = true)
    (hnew : Host.restoresOn s (.reconcile c now) = true → s.domainSolver = {}) (h : s.collectorFailure now = .ok s') :
    s.Keeps s' := by
  unfold Host.restoresOn at hnew
  dsimp only at hnew
  obtain ⟨since, hsince, ⟨hlong, r, hr, rfl⟩ | ⟨-, rfl⟩⟩ := Supervisor.collectorFailure_ok h
  · rw [← hsince] at hnew
    have hreset := hnew (by simp only [hc, hlong.1, hlong.2, Bool.not_false, decide_true, Bool.and_self])
    obtain ⟨-, rfl⟩ := Runtime.pause_ok hr
    exact ⟨rfl, rfl, rfl, hreset.symm⟩
  · exact ⟨rfl, rfl, rfl, rfl⟩

theorem Supervisor.Keeps.of_sampled {c : Collected} {now : Nat} (hsamples : c.samples.isEmpty = false)
    (hgone : ∀ u ∈ Recorder.removedBy s (.reconcile (some c) now), u ∉ s.domainSolver.placement) :
    s.Keeps (s.sampled c) := by
  have hframe := s.sampled_frame c
  refine ⟨hframe.config, hframe.hardware, hframe.solveWindowSequence, ?_⟩
  have hsolver := (Runtime.foldl_sampleThread_frame c.samples { s.toRuntime with targetTgids := c.existing }).domainSolver
  dsimp only [Recorder.removedBy] at hgone
  unfold Supervisor.sampled
  dsimp only
  split
  · exact hsolver
  · rename_i hstatic
    rw [hsamples, Bool.false_or, if_neg hstatic] at hgone
    dsimp only [Runtime.sweep]
    rw [hsolver]
    exact NumaDomainSolver.foldl_removeThread_of_notMem _ s.domainSolver hgone

theorem Supervisor.Keeps.of_reconcile {c : Option Collected} {now : Nat}
    (hgone : ∀ u ∈ Recorder.removedBy s (.reconcile c now), u ∉ s.domainSolver.placement)
    (hnew : Host.restoresOn s (.reconcile c now) = true → s.domainSolver = {})
    (h : s.handle (.reconcile c now) = .ok s') : s.Keeps s' := by
  obtain ⟨hempty, hf⟩ | ⟨c, rfl, hsamples, stopped, last, rfl⟩ := Supervisor.reconcileAndSample_ok h
  · exact .of_failure hempty hnew hf
  · have hkeeps := Supervisor.Keeps.of_sampled hsamples hgone
    obtain ⟨kernel, actuator, hbound⟩ := Supervisor.bindProfile_eq (s.sampled c) (s.matchSamples c.samples)
    rw [hbound]
    exact ⟨hkeeps.config, hkeeps.hardware, hkeeps.sequence, hkeeps.domainSolver⟩

/-- **Between the windows of a lossless run the solver stays as it is.** -/
theorem Recorder.Lossless.keeps {r : Recorder} {t : Tick} (hlossless : r.Lossless t)
    (hbetween : ∀ now dirtyTids, t.input ≠ .solve now dirtyTids) (h : r.supervisor.handle t.input = .ok s') :
    r.supervisor.Keeps s' := by
  unfold Recorder.Lossless at hlossless
  cases hinput : t.input with
  | outside kernel =>
    rw [hinput] at h
    cases h
    exact ⟨rfl, rfl, rfl, rfl⟩
  | bpf event startSymbol =>
    rw [hinput] at h hlossless
    exact .of_bpf event startSymbol hlossless.1 h
  | retain relations =>
    rw [hinput] at h
    cases h
    exact ⟨rfl, rfl, rfl, rfl⟩
  | health valid windowReady lossRatio =>
    rw [hinput] at h
    cases h
    exact ⟨rfl, rfl, rfl, rfl⟩
  | fatal message =>
    rw [hinput] at h hlossless
    obtain ⟨r₀, hr₀, rfl⟩ := Supervisor.triggerFatal_ok h
    obtain ⟨-, ⟨-, rfl⟩ | ⟨hfirst, r₁, hr₁, rfl⟩⟩ := Runtime.triggerFatal_ok hr₀
    · exact ⟨rfl, rfl, rfl, rfl⟩
    · obtain ⟨-, rfl⟩ := Runtime.pause_ok hr₁
      exact ⟨rfl, rfl, rfl, (hlossless.2 (decide_eq_true hfirst)).symm⟩
  | pause =>
    rw [hinput] at h hlossless
    exact .of_pause (hlossless.2 rfl) h
  | resume =>
    rw [hinput] at h
    cases h
    exact ⟨rfl, rfl, rfl, rfl⟩
  | reconcile c now =>
    rw [hinput] at h hlossless
    exact .of_reconcile hlossless.1 hlossless.2 h
  | solve now dirtyTids => exact absurd hinput (hbetween now dirtyTids)
  | shutdown =>
    rw [hinput] at h
    cases h
    exact ⟨rfl, rfl, rfl, rfl⟩

end Between

/-! ## A window of a run in plan mode -/

namespace Supervisor

open NumaDomainSolver

variable {s s' : Supervisor} {now : Nat} {dirtyTids : OrdSet Tid}

/-- A window proposes. -/
def Plans (s : Supervisor) (now : Nat) : Prop :=
  s.staticProfileEffective = false ∧ s.due now = true ∧ s.mutexHeld = false ∧ s.bpfGatePassed = true ∧
    s.domainSolver.outstanding = none

/-- What a solve window leaves behind in plan mode. -/
inductive PlanExit (s : Supervisor) (now : Nat) (s' : Supervisor) : Prop
  | early (due : s.due now = false) (keeps : s.Keeps s')
  | unsolved (due : s.due now = true) (free : s.mutexHeld = false) (unplanned : ¬ s.Plans now)
      (config : s'.config = s.config) (hardware : s'.hardware = s.hardware)
      (sequence : s'.solveWindowSequence = s.solveWindowSequence + 1) (domainSolver : s'.domainSolver = s.domainSolver)
  | planned (plans : s.Plans now) (config : s'.config = s.config) (hardware : s'.hardware = s.hardware)
      (sequence : s'.solveWindowSequence = s.solveWindowSequence + 1)
      (settle : s.domainSolver.settle (s.windowInput now).1 = .ok s'.domainSolver)

theorem solveNumaDomains_plan {r r' : Runtime} {i : ProposeInput} (hmode : r.config.mode = .plan)
    (hgate : r.bpfGatePassed = true) (h : r.solveNumaDomains i = .ok r') :
    r.domainSolver.outstanding = none ∧ r'.config = r.config ∧ r'.hardware = r.hardware ∧
      r'.solveWindowSequence = r.solveWindowSequence ∧ r.domainSolver.settle i = .ok r'.domainSolver := by
  unfold Runtime.solveNumaDomains at h
  rw [hgate] at h
  simp only [Bool.not_true, Bool.false_eq_true, if_false] at h
  split at h
  · cases h
  · rename_i p n hpropose
    obtain ⟨hidle, rfl, rfl⟩ := propose_ok hpropose
    refine ⟨hidle, ?_⟩
    have hcommit : ∀ r₁ : Runtime, r₁.commitProposal (proposalOf r.domainSolver i) i.nowNs = .ok r' →
        r₁.config = r.config → r₁.hardware = r.hardware → r₁.solveWindowSequence = r.solveWindowSequence →
        r₁.domainSolver = proposed r.domainSolver i →
        settles (proposalOf r.domainSolver i) r.domainSolver.placement = true →
        r'.config = r.config ∧ r'.hardware = r.hardware ∧ r'.solveWindowSequence = r.solveWindowSequence ∧
          r.domainSolver.settle i = .ok r'.domainSolver := by
      intro r₁ hc hconfig hhardware hsequence hsolver hsettles
      unfold Runtime.commitProposal at hc
      split at hc
      · rename_i n hn
        cases hc
        rw [hsolver] at hn
        refine ⟨hconfig, hhardware, hsequence, ?_⟩
        unfold NumaDomainSolver.settle
        rw [if_pos hsettles]
        exact hn
      · cases hc
    have hdiscard : settles (proposalOf r.domainSolver i) r.domainSolver.placement = false →
        r.domainSolver.settle i = .ok ((proposed r.domainSolver i).discard (proposalOf r.domainSolver i)) := by
      intro hsettles
      unfold NumaDomainSolver.settle
      rw [hsettles]
      rfl
    split at h
    · rename_i hvalid
      unfold Runtime.solveInvalid at h
      rw [if_neg (by simp [hmode])] at h
      exact hcommit _ h rfl rfl rfl rfl (by simp [settles, hvalid])
    · rename_i hvalid
      split at h
      · rename_i hready
        cases h
        refine ⟨rfl, rfl, rfl, hdiscard ?_⟩
        have hunready : (proposalOf r.domainSolver i).ready = false := by simpa using hready
        have hsound : (proposalOf r.domainSolver i).valid = true := by simpa using hvalid
        simp [settles, hunready, hsound]
      · rename_i hready
        have hsettles := settles_of_ready (p := proposalOf r.domainSolver i) (by simpa using hvalid) (by simpa using hready)
          r.domainSolver.placement
        split at h
        · rename_i hnothing
          cases h
          refine ⟨rfl, rfl, rfl, hdiscard ?_⟩
          rw [hsettles, Bool.not_eq_false']
          exact hnothing
        · rename_i hsomething
          refine hcommit _ h rfl rfl rfl rfl ?_
          rw [hsettles, Bool.not_eq_true', ← Bool.not_eq_true]
          exact hsomething

/-- **Every way out of a solve window in plan mode.** -/
theorem maybeSolve_plan (hmode : s.config.mode = .plan) (hkind : s.config.solver = .numaDomain)
    (h : s.maybeSolve now dirtyTids = .ok s') : s.PlanExit now s' := by
  obtain ⟨hstatic, hheld⟩ | ⟨hstatic, r, hr, rfl⟩ := maybeSolve_ok h
  · have hunplanned : ¬ s.Plans now := fun hp => Bool.false_ne_true (hp.1.symm.trans hstatic)
    obtain ⟨hdue, rfl⟩ | ⟨hdue, hfree, rfl⟩ := hheld
    · exact .early hdue ⟨rfl, rfl, rfl, rfl⟩
    · exact .unsolved hdue hfree hunplanned rfl rfl rfl rfl
  · obtain ⟨hdue, rfl⟩ | ⟨hdue, hfree, r₁, hr₁, rfl⟩ := Runtime.maybeSolve_domains (by simp [hmode]) hkind hr
    · exact .early hdue ⟨rfl, rfl, rfl, rfl⟩
    · by_cases hgate : s.bpfGatePassed = true
      · obtain ⟨hidle, hconfig, hhardware, hsequence, hsettle⟩ :=
          solveNumaDomains_plan (r := s.toRuntime.openWindow now) hmode hgate hr₁
        exact .planned ⟨hstatic, hdue, hfree, hgate, hidle⟩ hconfig hhardware hsequence hsettle
      · have hclosed : (!(s.toRuntime.openWindow now).bpfGatePassed) = true := by
          change (!s.bpfGatePassed) = true
          simpa using hgate
        unfold Runtime.solveNumaDomains at hr₁
        rw [if_pos hclosed] at hr₁
        cases hr₁
        exact .unsolved hdue hfree (fun hp => hgate hp.2.2.2.1) rfl rfl rfl rfl

end Supervisor

/-! ## Runs -/

/-- The line says that edges were left out. -/
def LogRecord.truncates : LogRecord → Bool
  | .relationEdgeSummary _ truncated => truncated
  | _ => false

/-- No window of the log has left edges out. -/
def Complete (log : List LogRecord) : Prop := ∀ x ∈ log, x.truncates = false

namespace Recorder

open NumaDomainSolver

variable {r : Recorder} {s' : Supervisor} {t : Tick} {now : Nat}

/-- The records of the window. -/
def records (r : Recorder) : List ThreadWindowRecord := r.supervisor.graph.demands.2.threadRecords.1

/-- The frame that a reader makes of the window. -/
def frame (r : Recorder) (now clockNs : Nat) : ReplayFrame :=
  frameOf r.nextWindow clockNs r.records (r.supervisor.windowInput now).1.edges (r.planOf now).isSome

theorem planOf_of_plans (hmode : r.supervisor.config.mode = .plan) (hkind : r.supervisor.config.solver = .numaDomain)
    (h : r.supervisor.Plans now) :
    r.planOf now = some (proposalOf r.supervisor.domainSolver (r.supervisor.windowInput now).1) := by
  obtain ⟨hstatic, hdue, hfree, hgate, hidle⟩ := h
  have hgate' : (r.supervisor.openWindow now).bpfGatePassed = true := hgate
  unfold planOf Supervisor.proposes Runtime.windowProposal Runtime.domainProposal propose
  simp [hstatic, hdue, hfree, hmode, hkind, hgate', hidle, Except.toOption]

theorem planOf_of_not_plans (hkind : r.supervisor.config.solver = .numaDomain) (h : ¬ r.supervisor.Plans now) :
    r.planOf now = none := by
  unfold planOf
  cases hp : r.supervisor.proposes now ∅ with
  | none => rfl
  | some p =>
    refine absurd ?_ h
    unfold Supervisor.proposes at hp
    split at hp
    · cases hp
    · rename_i hstatic
      unfold Runtime.windowProposal at hp
      split at hp
      · cases hp
      · rename_i hopen
        rw [hkind] at hp
        unfold Runtime.domainProposal at hp
        dsimp only at hp
        split at hp
        · cases hp
        · rename_i hgate
          obtain ⟨⟨q, n⟩, hq, -⟩ := Option.map_eq_some_iff.1 hp
          have hidle := (propose_ok (toOption_eq_some hq)).1
          have hgate' : r.supervisor.bpfGatePassed = true := by
            have hpassed : (r.supervisor.openWindow now).bpfGatePassed = true := by simpa using hgate
            exact hpassed
          simp only [Bool.or_eq_true, not_or, Bool.not_eq_true', Bool.not_eq_true, Bool.not_eq_false] at hopen
          exact ⟨by simpa using hstatic, hopen.1.1, hopen.1.2, hgate', hidle⟩

/-- A window that is solved is on its lines what it was solved with. -/
theorem frameInput_bare {clockNs : Nat} (hsound : Runtime.Sound r.supervisor.toRuntime)
    (hlegible : Legible (r.supervisor.windowInput now).1) :
    bareInput (frameInput r.supervisor.hardware.bare r.supervisor.config.domainOptions (r.frame now clockNs)) =
      bareInput (retold (r.supervisor.windowInput now).1 (r.frame now clockNs).edges clockNs) := by
  have hdemands : r.records.map ThreadWindowRecord.toDemand = (r.supervisor.windowInput now).1.threads :=
    GraphWindow.threadRecords_toDemand hsound.keyed hsound.current
  have hthreads : (r.records.map printedThread).map ThreadDemand.bare =
      (r.supervisor.windowInput now).1.threads.map ThreadDemand.bare := by
    rw [← hdemands, List.map_map, List.map_map]
    refine List.map_congr_left (fun record hrecord => ?_)
    have hmem : record.toDemand ∈ (r.supervisor.windowInput now).1.threads := by
      rw [← hdemands]
      exact List.mem_map_of_mem hrecord
    obtain ⟨hdemand, hgroup⟩ := hlegible.1 _ hmem
    have hdemand' : sixDecimals record.demand = record.demand := hdemand
    have hgroup' : escapedText record.group = record.group := hgroup
    show (printedThread record).bare = record.toDemand.bare
    unfold printedThread ThreadWindowRecord.toDemand ThreadDemand.bare
    rw [hdemand', hgroup']
  unfold bareInput frameInput retold
  dsimp only
  congr 1

theorem frame_edges {clockNs : Nat} (hlegible : Legible (r.supervisor.windowInput now).1)
    (hfit : (r.supervisor.windowInput now).1.edges.length ≤ relationLogLimit) :
    ((r.frame now clockNs).edges.map RelationEdge.bare).Perm
      ((r.supervisor.windowInput now).1.edges.map RelationEdge.bare) := by
  have hperm := loggedEdges_perm hfit
  have hprinted : (r.frame now clockNs).edges.map RelationEdge.bare =
      (loggedEdges (r.supervisor.windowInput now).1.edges).map RelationEdge.bare := by
    show ((loggedEdges _).map printedEdge).map RelationEdge.bare = _
    rw [List.map_map]
    exact List.map_congr_left (fun e he => printedEdge_bare (hlegible.2 e (hperm.mem_iff.1 he)))
  rw [hprinted]
  exact hperm.map RelationEdge.bare

/-- **What a lossless run keeps**: the log reads as the hardware and one frame for each window, and a new solver that is
told the planned ones proposes what was proposed online and ends as the twin of the solver online. -/
structure Told (hardware₀ : HardwareGraph) (options₀ : NumaDomainOptions) (r : Recorder) : Prop where
  mode : r.supervisor.config.mode = .plan
  kind : r.supervisor.config.solver = .numaDomain
  options : r.supervisor.config.domainOptions = options₀
  hardware : r.supervisor.hardware = hardware₀
  sound : Runtime.Sound r.supervisor.toRuntime
  idle : r.supervisor.domainSolver.outstanding = none
  read : ∃ frames, r.log.foldl readRecord {} =
      { cpus := hardware₀.cpus, nodeDistance := hardware₀.nodeDistance, frames := frames } ∧
    (∀ f ∈ frames, f.windowId.sequence ≤ r.supervisor.solveWindowSequence) ∧
    (Complete r.log → (∀ f ∈ frames, f.relationInputComplete = true) ∧
      ∃ n, replayFrom hardware₀.bare options₀ {} (frames.filter (·.planned)) = .ok (r.planned, n) ∧
        Twin r.times r.supervisor.domainSolver n)

section Steps

variable {hardware : HardwareGraph} {options : NumaDomainOptions} {frames : List ReplayFrame}

/-- A step that writes nothing. -/
theorem Told.silent (h : r.Told hardware options) (hkeeps : r.supervisor.Keeps s')
    (hsound : Runtime.Sound s'.toRuntime) : Told hardware options { r with supervisor := s' } where
  mode := by
    rw [hkeeps.config]
    exact h.mode
  kind := by
    rw [hkeeps.config]
    exact h.kind
  options := by
    rw [hkeeps.config]
    exact h.options
  hardware := hkeeps.hardware.trans h.hardware
  sound := hsound
  idle := by
    rw [hkeeps.domainSolver]
    exact h.idle
  read := by
    dsimp only
    rw [hkeeps.sequence, hkeeps.domainSolver]
    exact h.read

/-- The lines of a window add its frame. -/
theorem read_window {reading : Reading} (hread : r.log.foldl readRecord {} = reading)
    (hbound : ∀ f ∈ reading.frames, f.windowId.sequence ≤ r.supervisor.solveWindowSequence)
    (hdue : r.supervisor.due now = true) (hfree : r.supervisor.mutexHeld = false) (clockNs : Nat) :
    (r.log ++ r.linesOf now clockNs).foldl readRecord {} =
      { reading with frames := reading.frames ++ [r.frame now clockNs] } := by
  have hfresh : ∀ f ∈ reading.frames, f.windowId ≠ r.nextWindow := by
    intro f hf hid
    have hle := hbound f hf
    rw [hid] at hle
    exact absurd hle (Nat.not_succ_le_self _)
  rw [List.foldl_append, hread]
  unfold linesOf
  rw [if_neg (by simp [hdue, hfree])]
  exact Reading.foldl_window hfresh clockNs r.records (r.supervisor.windowInput now).1.edges (r.planOf now).isSome

/-- Every edge of a window of a complete log is on a line. -/
theorem fits_of_complete (hdue : r.supervisor.due now = true) (hfree : r.supervisor.mutexHeld = false) {clockNs : Nat}
    (h : Complete (r.log ++ r.linesOf now clockNs)) :
    (r.supervisor.windowInput now).1.edges.length ≤ relationLogLimit := by
  have hline : LogRecord.relationEdgeSummary r.nextWindow (decide (min relationLogLimit
      (r.supervisor.windowInput now).1.edges.length < (r.supervisor.windowInput now).1.edges.length)) ∈
      r.linesOf now clockNs := by
    unfold linesOf windowRecords
    rw [if_neg (by simp [hdue, hfree])]
    simp
  have hsummary := h _ (List.mem_append_right _ hline)
  have hall := of_decide_eq_false hsummary
  omega

theorem frame_complete {clockNs : Nat} (hfit : (r.supervisor.windowInput now).1.edges.length ≤ relationLogLimit) :
    (r.frame now clockNs).relationInputComplete = true := by
  have hall : ¬ min relationLogLimit (r.supervisor.windowInput now).1.edges.length <
      (r.supervisor.windowInput now).1.edges.length := by omega
  show (!decide _) = true
  rw [decide_eq_false hall]
  rfl

/-- The frames that are read after a window, and their numbers. -/
theorem bound_window (hbound : ∀ f ∈ frames, f.windowId.sequence ≤ r.supervisor.solveWindowSequence)
    (hsequence : s'.solveWindowSequence = r.supervisor.solveWindowSequence + 1) (clockNs : Nat) :
    ∀ f ∈ frames ++ [r.frame now clockNs], f.windowId.sequence ≤ s'.solveWindowSequence := by
  intro f hf
  rw [hsequence]
  rcases List.mem_append.1 hf with hf | hf
  · exact le_trans (hbound f hf) (Nat.le_succ _)
  · rw [List.mem_singleton.1 hf]
    exact le_refl _

/-- **A solve window.** -/
theorem Told.solve (h : r.Told hardware options) {dirtyTids : OrdSet Tid} (hinput : t.input = .solve now dirtyTids)
    (hlossless : r.Lossless t) (hs : r.supervisor.maybeSolve now dirtyTids = .ok s')
    (hsound : Runtime.Sound s'.toRuntime) : Told hardware options (r.record t s') := by
  have hrecord : r.record t s' =
      { r with
        supervisor := s'
        log := r.log ++ r.linesOf now t.clockNs
        planned := r.planned ++ ((r.planOf now).map (FrameResult.ofProposal r.nextWindow)).toList
        times := if (r.planOf now).isSome then (now, t.clockNs) :: r.times else r.times } := by
    unfold record
    rw [hinput]
  obtain ⟨frames, hread, hbound, htold⟩ := h.read
  rw [hrecord]
  cases Supervisor.maybeSolve_plan h.mode h.kind hs with
  | early hdue hkeeps =>
    have hplan : r.planOf now = none := planOf_of_not_plans h.kind (fun hp => by simp [hp.2.1] at hdue)
    have hlines : r.linesOf now t.clockNs = [] := by
      unfold linesOf
      rw [if_pos (by simp [hdue])]
    rw [hplan, hlines]
    simpa using h.silent hkeeps hsound
  | unsolved hdue hfree hunplanned hconfig hhardware hsequence hsolver =>
    have hplan : r.planOf now = none := planOf_of_not_plans h.kind hunplanned
    have hunmarked : (r.frame now t.clockNs).planned = false := congrArg Option.isSome hplan
    have hlog := read_window hread hbound hdue hfree t.clockNs
    refine ⟨hconfig ▸ h.mode, hconfig ▸ h.kind, hconfig ▸ h.options, hhardware.trans h.hardware, hsound, ?_,
      _, hlog, bound_window hbound hsequence t.clockNs, fun hcomplete => ?_⟩
    · exact hsolver ▸ h.idle
    · obtain ⟨hframes, n, hreplay, htwin⟩ := htold (fun x hx => hcomplete x (List.mem_append_left _ hx))
      refine ⟨fun f hf => ?_, n, ?_, ?_⟩
      · rcases List.mem_append.1 hf with hf | hf
        · exact hframes f hf
        · rw [List.mem_singleton.1 hf]
          exact frame_complete (fits_of_complete hdue hfree hcomplete)
      · rw [hplan, List.filter_append, List.filter_singleton, hunmarked]
        simpa using hreplay
      · rw [hplan]
        dsimp only
        rw [hsolver]
        exact htwin
  | planned hplans hconfig hhardware hsequence hsettle =>
    have hplan := planOf_of_plans h.mode h.kind hplans
    have hmarked : (r.frame now t.clockNs).planned = true := congrArg Option.isSome hplan
    obtain ⟨-, hdue, hfree, hgate, -⟩ := hplans
    have hlog := read_window hread hbound hdue hfree t.clockNs
    unfold Lossless at hlossless
    rw [hinput] at hlossless
    obtain ⟨hlegible, hagree⟩ := hlossless hdue hgate
    refine ⟨hconfig ▸ h.mode, hconfig ▸ h.kind, hconfig ▸ h.options, hhardware.trans h.hardware, hsound,
      settle_outstanding hsettle, _, hlog, bound_window hbound hsequence t.clockNs, fun hcomplete => ?_⟩
    obtain ⟨hframes, n, hreplay, htwin⟩ := htold (fun x hx => hcomplete x (List.mem_append_left _ hx))
    have hfit := fits_of_complete hdue hfree hcomplete
    obtain ⟨n', hframe, htwin'⟩ := replayFrame_twin htwin h.idle (frameInput_bare h.sound hlegible) hagree
      (frame_edges hlegible hfit) hsettle
    rw [h.hardware, h.options] at hframe
    refine ⟨fun f hf => ?_, n', ?_, ?_⟩
    · rcases List.mem_append.1 hf with hf | hf
      · exact hframes f hf
      · rw [List.mem_singleton.1 hf]
        exact frame_complete hfit
    · rw [hplan, List.filter_append, List.filter_singleton, hmarked]
      exact replayFrom_snoc hreplay hframe
    · rw [hplan]
      exact htwin'

/-- **Every step of a lossless run keeps it.** -/
theorem Told.step {r' : Recorder} (h : r.Told hardware options) (hlossless : r.Lossless t) (hs : r.step t = some r') :
    r'.Told hardware options := by
  obtain ⟨s', hs', rfl⟩ := Option.map_eq_some_iff.1 hs
  have hhandle := (Supervisor.step_handle hs').2
  have hsound := Supervisor.sound_handle h.sound hhandle
  by_cases hsolve : ∃ now dirtyTids, t.input = .solve now dirtyTids
  · obtain ⟨now, dirtyTids, hinput⟩ := hsolve
    rw [hinput] at hhandle
    exact h.solve hinput hlossless hhandle hsound
  · have hbetween : ∀ now dirtyTids, t.input ≠ .solve now dirtyTids := fun now dirtyTids hinput =>
      hsolve ⟨now, dirtyTids, hinput⟩
    have hrecord : r.record t s' = { r with supervisor := s' } := by
      unfold record
      split
      · rename_i now dirtyTids hinput
        exact absurd hinput (hbetween now dirtyTids)
      · rfl
    rw [hrecord]
    exact h.silent (hlossless.keeps hbetween hhandle) hsound

end Steps

/-- **The replay of a log finds what happened online**, window by window, for every lossless run in plan mode. -/
theorem replay_finds {l : Launch} {s₀ : Supervisor} (hd : l.hardware.Discovered) (hcpus : l.hardware.cpus ≠ [])
    (hids : l.hardware.cpus.Pairwise (fun a b => a.id < b.id))
    (hdistances : ∀ e ∈ l.hardware.nodeDistance.entries, sixDecimals e.2 = e.2)
    (hstart : Supervisor.create l = .ok s₀) (hmode : s₀.config.mode = .plan) (hkind : s₀.config.solver = .numaDomain)
    {instanceId : Nat} {run : List Tick} (hlossless : Run.Obeys step Lossless (start s₀ instanceId) run) {r : Recorder}
    (hrun : Run.exec step (start s₀ instanceId) run = some r) (hcomplete : Complete r.log) (hplanned : r.planned ≠ []) :
    domainReplay r.log l.config.domainOptions = .ok r.planned := by
  obtain ⟨hoptions, hhardware, hnew⟩ := Supervisor.create_domains hstart
  have hstarted : (start s₀ instanceId).Told l.hardware l.config.domainOptions := by
    refine ⟨hmode, hkind, hoptions, hhardware, Supervisor.sound_create hd hstart, ?_, [], ?_, fun f hf => absurd hf
      List.not_mem_nil, fun _ => ⟨fun f hf => absurd hf List.not_mem_nil, {}, rfl, ?_⟩⟩
    · show s₀.domainSolver.outstanding = none
      rw [hnew]
    · show (topologyRecords s₀.hardware).foldl readRecord {} = _
      rw [hhardware]
      exact Reading.foldl_topology hdistances
    · show Twin [] s₀.domainSolver {}
      rw [hnew]
      exact ⟨rfl, fun _ => .none, fun _ => .none⟩
  have htold := hlossless.invariant (fun r : Recorder => r.Told l.hardware l.config.domainOptions)
    (fun _ _ _ h hok hs => h.step hok hs) hstarted hrun
  obtain ⟨frames, hread, -, htold⟩ := htold.read
  obtain ⟨hframes, n, hreplay, -⟩ := htold hcomplete
  have hsome : frames.filter (·.planned) ≠ [] := by
    intro hnone
    rw [hnone] at hreplay
    exact hplanned (congrArg Prod.fst (Except.ok.inj hreplay)).symm
  unfold domainReplay
  rw [readRuntimeLog_ok hread hcpus hids hsome hframes]
  unfold replay
  dsimp only
  rw [hreplay]
  rfl

/-! ### Two workers in plan mode -/

deriving instance DecidableEq for NumaDomainSolver

instance Legible.decidable (i : ProposeInput) : Decidable (Legible i) :=
  inferInstanceAs (Decidable ((∀ th ∈ i.threads, sixDecimals th.demand = th.demand ∧ escapedText th.group = th.group) ∧
    ∀ e ∈ i.edges, sixDecimals e.score = e.score))

instance agreeDecidable (dwell now now' : Nat) (times : List (Nat × Nat)) : Decidable (Agree dwell now now' times) :=
  inferInstanceAs (Decidable (∀ x ∈ (0, 0) :: times, (subU64 now x.1 < dwell ↔ subU64 now' x.2 < dwell)))

instance Lossless.decidable (r : Recorder) (t : Tick) : Decidable (r.Lossless t) := by
  unfold Lossless
  split <;> infer_instance

instance completeDecidable (log : List LogRecord) : Decidable (Complete log) :=
  inferInstanceAs (Decidable (∀ x ∈ log, x.truncates = false))

/-- Two workers of process 9; a plan has to be confirmed once. -/
def planLaunch : Launch where
  config :=
    { mode := .plan
      solver := .numaDomain
      domainOptions :=
        { familyMinimumDemand := 1 / 4
          familyMinimumInternalRelation := 0
          familyMinimumSelfContainment := 0
          familyMinimumRelativeInternal := 0
          familyStabilityConfirmations := 1
          planConfirmations := 2 } }
  hardware := { cpus := [⟨0, 0, true⟩, ⟨1, 1, true⟩] }
  rootPid := 9
  kernel := { threads := OrdMap.ofList [(1, ⟨9, 10, OrdSet.ofList [0, 1]⟩), (2, ⟨9, 10, OrdSet.ofList [0, 1]⟩)] }
  horizonSeconds := 60
  libm := ⟨id, id⟩

def bothSampled (seconds : Nat) : Tick where
  input := .reconcile (some
    { existing := OrdSet.ofList [9]
      samples := [Watch.workerAt 1 seconds, Watch.workerAt 2 seconds]
      distinct := Watch.workers_distinct seconds }) (seconds * 10 ^ 9)

def oneSampled (x : ThreadSample) (seconds : Nat) : Tick where
  input := .reconcile (some
    { existing := OrdSet.ofList [9]
      samples := [x]
      distinct := List.nodup_singleton _ }) (seconds * 10 ^ 9)

def solved (seconds : Nat) : Tick where
  input := .solve (seconds * 10 ^ 9) ∅
  clockNs := seconds * 10 ^ 9

/-- Both are sampled twice, and a window is solved. -/
def firstWindow : List Tick := [{ input := .health true true 0 }, bothSampled 1, bothSampled 2, solved 3]

/-- The run ends so. -/
def endsIn (run : List Tick) (ok : Supervisor → Recorder → Bool) : Bool :=
  (Supervisor.create planLaunch).toOption.any (fun s₀ => (Run.exec step (start s₀ 5) run).any (ok s₀))

theorem exists_of_endsIn {run : List Tick} {ok : Supervisor → Recorder → Bool} (h : endsIn run ok = true) :
    ∃ s₀ r, Supervisor.create planLaunch = .ok s₀ ∧ Run.exec step (start s₀ 5) run = some r ∧ ok s₀ r = true := by
  obtain ⟨s₀, hs₀, h⟩ := (Option.any_eq_true _ _).1 h
  obtain ⟨r, hr, h⟩ := (Option.any_eq_true _ _).1 h
  exact ⟨s₀, r, toOption_eq_some hs₀, hr, h⟩

/-- The second window confirms the plan, in the replay as online. -/
theorem replay_finds_both : ∃ s₀ r, Supervisor.create planLaunch = .ok s₀ ∧
    Run.exec step (start s₀ 5) (firstWindow ++ [solved 5]) = some r ∧ r.planned.map (·.ready) = [false, true] ∧
    domainReplay r.log planLaunch.config.domainOptions = .ok r.planned := by
  have hends : endsIn (firstWindow ++ [solved 5]) (fun s₀ r => decide (s₀.config.mode = .plan) &&
      decide (s₀.config.solver = .numaDomain) &&
      decide (Run.Obeys step Lossless (start s₀ 5) (firstWindow ++ [solved 5])) && decide (Complete r.log) &&
      decide (r.planned.map (·.ready) = [false, true])) = true := by decide +kernel
  obtain ⟨s₀, r, hs₀, hr, h⟩ := exists_of_endsIn hends
  simp only [Bool.and_eq_true, decide_eq_true_eq] at h
  obtain ⟨⟨⟨⟨hmode, hkind⟩, hlossless⟩, hcomplete⟩, hready⟩ := h
  have hplanned : r.planned ≠ [] := by
    intro hnone
    rw [hnone] at hready
    cases hready
  have hd : planLaunch.hardware.Discovered := ⟨by decide, by decide⟩
  refine ⟨s₀, r, hs₀, hr, hready, ?_⟩
  exact replay_finds hd (by decide) (by decide) (by decide) hs₀ hmode hkind hlossless hr hcomplete hplanned

/-- The replay shows other windows as ready than were ready online. -/
def Misses (run : List Tick) : Prop := ∃ s₀ r results, Supervisor.create planLaunch = .ok s₀ ∧ s₀.config.mode = .plan ∧
  s₀.config.solver = .numaDomain ∧ Run.exec step (start s₀ 5) run = some r ∧ Complete r.log ∧
  domainReplay r.log planLaunch.config.domainOptions = .ok results ∧
  results.map (fun f => (f.windowId, f.ready)) ≠ r.planned.map (fun f => (f.windowId, f.ready))

theorem misses_of_endsIn {run : List Tick} (h : endsIn run (fun s₀ r => decide (s₀.config.mode = .plan) &&
    decide (s₀.config.solver = .numaDomain) && decide (Complete r.log) &&
    (domainReplay r.log planLaunch.config.domainOptions).toOption.any (fun results =>
      decide (results.map (fun f => (f.windowId, f.ready)) ≠ r.planned.map (fun f => (f.windowId, f.ready))))) = true) :
    Misses run := by
  obtain ⟨s₀, r, hs₀, hr, h⟩ := exists_of_endsIn h
  simp only [Bool.and_eq_true, decide_eq_true_eq] at h
  obtain ⟨⟨⟨hmode, hkind⟩, hcomplete⟩, hother⟩ := h
  obtain ⟨results, hresults, hother⟩ := (Option.any_eq_true _ _).1 hother
  exact ⟨s₀, r, results, hs₀, hmode, hkind, hr, hcomplete, toOption_eq_some hresults, of_decide_eq_true hother⟩

/-- A third thread that has done nothing. -/
def stranger (seconds : Nat) : ThreadSample :=
  { Watch.workerAt 3 seconds with
    comm := "x"
    runtimeNs := 0 }

/-- A worker that has used a nanosecond a second less than a quarter of the time. -/
def nearlyQuarter (seconds : Nat) : ThreadSample :=
  { Watch.workerAt 1 seconds with
    runtimeNs := seconds * 249999999 }

/-- **A replay misses what happened**: when the supervisor was paused between the windows, when placed threads were
swept, when a demand was rounded up to the threshold. -/
theorem replay_misses : Misses (firstWindow ++ [{ input := .pause }, { input := .resume }, solved 5]) ∧
    Misses (firstWindow ++ [solved 5, oneSampled (stranger 66) 66, oneSampled (stranger 67) 67, solved 68]) ∧
    Misses [{ input := .health true true 0 }, oneSampled (nearlyQuarter 1) 1, oneSampled (nearlyQuarter 2) 2, solved 3,
      solved 5] :=
  ⟨misses_of_endsIn (by decide +kernel), misses_of_endsIn (by decide +kernel), misses_of_endsIn (by decide +kernel)⟩

end Recorder

end AffinityGraph
