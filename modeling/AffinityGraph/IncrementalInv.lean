import AffinityGraph.IncrementalRuns
import AffinityGraph.NodeFloors
/-!
# IncrementalInv — the representation invariant of the incremental solver

The maps of the solver keep step with each other: every thread has its identity, only threads are placed, exactly the
placed ones are pinned, and once there are initial targets every thread has one.  `Booked` is what holds at every point
of a call, also inside the loop that takes the window's threads in; at its end, and so in every reachable state, a solver
that is optimizing has placed every thread (`Represents`).
-/
namespace AffinityGraph

/-- What `discover` returns: the CPUs of a set, all online. -/
structure HardwareGraph.Discovered (h : HardwareGraph) : Prop where
  distinct : (h.cpus.map (·.id)).Nodup
  online : ∀ c ∈ h.cpus, c.online = true

def HardwareGraph.HasCpu (h : HardwareGraph) (cpu : Int) : Prop := ∃ c ∈ h.cpus, c.id = cpu ∧ c.online = true

namespace IncrementalSolver

/-! ## The CPUs of the envelope -/

section Hardware

variable {hardware : HardwareGraph}

theorem mem_cpusInNode {node cpu : Int} :
    cpu ∈ hardware.cpusInNode node ↔ ∃ c ∈ hardware.cpus, c.node = node ∧ c.online = true ∧ c.id = cpu := by
  unfold HardwareGraph.cpusInNode
  rw [List.mem_insertionSort, List.mem_map]
  simp [and_assoc]

theorem hasCpu_of_mem {node cpu : Int} (h : cpu ∈ hardware.cpusInNode node) : hardware.HasCpu cpu := by
  obtain ⟨c, hc, -, ho, hid⟩ := mem_cpusInNode.1 h
  exact ⟨c, hc, hid, ho⟩

theorem exists_cpuInNode (hd : hardware.Discovered) {node : Int} (hn : node ∈ hardware.nodes) :
    ∃ cpu, cpu ∈ hardware.cpusInNode node := by
  obtain ⟨c, hc, hnode⟩ := HardwareGraph.mem_nodes.1 hn
  exact ⟨c.id, mem_cpusInNode.2 ⟨c, hc, hnode, hd.online c hc, rfl⟩⟩

theorem cpuNode_of_mem (hd : hardware.Discovered) {node cpu : Int} (h : cpu ∈ hardware.cpusInNode node) :
    cpuNode hardware cpu = node := by
  obtain ⟨c, hc, hnode, ho, hid⟩ := mem_cpusInNode.1 h
  unfold cpuNode
  cases hf : hardware.cpus.find? (fun x => decide (x.id = cpu) && x.online) with
  | none =>
    have hno := List.find?_eq_none.1 hf c hc
    simp [hid, ho] at hno
  | some x =>
    have hx := List.mem_of_find?_eq_some hf
    have hxid : x.id = cpu := by
      have := List.find?_some hf
      simp at this
      exact this.1
    -- the ids are distinct, so the first match is the CPU itself
    have hxc : x = c := List.inj_on_of_nodup_map hd.distinct hx hc (hxid.trans hid.symm)
    dsimp only
    rw [hxc, hnode]

theorem nodes_ne_nil (h : hardware.cpus ≠ []) : hardware.nodes ≠ [] := by
  obtain ⟨c, cs, hcs⟩ := List.exists_cons_of_ne_nil h
  exact List.ne_nil_of_mem (HardwareGraph.mem_nodes.2 ⟨c, by simp [hcs], rfl⟩)

/-- **An arrival always gets a CPU of the envelope.** -/
theorem arrivalTarget_hasCpu (s : IncrementalSolver) {input : IncrementalInput} (hd : input.hardware.Discovered)
    (hc : input.hardware.cpus ≠ []) (adjacency : OrdMap Tid (List RelationEdge)) (thread : ThreadDemand) :
    ∃ cpu, arrivalTarget s input adjacency thread = some cpu ∧ input.hardware.HasCpu cpu := by
  obtain ⟨n, ns, hns⟩ := List.exists_cons_of_ne_nil (nodes_ne_nil hc)
  unfold arrivalTarget
  dsimp only
  set node := input.hardware.nodes.foldl (fun best n => if arrivalNodeScore s input adjacency thread n <
    arrivalNodeScore s input adjacency thread best then n else best) (input.hardware.nodes.headD (-1)) with hnode
  have hmem : node ∈ input.hardware.nodes := by
    have h := Community.foldl_pick_mem (fun n best => arrivalNodeScore s input adjacency thread n <
      arrivalNodeScore s input adjacency thread best) input.hardware.nodes (input.hardware.nodes.headD (-1))
    rcases List.mem_cons.1 h with h | h
    · rw [hnode, h, hns]
      simp
    · exact h
  obtain ⟨c, hcpu⟩ := exists_cpuInNode hd hmem
  have hne : input.hardware.cpusInNode node ≠ [] := List.ne_nil_of_mem hcpu
  rw [if_neg (by simpa using hne)]
  obtain ⟨cpu, hmin⟩ := Community.minElement_isSome
    (fun a b => decide (arrivalCpuScore s input thread a < arrivalCpuScore s input thread b)) hne
  exact ⟨cpu, hmin, hasCpu_of_mem (Community.minElement_mem hmin)⟩

end Hardware

/-! ## The invariant -/

/-- The initial target of a thread: an online CPU, and its node. -/
def Targeted (hardware : HardwareGraph) (s : IncrementalSolver) (t : Tid) : Prop :=
  ∃ cpu, s.initialTargetCpu.find? t = some cpu ∧ hardware.HasCpu cpu ∧
    s.initialTargetNode.find? t = some (cpuNode hardware cpu)

/-- The phases that have initial targets. -/
def Pinning (s : IncrementalSolver) : Prop := s.phase = .initialPinning ∨ s.phase = .optimizing

/-- **The representation invariant.** -/
structure Represents (hardware : HardwareGraph) (s : IncrementalSolver) : Prop where
  identities : ∀ t, s.identities.find? t = (s.threads.find? t).map (·.identity)
  pinned : ∀ t, t ∈ s.pinned ↔ t ∈ s.placement
  placed : ∀ t ∈ s.placement, t ∈ s.threads
  moved : ∀ t ∈ s.lastMovedNs, t ∈ s.placement
  targets : s.Pinning → ∀ t ∈ s.threads, Targeted hardware s t
  settled : s.phase = .optimizing → ∀ t ∈ s.threads, t ∈ s.placement

/-- What holds at every point of a call. -/
structure Booked (hardware : HardwareGraph) (s : IncrementalSolver) : Prop where
  identities : ∀ t, s.identities.find? t = (s.threads.find? t).map (·.identity)
  keyed : ∀ t th, s.threads.find? t = some th → th.identity.tid = t
  pinned : ∀ t, t ∈ s.pinned ↔ t ∈ s.placement
  placed : ∀ t ∈ s.placement, t ∈ s.threads
  moved : ∀ t ∈ s.lastMovedNs, t ∈ s.placement
  targets : s.Pinning → ∀ t ∈ s.threads, Targeted hardware s t
  /-- the plan waiting for its confirmations: of the threads it was made for, on nodes of the envelope -/
  candidates : ∀ t, t ∈ s.previousInitialTargetNode ↔ t ∈ s.initialCandidateIdentities
  candidateNodes : ∀ t n, s.previousInitialTargetNode.find? t = some n → n ∈ hardware.nodes
  /-- nothing ever arms the replan on a stable hotspot set -/
  calm : s.stableHotspotReplanPending = false

def Settled (s : IncrementalSolver) : Prop := s.phase = .optimizing → ∀ t ∈ s.threads, t ∈ s.placement

theorem Booked.represents {hardware : HardwareGraph} {s : IncrementalSolver} (h : Booked hardware s) (hs : Settled s) :
    Represents hardware s :=
  ⟨h.identities, h.pinned, h.placed, h.moved, h.targets, hs⟩

section Booked

variable {hardware : HardwareGraph} {s : IncrementalSolver}

theorem Booked.new (hardware : HardwareGraph) (shadow : Bool) : Booked hardware { shadow := shadow } where
  identities _ := rfl
  keyed t th h := by cases h
  pinned _ := Iff.rfl
  placed t h := by cases h
  moved t h := by cases h
  targets _ t h := by cases h
  candidates _ := Iff.rfl
  candidateNodes t n h := by cases h
  calm := rfl

theorem Booked.mem_identities (h : Booked hardware s) {t : Tid} : t ∈ s.identities ↔ t ∈ s.threads := by
  rw [OrdMap.mem_def, h.identities, Option.isSome_map, OrdMap.mem_def]

theorem Booked.removeThread (h : Booked hardware s) (tid : Tid) : Booked hardware (s.removeThread tid) where
  identities t := by
    show (s.identities.erase tid).find? t = ((s.threads.erase tid).find? t).map (·.identity)
    rw [OrdMap.find?_erase, OrdMap.find?_erase, h.identities]
    split <;> rfl
  keyed t th ht := by
    have hfind : (s.threads.erase tid).find? t = some th := ht
    rw [OrdMap.find?_erase] at hfind
    split at hfind
    · cases hfind
    · exact h.keyed t th hfind
  pinned t := by
    show t ∈ s.pinned.erase tid ↔ t ∈ s.placement.erase tid
    rw [OrdMap.mem_erase, OrdMap.mem_erase, h.pinned]
  placed t ht := by
    have hp := OrdMap.mem_erase.1 (show t ∈ s.placement.erase tid from ht)
    exact OrdMap.mem_erase.2 ⟨hp.1, h.placed t hp.2⟩
  moved t ht := by
    have hp := OrdMap.mem_erase.1 (show t ∈ s.lastMovedNs.erase tid from ht)
    exact OrdMap.mem_erase.2 ⟨hp.1, h.moved t hp.2⟩
  targets hphase t ht := by
    have hp := OrdMap.mem_erase.1 (show t ∈ s.threads.erase tid from ht)
    obtain ⟨cpu, hcpu, hhas, hnode⟩ := h.targets hphase t hp.2
    exact ⟨cpu, (OrdMap.find?_erase_ne _ hp.1).trans hcpu, hhas, (OrdMap.find?_erase_ne _ hp.1).trans hnode⟩
  candidates t := by
    show t ∈ s.previousInitialTargetNode.erase tid ↔ t ∈ s.initialCandidateIdentities.erase tid
    rw [OrdMap.mem_erase, OrdMap.mem_erase, h.candidates]
  candidateNodes t n hn := by
    have hfind : (s.previousInitialTargetNode.erase tid).find? t = some n := hn
    rw [OrdMap.find?_erase] at hfind
    split at hfind
    · cases hfind
    · exact h.candidateNodes t n hfind
  calm := h.calm

theorem Settled.removeThread (h : Settled s) (tid : Tid) : Settled (s.removeThread tid) := by
  intro hphase t ht
  have hp := OrdMap.mem_erase.1 (show t ∈ s.threads.erase tid from ht)
  exact OrdMap.mem_erase.2 ⟨hp.1, h hphase t hp.2⟩

/-- All threads pinned, by the count the source compares. -/
theorem Booked.placed_of_size (h : Booked hardware s) (hsize : s.pinned.size = s.threads.size) :
    ∀ t ∈ s.threads, t ∈ s.placement := by
  intro t ht
  rw [← h.pinned]
  refine OrdMap.mem_of_size_eq (fun u hu => h.placed u ((h.pinned u).1 hu)) hsize ht

end Booked

/-! ## Taking the window's threads in -/

section TakeIn

variable {hardware : HardwareGraph} {s : IncrementalSolver} {identity : ThreadIdentity}

theorem forgetReused_cases (s : IncrementalSolver) (identity : ThreadIdentity) :
    (forgetReused s identity = s ∧
      (s.identities.find? identity.tid = none ∨ s.identities.find? identity.tid = some identity)) ∨
    (forgetReused s identity = s.removeThread identity.tid ∧
      ∃ old, s.identities.find? identity.tid = some old ∧ old ≠ identity) := by
  unfold forgetReused
  cases hf : s.identities.find? identity.tid with
  | none => exact Or.inl ⟨rfl, Or.inl rfl⟩
  | some old =>
    dsimp only
    by_cases ho : old = identity
    · rw [if_pos ho, ho]
      exact Or.inl ⟨rfl, Or.inr rfl⟩
    · rw [if_neg ho]
      exact Or.inr ⟨rfl, old, rfl, ho⟩

theorem Booked.forgetReused (h : Booked hardware s) (identity : ThreadIdentity) :
    Booked hardware (forgetReused s identity) := by
  rcases forgetReused_cases s identity with ⟨he, -⟩ | ⟨he, -⟩
  · rw [he]
    exact h
  · rw [he]
    exact h.removeThread _

/-- After it a TID is unknown, or known under the identity itself and nothing was removed. -/
theorem forgetReused_known (s : IncrementalSolver) (identity : ThreadIdentity) :
    identity.tid ∉ (forgetReused s identity).identities ∨
    (forgetReused s identity = s ∧ s.identities.find? identity.tid = some identity) := by
  rcases forgetReused_cases s identity with ⟨he, hf | hf⟩ | ⟨he, -⟩
  · rw [he]
    exact Or.inl (OrdMap.notMem_iff.2 hf)
  · exact Or.inr ⟨he, hf⟩
  · rw [he]
    exact Or.inl (OrdMap.notMem_iff.2 (OrdMap.find?_erase_self _ _))

@[simp] theorem forgetReused_phase (s : IncrementalSolver) (identity : ThreadIdentity) :
    (forgetReused s identity).phase = s.phase := by
  rcases forgetReused_cases s identity with ⟨he, -⟩ | ⟨he, -⟩
  · rw [he]
  · rw [he]
    rfl

variable {input : IncrementalInput} {adjacency : OrdMap Tid (List RelationEdge)}

/-- The solver with a thread entered that it did not know. -/
def entered (s : IncrementalSolver) (th : ThreadDemand) : IncrementalSolver :=
  { s with
    identities := s.identities.insert th.identity.tid th.identity
    baselineCpu := s.baselineCpu.insert th.identity.tid th.currentCpu
    threads := s.threads.insert th.identity.tid th }

/-- **Everything one turn of the loop can do**: a known thread gets its new demand, an unknown one is entered, and in the
phases with initial targets it gets one. -/
theorem takeIn_cases (hd : input.hardware.Discovered) (hc : input.hardware.cpus ≠ [])
    (adjacency : OrdMap Tid (List RelationEdge)) (st : Intake) (th : ThreadDemand) :
    (st.solver.identities.find? th.identity.tid = some th.identity ∧
      takeIn input adjacency st th =
        { st with solver := { st.solver with threads := st.solver.threads.insert th.identity.tid th } }) ∨
    (th.identity.tid ∉ (forgetReused st.solver th.identity).identities ∧ ¬ st.solver.Pinning ∧
      takeIn input adjacency st th =
        { st with solver := entered (forgetReused st.solver th.identity) th, addedThreads := st.addedThreads + 1 }) ∨
    (th.identity.tid ∉ (forgetReused st.solver th.identity).identities ∧ st.solver.Pinning ∧
      ∃ cpu, input.hardware.HasCpu cpu ∧ takeIn input adjacency st th =
        { solver := { entered (forgetReused st.solver th.identity) th with
            initialTargetNode := (forgetReused st.solver th.identity).initialTargetNode.insert th.identity.tid
              (cpuNode input.hardware cpu)
            initialTargetCpu := (forgetReused st.solver th.identity).initialTargetCpu.insert th.identity.tid cpu }
          addedThreads := st.addedThreads + 1
          addedAfterInitial := true }) := by
  rcases forgetReused_known st.solver th.identity with hno | ⟨he, hf⟩
  · have hphase := forgetReused_phase st.solver th.identity
    refine Or.inr ?_
    by_cases hp : st.solver.Pinning
    · obtain ⟨cpu, htarget, hhas⟩ := arrivalTarget_hasCpu
        { forgetReused st.solver th.identity with
          identities := (forgetReused st.solver th.identity).identities.insert th.identity.tid th.identity
          baselineCpu := (forgetReused st.solver th.identity).baselineCpu.insert th.identity.tid th.currentCpu }
        hd hc adjacency th
      refine Or.inr ⟨hno, hp, cpu, hhas, ?_⟩
      unfold takeIn
      dsimp only
      rw [if_neg hno, if_pos (by rw [hphase]; exact hp), htarget]
      rfl
    · refine Or.inl ⟨hno, hp, ?_⟩
      unfold takeIn
      dsimp only
      rw [if_neg hno, if_neg (by rw [hphase]; exact hp)]
      rfl
  · refine Or.inl ⟨hf, ?_⟩
    have hmem : th.identity.tid ∈ st.solver.identities := OrdMap.mem_of_find hf
    unfold takeIn
    dsimp only
    rw [he, if_pos hmem]

/-- A new thread, with the targets of the phases that have them. -/
theorem Booked.entered (h : Booked hardware s) (th : ThreadDemand) (nodes cpus : OrdMap Tid Int)
    (htargets : s.Pinning → ∀ t ∈ s.threads.insert th.identity.tid th, ∃ cpu, cpus.find? t = some cpu ∧
      hardware.HasCpu cpu ∧ nodes.find? t = some (cpuNode hardware cpu)) :
    Booked hardware { entered s th with initialTargetNode := nodes, initialTargetCpu := cpus } where
  identities t := by
    show (s.identities.insert _ _).find? t = ((s.threads.insert _ _).find? t).map _
    rw [OrdMap.find?_insert, OrdMap.find?_insert, h.identities]
    split <;> rfl
  keyed t x hx := by
    have hfind : (s.threads.insert th.identity.tid th).find? t = some x := hx
    rw [OrdMap.find?_insert] at hfind
    split at hfind
    · rename_i ht
      rw [← Option.some.inj hfind]
      exact ht
    · exact h.keyed t x hfind
  pinned := h.pinned
  placed t ht := OrdMap.mem_insert.2 (Or.inr (h.placed t ht))
  moved := h.moved
  targets := htargets
  candidates := h.candidates
  candidateNodes := h.candidateNodes
  calm := h.calm

theorem Booked.takeIn (hd : input.hardware.Discovered) (hc : input.hardware.cpus ≠ []) {st : Intake}
    (h : Booked input.hardware st.solver) (th : ThreadDemand) :
    Booked input.hardware (takeIn input adjacency st th).solver := by
  have hforget := h.forgetReused th.identity
  rcases takeIn_cases hd hc adjacency st th with ⟨hknown, he⟩ | ⟨-, hp, he⟩ | ⟨-, hp, cpu, hhas, he⟩
  · -- the identity on record is the thread's, so it has an entry already
    have hmem : th.identity.tid ∈ st.solver.threads := h.mem_identities.1 (OrdMap.mem_of_find hknown)
    have hins : ∀ t, t ∈ st.solver.threads.insert th.identity.tid th ↔ t ∈ st.solver.threads := by
      intro t
      rw [OrdMap.mem_insert]
      constructor
      · rintro (rfl | ht)
        · exact hmem
        · exact ht
      · exact Or.inr
    rw [he]
    refine ⟨fun t => ?_, fun t x hx => ?_, h.pinned, fun t ht => (hins t).2 (h.placed t ht), h.moved,
      fun hphase t ht => h.targets hphase t ((hins t).1 ht), h.candidates, h.candidateNodes, h.calm⟩
    · show st.solver.identities.find? t = ((st.solver.threads.insert _ _).find? t).map _
      rw [OrdMap.find?_insert]
      split
      · rename_i ht
        rw [← ht, hknown]
        rfl
      · exact h.identities t
    · have hfind : (st.solver.threads.insert th.identity.tid th).find? t = some x := hx
      rw [OrdMap.find?_insert] at hfind
      split at hfind
      · rename_i ht
        rw [← Option.some.inj hfind]
        exact ht
      · exact h.keyed t x hfind
  · rw [he]
    refine hforget.entered th _ _ (fun hphase => absurd ?_ hp)
    unfold Pinning at hphase ⊢
    rwa [forgetReused_phase] at hphase
  · rw [he]
    refine hforget.entered th _ _ (fun hphase t ht => ?_)
    by_cases htid : th.identity.tid = t
    · subst htid
      exact ⟨cpu, OrdMap.find?_insert_self _ _ _, hhas, OrdMap.find?_insert_self _ _ _⟩
    · rcases OrdMap.mem_insert.1 ht with ht | ht
      · exact absurd ht htid
      · obtain ⟨c, h1, h2, h3⟩ := hforget.targets hphase t ht
        exact ⟨c, (OrdMap.find?_insert_ne _ _ htid).trans h1, h2, (OrdMap.find?_insert_ne _ _ htid).trans h3⟩

@[simp] theorem takeIn_phase (st : Intake) (th : ThreadDemand) :
    (takeIn input adjacency st th).solver.phase = st.solver.phase := by
  unfold IncrementalSolver.takeIn
  dsimp only
  split
  · exact forgetReused_phase _ _
  · split
    · exact forgetReused_phase _ _
    · exact forgetReused_phase _ _

@[simp] theorem takeIn_placement (st : Intake) (th : ThreadDemand) :
    (takeIn input adjacency st th).solver.placement = (forgetReused st.solver th.identity).placement := by
  unfold IncrementalSolver.takeIn
  dsimp only
  split
  · rfl
  · split <;> rfl

/-- What holds inside the loop: a solver that was optimizing has placed every thread but the new ones. -/
structure Taking (hardware : HardwareGraph) (st : Intake) : Prop where
  booked : Booked hardware st.solver
  added : st.addedAfterInitial = true → st.solver.Pinning
  placed : st.solver.phase = .optimizing → st.addedAfterInitial = false → ∀ t ∈ st.solver.threads, t ∈ st.solver.placement

theorem Taking.takeIn (hd : input.hardware.Discovered) (hc : input.hardware.cpus ≠ []) {st : Intake}
    (h : Taking input.hardware st) (th : ThreadDemand) : Taking input.hardware (takeIn input adjacency st th) := by
  have hbooked : Booked input.hardware (IncrementalSolver.takeIn input adjacency st th).solver := h.booked.takeIn hd hc th
  have hphase : (IncrementalSolver.takeIn input adjacency st th).solver.phase = st.solver.phase := takeIn_phase st th
  rcases takeIn_cases hd hc adjacency st th with ⟨hknown, he⟩ | ⟨-, hp, he⟩ | ⟨-, hp, cpu, hhas, he⟩
  · refine ⟨hbooked, ?_, ?_⟩
    · rw [he]
      exact h.added
    · rw [he]
      intro ho ha t ht
      rcases OrdMap.mem_insert.1 ht with rfl | ht
      · exact h.placed ho ha _ (h.booked.mem_identities.1 (OrdMap.mem_of_find hknown))
      · exact h.placed ho ha t ht
  · refine ⟨hbooked, fun ha => ?_, fun ho => ?_⟩
    · rw [he] at ha
      exact absurd (h.added ha) hp
    · rw [hphase] at ho
      exact absurd (Or.inr ho) hp
  · refine ⟨hbooked, fun _ => ?_, fun _ ha => ?_⟩
    · unfold Pinning
      rw [hphase]
      exact hp
    · rw [he] at ha
      cases ha

theorem dropStale_keeps {P : IncrementalSolver → Prop} (hremove : ∀ s tid, P s → P (removeThread s tid))
    (s : IncrementalSolver) (threads : List ThreadDemand) (h : P s) : P (dropStale s threads) :=
  Loop.foldl_keeps P hremove _ h

/-- **The loop over the window.** -/
theorem takenIn_taking (hd : input.hardware.Discovered) (hc : input.hardware.cpus ≠ []) (h : Booked input.hardware s)
    (hs : Settled s) : Taking input.hardware (takenIn s input) := by
  have hstale : Booked input.hardware (dropStale { s with groupPeakDemand := groupPeaks s input } input.threads) ∧
      Settled (dropStale { s with groupPeakDemand := groupPeaks s input } input.threads) :=
    dropStale_keeps (P := fun s => Booked input.hardware s ∧ Settled s)
      (fun s tid h => ⟨h.1.removeThread tid, h.2.removeThread tid⟩) _ _
      ⟨⟨h.identities, h.keyed, h.pinned, h.placed, h.moved, h.targets, h.candidates, h.candidateNodes, h.calm⟩, hs⟩
  unfold takenIn
  refine Loop.foldl_keeps (Taking input.hardware) (fun st th hst => hst.takeIn hd hc th) _ ⟨hstale.1, ?_, ?_⟩
  · intro ha
    cases ha
  · exact fun ho _ => hstale.2 ho

end TakeIn

/-! ## The phase changes -/

section Settle

variable {hardware : HardwareGraph} {s : IncrementalSolver} {input : IncrementalInput}

theorem Booked.startReplan (h : Booked hardware s) : Booked hardware (startReplan s) where
  identities := h.identities
  keyed := h.keyed
  pinned := h.pinned
  placed := h.placed
  moved := h.moved
  targets hphase := by
    rcases hphase with hphase | hphase
    · cases hphase
    · cases hphase
  candidates _ := Iff.rfl
  candidateNodes t n hn := by cases hn
  calm := rfl

/-- The growth that starts a global replan. -/
def substantialGrowth (input : IncrementalInput) (st : Intake) : Bool :=
  decide (0 < st.solver.lastNodePlanPopulation) &&
    decide (input.options.hotspotReplanMinThreads ≤ st.addedThreads) &&
    decide (⌈(st.solver.lastNodePlanPopulation : ℚ) * (1 + input.options.hotspotReplanGrowthRatio)⌉ ≤
      (st.solver.threads.size : Int))

/-- The first of the two phase changes. -/
def afterArrivals (input : IncrementalInput) (st : Intake) : IncrementalSolver :=
  if st.addedAfterInitial && substantialGrowth input st then
    { IncrementalSolver.startReplan st.solver with hotspotStabilityConfirmation := 0 }
  else if st.addedAfterInitial then { st.solver with phase := .initialPinning } else st.solver

theorem settlePhase_eq (input : IncrementalInput) (st : Intake) : settlePhase input st =
    if (afterArrivals input st).phase = .initialPinning ∧ initialTargetsEffective (afterArrivals input st) = true then
      { afterArrivals input st with phase := .optimizing }
    else afterArrivals input st := rfl

theorem afterArrivals_booked (input : IncrementalInput) {st : Intake} (h : Taking hardware st) :
    Booked hardware (afterArrivals input st) ∧ Settled (afterArrivals input st) := by
  unfold afterArrivals
  split
  · have hr := h.booked.startReplan
    refine ⟨⟨hr.identities, hr.keyed, hr.pinned, hr.placed, hr.moved, hr.targets, hr.candidates, hr.candidateNodes,
      hr.calm⟩, fun ho => ?_⟩
    cases ho
  · split
    · rename_i hadded
      have hb := h.booked
      refine ⟨⟨hb.identities, hb.keyed, hb.pinned, hb.placed, hb.moved, fun _ => hb.targets (h.added hadded),
        hb.candidates, hb.candidateNodes, hb.calm⟩, fun ho => ?_⟩
      cases ho
    · rename_i hadded
      exact ⟨h.booked, fun ho => h.placed ho (by simpa using hadded)⟩

theorem pinned_of_effective (h : initialTargetsEffective s = true) : s.pinned.size = s.threads.size := by
  unfold initialTargetsEffective at h
  rw [Bool.and_eq_true] at h
  exact of_decide_eq_true h.1

/-- **The phase changes keep the books**, and an optimizing solver has placed every thread. -/
theorem settlePhase_booked (input : IncrementalInput) {st : Intake} (h : Taking hardware st) :
    Booked hardware (settlePhase input st) ∧ Settled (settlePhase input st) := by
  obtain ⟨hb, hs⟩ := afterArrivals_booked input h
  rw [settlePhase_eq]
  split
  · rename_i heff
    refine ⟨⟨hb.identities, hb.keyed, hb.pinned, hb.placed, hb.moved, fun _ => hb.targets (Or.inl heff.1),
      hb.candidates, hb.candidateNodes, hb.calm⟩, fun _ => ?_⟩
    exact hb.placed_of_size (pinned_of_effective heff.2)
  · exact ⟨hb, hs⟩

/-- Nothing arms the replan on a stable hotspot set, so the selection of hotspot edges changes nothing else. -/
theorem settleHotspots_calm (h : s.stableHotspotReplanPending = false) :
    (settleHotspots input s).1 = { s with
      edges := (settleHotspots input s).1.edges
      previousHotspotKeys := (settleHotspots input s).1.previousHotspotKeys } := by
  unfold settleHotspots
  dsimp only
  rw [h]
  rfl

/-- The solver as the phases find it, on the solver the phase changes left. -/
theorem intake_eq (s : IncrementalSolver) (input : IncrementalInput) :
    (intake s input).1 =
      let s₁ := { (settleHotspots input (settlePhase input (takenIn s input))).1 with
        nextProposalId := (settleHotspots input (settlePhase input (takenIn s input))).1.nextProposalId + 1 }
      if s₁.threads.isEmpty then { s₁ with phase := .uninitialized }
      else if s₁.phase = .uninitialized then { s₁ with phase := .nodePlanning } else s₁ := rfl

/-- **The books after the intake.** -/
theorem intake_booked (hd : input.hardware.Discovered) (hc : input.hardware.cpus ≠ []) (h : Booked input.hardware s)
    (hs : Settled s) : Booked input.hardware (intake s input).1 ∧ Settled (intake s input).1 := by
  obtain ⟨hb, hset⟩ := settlePhase_booked input (takenIn_taking hd hc h hs)
  rw [intake_eq, settleHotspots_calm hb.calm]
  dsimp only
  split
  · refine ⟨⟨hb.identities, hb.keyed, hb.pinned, hb.placed, hb.moved, fun hp => ?_, hb.candidates, hb.candidateNodes,
      hb.calm⟩, fun ho => ?_⟩
    · rcases hp with hp | hp <;> cases hp
    · cases ho
  · split
    · refine ⟨⟨hb.identities, hb.keyed, hb.pinned, hb.placed, hb.moved, fun hp => ?_, hb.candidates, hb.candidateNodes,
        hb.calm⟩, fun ho => ?_⟩
      · rcases hp with hp | hp <;> cases hp
      · cases ho
    · exact ⟨⟨hb.identities, hb.keyed, hb.pinned, hb.placed, hb.moved, hb.targets, hb.candidates, hb.candidateNodes,
        hb.calm⟩, hset⟩

end Settle

/-! ## The node plan -/

/-- A plan that puts every thread, and no other, on a node of the envelope. -/
structure Covers (hardware : HardwareGraph) (s : IncrementalSolver) (assigned : OrdMap Tid Int) : Prop where
  keys : ∀ t, t ∈ assigned ↔ t ∈ s.threads
  nodes : ∀ t n, assigned.find? t = some n → n ∈ hardware.nodes

section NodePlan

variable {s : IncrementalSolver} {input : IncrementalInput} {adjacency : OrdMap Tid (List RelationEdge)}
  {p p' : NodePlan}

theorem Covers.insert {hardware : HardwareGraph} {assigned : OrdMap Tid Int} (h : Covers hardware s assigned) {t : Tid}
    (ht : t ∈ s.threads) {n : Int} (hn : n ∈ hardware.nodes) : Covers hardware s (assigned.insert t n) where
  keys u := by
    rw [OrdMap.mem_insert, h.keys]
    constructor
    · rintro (rfl | hu)
      · exact ht
      · exact hu
    · exact Or.inr
  nodes u m hm := by
    rw [OrdMap.find?_insert] at hm
    split at hm
    · rw [← Option.some.inj hm]
      exact hn
    · exact h.nodes u m hm

theorem Covers.getD_mem {hardware : HardwareGraph} {assigned : OrdMap Tid Int} (h : Covers hardware s assigned) {t : Tid}
    (ht : t ∈ s.threads) : assigned.getD t 0 ∈ hardware.nodes := by
  obtain ⟨n, hn⟩ := OrdMap.mem_iff.1 ((h.keys t).2 ht)
  rw [OrdMap.getD, hn]
  exact h.nodes t n hn

theorem Tallies.covers {hardware : HardwareGraph} (h : Tallies s hardware s.threads.keys.toFinset p) :
    Covers hardware s p.assigned where
  keys t := by
    rw [h.keys, List.mem_toFinset, OrdMap.mem_keys]
  nodes t n hn := by
    have ht : t ∈ s.threads.keys.toFinset := (h.keys t).1 (OrdMap.mem_of_find hn)
    have hnode := h.onNode t ht
    rw [NodePlan.seat, OrdMap.getD, hn] at hnode
    exact List.mem_toFinset.1 hnode

theorem greedy_covers (hc : input.hardware.cpus ≠ [])
    (hloop : ∀ e ∈ s.edges.entries.map Prod.snd, e.fromTid ≠ e.toTid) (seeds : OrdSet Tid) :
    Covers input.hardware s ((communityOrder s).ordered.foldl (assignThread s input adjacency seeds) {}).assigned := by
  have hperm := communityOrder_perm hloop
  have h := Tallies.greedy s hc adjacency seeds (communityOrder s).ordered
    (hperm.nodup_iff.2 (OrdMap.nodup_keys _)) (fun t _ => Finset.notMem_empty t) (Tallies.empty s input.hardware)
  have hset : (∅ : Finset Tid) ∪ (communityOrder s).ordered.toFinset = s.threads.keys.toFinset := by
    ext t
    simp [hperm.mem_iff]
  rw [hset] at h
  exact h.covers

theorem repairNode_covers {target : Int} (ht : target ∈ input.hardware.nodes) : ∀ {fuel : Nat} {p p' : NodePlan},
    Covers input.hardware s p.assigned → repairNode s input adjacency target fuel p = .ok p' →
    Covers input.hardware s p'.assigned
  | 0, p, p', h, hr => by
    cases hr
    exact h
  | fuel + 1, p, p', h, hr => by
    unfold repairNode at hr
    split at hr
    · rcases bestMove_cases s input adjacency p target with ⟨hb, -⟩ | ⟨m, hb, hm, -⟩
      · rw [hb] at hr
        cases hr
      · rw [hb] at hr
        have hmem : m.tid ∈ s.threads := (h.keys _).1 (OrdMap.mem_of_find (OrdMap.mem_entries.1 hm))
        exact repairNode_covers ht (p := p.move m.tid (demandOf s m.tid) m.source target) (h.insert hmem ht) hr
    · cases hr
      exact h

theorem repairFloors_covers : ∀ {nodes : List Int} {p p' : NodePlan}, (∀ n ∈ nodes, n ∈ input.hardware.nodes) →
    Covers input.hardware s p.assigned → repairFloors s input adjacency nodes p = .ok p' →
    Covers input.hardware s p'.assigned
  | [], p, p', _, h, hr => by
    cases hr
    exact h
  | n :: nodes, p, p', hn, h, hr => by
    unfold repairFloors at hr
    cases hone : repairNode s input adjacency n (threadFloor s input n).toNat p with
    | error e =>
      rw [hone] at hr
      cases hr
    | ok q =>
      rw [hone] at hr
      exact repairFloors_covers (fun m hm => hn m (List.mem_cons_of_mem _ hm))
        (repairNode_covers (hn n List.mem_cons_self) h hone) hr

theorem trySwap_covers {st : NodePlan × Bool} (h : Covers input.hardware s st.1.assigned) {pair : Tid × Tid}
    (h₁ : pair.1 ∈ s.threads) (h₂ : pair.2 ∈ s.threads) :
    Covers input.hardware s (trySwap s input st pair).1.assigned := by
  unfold trySwap
  dsimp only
  split
  · exact h
  · split
    · exact h
    · exact (h.insert h₁ (h.getD_mem h₂)).insert h₂ (h.getD_mem h₁)

theorem mem_laterPairs {t u : Tid} : ∀ {l : List Tid}, (t, u) ∈ laterPairs l → t ∈ l ∧ u ∈ l
  | x :: l, h => by
    unfold laterPairs at h
    rcases List.mem_append.1 h with h | h
    · obtain ⟨v, hv, he⟩ := List.mem_map.1 h
      cases he
      exact ⟨List.mem_cons_self, List.mem_cons_of_mem _ hv⟩
    · obtain ⟨ht, hu⟩ := mem_laterPairs h
      exact ⟨List.mem_cons_of_mem _ ht, List.mem_cons_of_mem _ hu⟩

theorem swapPasses_covers {ordered : List Tid} (ho : ∀ t ∈ ordered, t ∈ s.threads) : ∀ {passes : Nat} {p : NodePlan},
    Covers input.hardware s p.assigned → Covers input.hardware s (swapPasses s input ordered passes p).assigned
  | 0, p, h => h
  | passes + 1, p, h => by
    have hfold : ∀ (l : List (Tid × Tid)) (st : NodePlan × Bool), (∀ x ∈ l, x ∈ laterPairs ordered) →
        Covers input.hardware s st.1.assigned → Covers input.hardware s (l.foldl (trySwap s input) st).1.assigned := by
      intro l
      induction l with
      | nil => exact fun st _ h => h
      | cons x l ih =>
        intro st hl h
        have hx := mem_laterPairs (hl x List.mem_cons_self)
        exact ih _ (fun y hy => hl y (List.mem_cons_of_mem _ hy)) (trySwap_covers h (ho _ hx.1) (ho _ hx.2))
    have hpass := hfold (laterPairs ordered) (p, false) (fun x hx => hx) h
    unfold swapPasses
    dsimp only
    split
    · exact swapPasses_covers ho hpass
    · exact hpass

/-- **The plan that is refined covers the threads.** -/
theorem planNodes_covers (hc : input.hardware.cpus ≠ [])
    (hloop : ∀ e ∈ s.edges.entries.map Prod.snd, e.fromTid ≠ e.toTid) {plan : NodePlan}
    (h : planNodes s input = .ok plan) (passes : Nat) :
    Covers input.hardware s (swapPasses s input (communityOrder s).ordered passes plan).assigned := by
  refine swapPasses_covers (fun t ht => OrdMap.mem_keys.1 ((communityOrder_perm hloop).mem_iff.1 ht)) ?_
  unfold planNodes at h
  exact repairFloors_covers (fun n hn => hn) (greedy_covers hc hloop _) h

/-- The loop that gives every thread a CPU of its node. -/
theorem targetCpu_fold (hd : input.hardware.Discovered) (adjacency : OrdMap Tid (List RelationEdge)) {nodes : OrdMap Tid Int} (hn : Covers input.hardware s nodes) :
    ∀ {l : List Tid} {c : CpuTargets}, (∀ t ∈ l, t ∈ s.threads) →
      (∀ t cpu, c.targets.find? t = some cpu → cpu ∈ input.hardware.cpusInNode (nodes.getD t 0)) →
      (∀ t cpu, (l.foldl (targetCpu s input adjacency nodes) c).targets.find? t = some cpu →
        cpu ∈ input.hardware.cpusInNode (nodes.getD t 0)) ∧
      ∀ t, t ∈ l ∨ t ∈ c.targets → t ∈ (l.foldl (targetCpu s input adjacency nodes) c).targets
  | [], c, _, h => ⟨h, fun t ht => ht.resolve_left List.not_mem_nil⟩
  | u :: l, c, hl, h => by
    obtain ⟨x, hx⟩ := exists_cpuInNode hd (hn.getD_mem (hl u List.mem_cons_self))
    obtain ⟨cpu, hmin⟩ := Community.minElement_isSome (fun a b => decide (targetScore s input adjacency c u a <
      targetScore s input adjacency c u b)) (List.ne_nil_of_mem hx)
    have hstep : (targetCpu s input adjacency nodes c u).targets = c.targets.insert u cpu := by
      unfold targetCpu
      dsimp only
      rw [hmin]
    rw [List.foldl_cons]
    obtain ⟨h1, h2⟩ := targetCpu_fold hd adjacency hn (c := targetCpu s input adjacency nodes c u)
      (fun t ht => hl t (List.mem_cons_of_mem _ ht)) (fun t y hy => by
        rw [hstep, OrdMap.find?_insert] at hy
        split at hy
        · rename_i hut
          rw [← hut, ← Option.some.inj hy]
          exact Community.minElement_mem hmin
        · exact h t y hy)
    refine ⟨h1, fun t ht => h2 t ?_⟩
    rw [hstep, OrdMap.mem_insert]
    rcases ht with ht | ht
    · rcases List.mem_cons.1 ht with rfl | ht
      · exact Or.inr (Or.inl rfl)
      · exact Or.inl ht
    · exact Or.inr (Or.inr ht)

/-- Whether an unchanged cohort keeps the plan it waits to confirm. -/
def keepsPlan (s : IncrementalSolver) : Bool :=
  !s.previousInitialTargetNode.isEmpty && decide (s.initialCandidateIdentities.entries = s.identities.entries)

/-- The plan a window ends with. -/
def planKept (s : IncrementalSolver) (plan : NodePlan) : OrdMap Tid Int :=
  if keepsPlan s then s.previousInitialTargetNode else plan.assigned

theorem planKept_covers (h : Booked input.hardware s) {plan : NodePlan} (hplan : Covers input.hardware s plan.assigned) :
    Covers input.hardware s (planKept s plan) := by
  unfold planKept
  split
  · rename_i hkeeps
    unfold keepsPlan at hkeeps
    rw [Bool.and_eq_true, decide_eq_true_eq] at hkeeps
    -- the plan's threads are the known ones, under the same identities
    refine ⟨fun t => ?_, h.candidateNodes⟩
    rw [h.candidates, ← h.mem_identities, ← OrdMap.mem_keys, ← OrdMap.mem_keys, OrdMap.keys, OrdMap.keys, hkeeps.2]
  · exact hplan

/-- The solver after the branch: the plan waits, or every thread gets a CPU of its node. -/
theorem confirmNodes_cases (s : IncrementalSolver) (input : IncrementalInput) (proposal : SolverProposal)
    (plan : NodePlan) :
    let waiting := { s with
      initialConfirmation := (confirmNodes s input proposal plan).2.initialConfirmation
      previousInitialTargetNode := planKept s plan
      initialCandidateIdentities := if keepsPlan s then s.initialCandidateIdentities else s.identities }
    (confirmNodes s input proposal plan).2 = waiting ∨
    (confirmNodes s input proposal plan).2 = { waiting with
      initialTargetNode := planKept s plan
      lastNodePlanPopulation := s.threads.size
      initialTargetCpu := ((s.threads.keys.insertionSort (fun a b => !(Community.seedBefore s b a) = true)).foldl
        (targetCpu s input (adjacencyOf (s.edges.entries.map Prod.snd)) (planKept s plan)) {}).targets
      phase := .initialPinning } := by
  unfold confirmNodes planKept
  dsimp only
  rw [show (!s.previousInitialTargetNode.isEmpty &&
    decide (s.initialCandidateIdentities.entries = s.identities.entries)) = keepsPlan s from rfl]
  cases hkeeps : keepsPlan s with
  | true =>
    simp only [if_true]
    split
    · exact Or.inr rfl
    · exact Or.inl rfl
  | false =>
    simp only [Bool.false_eq_true, if_false]
    split
    · exact Or.inr rfl
    · exact Or.inl rfl

theorem Booked.waiting (h : Booked input.hardware s) {plan : NodePlan} (hplan : Covers input.hardware s plan.assigned)
    (confirmation : Int) : Booked input.hardware { s with
      initialConfirmation := confirmation
      previousInitialTargetNode := planKept s plan
      initialCandidateIdentities := if keepsPlan s then s.initialCandidateIdentities else s.identities } where
  identities := h.identities
  keyed := h.keyed
  pinned := h.pinned
  placed := h.placed
  moved := h.moved
  targets := h.targets
  candidates t := by
    show t ∈ planKept s plan ↔ t ∈ if keepsPlan s then s.initialCandidateIdentities else s.identities
    unfold planKept
    split
    · exact h.candidates t
    · rw [hplan.keys, h.mem_identities]
  candidateNodes := (planKept_covers h hplan).nodes
  calm := h.calm

/-- **The node plan keeps the books**: a confirmed plan gives every thread a CPU of its node. -/
theorem confirmNodes_booked (hd : input.hardware.Discovered) (h : Booked input.hardware s) (hphase : s.phase = .nodePlanning)
    {plan : NodePlan} (hplan : Covers input.hardware s plan.assigned) (proposal : SolverProposal) :
    Booked input.hardware (confirmNodes s input proposal plan).2 ∧ Settled (confirmNodes s input proposal plan).2 := by
  have hw := h.waiting hplan (confirmNodes s input proposal plan).2.initialConfirmation
  have hkept := planKept_covers h hplan
  rcases confirmNodes_cases s input proposal plan with he | he
  · rw [he]
    refine ⟨hw, fun ho => ?_⟩
    rw [show _ = s.phase from rfl, hphase] at ho
    cases ho
  · rw [he]
    refine ⟨⟨hw.identities, hw.keyed, hw.pinned, hw.placed, hw.moved, fun _ t ht => ?_, hw.candidates, hw.candidateNodes,
      hw.calm⟩, fun ho => ?_⟩
    · have hmem : ∀ u ∈ s.threads.keys.insertionSort (fun a b => !(Community.seedBefore s b a) = true), u ∈ s.threads :=
        fun u hu => OrdMap.mem_keys.1 ((List.mem_insertionSort _).1 hu)
      obtain ⟨h1, h2⟩ := targetCpu_fold hd (adjacencyOf (s.edges.entries.map Prod.snd)) hkept
        (c := {}) hmem (fun t cpu hcpu => by cases hcpu)
      obtain ⟨cpu, hcpu⟩ := OrdMap.mem_iff.1 (h2 t (Or.inl ((List.mem_insertionSort _).2 (OrdMap.mem_keys.2 ht))))
      have hin := h1 t cpu hcpu
      refine ⟨cpu, hcpu, hasCpu_of_mem hin, ?_⟩
      obtain ⟨n, hn⟩ := OrdMap.mem_iff.1 ((hkept.keys t).2 ht)
      rw [OrdMap.getD, hn] at hin
      show (planKept s plan).find? t = _
      rw [hn, cpuNode_of_mem hd hin]
      rfl
    · cases ho

theorem nodePlanning_booked (hd : input.hardware.Discovered) (hc : input.hardware.cpus ≠ [])
    (hloop : ∀ e ∈ s.edges.entries.map Prod.snd, e.fromTid ≠ e.toTid) (h : Booked input.hardware s)
    (hphase : s.phase = .nodePlanning) {proposal : SolverProposal} {r : SolverProposal × IncrementalSolver}
    (hr : nodePlanning s input proposal = .ok r) : Booked input.hardware r.2 ∧ Settled r.2 := by
  unfold nodePlanning at hr
  cases hplan : planNodes s input with
  | error e =>
    rw [hplan] at hr
    cases hr
  | ok plan =>
    rw [hplan] at hr
    cases hr
    exact confirmNodes_booked hd h hphase (planNodes_covers hc hloop hplan _) proposal

end NodePlan

/-! ## The pinning batch -/

/-- A loop that keeps the better of two ends with one that nothing is better than. -/
theorem foldl_pick_le {α β : Type} [LinearOrder β] (score : α → β) : ∀ (l : List α) (b : α), ∀ x ∈ b :: l,
    score (l.foldl (fun best y => if score y < score best then y else best) b) ≤ score x
  | [], b, x, hx => by rw [List.mem_singleton.1 hx]; exact le_refl _
  | y :: l, b, x, hx => by
    rw [List.foldl_cons]
    by_cases hy : score y < score b
    · rw [if_pos hy]
      rcases List.mem_cons.1 hx with rfl | hx
      · exact (foldl_pick_le score l y y List.mem_cons_self).trans hy.le
      · exact foldl_pick_le score l y x hx
    · rw [if_neg hy]
      rcases List.mem_cons.1 hx with rfl | hx
      · exact foldl_pick_le score l x x List.mem_cons_self
      · rcases List.mem_cons.1 hx with rfl | hx
        · exact (foldl_pick_le score l b b List.mem_cons_self).trans (le_of_not_gt hy)
        · exact foldl_pick_le score l b x (List.mem_cons_of_mem _ hx)

/-- The first smallest element is smaller than none. -/
theorem minElement_le {α β : Type} [LinearOrder β] {score : α → β} : ∀ {l : List α} {x : α},
    minElement (fun a b => decide (score a < score b)) l = some x → ∀ y ∈ l, score x ≤ score y
  | a :: l, x, h, y, hy => by
    have hx : l.foldl (fun best y => if score y < score best then y else best) a = x := by
      simpa [minElement] using h
    rw [← hx]
    exact foldl_pick_le score l a y hy

/-- A thread of the batch put on a CPU. -/
def Seats.put (hardware : HardwareGraph) (st : Seats) (tid : Tid) (cpu : Int) : Seats where
  solver := { st.solver with
    initialTargetCpu := st.solver.initialTargetCpu.insert tid cpu
    initialTargetNode := st.solver.initialTargetNode.insert tid (cpuNode hardware cpu) }
  projected := st.projected.add cpu (demandOf st.solver tid)

section Batch

variable {input : IncrementalInput} {s : IncrementalSolver}

/-- A CPU among the candidates for the repair that has a free slot is chosen before one that has none. -/
theorem slotFree_of_best {p : Projected} {demand : ℚ} {l : List Int} {cpu : Int}
    (hmin : minElement (fun a b => decide (repairScore input p demand a < repairScore input p demand b)) l = some cpu)
    {x : Int} (hx : x ∈ l) (hfree : slotFree input p x = true) : slotFree input p cpu = true := by
  have hle := minElement_le hmin x hx
  unfold repairScore at hle
  rw [Prod.Lex.toLex_le_toLex] at hle
  unfold slotFree at hfree ⊢
  rw [decide_eq_true_eq] at hfree ⊢
  have hx' : decide (cpuSlotCap input ≤ p.threadsOn x) = false := by simpa using hfree
  dsimp only at hle
  rw [hx'] at hle
  rcases hle with hle | ⟨hle, -⟩
  · exact absurd hle (by simp)
  · simpa using hle

/-- **One thread of the batch**: it goes to an online CPU with a free slot, or there is none. -/
theorem seatPending_spec {st : Seats} {tid : Tid} (ht : Targeted input.hardware st.solver tid) :
    (∃ cpu, slotFree input st.projected cpu = true ∧ input.hardware.HasCpu cpu ∧
      seatPending input st tid = .ok (st.put input.hardware tid cpu)) ∨
    (seatPending input st tid = .error (.thrown "initial pinning has no slot-cap-feasible CPU") ∧
      ∀ cpu, input.hardware.HasCpu cpu → slotFree input st.projected cpu = false) := by
  obtain ⟨target, htarget, hhas, hnode⟩ := ht
  have hget : st.solver.initialTargetCpu.getD tid 0 = target := by rw [OrdMap.getD, htarget]; rfl
  unfold seatPending
  dsimp only
  rw [hget]
  by_cases hfree : slotFree input st.projected target = true
  · refine Or.inl ⟨target, hfree, hhas, ?_⟩
    rw [if_pos hfree, OrdMap.touch_of_mem 0 (OrdMap.mem_of_find htarget)]
    unfold Seats.put
    rw [OrdMap.insert_find? htarget, OrdMap.insert_find? hnode]
  · rw [if_neg hfree]
    generalize hcand : repairCandidates input st.projected (st.solver.initialTargetNode.getD tid 0) = candidates
    -- the candidates are online, and one is free as soon as any CPU is
    have honline : ∀ x ∈ candidates, input.hardware.HasCpu x := by
      intro x hx
      rw [← hcand] at hx
      unfold repairCandidates at hx
      dsimp only at hx
      split at hx
      · exact hasCpu_of_mem hx
      · obtain ⟨c, hc, rfl⟩ := List.mem_map.1 hx
        obtain ⟨hc, ho⟩ := List.mem_filter.1 hc
        rw [Bool.and_eq_true] at ho
        exact ⟨c, hc, rfl, ho.1⟩
    have hsome : ∀ x, input.hardware.HasCpu x → slotFree input st.projected x = true →
        ∃ y ∈ candidates, slotFree input st.projected y = true := by
      rintro x ⟨c, hc, rfl, ho⟩ hx
      rw [← hcand]
      unfold repairCandidates
      dsimp only
      split
      · rename_i hany
        exact List.any_eq_true.1 hany
      · exact ⟨c.id, List.mem_map.2 ⟨c, List.mem_filter.2 ⟨hc, by rw [ho, hx]; rfl⟩, rfl⟩, hx⟩
    have hall : ∀ x ∈ candidates, ∃ y ∈ candidates, slotFree input st.projected y = true := by
      intro x hx
      rw [← hcand] at hx ⊢
      unfold repairCandidates at hx ⊢
      dsimp only at hx ⊢
      split
      · rename_i hany
        exact List.any_eq_true.1 hany
      · rename_i hany
        rw [if_neg hany] at hx
        obtain ⟨c, hc, rfl⟩ := List.mem_map.1 hx
        have hc' := (List.mem_filter.1 hc).2
        rw [Bool.and_eq_true] at hc'
        exact ⟨c.id, List.mem_map.2 ⟨c, hc, rfl⟩, hc'.2⟩
    cases hmin : minElement (fun a b => decide (repairScore input st.projected (demandOf st.solver tid) a <
        repairScore input st.projected (demandOf st.solver tid) b)) candidates with
    | none =>
      refine Or.inr ⟨rfl, fun cpu hcpu => ?_⟩
      by_contra hno
      obtain ⟨y, hy, -⟩ := hsome cpu hcpu (by simpa using hno)
      obtain ⟨z, hz⟩ := Community.minElement_isSome (fun a b => decide (repairScore input st.projected
        (demandOf st.solver tid) a < repairScore input st.projected (demandOf st.solver tid) b)) (List.ne_nil_of_mem hy)
      rw [hmin] at hz
      cases hz
    | some cpu =>
      have hmem := Community.minElement_mem hmin
      obtain ⟨y, hy, hyfree⟩ := hall cpu hmem
      exact Or.inl ⟨cpu, slotFree_of_best hmin hy hyfree, honline cpu hmem, rfl⟩

/-- A batch changes the targets of its threads and nothing else. -/
structure Reseated (hardware : HardwareGraph) (batch : List Tid) (s s' : IncrementalSolver) : Prop where
  same : s' = { s with initialTargetCpu := s'.initialTargetCpu, initialTargetNode := s'.initialTargetNode }
  kept : ∀ t ∉ batch, s'.initialTargetCpu.find? t = s.initialTargetCpu.find? t
  targeted : ∀ t, Targeted hardware s t → Targeted hardware s' t

theorem Seats.put_reseated (hardware : HardwareGraph) (st : Seats) (tid : Tid) {cpu : Int} (hcpu : hardware.HasCpu cpu) :
    Reseated hardware [tid] st.solver (st.put hardware tid cpu).solver where
  same := rfl
  kept t ht := OrdMap.find?_insert_ne _ _ (fun he => ht (by simp [he]))
  targeted t ht := by
    by_cases he : tid = t
    · subst he
      exact ⟨cpu, OrdMap.find?_insert_self _ _ _, hcpu, OrdMap.find?_insert_self _ _ _⟩
    · obtain ⟨c, h1, h2, h3⟩ := ht
      exact ⟨c, (OrdMap.find?_insert_ne _ _ he).trans h1, h2, (OrdMap.find?_insert_ne _ _ he).trans h3⟩

theorem seatBatch_reseated : ∀ {batch : List Tid} {st st' : Seats},
    (∀ t ∈ batch, Targeted input.hardware st.solver t) → seatBatch input batch st = .ok st' →
    Reseated input.hardware batch st.solver st'.solver
  | [], st, st', _, h => by
    cases h
    exact ⟨rfl, fun _ _ => rfl, fun _ ht => ht⟩
  | tid :: batch, st, st', ht, h => by
    unfold seatBatch at h
    rcases seatPending_spec (ht tid List.mem_cons_self) with ⟨cpu, -, hcpu, he⟩ | ⟨he, -⟩
    · rw [he] at h
      have h₁ := Seats.put_reseated input.hardware st tid hcpu
      have h₂ := seatBatch_reseated (fun t hm => h₁.targeted t (ht t (List.mem_cons_of_mem _ hm))) h
      refine ⟨?_, fun t hm => ?_, fun t hm => h₂.targeted t (h₁.targeted t hm)⟩
      · rw [h₂.same, h₁.same]
      · rw [List.mem_cons, not_or] at hm
        rw [h₂.kept t hm.2, h₁.kept t (by simpa using hm.1)]
    · rw [he] at h
      cases h

theorem Reseated.booked {hardware : HardwareGraph} {batch : List Tid} {s' : IncrementalSolver}
    (h : Reseated hardware batch s s') (hb : Booked hardware s) : Booked hardware s' := by
  have ht : s'.Pinning → ∀ t ∈ s.threads, Targeted hardware s' t := by
    intro hp t hm
    rw [h.same] at hp
    exact h.targeted t (hb.targets hp t hm)
  rw [h.same]
  refine ⟨hb.identities, hb.keyed, hb.pinned, hb.placed, hb.moved, fun hp t hm => ?_, hb.candidates, hb.candidateNodes,
    hb.calm⟩
  obtain ⟨cpu, h1, h2, h3⟩ := ht (by rw [h.same]; exact hp) t hm
  exact ⟨cpu, h1, h2, h3⟩

/-- Where every thread has its targets, reading them changes nothing. -/
theorem readTargets_eq {hardware : HardwareGraph} (h : ∀ t ∈ s.threads, Targeted hardware s t) : readTargets s = s := by
  have htouch : ∀ (m : OrdMap Tid Int) (l : List Tid), (∀ t ∈ l, t ∈ m) → l.foldl (fun m t => m.touch t 0) m = m := by
    intro m l
    induction l with
    | nil => exact fun _ => rfl
    | cons t l ih =>
      intro hl
      rw [List.foldl_cons, OrdMap.touch_of_mem 0 (hl t List.mem_cons_self)]
      exact ih (fun u hu => hl u (List.mem_cons_of_mem _ hu))
  have hmem : ∀ t ∈ s.threads.keys, t ∈ s.initialTargetCpu ∧ t ∈ s.initialTargetNode := by
    intro t ht
    obtain ⟨cpu, h1, -, h3⟩ := h t (OrdMap.mem_keys.1 ht)
    exact ⟨OrdMap.mem_of_find h1, OrdMap.mem_of_find h3⟩
  unfold readTargets
  dsimp only
  rw [htouch _ _ (fun t ht => (hmem t (List.mem_of_mem_filter ht)).1),
    htouch _ _ (fun t ht => (hmem t (List.mem_of_mem_filter ht)).2), ite_self]

theorem mem_pendingBatch {hardware : HardwareGraph} {budget : Nat} {t : Tid} (h : t ∈ pendingBatch s hardware budget) :
    t ∈ s.threads ∧ isPending s t = true := by
  have hall : t ∈ allPending s hardware := List.mem_of_mem_take h
  unfold allPending at hall
  obtain ⟨hk, hp⟩ := List.mem_filter.1 ((List.mem_insertionSort _).1 hall)
  exact ⟨OrdMap.mem_keys.1 hk, hp⟩

/-- **The branch, unpacked**: no budget, or a batch that was seated. -/
theorem initialPinning_ok (hp : ∀ t ∈ s.threads, Targeted input.hardware s t) {proposal : SolverProposal}
    {r : SolverProposal × IncrementalSolver} (h : initialPinning s input proposal = .ok r) :
    (proposal.migrationBudget = 0 ∧ r.1.actions = proposal.actions ∧ r.2 = s) ∨
    ∃ st, seatBatch input (pendingBatch s input.hardware proposal.migrationBudget)
        { solver := s, projected := vacated s (pendingBatch s input.hardware proposal.migrationBudget) } = .ok st ∧
      r.1.actions = (pendingBatch s input.hardware proposal.migrationBudget).map (pinAction st.solver input.hardware) ∧
      (r.2 = st.solver ∧ r.1.actions = [] ∨ r.2 = { st.solver with outstanding := some r.1 }) := by
  unfold initialPinning at h
  dsimp only at h
  split at h
  · rename_i hzero
    cases h
    exact Or.inl ⟨hzero, rfl, rfl⟩
  · rw [readTargets_eq hp] at h
    cases hs : seatBatch input (pendingBatch s input.hardware proposal.migrationBudget)
        { solver := s, projected := vacated s (pendingBatch s input.hardware proposal.migrationBudget) } with
    | error e =>
      rw [hs] at h
      cases h
    | ok st =>
      rw [hs] at h
      cases h
      refine Or.inr ⟨st, rfl, rfl, ?_⟩
      unfold offer
      dsimp only
      split
      · exact Or.inr rfl
      · rename_i hready
        exact Or.inl ⟨rfl, by simpa using hready⟩

theorem initialPinning_booked (h : Booked input.hardware s) (hphase : s.phase = .initialPinning)
    {proposal : SolverProposal} {r : SolverProposal × IncrementalSolver} (hr : initialPinning s input proposal = .ok r) :
    Booked input.hardware r.2 ∧ Settled r.2 := by
  have ht := h.targets (Or.inl hphase)
  have hno : ∀ s' : IncrementalSolver, s'.phase = s.phase → Settled s' := by
    intro s' he ho
    rw [he, hphase] at ho
    cases ho
  rcases initialPinning_ok ht hr with ⟨-, -, he⟩ | ⟨st, hst, -, he⟩
  · rw [he]
    exact ⟨h, hno s rfl⟩
  · have hre := seatBatch_reseated (fun t hm => ht t (mem_pendingBatch hm).1) hst
    have hb := hre.booked h
    have hsame : st.solver.phase = s.phase := by rw [hre.same]
    rcases he with ⟨he, -⟩ | he
    · rw [he]
      exact ⟨hb, hno _ hsame⟩
    · rw [he]
      exact ⟨⟨hb.identities, hb.keyed, hb.pinned, hb.placed, hb.moved, hb.targets, hb.candidates, hb.candidateNodes,
        hb.calm⟩, hno _ hsame⟩

end Batch

end IncrementalSolver
end AffinityGraph
