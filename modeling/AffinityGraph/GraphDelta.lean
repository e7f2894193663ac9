import AffinityGraph.ChangeFeed
import AffinityGraph.RelationWindow
/-!
# GraphDelta — what `take_delta` tells of the window (`graph.cpp`)

`takeDelta` compares the demands and edges of now with those it has emitted.  A thread that is gone or is another one by now is
removed, an edge that is gone too; a new one is sent, and one that has moved by its threshold since it was last sent.  Whoever
applies the deltas in order has what was emitted (`takeDelta_apply`), and that is close to the window (`takeDelta_threads`,
`takeDelta_edges`).
-/
namespace AffinityGraph

/-- The arguments of `take_delta`. -/
structure DeltaThresholds where
  demand : ℚ
  edgeAbsolute : ℚ
  edgeRelative : ℚ
  deriving DecidableEq

structure GraphDelta where
  upsertThreads : List ThreadDemand := []
  removedThreads : List ThreadIdentity := []
  upsertEdges : List RelationEdge := []
  removedEdges : List EdgeKey := []

def RelationEdge.key (e : RelationEdge) : EdgeKey := edgeKey e.fromTid e.toTid

namespace GraphWindow

/-- A thread that has to be sent, against what was emitted of its TID. -/
def staleDemand (th : DeltaThresholds) (previous : Option ThreadDemand) (current : ThreadDemand) : Bool :=
  match previous with
  | none => true
  | some p => !decide (p.identity = current.identity) || decide (th.demand ≤ |p.demand - current.demand|) ||
      decide (p.group ≠ current.group)

/-- What a change of score is relative to. -/
def scale (old : ℚ) : ℚ := max |old| (1 / 10 ^ 9)

def staleEdge (th : DeltaThresholds) (previous : Option RelationEdge) (current : RelationEdge) : Bool :=
  let old := previous.elim 0 (·.score)
  let absolute := |current.score - old|
  let relative := absolute / scale old
  previous.isNone || decide (th.edgeAbsolute ≤ absolute) || decide (th.edgeRelative ≤ relative)

/-- The emitted threads that are no longer there, or are others by now. -/
def goneThreads (emitted current : OrdMap Tid ThreadDemand) : List ThreadIdentity :=
  (emitted.entries.filter (fun e =>
    !(current.find? e.1).any (fun c => decide (c.identity = e.2.identity)))).map (fun e => e.2.identity)

def takeDelta (g : GraphWindow) (th : DeltaThresholds) : GraphDelta × GraphWindow :=
  let (ds, g₁) := g.demands
  let current := ds.foldl (fun (m : OrdMap Tid ThreadDemand) d => m.insert d.identity.tid d) ∅
  let removedThreads := goneThreads g₁.emittedDemands current
  let (threads, emittedDemands) := ChangeFeed.bring (staleDemand th) current
    (removedThreads.foldl (fun m i => m.erase i.tid) g₁.emittedDemands)
  let (es, g₂) := g₁.edges
  let currentEdges := es.foldl (fun (m : OrdMap EdgeKey RelationEdge) e => m.insert e.key e) ∅
  let removedEdges := g₂.emittedEdges.keys.filter (fun k => !decide (k ∈ currentEdges))
  let (edges, emittedEdges) := ChangeFeed.bring (staleEdge th) currentEdges g₂.emittedEdges
  ({ upsertThreads := threads.map Prod.snd
     removedThreads := removedThreads
     upsertEdges := edges.map Prod.snd
     removedEdges := removedEdges },
    { g₂ with
      emittedDemands := emittedDemands
      emittedEdges := removedEdges.foldl OrdMap.erase emittedEdges })

end GraphWindow

/-! ## The receiver -/

/-- What one who follows the deltas knows. -/
structure Followed where
  threads : OrdMap Tid ThreadDemand := ∅
  edges : OrdMap EdgeKey RelationEdge := ∅

/-- A delta is applied by dropping what is removed, then putting in what is sent. -/
def Followed.apply (f : Followed) (δ : GraphDelta) : Followed where
  threads := δ.upsertThreads.foldl (fun m d => m.insert d.identity.tid d)
    (δ.removedThreads.foldl (fun m i => m.erase i.tid) f.threads)
  edges := δ.upsertEdges.foldl (fun m e => m.insert e.key e) (δ.removedEdges.foldl OrdMap.erase f.edges)

namespace GraphWindow

variable {g : GraphWindow}

def emitted (g : GraphWindow) : Followed := ⟨g.emittedDemands, g.emittedEdges⟩

/-- The entries of a map that was filled by key have the keys of their values. -/
theorem key_of_filled {κ ν : Type} [LinearOrder κ] {key : ν → κ} {l : List ν} {k : κ} {v : ν}
    (h : (l.foldl (fun (m : OrdMap κ ν) x => m.insert (key x) x) ∅).find? k = some v) : v ∈ l ∧ key v = k := by
  rcases OrdMap.find?_foldl_insert key (fun x => x) l ∅ h with ⟨x, hx, hk, hxv⟩ | hnone
  · exact hxv ▸ ⟨hx, hk⟩
  · cases hnone

/-- Putting in the sent values by their keys replays them. -/
theorem insert_sent {κ ν : Type} [LinearOrder κ] {key : ν → κ} {stale : Option ν → ν → Bool} {l : List ν}
    {copy m : OrdMap κ ν} :
    ((ChangeFeed.bring stale (l.foldl (fun (m : OrdMap κ ν) x => m.insert (key x) x) ∅) copy).1.map Prod.snd).foldl
        (fun m v => m.insert (key v) v) m =
      ChangeFeed.replay (ChangeFeed.bring stale (l.foldl (fun (m : OrdMap κ ν) x => m.insert (key x) x) ∅) copy).1 m := by
  rw [ChangeFeed.replay, List.foldl_map]
  refine List.foldl_ext _ _ _ (fun m e he => ?_)
  rw [(key_of_filled (OrdMap.mem_entries.1 (show (e.1, e.2) ∈ _ from ChangeFeed.mem_of_sent he))).2]

theorem emitted_demands (g : GraphWindow) : g.demands.2.emitted = g.emitted := by
  unfold demands
  cases g.demandCache <;> rfl

theorem emitted_edges (g : GraphWindow) : g.edges.2.emitted = g.emitted := by
  unfold edges
  cases g.edgeCache with
  | some es => rfl
  | none => exact emitted_demands g

/-- **Whoever applies the delta has what is emitted after it.** -/
theorem takeDelta_apply (g : GraphWindow) (th : DeltaThresholds) :
    g.emitted.apply (g.takeDelta th).1 = (g.takeDelta th).2.emitted := by
  have hd : g.demands.2.emittedDemands = g.emittedDemands := congrArg Followed.threads (emitted_demands g)
  have he : g.demands.2.edges.2.emittedEdges = g.emittedEdges :=
    congrArg Followed.edges ((emitted_edges g.demands.2).trans (emitted_demands g))
  unfold Followed.apply takeDelta emitted
  dsimp only
  rw [hd, he, insert_sent, ChangeFeed.replay_bring, insert_sent, ChangeFeed.replay_erase]
  intro k hk
  simpa using (List.mem_filter.1 hk).2

/-! ## How close it is -/

section Filled

variable {κ ν : Type} [LinearOrder κ] {key : ν → κ} {l : List ν}

theorem find?_filled (hn : (l.map key).Nodup) {v : ν} (hv : v ∈ l) :
    (l.foldl (fun (m : OrdMap κ ν) x => m.insert (key x) x) ∅).find? (key v) = some v :=
  OrdMap.find?_foldl_insert_of_mem key (fun x => x) l ∅ hn hv

theorem mem_filled {k : κ} : k ∈ l.foldl (fun (m : OrdMap κ ν) x => m.insert (key x) x) ∅ ↔ ∃ v ∈ l, key v = k := by
  constructor
  · intro h
    obtain ⟨v, hv⟩ := OrdMap.mem_iff.1 h
    exact ⟨v, key_of_filled hv⟩
  · rintro ⟨v, hv, rfl⟩
    exact OrdMap.mem_foldl_insert key (fun x => x) l ∅ hv

end Filled

/-- What was emitted of a TID is about that TID. -/
def EmittedKeyed (g : GraphWindow) : Prop := ∀ t d, g.emittedDemands.find? t = some d → d.identity.tid = t

/-- The emitted threads after the removals: the same thread is still there. -/
theorem find?_kept {emitted current : OrdMap Tid ThreadDemand} (hkeyed : ∀ t d, emitted.find? t = some d → d.identity.tid = t)
    {t : Tid} {p : ThreadDemand}
    (h : ((goneThreads emitted current).foldl (fun m i => m.erase i.tid) emitted).find? t = some p) :
    emitted.find? t = some p ∧ ∃ c, current.find? t = some c ∧ c.identity = p.identity := by
  have herase : (goneThreads emitted current).foldl (fun m i => m.erase i.tid) emitted =
      ((goneThreads emitted current).map (·.tid)).foldl OrdMap.erase emitted := by rw [List.foldl_map]
  rw [herase, OrdMap.find?_foldl_erase] at h
  split at h
  · cases h
  · rename_i hstays
    refine ⟨h, ?_⟩
    by_contra hgone
    refine hstays (List.mem_map.2 ⟨p.identity, List.mem_map.2 ⟨(t, p), List.mem_filter.2 ⟨OrdMap.mem_entries.2 h, ?_⟩, rfl⟩,
      hkeyed t p h⟩)
    cases hc : current.find? t with
    | none => simp
    | some c =>
      have hne : c.identity ≠ p.identity := fun heq => hgone ⟨c, hc, heq⟩
      simp [hne]

/-- **The emitted threads are those of now**, each as it was last sent. -/
theorem takeDelta_threads (hkeyed : g.EmittedKeyed) {th : DeltaThresholds} (hth : 0 < th.demand)
    (hn : (g.demands.1.map (·.identity.tid)).Nodup) :
    (∀ t, t ∈ (g.takeDelta th).2.emittedDemands ↔ ∃ d ∈ g.demands.1, d.identity.tid = t) ∧
    (g.takeDelta th).2.EmittedKeyed ∧
    ∀ d ∈ g.demands.1, ∃ f, (g.takeDelta th).2.emittedDemands.find? d.identity.tid = some f ∧ f.identity = d.identity ∧
      f.group = d.group ∧ |f.demand - d.demand| < th.demand := by
  have hd : g.demands.2.emittedDemands = g.emittedDemands := congrArg Followed.threads (emitted_demands g)
  let current := g.demands.1.foldl (fun (m : OrdMap Tid ThreadDemand) d => m.insert d.identity.tid d) ∅
  let kept := (goneThreads g.emittedDemands current).foldl (fun m i => m.erase i.tid) g.emittedDemands
  have hafter : (g.takeDelta th).2.emittedDemands = (ChangeFeed.bring (staleDemand th) current kept).2 := by
    unfold takeDelta
    dsimp only
    rw [hd]
  have hsome : ∀ d ∈ g.demands.1, ∃ f, (g.takeDelta th).2.emittedDemands.find? d.identity.tid = some f ∧
      f.identity = d.identity ∧ f.group = d.group ∧ |f.demand - d.demand| < th.demand := by
    intro d hd
    have hcur : current.find? d.identity.tid = some d := find?_filled hn hd
    rw [hafter, ChangeFeed.find?_bring, hcur]
    cases hk : kept.find? d.identity.tid with
    | none => exact ⟨d, rfl, rfl, rfl, by simpa using hth⟩
    | some p =>
      dsimp only
      split
      · exact ⟨d, rfl, rfl, rfl, by simpa using hth⟩
      · rename_i hfresh
        simp only [staleDemand, Bool.or_eq_true, Bool.not_eq_true', decide_eq_false_iff_not, decide_eq_true_eq, not_or,
          not_not, not_le, ne_eq] at hfresh
        exact ⟨p, rfl, hfresh.1.1, hfresh.2, hfresh.1.2⟩
  have hnone : ∀ t, current.find? t = none → (g.takeDelta th).2.emittedDemands.find? t = none := by
    intro t ht
    rw [hafter, ChangeFeed.find?_bring, ht]
    cases hk : kept.find? t with
    | none => rfl
    | some p =>
      obtain ⟨-, c, hc, -⟩ := find?_kept hkeyed hk
      rw [ht] at hc
      cases hc
  refine ⟨fun t => ⟨fun ht => ?_, ?_⟩, fun t f hf => ?_, hsome⟩
  · by_contra hno
    have hmiss : t ∉ current := fun hin => hno (mem_filled.1 hin)
    rw [OrdMap.mem_def, hnone t (OrdMap.notMem_iff.1 hmiss)] at ht
    cases ht
  · rintro ⟨d, hd, rfl⟩
    obtain ⟨f, hf, -⟩ := hsome d hd
    exact OrdMap.mem_of_find hf
  · cases hc : current.find? t with
    | none =>
      rw [hnone t hc] at hf
      cases hf
    | some c =>
      obtain ⟨hin, hct⟩ := key_of_filled hc
      obtain ⟨f', hf', hid, -⟩ := hsome c hin
      rw [hct, hf] at hf'
      cases hf'
      rw [hid]
      exact hct

/-- **The emitted edges are those of now**, each with a score close to what it is. -/
theorem takeDelta_edges {th : DeltaThresholds} (habs : 0 < th.edgeAbsolute) (hrel : 0 < th.edgeRelative)
    (hn : (g.demands.2.edges.1.map RelationEdge.key).Nodup) :
    (∀ k, k ∈ (g.takeDelta th).2.emittedEdges ↔ ∃ e ∈ g.demands.2.edges.1, e.key = k) ∧
    ∀ e ∈ g.demands.2.edges.1, ∃ f, (g.takeDelta th).2.emittedEdges.find? e.key = some f ∧
      |e.score - f.score| < th.edgeAbsolute ∧ |e.score - f.score| / scale f.score < th.edgeRelative := by
  let current := g.demands.2.edges.1.foldl (fun (m : OrdMap EdgeKey RelationEdge) e => m.insert e.key e) ∅
  let gone := g.demands.2.edges.2.emittedEdges.keys.filter (fun k => !decide (k ∈ current))
  have hafter : ∀ k, (g.takeDelta th).2.emittedEdges.find? k = if k ∈ gone then none
      else (ChangeFeed.bring (staleEdge th) current g.demands.2.edges.2.emittedEdges).2.find? k := by
    intro k
    have heq : (g.takeDelta th).2.emittedEdges =
        gone.foldl OrdMap.erase (ChangeFeed.bring (staleEdge th) current g.demands.2.edges.2.emittedEdges).2 := rfl
    rw [heq, OrdMap.find?_foldl_erase]
    by_cases hk : k ∈ gone
    · rw [if_pos hk, if_pos hk]
    · rw [if_neg hk, if_neg hk]
  have hsame : ∀ e : RelationEdge, |e.score - e.score| < th.edgeAbsolute ∧
      |e.score - e.score| / scale e.score < th.edgeRelative := by
    intro e
    simp [habs, hrel]
  have hsome : ∀ e ∈ g.demands.2.edges.1, ∃ f, (g.takeDelta th).2.emittedEdges.find? e.key = some f ∧
      |e.score - f.score| < th.edgeAbsolute ∧ |e.score - f.score| / scale f.score < th.edgeRelative := by
    intro e he
    have hcur : current.find? e.key = some e := find?_filled hn he
    have hstays : e.key ∉ gone := by
      intro hin
      have hnot := (List.mem_filter.1 hin).2
      simp [OrdMap.mem_of_find hcur] at hnot
    rw [hafter, if_neg hstays, ChangeFeed.find?_bring, hcur]
    cases hp : g.demands.2.edges.2.emittedEdges.find? e.key with
    | none => exact ⟨e, rfl, hsame e⟩
    | some p =>
      dsimp only
      split
      · exact ⟨e, rfl, hsame e⟩
      · rename_i hfresh
        simp only [staleEdge, Option.isNone_some, Bool.false_or, Option.elim_some, Bool.or_eq_true, not_or] at hfresh
        exact ⟨p, rfl, not_le.1 (fun h => hfresh.1 (decide_eq_true h)), not_le.1 (fun h => hfresh.2 (decide_eq_true h))⟩
  refine ⟨fun k => ⟨fun hk => ?_, ?_⟩, hsome⟩
  · by_contra hno
    have hmiss : k ∉ current := fun hin => hno (mem_filled.1 hin)
    rw [OrdMap.mem_def, hafter, ChangeFeed.find?_bring, OrdMap.notMem_iff.1 hmiss] at hk
    split at hk
    · cases hk
    · rename_i hstays
      have hin : k ∈ g.demands.2.edges.2.emittedEdges := hk
      exact hstays (List.mem_filter.2 ⟨OrdMap.mem_keys.2 hin, by simp [hmiss]⟩)
  · rintro ⟨e, he, rfl⟩
    obtain ⟨f, hf, -⟩ := hsome e he
    exact OrdMap.mem_of_find hf

end GraphWindow
end AffinityGraph
