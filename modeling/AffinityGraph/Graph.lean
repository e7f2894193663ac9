import AffinityGraph.Core
/-!
# Graph — the sliding window of samples and relations (`graph.cpp`)

`GraphWindow` keeps the samples of each thread and the relation observations of each pair, oldest first, and beside the
relations their running sums.  `demands` and `edges` cache what they compute; the caches are fields here too, so a call
returns the window it leaves.  What `take_delta` has emitted is kept as well (`GraphDelta`).

`log1p` and `sqrt` are libm's; they stand as parameters of the window.
-/
namespace AffinityGraph

structure ThreadSample where
  identity : ThreadIdentity
  timestampNs : Nat := 0
  runtimeNs : Nat := 0
  runqueueNs : Nat := 0
  voluntarySwitches : Nat := 0
  involuntarySwitches : Nat := 0
  recentCpu : Int := -1
  state : Char := '?'
  comm : String := ""
  allowedCpus : Mask := []
  parentTid : Tid := -1
  startRoutine : Nat := 0
  startSymbol : String := ""
  cgroups : List String := []

structure RelationObservation where
  fromTid : Tid
  toTid : Tid
  fromStarttime : Nat := 0
  toStarttime : Nat := 0
  timestampNs : Nat := 0
  futexPerSecond : ℚ := 0
  sharedVfsSeconds : ℚ := 0
  activeOverlap : ℚ := 0
  deriving DecidableEq

structure ThreadWindowRecord where
  identity : ThreadIdentity
  comm : String
  parentTid : Tid
  startRoutine : Nat
  startSymbol : String
  group : String
  demand : ℚ
  confidence : ℚ
  currentCpu : Int
  allowedCpus : Mask
  state : Char
  sampleCount : Nat
  runtimeDeltaNs : Nat
  runqueueDeltaNs : Nat
  voluntarySwitchesDelta : Nat
  involuntarySwitchesDelta : Nat

structure RelationAggregate where
  count : Nat := 0
  forwardSync : ℚ := 0
  reverseSync : ℚ := 0
  handoff : ℚ := 0
  share : ℚ := 0
  overlap : ℚ := 0
  total : ℚ := 0
  totalSquared : ℚ := 0

structure Calibration where
  activityLogP95 : ℚ := 1
  syncLogP95 : ℚ := 1
  shareLogP95 : ℚ := 1

structure Libm where
  log1p : ℚ → ℚ
  sqrt : ℚ → ℚ

/-- `GraphWindow`. -/
structure GraphWindow where
  horizonSeconds : Nat
  calibration : Calibration := {}
  libm : Libm
  threads : OrdMap Tid (List ThreadSample) := ∅
  relationHistories : OrdMap EdgeKey (List RelationObservation) := ∅
  relationAggregates : OrdMap EdgeKey RelationAggregate := ∅
  demandCache : Option (List ThreadDemand) := none
  edgeCache : Option (List RelationEdge) := none
  emittedDemands : OrdMap Tid ThreadDemand := ∅
  emittedEdges : OrdMap EdgeKey RelationEdge := ∅

namespace RelationAggregate

def totalOf (o : RelationObservation) : ℚ := o.futexPerSecond + o.sharedVfsSeconds

/-- The sums with one more observation of the pair `key`. -/
def add (a : RelationAggregate) (key : EdgeKey) (o : RelationObservation) : RelationAggregate where
  count := a.count + 1
  forwardSync := if o.fromTid = (ofLex key).1 then a.forwardSync + o.futexPerSecond else a.forwardSync
  reverseSync := if o.fromTid = (ofLex key).1 then a.reverseSync else a.reverseSync + o.futexPerSecond
  handoff := a.handoff + o.futexPerSecond
  share := a.share + o.sharedVfsSeconds
  overlap := a.overlap + o.activeOverlap
  total := a.total + totalOf o
  totalSquared := a.totalSquared + totalOf o * totalOf o

/-- The sums without one of them. -/
def drop (a : RelationAggregate) (key : EdgeKey) (o : RelationObservation) : RelationAggregate where
  count := a.count - 1
  forwardSync := if o.fromTid = (ofLex key).1 then a.forwardSync - o.futexPerSecond else a.forwardSync
  reverseSync := if o.fromTid = (ofLex key).1 then a.reverseSync else a.reverseSync - o.futexPerSecond
  handoff := a.handoff - o.futexPerSecond
  share := a.share - o.sharedVfsSeconds
  overlap := a.overlap - o.activeOverlap
  total := a.total - totalOf o
  totalSquared := a.totalSquared - totalOf o * totalOf o

end RelationAggregate

namespace GraphWindow

/-! ## Aging -/

/-- Erase the relations `keep` rejects, with their sums. -/
def keepRelations (g : GraphWindow) (keep : EdgeKey → Bool) : GraphWindow :=
  { g with
    relationHistories := g.relationHistories.filter (fun k _ => keep k)
    relationAggregates := g.relationAggregates.filter (fun k _ => keep k || !decide (k ∈ g.relationHistories)) }

/-- A pair one of whose threads is `tid`. -/
def touches (tid : Tid) (key : EdgeKey) : Bool := decide ((ofLex key).1 = tid) || decide ((ofLex key).2 = tid)

/-- One sample of the window: a TID seen under another start time loses its history and its relations first. -/
def observeSample (g : GraphWindow) (sample : ThreadSample) : GraphWindow :=
  let tid := sample.identity.tid
  let history := g.threads.getD tid []
  match history.getLast? with
  | some last =>
    if last.identity.starttime = sample.identity.starttime then
      { g with threads := g.threads.insert tid (history ++ [sample]) }
    else { g.keepRelations (fun k => !touches tid k) with threads := g.threads.insert tid [sample] }
  | none => { g with threads := g.threads.insert tid [sample] }

def newest (samples : List ThreadSample) : Nat := samples.foldl (fun n s => max n s.timestampNs) 0

def cutoff (horizonSeconds newest : Nat) : Nat :=
  if horizonSeconds * 10 ^ 9 < newest then newest - horizonSeconds * 10 ^ 9 else 0

/-- The front of a history is popped while it is older than the cutoff. -/
def agedThreads (threads : OrdMap Tid (List ThreadSample)) (cut : Nat) : OrdMap Tid (List ThreadSample) :=
  (threads.mapVal (fun _ h => h.dropWhile (fun s => decide (s.timestampNs < cut)))).filter (fun _ h => !h.isEmpty)

def agedHistory (cut : Nat) (h : List RelationObservation) : List RelationObservation :=
  h.dropWhile (fun o => decide (o.timestampNs < cut))

/-- The observations that age takes off the front. -/
def expired (cut : Nat) (h : List RelationObservation) : List RelationObservation :=
  h.takeWhile (fun o => decide (o.timestampNs < cut))

def ageRelations (g : GraphWindow) (cut : Nat) : GraphWindow :=
  let aggregates := g.relationHistories.entries.foldl (fun (m : OrdMap EdgeKey RelationAggregate) e =>
    m.insert e.1 ((expired cut e.2).foldl (fun a o => a.drop e.1 o) (m.getD e.1 {}))) g.relationAggregates
  let histories := g.relationHistories.mapVal (fun _ h => agedHistory cut h)
  { g with
    relationHistories := histories.filter (fun _ h => !h.isEmpty)
    relationAggregates := aggregates.filter (fun k _ => !decide (histories.getD k [] = [] ∧ k ∈ histories)) }

def observeThreads (g : GraphWindow) (samples : List ThreadSample) : GraphWindow :=
  let g₁ := samples.foldl observeSample { g with demandCache := none, edgeCache := none }
  let cut := cutoff g.horizonSeconds (newest samples)
  ageRelations { g₁ with threads := agedThreads g₁.threads cut } cut

/-! ## Relations -/

def observeRelation (g : GraphWindow) (o : RelationObservation) : GraphWindow :=
  if o.fromTid = o.toTid then g else
  let key := edgeKey o.fromTid o.toTid
  { g with
    relationHistories := g.relationHistories.update key [] (· ++ [o])
    relationAggregates := g.relationAggregates.update key {} (·.add key o)
    edgeCache := none }

def retainRelations (g : GraphWindow) (relations : OrdSet EdgeKey) : GraphWindow :=
  let changed := g.relationHistories.keys.any (fun k => !decide (k ∈ relations))
  let g₁ := g.keepRelations (fun k => decide (k ∈ relations))
  if changed then { g₁ with edgeCache := none } else g₁

/-! ## Families -/

def isSpace (c : Char) : Bool := c = ' ' || c = '\t' || c = '\n' || c = '\r' || c.toNat = 11 || c.toNat = 12

/-- `\s+\[[^\]]*\]?$` at the head of a text. -/
def isRole (cs : List Char) : Bool :=
  match cs.dropWhile isSpace with
  | '[' :: body => (cs.head?.elim false isSpace) && !(body.dropLast.contains ']')
  | _ => false

/-- `([_-]?[0-9]+)+$` at the head of a text: digits and separators, no separator before another or at the end. -/
def isOrdinal : List Char → Bool
  | [] => false
  | [c] => c.isDigit
  | c :: d :: cs => (c.isDigit || ((c = '_' || c = '-') && d.isDigit)) && isOrdinal (d :: cs)

/-- `regex_replace` of the leftmost suffix the pattern accepts. -/
def cutSuffix (accepts : List Char → Bool) : List Char → List Char
  | [] => []
  | c :: cs => if accepts (c :: cs) then [] else c :: cutSuffix accepts cs

def normalizeGroup (comm : String) (startRoutine : Nat) (startSymbol : String) : String :=
  let name := cutSuffix isOrdinal (cutSuffix isRole comm.toList)
  let name := if name.isEmpty then "unnamed" else String.ofList name
  name ++ "@" ++ (if startSymbol.isEmpty then toString startRoutine else startSymbol)

/-! ## Demands -/

/-- The share of the wall time two consecutive samples show, when they are in order. -/
def pressureOf (a b : ThreadSample) : Option ℚ :=
  if b.timestampNs ≤ a.timestampNs ∨ b.runtimeNs < a.runtimeNs ∨ b.runqueueNs < a.runqueueNs then none
  else some (min 1 (max 0 ((((b.runtimeNs - a.runtimeNs) + (b.runqueueNs - a.runqueueNs) : Nat) : ℚ) /
    ((b.timestampNs - a.timestampNs : Nat) : ℚ))))

def pressure : List ThreadSample → List ℚ
  | a :: b :: h => (pressureOf a b).toList ++ pressure (b :: h)
  | _ => []

def ewma : List ℚ → ℚ
  | [] => 0
  | v :: vs => vs.foldl (fun e v => 645 / 10000 * v + 9355 / 10000 * e) v

def demandOf (g : GraphWindow) (history : List ThreadSample) : Option ThreadDemand :=
  history.getLast?.map (fun last =>
    { identity := last.identity
      group := normalizeGroup last.comm last.startRoutine last.startSymbol
      demand := ewma (pressure history)
      confidence := min 1 ((pressure history).length / ((max 1 (g.horizonSeconds - 1) : Nat) : ℚ))
      currentCpu := last.recentCpu })

def computeDemands (g : GraphWindow) : List ThreadDemand :=
  (g.threads.entries.filterMap (fun e => demandOf g e.2)).insertionSort (fun a b => a.identity.tid ≤ b.identity.tid)

def demands (g : GraphWindow) : List ThreadDemand × GraphWindow :=
  match g.demandCache with
  | some d => (d, g)
  | none => (computeDemands g, { g with demandCache := some (computeDemands g) })

/-- The last value less the first, when it has not fallen. -/
def riseOf (first last : Nat) : Nat := if first ≤ last then last - first else 0

def recordOf (ds : List ThreadDemand) (tid : Tid) (history : List ThreadSample) : Option ThreadWindowRecord :=
  match history.head?, history.getLast?, ds.find? (fun d => decide (d.identity.tid = tid)) with
  | some first, some last, some d =>
    some
      { identity := last.identity
        comm := last.comm
        parentTid := last.parentTid
        startRoutine := last.startRoutine
        startSymbol := last.startSymbol
        group := d.group
        demand := d.demand
        confidence := d.confidence
        currentCpu := last.recentCpu
        allowedCpus := last.allowedCpus
        state := last.state
        sampleCount := history.length
        runtimeDeltaNs := riseOf first.runtimeNs last.runtimeNs
        runqueueDeltaNs := riseOf first.runqueueNs last.runqueueNs
        voluntarySwitchesDelta := riseOf first.voluntarySwitches last.voluntarySwitches
        involuntarySwitchesDelta := riseOf first.involuntarySwitches last.involuntarySwitches }
  | _, _, _ => none

def threadRecords (g : GraphWindow) : List ThreadWindowRecord × GraphWindow :=
  let (ds, g') := g.demands
  ((g.threads.entries.filterMap (fun e => recordOf ds e.1 e.2)).insertionSort
    (fun a b => a.identity.tid ≤ b.identity.tid), g')

/-! ## Edges -/

def normalized (m : Libm) (value scale : ℚ) : ℚ := min (m.log1p (max 0 value) / scale) 1

def edgeOf (g : GraphWindow) (key : EdgeKey) (a : RelationAggregate) (demand₁ demand₂ : ℚ) : RelationEdge :=
  let count : ℚ := a.count
  let sync := max a.forwardSync a.reverseSync / count
  let share := a.share / count
  let overlap := a.overlap / count
  let activity := normalized g.libm (g.libm.sqrt (demand₁ * demand₂)) g.calibration.activityLogP95
  let coverage := min 1 (count / g.horizonSeconds)
  let mean := a.total / count
  let variance := if a.count < 2 ∨ mean ≤ 0 then 0 else max 0 ((a.totalSquared - count * mean * mean) / (count - 1))
  let cv := if 0 < mean then g.libm.sqrt variance / mean else 0
  let stability := coverage / (1 + cv)
  let syncN := normalized g.libm sync g.calibration.syncLogP95
  let shareN := normalized g.libm share g.calibration.shareLogP95 * min 1 (max 0 overlap)
  { fromTid := (ofLex key).1
    toTid := (ofLex key).2
    activity := activity
    sync := syncN
    share := shareN
    stability := stability
    score := 100 * activity * stability * (7 / 10 * syncN + 3 / 10 * shareN)
    handoffRate := a.handoff / count
    sharedVfsSeconds := share
    activeOverlap := overlap
    observationCount := a.count
    coverage := coverage
    coefficientOfVariation := cv }

/-- The demand of a TID, when the window has one. -/
def demandIn (ds : List ThreadDemand) (tid : Tid) : Option ℚ :=
  (ds.filter (fun d => decide (d.identity.tid = tid))).getLast?.map (·.demand)

def computeEdges (g : GraphWindow) (ds : List ThreadDemand) : List RelationEdge :=
  g.relationAggregates.entries.filterMap (fun e =>
    match demandIn ds (ofLex e.1).1, demandIn ds (ofLex e.1).2 with
    | some d₁, some d₂ => if e.2.count = 0 then none else some (edgeOf g e.1 e.2 d₁ d₂)
    | _, _ => none)

def edges (g : GraphWindow) : List RelationEdge × GraphWindow :=
  match g.edgeCache with
  | some es => (es, g)
  | none =>
    let (ds, g') := g.demands
    (computeEdges g ds, { g' with edgeCache := some (computeEdges g ds) })

/-! ## What enters the window -/

/-- A sample is appended to its thread's history, or starts it again. -/
theorem threads_observeSample (g : GraphWindow) (s : ThreadSample) :
    ∃ h, (h = [] ∨ h = g.threads.getD s.identity.tid []) ∧
      (g.observeSample s).threads = g.threads.insert s.identity.tid (h ++ [s]) := by
  unfold observeSample
  dsimp only
  split
  · split
    · exact ⟨_, Or.inr rfl, rfl⟩
    · exact ⟨[], Or.inl rfl, rfl⟩
  · exact ⟨[], Or.inl rfl, rfl⟩

theorem mem_agedThreads {threads : OrdMap Tid (List ThreadSample)} {cut : Nat} {t : Tid}
    (h : t ∈ agedThreads threads cut) : t ∈ threads := by
  rw [OrdMap.mem_def, agedThreads, OrdMap.find?_filter, OrdMap.find?_mapVal] at h
  rw [OrdMap.mem_def]
  cases hf : threads.find? t with
  | none => simp [hf] at h
  | some x => rfl

theorem mem_foldl_observeSample {t : Tid} : ∀ (l : List ThreadSample) (g : GraphWindow),
    t ∈ (l.foldl observeSample g).threads → t ∈ g.threads ∨ ∃ s ∈ l, s.identity.tid = t
  | [], _, h => Or.inl h
  | s :: l, g, h => by
    rcases mem_foldl_observeSample l (g.observeSample s) h with h' | ⟨x, hx, hxt⟩
    · obtain ⟨hist, -, he⟩ := threads_observeSample g s
      rw [he, OrdMap.mem_insert] at h'
      rcases h' with h' | h'
      · exact Or.inr ⟨s, List.mem_cons_self, h'⟩
      · exact Or.inl h'
    · exact Or.inr ⟨x, List.mem_cons_of_mem _ hx, hxt⟩

/-- **Only sampled threads are in the window.** -/
theorem mem_observeThreads {g : GraphWindow} {samples : List ThreadSample} {t : Tid}
    (h : t ∈ (g.observeThreads samples).threads) : t ∈ g.threads ∨ ∃ s ∈ samples, s.identity.tid = t := by
  have haged : t ∈ (samples.foldl observeSample { g with demandCache := none, edgeCache := none }).threads :=
    mem_agedThreads h
  exact mem_foldl_observeSample samples { g with demandCache := none, edgeCache := none } haged

end GraphWindow
end AffinityGraph
