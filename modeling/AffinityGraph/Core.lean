import AffinityGraph.OrdMap
import Mathlib.Data.String.Basic
import Mathlib.Data.Rat.Floor
/-!
# Core — the data model (`core.hpp`, `topology.cpp`)

TIDs, CPUs and nodes are the source's `int`; a mask is a `std::vector<int>`.  A `double` is read as an exact rational.
A `uint64_t` is a natural number below `2 ^ 64`; the one operation that can leave that range, subtraction, is `subU64`.
-/
namespace AffinityGraph

abbrev Tid := Int
abbrev Mask := List Int

/-- `a - b` on `uint64_t`. -/
def subU64 (a b : Nat) : Nat := (a + 2 ^ 64 - b) % 2 ^ 64

theorem subU64_of_le {a b : Nat} (h : b ≤ a) (ha : a < 2 ^ 64) : subU64 a b = a - b := by
  unfold subU64; omega

/-- How a call ends when it does not return: with an exception, or waiting for a lock forever. -/
inductive Halt where
  | thrown (what : String)
  | blocked
  deriving DecidableEq, Repr

abbrev Outcome := Except Halt

theorem toOption_eq_some {ε α : Type} {x : Except ε α} {a : α} (h : x.toOption = some a) : x = .ok a := by
  cases x with
  | error e => cases h
  | ok b => exact congrArg Except.ok (Option.some.inj h)

inductive Mode where
  | observe
  | plan
  | active
  deriving DecidableEq, Repr

/-! ## The hardware graph -/

structure Cpu where
  id : Int
  node : Int
  online : Bool
  deriving DecidableEq, Repr

/-- The topology as `discover` and `load_calibration` leave it. -/
structure HardwareGraph where
  cpus : List Cpu
  cpuLatency : OrdMap (Int ×ₗ Int) ℚ := ∅
  nodeDistance : OrdMap (Int ×ₗ Int) ℚ := ∅
  deriving DecidableEq

namespace HardwareGraph

/-- The nodes of the envelope's CPUs, ascending. -/
def nodes (h : HardwareGraph) : List Int := (OrdSet.ofList (h.cpus.map (·.node))).toList

/-- The online CPUs of a node, ascending. -/
def cpusInNode (h : HardwareGraph) (node : Int) : List Int :=
  ((h.cpus.filter (fun c => decide (c.node = node) && c.online)).map (·.id)).insertionSort (· ≤ ·)

def latency (h : HardwareGraph) (fromCpu toCpu : Int) : ℚ :=
  if fromCpu = toCpu then 0 else
  match h.cpuLatency.find? (toLex (fromCpu, toCpu)) with
  | some v => v
  | none =>
    -- the source's loop keeps the last CPU with the wanted id
    let nodeOf (id : Int) : Int := (h.cpus.filter (fun c => decide (c.id = id))).getLast?.elim (-1) (·.node)
    match h.nodeDistance.find? (toLex (nodeOf fromCpu, nodeOf toCpu)) with
    | some v => v
    | none => if nodeOf fromCpu = nodeOf toCpu then 10 else 20

/-- The node of the last CPU with an id. -/
def lastNode (h : HardwareGraph) (id : Int) : Int := (h.cpus.filter (fun c => decide (c.id = id))).getLast?.elim (-1) (·.node)

theorem latency_eq (h : HardwareGraph) (a b : Int) : h.latency a b =
    if a = b then 0 else (h.cpuLatency.find? (toLex (a, b))).getD
      ((h.nodeDistance.find? (toLex (h.lastNode a, h.lastNode b))).getD (if h.lastNode a = h.lastNode b then 10 else 20)) := by
  unfold latency lastNode
  split
  · rfl
  · cases h.cpuLatency.find? (toLex (a, b)) with
    | some v => rfl
    | none =>
      dsimp only
      split
      · rename_i v hv
        rw [hv]
        rfl
      · rename_i hnone
        rw [hnone]
        rfl

theorem mem_nodes {h : HardwareGraph} {n : Int} : n ∈ h.nodes ↔ ∃ c ∈ h.cpus, c.node = n := by
  simp [nodes, OrdSet.mem_toList]

end HardwareGraph

/-! ## Threads and relations -/

structure ThreadIdentity where
  tgid : Int
  tid : Tid
  starttime : Nat
  deriving DecidableEq, Repr

namespace ThreadIdentity

/-- The identity as `operator<` reads it: `tgid`, then `tid`, then `starttime`. -/
def key (i : ThreadIdentity) : Int ×ₗ Int ×ₗ Nat := toLex (i.tgid, toLex (i.tid, i.starttime))

theorem key_injective : Function.Injective key := by
  intro a b h
  have h' := congrArg (fun x => (ofLex x)) h
  cases a; cases b
  simp only [key, ofLex_toLex, Prod.mk.injEq] at h'
  obtain ⟨h1, h2⟩ := h'
  have h3 := congrArg (fun x => ofLex x) h2
  simp only [ofLex_toLex, Prod.mk.injEq] at h3
  simp [h1, h3.1, h3.2]

instance : LinearOrder ThreadIdentity := LinearOrder.lift' key key_injective

end ThreadIdentity

structure ThreadDemand where
  identity : ThreadIdentity
  group : String
  demand : ℚ
  confidence : ℚ
  currentCpu : Int
  deriving DecidableEq

structure RelationEdge where
  fromTid : Tid
  toTid : Tid
  activity : ℚ := 0
  sync : ℚ := 0
  share : ℚ := 0
  stability : ℚ := 0
  score : ℚ := 0
  handoffRate : ℚ := 0
  sharedVfsSeconds : ℚ := 0
  activeOverlap : ℚ := 0
  observationCount : Nat := 0
  coverage : ℚ := 0
  coefficientOfVariation : ℚ := 0
  deriving DecidableEq

abbrev EdgeKey := Int ×ₗ Int

/-- A pair of TIDs, the smaller first. -/
def edgeKey (a b : Int) : EdgeKey := toLex (min a b, max a b)

structure PlacementDelta where
  tidToCpu : OrdMap Tid Int := ∅
  tidToMask : OrdMap Tid Mask := ∅
  deriving DecidableEq

end AffinityGraph
