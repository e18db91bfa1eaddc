import Vllm.Lib.PyError
import Vllm.Lib.Scatter

/-!
# `Vllm.Distributed.EplbPolicy`: the placement of experts
(`vllm/distributed/eplb/policy/default.py`)

`rebalance_experts` decides which logical expert is in each physical slot. Its tensors have a
dimension for the layers that every operation maps over: here a layer is a row, and
`rebalanceExperts` maps over the rows. A tensor of several dimensions that is reshaped is the list
of its elements.

What the weights are is left open. `WeightOps` has what is done with them, and what is known of the
results: an `argsort` is a permutation of the indices, and an `argmax` is an index.
-/

set_option autoImplicit false

namespace Vllm.Distributed

open Vllm.Lib

/-- The operations on weights. -/
structure WeightOps (W : Type) where
  zero : W
  add : W → W → W
  /-- `weight / count`. -/
  divCount : W → Nat → W
  lt : W → W → Bool
  sum : List W → W
  /-- `np.argsort(-weight)`. -/
  argsortDesc : List W → List Nat
  argsortDesc_perm : ∀ weight, (argsortDesc weight).Perm (List.range weight.length)
  /-- `weight.max(dim=-1).indices`. -/
  argmax : List W → Nat
  argmax_lt : ∀ weight, weight ≠ [] → argmax weight < weight.length

namespace EplbPolicy

/-- The result of an operation on indices, which raises when one is out of bounds. -/
def inBounds {β : Type} (x : Option β) : Except PyError β :=
  match x with
  | some y => .ok y
  | none => .error (.runtimeError "index out of bounds")

/-- `view(count, size)` of the elements of a row. -/
def view {β : Type} (xs : List β) (count size : Nat) : List (List β) :=
  (List.range count).map fun j => (xs.drop (j * size)).take size

/-- `a % b`. -/
def pyMod (a b : Nat) : Except PyError Nat :=
  if b = 0 then .error (.zeroDivisionError "integer modulo by zero") else .ok (a % b)

variable {W : Type} (ops : WeightOps W)

/-! ### `balanced_packing` -/

/-- The variables of the packing of a row. An entry that is still `-1` is `none`. -/
structure Packing (W : Type) where
  packWeights : List W
  packItems : List Nat
  packIndex : List (Option Nat)
  rankInPack : List (Option Nat)

/-- The pack with capacity that has the lowest weight, the first one of these. -/
def lightestPack (packWeights : List W) (packItems : List Nat) (groupsPerPack : Nat) :
    Except PyError Nat :=
  match (List.range packItems.length).filter fun j => packItems.getD j 0 < groupsPerPack with
  | [] => .error (.valueError "min() iterable argument is empty")
  | pack :: packs => .ok (packs.foldl (fun best j =>
    if ops.lt (packWeights.getD j ops.zero) (packWeights.getD best ops.zero) then j else best) pack)

/-- The body of the loop over the groups. -/
def packGroup (weight : List W) (groupsPerPack : Nat) (s : Packing W) (group : Nat) :
    Except PyError (Packing W) := do
  let pack ← lightestPack ops s.packWeights s.packItems groupsPerPack
  let rank := s.packItems.getD pack 0
  pyAssert (rank < groupsPerPack) ""
  let groupWeight ← inBounds weight[group]?
  return {
    packWeights := s.packWeights.set pack (ops.add (s.packWeights.getD pack ops.zero) groupWeight)
    packItems := s.packItems.set pack (rank + 1)
    packIndex := s.packIndex.set group (some pack)
    rankInPack := s.rankInPack.set group (some rank) }

/-- `balanced_packing`, for a row. An entry `-1` is no index of a pack. -/
def balancedPacking (weight : List W) (numPacks : Nat) : Except PyError (List Nat × List Nat) := do
  let numGroups := weight.length
  let remaining ← pyMod numGroups numPacks
  pyAssert (remaining = 0) ""
  let groupsPerPack := numGroups / numPacks
  if groupsPerPack = 1 then
    return (List.range numGroups, List.replicate numGroups 0)
  let s ← (ops.argsortDesc weight).foldlM (packGroup ops weight groupsPerPack) {
    packWeights := List.replicate numPacks ops.zero
    packItems := List.replicate numPacks 0
    packIndex := List.replicate numGroups none
    rankInPack := List.replicate numGroups none }
  return (← s.packIndex.mapM inBounds, ← s.rankInPack.mapM inBounds)

/-! ### `replicate_experts` -/

/-- The results of `replicate_experts` for a row. -/
structure Replicas where
  phy2log : List Nat
  rank : List Nat
  logcnt : List Nat

/-- The body of the loop over the redundant slots. -/
def addReplica (weight : List W) (s : Replicas) (i : Nat) : Except PyError Replicas := do
  if weight.length = 0 then
    throw (.indexError "max(): Expected reduction dim -1 to have non-zero size.")
  let redundantIndex := ops.argmax (List.zipWith ops.divCount weight s.logcnt)
  let count ← inBounds s.logcnt[redundantIndex]?
  return {
    phy2log := s.phy2log.set i redundantIndex
    rank := s.rank.set i count
    logcnt := s.logcnt.set redundantIndex (count + 1) }

/-- `replicate_experts`, for a row. -/
def replicateExperts (weight : List W) (numPhy : Nat) : Except PyError Replicas := do
  let numLog := weight.length
  pyAssert (numLog ≤ numPhy) ""
  (List.range' numLog (numPhy - numLog)).foldlM (addReplica ops weight) {
    phy2log := List.range numPhy
    rank := List.replicate numPhy 0
    logcnt := List.replicate numLog 1 }

/-! ### `rebalance_experts_hierarchical` -/

/-- `inverse`. What `empty_like` has is written over. -/
def inverse (perm : List Nat) : Except PyError (List Nat) :=
  inBounds (scatter (List.replicate perm.length 0) perm (List.range perm.length))

/-- Steps 2 and 3 for a node: the replicas of its experts, in the order of the slots of its GPUs. -/
def placeInNode (tokensPerMlog : List W) (numPhy numGpus : Nat) (phyExpertsPerGpu : Nat) :
    Except PyError Replicas := do
  let replicas ← replicateExperts ops tokensPerMlog numPhy
  let tokensPerPhy ←
    inBounds (gather (List.zipWith ops.divCount tokensPerMlog replicas.logcnt) replicas.phy2log)
  let (packIndex, rankInPack) ← balancedPacking ops tokensPerPhy numGpus
  let phy2pphy := List.zipWith (fun pack rank => pack * phyExpertsPerGpu + rank) packIndex rankInPack
  let pphy2phy ← inverse phy2pphy
  return {
    phy2log := ← inBounds (gather replicas.phy2log pphy2phy)
    rank := ← inBounds (gather replicas.rank pphy2phy)
    logcnt := replicas.logcnt }

/-- `rebalance_experts_hierarchical` for a layer, after the assertions: `phy2log`, `phyrank` and
`logcnt`. -/
def rebalanceLayer (weight : List W) (numPhysicalExperts numGroups numNodes numGpus : Nat) :
    Except PyError Replicas := do
  let numLogicalExperts := weight.length
  let groupSize := numLogicalExperts / numGroups
  let groupsPerNode := numGroups / numNodes
  let phyExpertsPerGpu := numPhysicalExperts / numGpus
  -- Step 1: pack groups to nodes
  let tokensPerGroup := (view weight numGroups groupSize).map ops.sum
  let (groupPackIndex, groupRankInPack) ← balancedPacking ops tokensPerGroup numNodes
  let log2mlog := (List.zipWith (fun pack rank => (pack * groupsPerNode + rank) * groupSize)
    groupPackIndex groupRankInPack).flatMap fun start => List.range' start groupSize
  let mlog2log ← inverse log2mlog
  -- Step 2: construct redundant experts within nodes; step 3: pack physical experts to GPUs
  let expertsPerNode := numLogicalExperts / numNodes
  let tokens ← inBounds (gather weight mlog2log)
  (if expertsPerNode = 0 then throw (.runtimeError "cannot reshape tensor of 0 elements")
    else pure () : Except PyError Unit)
  let tokensPerMlog := view tokens numNodes expertsPerNode
  let nodes ← tokensPerMlog.mapM fun tokens =>
    placeInNode ops tokens (numPhysicalExperts / numNodes) (numGpus / numNodes) phyExpertsPerGpu
  let pphy2mlog := nodes.zipIdx.flatMap fun (node, i) =>
    node.phy2log.map fun mlog => mlog + i * expertsPerNode
  return {
    phy2log := ← inBounds (gather mlog2log pphy2mlog)
    rank := nodes.flatMap Replicas.rank
    logcnt := ← inBounds (gather (nodes.flatMap Replicas.logcnt) log2mlog) }

/-- The assertions of `rebalance_experts_hierarchical`. -/
def checkSizes (numLogicalExperts numPhysicalExperts numGroups numNodes numGpus : Nat) :
    Except PyError Unit := do
  let remaining ← pyMod numLogicalExperts numGroups
  pyAssert (remaining = 0) ""
  let remaining ← pyMod numGroups numNodes
  pyAssert (remaining = 0) ""
  let remaining ← pyMod numGpus numNodes
  pyAssert (remaining = 0) ""
  let remaining ← pyMod numPhysicalExperts numGpus
  pyAssert (remaining = 0) ""

/-- The end of `rebalance_experts` for a layer: the slots of each expert. -/
def log2phyOf (numLogicalExperts numReplicas : Nat) (placed : Replicas) :
    Except PyError (List (List Int)) := do
  let maxlogcnt := numReplicas - numLogicalExperts + 1
  let log2phy ← inBounds (scatter (List.replicate (numLogicalExperts * maxlogcnt) (-1))
    (List.zipWith (fun expert rank => expert * maxlogcnt + rank) placed.phy2log placed.rank)
    ((List.range numReplicas).map Int.ofNat))
  return view log2phy numLogicalExperts maxlogcnt

/-- The results of `rebalance_experts` for a layer. -/
structure Placement where
  phy2log : List Nat
  log2phy : List (List Int)
  logcnt : List Nat
deriving DecidableEq

/-- `rebalance_experts` for a layer, after the assertions. -/
def placeLayer (numLogicalExperts numReplicas numGroups numNodes numRanks : Nat) (weight : List W) :
    Except PyError Placement := do
  let placed ← rebalanceLayer ops weight numReplicas numGroups numNodes numRanks
  return {
    phy2log := placed.phy2log
    log2phy := ← log2phyOf numLogicalExperts numReplicas placed
    logcnt := placed.logcnt }

/-- `rebalance_experts`. The rows have the number of logical experts as their length. -/
def rebalanceExperts (numLogicalExperts : Nat) (weight : List (List W))
    (numReplicas numGroups numNodes numRanks : Nat) : Except PyError (List Placement) := do
  let remaining ← pyMod numGroups numNodes
  -- The hierarchical policy, or the global one.
  let (numGroups, numNodes) := if remaining = 0 then (numGroups, numNodes) else (1, 1)
  checkSizes numLogicalExperts numReplicas numGroups numNodes numRanks
  weight.mapM (placeLayer ops numLogicalExperts numReplicas numGroups numNodes numRanks)

end EplbPolicy

end Vllm.Distributed
