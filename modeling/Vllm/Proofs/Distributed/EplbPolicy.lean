import Mathlib.Algebra.Order.Field.Rat
import Mathlib.Data.List.Induction
import Mathlib.Data.List.Sort
import Vllm.Proofs.Distributed.EplbPacking

/-!
# `Vllm.Proofs.Distributed.EplbPolicy`: the placement is well formed

A layer is placed by two packings with a replication in between, and the tensors between them are
gathered through inverse permutations. None of it changes that the replicas are numbered:
`ReplicasOk` holds of the replicas of a node, of the nodes one after the other, and under the
names that the experts had before the groups were packed.

* `placeInNode_spec`, `joinNodes_spec`, `rebalanceLayer_spec`: the replicas of a layer.
* `log2phyOf_spec`: the table of the slots of each expert.
* `rebalance_experts_well_formed`: what the docstrings promise, for all layers.
-/

set_option autoImplicit false

namespace Vllm.Proofs.Distributed

open Vllm.Lib Vllm.Distributed Vllm.Distributed.EplbPolicy List

variable {W : Type} {ops : WeightOps W}

/-! ### One node -/

variable {numLog numPhy : Nat} {s : Replicas}

theorem ReplicasOk.expert_lt (h : ReplicasOk numLog numPhy s) :
    ∀ expert ∈ s.phy2log, expert < numLog := by
  intro expert hexpert
  have hfst : (s.phy2log.zip s.rank).map Prod.fst = s.phy2log :=
    map_fst_zip (by rw [h.length_phy, h.length_rank])
  rw [← hfst] at hexpert
  obtain ⟨o, ho, rfl⟩ := mem_map.mp hexpert
  exact h.length_cnt ▸ h.numbered.number_lt o ho

/-- Two permutations of the first `n` numbers that are inverse to each other. -/
structure Renaming (n : Nat) (names back : List Nat) : Prop where
  perm : names.Perm (List.range n)
  inv : back.Perm (List.range n)
  left : ∀ i < n, back.getD (names.getD i 0) 0 = i
  right : ∀ i < n, names.getD (back.getD i 0) 0 = i

theorem inverse_ok {perm : List Nat} {n : Nat} (h : perm.Perm (List.range n)) :
    ∃ inv, inverse perm = .ok inv ∧ Renaming n perm inv := by
  obtain ⟨inv, hscatter, hinv, hleft, hright⟩ := inverse_spec h
  exact ⟨inv, by rw [inverse, hscatter]; rfl, h, hinv, hleft, hright⟩

/-- The slots are in the order of a permutation. -/
theorem ReplicasOk.gather (h : ReplicasOk numLog numPhy s) {order : List Nat}
    (horder : order.Perm (List.range numPhy)) :
    ∃ phy2log rank, Lib.gather s.phy2log order = some phy2log ∧
      Lib.gather s.rank order = some rank ∧
      ReplicasOk numLog numPhy { phy2log := phy2log, rank := rank, logcnt := s.logcnt } := by
  have hphy : ∀ i ∈ order, i < s.phy2log.length := fun i hi =>
    h.length_phy.symm ▸ lt_of_perm_range horder hi
  have hrank : ∀ i ∈ order, i < s.rank.length := fun i hi =>
    h.length_rank.symm ▸ lt_of_perm_range horder hi
  refine ⟨_, _, gather_eq 0 hphy, gather_eq 0 hrank, ?_⟩
  have hzip : (s.phy2log.zip s.rank).length = numPhy := by simp [h.length_phy, h.length_rank]
  -- The pairs are gathered, too.
  have hpairs : (order.map fun i => s.phy2log.getD i 0).zip (order.map fun i => s.rank.getD i 0) =
      order.map fun i => (s.phy2log.zip s.rank).getD i (0, 0) := by
    rw [zip_map', map_inj_left]
    intro i hi
    have hi' : i < (s.phy2log.zip s.rank).length := hzip.symm ▸ lt_of_perm_range horder hi
    rw [getD_eq_getElem _ _ (hphy i hi), getD_eq_getElem _ _ (hrank i hi),
      getD_eq_getElem _ _ hi', getElem_zip]
  constructor
  · rw [length_map, length_of_perm_range horder]
  · rw [length_map, length_of_perm_range horder]
  · exact h.length_cnt
  · dsimp only
    rw [hpairs]
    exact h.numbered.perm (gather_perm (hzip.symm ▸ horder) (0, 0)).2.symm
  · exact h.pos

/-- The experts of a node are replicated, and the replicas are packed to its GPUs. -/
theorem placeInNode_spec {numPhy numGpus : Nat} {tokens : List W} (hpos : 0 < tokens.length)
    (hle : tokens.length ≤ numPhy) (hgpus : 0 < numGpus) (hdvd : numGpus ∣ numPhy) :
    ∃ s, placeInNode ops tokens numPhy numGpus (numPhy / numGpus) = .ok s ∧
      ReplicasOk tokens.length numPhy s := by
  obtain ⟨replicas, hreplicas, hok⟩ := @replicateExperts_spec W ops numPhy tokens hpos hle
  have hgather : ∀ i ∈ replicas.phy2log,
      i < (List.zipWith ops.divCount tokens replicas.logcnt).length := by
    intro i hi
    simpa [hok.length_cnt] using hok.expert_lt i hi
  have htokens := gather_eq ops.zero hgather
  obtain ⟨packIndex, rankInPack, hpacking, hpacked⟩ := @balancedPacking_spec W ops numGpus
    (replicas.phy2log.map fun i =>
      (List.zipWith ops.divCount tokens replicas.logcnt).getD i ops.zero) hgpus
    (by rwa [length_map, hok.length_phy])
  rw [length_map, hok.length_phy] at hpacked
  have hplaces := hpacked.places
  rw [Nat.mul_div_cancel' hdvd] at hplaces
  obtain ⟨order, hinverse, horder⟩ := inverse_ok hplaces
  obtain ⟨phy2log, rank, hphy, hrank, hplaced⟩ := hok.gather horder.inv
  refine ⟨_, ?_, hplaced⟩
  unfold placeInNode
  rw [hreplicas, except_ok_bind, htokens]
  dsimp only [inBounds]
  rw [except_ok_bind, hpacking, except_ok_bind]
  dsimp only
  rw [hinverse, except_ok_bind, hphy]
  dsimp only
  rw [except_ok_bind, hrank]
  rfl

/-! ### The nodes one after the other -/

/-- The replicas of further nodes come after those of the first ones, with further experts. -/
theorem ReplicasOk.append {numLog' numPhy' : Nat} {s' : Replicas} (h : ReplicasOk numLog numPhy s)
    (h' : ReplicasOk numLog' numPhy' s') :
    ReplicasOk (numLog + numLog') (numPhy + numPhy') {
      phy2log := s.phy2log ++ s'.phy2log.map (· + numLog)
      rank := s.rank ++ s'.rank
      logcnt := s.logcnt ++ s'.logcnt } := by
  constructor
  · rw [length_append, length_map, h.length_phy, h'.length_phy]
  · rw [length_append, h.length_rank, h'.length_rank]
  · rw [length_append, h.length_cnt, h'.length_cnt]
  · have hnumbered := h.numbered.append h'.numbered
    dsimp only
    rw [zip_append (by rw [h.length_phy, h.length_rank]), zip_map_left]
    rwa [h.length_cnt] at hnumbered
  · intro expert hexpert
    dsimp only
    rcases Nat.lt_or_ge expert numLog with hlt | hge
    · rw [getD_append _ _ _ _ (h.length_cnt.symm ▸ hlt)]
      exact h.pos expert hlt
    · rw [getD_append_right _ _ _ _ (h.length_cnt.symm ▸ hge), h.length_cnt]
      exact h'.pos _ (by omega)

variable {nodes : List Replicas}

theorem joinNodes_spec (h : ∀ node ∈ nodes, ReplicasOk numLog numPhy node) :
    ReplicasOk (nodes.length * numLog) (nodes.length * numPhy) {
      phy2log := nodes.zipIdx.flatMap fun (node, i) =>
        node.phy2log.map fun mlog => mlog + i * numLog
      rank := nodes.flatMap Replicas.rank
      logcnt := nodes.flatMap Replicas.logcnt } := by
  -- From the end, as the offset of a node is the number of nodes before it.
  induction nodes using List.reverseRecOn with
  | nil =>
    refine ⟨by simp, by simp, by simp, ?_, fun expert hexpert => by simp at hexpert⟩
    exact ⟨nodup_nil, by simp, by simp, by simp⟩
  | append_singleton nodes node ih =>
    have hnodes := ih fun node hnode => h node (mem_append_left _ hnode)
    have hnode := h node (by simp)
    have happend := hnodes.append hnode
    simpa [zipIdx_append, Nat.succ_mul] using happend

/-- The slots of a node have its experts. -/
theorem joinNodes_slot (h : ∀ node ∈ nodes, ReplicasOk numLog numPhy node) {slot mlog : Nat}
    (hslot : (nodes.zipIdx.flatMap fun (node, i) => node.phy2log.map fun mlog => mlog + i *
      numLog)[slot]? = some mlog) :
    mlog / numLog = slot / numPhy := by
  rcases Nat.eq_zero_or_pos numPhy with rfl | hpos
  · -- Nodes without slots have no element.
    obtain ⟨⟨node, i⟩, hnode, hmem⟩ := mem_flatMap.mp (mem_of_getElem? hslot)
    have hlen := (h node (fst_mem_of_mem_zipIdx hnode)).length_phy
    obtain ⟨mlog', hmlog, -⟩ := mem_map.mp hmem
    rw [length_eq_zero_iff.mp hlen] at hmlog
    cases hmlog
  rw [@getElem?_rows _ _ _ numPhy _ (fun p hp => by
    rw [length_map, (h p.1 (fst_mem_of_mem_zipIdx hp)).length_phy]) hpos] at hslot
  obtain ⟨⟨node, i⟩, hnode, hmlog⟩ := Option.bind_eq_some_iff.mp hslot
  rw [getElem?_map] at hmlog
  obtain ⟨mlog', hmem, rfl⟩ := Option.map_eq_some_iff.mp hmlog
  have hok := h node (fst_mem_of_mem_zipIdx (mem_of_getElem? hnode))
  rw [getElem?_zipIdx] at hnode
  obtain ⟨_, _, heq⟩ := Option.map_eq_some_iff.mp hnode
  cases heq
  rw [Nat.zero_add, Nat.add_comm]
  exact div_add_of_lt (hok.expert_lt _ (mem_of_getElem? hmem))

/-! ### One layer -/

/-- The experts get back the names that they had before the groups were packed. -/
theorem ReplicasOk.rename (h : ReplicasOk numLog numPhy s) {log2mlog mlog2log : List Nat}
    (hnames : Renaming numLog log2mlog mlog2log) :
    ReplicasOk numLog numPhy {
      phy2log := s.phy2log.map fun mlog => mlog2log.getD mlog 0
      rank := s.rank
      logcnt := log2mlog.map fun mlog => s.logcnt.getD mlog 0 } := by
  have hlt : ∀ perm : List Nat, perm.Perm (List.range numLog) → ∀ i < numLog,
      perm.getD i 0 < numLog := by
    intro perm hp i hi
    have hi' : i < perm.length := (length_of_perm_range hp).symm ▸ hi
    rw [getD_eq_getElem _ _ hi']
    exact lt_of_perm_range hp (getElem_mem hi')
  constructor
  · rw [length_map, h.length_phy]
  · exact h.length_rank
  · rw [length_map, length_of_perm_range hnames.perm]
  · dsimp only
    rw [zip_map_left]
    have hcnt := h.length_cnt
    exact h.numbered.reindex (hcnt.symm ▸ hnames.perm)
      (fun mlog hmlog => ⟨hcnt.symm ▸ hlt _ hnames.inv _ (hcnt ▸ hmlog),
        hnames.right _ (hcnt ▸ hmlog)⟩)
      (fun expert hexpert => hnames.left _ (hcnt ▸ hexpert))
  · intro expert hexpert
    have hexpert' : expert < log2mlog.length := (length_of_perm_range hnames.perm).symm ▸ hexpert
    dsimp only
    rw [getD_eq_getElem _ _ (by rwa [length_map]), getElem_map,
      ← getD_eq_getElem _ 0 hexpert']
    exact h.pos _ (hlt _ hnames.perm _ hexpert)

variable {groupSize expert : Nat}

/-- Where an expert is after the groups were packed to nodes. -/
theorem log2mlog_getD {places : List Nat} (h : expert < places.length * groupSize) :
    ((places.map (· * groupSize)).flatMap fun start => List.range' start groupSize).getD expert 0 =
      places.getD (expert / groupSize) 0 * groupSize + expert % groupSize := by
  have hpos : 0 < groupSize := Nat.pos_of_mul_pos_left (Nat.zero_lt_of_lt h)
  have hgroup : expert / groupSize < places.length := (Nat.div_lt_iff_lt_mul hpos).mpr h
  rw [getD_eq_getElem?_getD, getElem?_rows (fun _ _ => length_range') hpos,
    getElem?_map, getElem?_eq_getElem hgroup, getD_eq_getElem _ _ hgroup]
  simp [Nat.mod_lt expert hpos]

variable {numNodes : Nat}

/-- After the packing, an expert is among those of the node that its group was packed to. -/
theorem log2mlog_div {groupsPerNode : Nat} {packIndex rankInPack : List Nat}
    (h : Packed numNodes groupsPerNode packIndex rankInPack)
    (hexpert : expert < numNodes * groupsPerNode * groupSize) :
    (((List.zipWith (fun pack rank => pack * groupsPerNode + rank) packIndex rankInPack).map
      (· * groupSize)).flatMap fun start => List.range' start groupSize).getD expert 0 /
        (groupsPerNode * groupSize) = packIndex.getD (expert / groupSize) 0 := by
  have hlen := length_of_perm_range h.places
  have hpos : 0 < groupSize := Nat.pos_of_mul_pos_left (Nat.zero_lt_of_lt hexpert)
  have hgroup : expert / groupSize < numNodes * groupsPerNode :=
    (Nat.div_lt_iff_lt_mul hpos).mpr hexpert
  have hpack : expert / groupSize < packIndex.length := h.length_pack.symm ▸ hgroup
  have hrank : expert / groupSize < rankInPack.length := h.length_rank.symm ▸ hgroup
  rw [log2mlog_getD (hlen.symm ▸ hexpert), getD_eq_getElem _ _ (hlen.symm ▸ hgroup),
    getElem_zipWith, getD_eq_getElem _ _ hpack]
  have hinNode : rankInPack[expert / groupSize] * groupSize + expert % groupSize <
      groupsPerNode * groupSize :=
    add_lt_of_lt (h.rank_lt _ (getElem_mem hrank)) (Nat.mod_lt expert hpos)
  rw [Nat.add_mul, Nat.mul_assoc, Nat.add_assoc]
  exact div_add_of_lt hinNode

variable {numGroups : Nat}

theorem log2mlog_perm {places : List Nat} (h : places.Perm (List.range numGroups)) :
    ((places.map (· * groupSize)).flatMap fun start => List.range' start groupSize).Perm
      (List.range (numGroups * groupSize)) := by
  rw [flatMap_map, ← flatMap_range']
  exact h.flatMap_right fun group => List.range' (group * groupSize) groupSize

theorem length_view {β : Type} (xs : List β) (count size : Nat) :
    (view xs count size).length = count := by simp [view]

theorem length_of_mem_view {β : Type} {xs row : List β} {count size : Nat}
    (hlen : xs.length = count * size) (h : row ∈ view xs count size) : row.length = size := by
  obtain ⟨j, hj, rfl⟩ := mem_map.mp h
  have hle : (j + 1) * size ≤ count * size := Nat.mul_le_mul_right size (mem_range.mp hj)
  rw [Nat.succ_mul] at hle
  rw [length_take, length_drop, hlen]
  omega

/-- Step 1: the groups are packed to the nodes, and the experts are renamed after that. -/
theorem packToNodes_spec {numNodes groupsPerNode groupSize : Nat} {weight : List W}
    (hnodes : 0 < numNodes) (hlog : weight.length = numNodes * groupsPerNode * groupSize) :
    ∃ packIndex rankInPack log2mlog mlog2log,
      balancedPacking ops ((view weight (numNodes * groupsPerNode) groupSize).map ops.sum) numNodes =
        .ok (packIndex, rankInPack) ∧
      (List.zipWith (fun pack rank => (pack * groupsPerNode + rank) * groupSize) packIndex
        rankInPack).flatMap (fun start => List.range' start groupSize) = log2mlog ∧
      inverse log2mlog = .ok mlog2log ∧
      Renaming weight.length log2mlog mlog2log ∧
      (∀ expert < weight.length, log2mlog.getD expert 0 / (groupsPerNode * groupSize) =
        packIndex.getD (expert / groupSize) 0) ∧
      ∀ node < numNodes, (List.range (numNodes * groupsPerNode)).countP
        (fun group => packIndex.getD group 0 == node) = groupsPerNode := by
  obtain ⟨packIndex, rankInPack, hpacking, hpacked⟩ := @balancedPacking_spec W ops numNodes
    ((view weight (numNodes * groupsPerNode) groupSize).map ops.sum) hnodes
    (by rw [length_map, length_view]; exact Nat.dvd_mul_right _ _)
  rw [length_map, length_view, Nat.mul_div_cancel_left _ hnodes] at hpacked
  let places := List.zipWith (fun pack rank => pack * groupsPerNode + rank) packIndex rankInPack
  let log2mlog := (places.map (· * groupSize)).flatMap fun start => List.range' start groupSize
  have hperm : log2mlog.Perm (List.range weight.length) := by
    rw [hlog]
    exact log2mlog_perm hpacked.places
  obtain ⟨mlog2log, hinverse, hnames⟩ := inverse_ok hperm
  refine ⟨packIndex, rankInPack, log2mlog, mlog2log, hpacking, ?_, hinverse, hnames, ?_, ?_⟩
  · simp only [log2mlog, places, map_zipWith]
  · intro expert hexpert
    exact log2mlog_div hpacked (hlog ▸ hexpert)
  · intro node hlt
    have hcount := hpacked.count_pack hlt
    rwa [← map_getD_range packIndex 0, List.count, countP_map, hpacked.length_pack] at hcount

/-- The sizes that the assertions of a call accept. -/
structure ValidSizes (numLog numPhy numGroups numNodes numGpus : Nat) : Prop where
  pos : 0 < numLog
  groups : numGroups ∣ numLog
  nodes : numNodes ∣ numGroups
  gpus : numNodes ∣ numGpus
  slots : numGpus ∣ numPhy
  le : numLog ≤ numPhy

/-- The node of a group, and what it has. -/
structure NodesOk (numLog numPhy numGroups numNodes : Nat) (phy2log : List Nat)
    (nodeOf : Nat → Nat) : Prop where
  slot_node : ∀ slot expert : Nat, phy2log[slot]? = some expert →
    slot / (numPhy / numNodes) = nodeOf (expert / (numLog / numGroups))
  count_groups : ∀ node < numNodes,
    (List.range numGroups).countP (fun group => nodeOf group == node) = numGroups / numNodes

/-- Steps 2 and 3 for all nodes. -/
theorem placeInNodes_spec {numNodes logPerNode numGpus perGpu : Nat} {tokens : List W}
    (hlen : tokens.length = numNodes * logPerNode) (hpos : 0 < logPerNode)
    (hle : logPerNode ≤ numGpus * perGpu) :
    ∃ nodes, (view tokens numNodes logPerNode).mapM (fun tokens =>
        placeInNode ops tokens (numGpus * perGpu) numGpus perGpu) = .ok nodes ∧
      nodes.length = numNodes ∧
      ∀ node ∈ nodes, ReplicasOk logPerNode (numGpus * perGpu) node := by
  have hgpus : 0 < numGpus := Nat.pos_of_mul_pos_right (Nat.lt_of_lt_of_le hpos hle)
  have hnode : ∀ row ∈ view tokens numNodes logPerNode, ∃ node,
      placeInNode ops row (numGpus * perGpu) numGpus perGpu = .ok node ∧
        ReplicasOk logPerNode (numGpus * perGpu) node := by
    intro row hrow
    obtain rfl := length_of_mem_view hlen hrow
    have hspec := @placeInNode_spec W ops (numGpus * perGpu) numGpus row hpos hle hgpus
      (Nat.dvd_mul_right _ _)
    rwa [Nat.mul_div_cancel_left _ hgpus] at hspec
  obtain ⟨nodes, hnodes⟩ := exists_mapM_eq_ok fun row hrow => (hnode row hrow).imp fun _ h => h.1
  obtain ⟨hcount, hget⟩ := mapM_eq_ok_iff_getElem?.mp hnodes
  rw [length_view] at hcount
  refine ⟨nodes, hnodes, hcount, fun node hmem => ?_⟩
  obtain ⟨i, hi, rfl⟩ := getElem_of_mem hmem
  have hrow : i < (view tokens numNodes logPerNode).length := by rwa [length_view, ← hcount]
  obtain ⟨placed, hplaced, hplace⟩ := hget i _ (getElem?_eq_getElem hrow)
  obtain ⟨node, hplace', hok⟩ := hnode _ (getElem_mem hrow)
  rw [getElem?_eq_getElem hi] at hplaced
  rw [hplace] at hplace'
  rwa [Option.some.inj hplaced, Except.ok.inj hplace']

/-- The placement of a layer: groups to nodes, replicas, and these to GPUs. -/
theorem rebalanceLayer_spec {numPhy numGroups numNodes numGpus : Nat} {weight : List W}
    (h : ValidSizes weight.length numPhy numGroups numNodes numGpus) :
    ∃ s, rebalanceLayer ops weight numPhy numGroups numNodes numGpus = .ok s ∧
      ReplicasOk weight.length numPhy s ∧
      ∃ nodeOf, NodesOk weight.length numPhy numGroups numNodes s.phy2log nodeOf := by
  obtain ⟨hpos, ⟨groupSize, hlog⟩, ⟨groupsPerNode, rfl⟩, ⟨gpusPerNode, rfl⟩, ⟨perGpu, rfl⟩, hle⟩ := h
  have hsizes : 0 < numNodes ∧ 0 < groupsPerNode ∧ 0 < groupSize := by
    rw [hlog] at hpos
    have := Nat.pos_of_mul_pos_right hpos
    exact ⟨Nat.pos_of_mul_pos_right this, Nat.pos_of_mul_pos_left this,
      Nat.pos_of_mul_pos_left hpos⟩
  obtain ⟨hnodes, hgroups, hsize⟩ := hsizes
  have hperNode : groupsPerNode * groupSize ≤ gpusPerNode * perGpu := by
    rw [hlog, Nat.mul_assoc, Nat.mul_assoc] at hle
    exact Nat.le_of_mul_le_mul_left hle hnodes
  have hgpus : 0 < gpusPerNode ∧ 0 < perGpu := by
    have := Nat.lt_of_lt_of_le (Nat.mul_pos hgroups hsize) hperNode
    exact ⟨Nat.pos_of_mul_pos_right this, Nat.pos_of_mul_pos_left this⟩
  -- The quotients that the code computes.
  have hgroupSize : weight.length / (numNodes * groupsPerNode) = groupSize := by
    rw [hlog, Nat.mul_div_cancel_left _ (Nat.mul_pos hnodes hgroups)]
  have hgroupsPerNode : numNodes * groupsPerNode / numNodes = groupsPerNode :=
    Nat.mul_div_cancel_left _ hnodes
  have hgpusPerNode : numNodes * gpusPerNode / numNodes = gpusPerNode :=
    Nat.mul_div_cancel_left _ hnodes
  have hperGpu : numNodes * gpusPerNode * perGpu / (numNodes * gpusPerNode) = perGpu :=
    Nat.mul_div_cancel_left _ (Nat.mul_pos hnodes hgpus.1)
  have hphyPerNode : numNodes * gpusPerNode * perGpu / numNodes = gpusPerNode * perGpu := by
    rw [Nat.mul_assoc, Nat.mul_div_cancel_left _ hnodes]
  have hlogNode : weight.length = numNodes * (groupsPerNode * groupSize) := by
    rw [hlog, Nat.mul_assoc]
  have hlogPerNode : weight.length / numNodes = groupsPerNode * groupSize := by
    rw [hlogNode, Nat.mul_div_cancel_left _ hnodes]
  obtain ⟨packIndex, rankInPack, log2mlog, mlog2log, hpacking, hlog2mlog, hinverse, hnames, hdiv,
    hpacks⟩ := @packToNodes_spec W ops _ _ _ weight hnodes hlog
  -- Steps 2 and 3: the experts of each node are replicated and placed.
  obtain ⟨nodes, hplace, hcount, hnode⟩ := @placeInNodes_spec W ops numNodes
    (groupsPerNode * groupSize) gpusPerNode perGpu (mlog2log.map fun i => weight.getD i ops.zero)
    (by rw [length_map, length_of_perm_range hnames.inv, hlogNode])
    (Nat.mul_pos hgroups hsize) hperNode
  have hjoined := joinNodes_spec hnode
  rw [hcount, ← hlogNode, ← Nat.mul_assoc] at hjoined
  have hplaced := hjoined.rename hnames
  have hslots : ∀ mlog ∈ nodes.zipIdx.flatMap (fun (node, i) => node.phy2log.map fun mlog =>
      mlog + i * (groupsPerNode * groupSize)), mlog < mlog2log.length := by
    intro mlog hmlog
    rw [length_of_perm_range hnames.inv]
    exact hjoined.expert_lt mlog hmlog
  have hcounts : ∀ mlog ∈ log2mlog, mlog < (nodes.flatMap Replicas.logcnt).length := by
    intro mlog hmlog
    rw [hjoined.length_cnt]
    exact lt_of_perm_range hnames.perm hmlog
  refine ⟨_, ?_, hplaced, fun group => packIndex.getD group 0, ?_, ?_⟩
  · unfold rebalanceLayer
    dsimp only
    rw [hgroupSize, hpacking, except_ok_bind]
    dsimp only
    rw [hgroupsPerNode, hlog2mlog, hinverse, except_ok_bind, (gather_perm hnames.inv ops.zero).1]
    dsimp only [inBounds]
    rw [except_ok_bind, hlogPerNode, if_neg (Nat.ne_of_gt (Nat.mul_pos hgroups hsize)),
      hphyPerNode, hgpusPerNode, hperGpu]
    rw [pure_bind, hplace, except_ok_bind, gather_eq 0 hslots]
    dsimp only
    rw [except_ok_bind, gather_eq 0 hcounts]
    rfl
  · intro slot expert hslot
    rw [hphyPerNode, hgroupSize]
    rw [getElem?_map] at hslot
    obtain ⟨mlog, hmlog, rfl⟩ := Option.map_eq_some_iff.mp hslot
    rw [← joinNodes_slot hnode hmlog]
    have hmem : mlog < mlog2log.length := hslots mlog (mem_of_getElem? hmlog)
    have hexpert : mlog2log.getD mlog 0 < weight.length := by
      rw [getD_eq_getElem _ _ hmem]
      exact lt_of_perm_range hnames.inv (getElem_mem hmem)
    rw [← hdiv _ hexpert, hnames.right mlog (length_of_perm_range hnames.inv ▸ hmem)]
  · rwa [hgroupsPerNode]

/-! ### The slots of each expert -/

/-- The rows of the table of slots: a slot is at its rank, and there is nothing else. -/
structure TableOk (numLog numPhy : Nat) (placed : Replicas) (log2phy : List (List Int)) : Prop where
  length_rows : log2phy.length = numLog
  row_length : ∀ (expert : Nat) row, log2phy[expert]? = some row →
    row.length = numPhy - numLog + 1
  count_le : ∀ expert < numLog, placed.logcnt.getD expert 0 ≤ numPhy - numLog + 1
  slot : ∀ (expert : Nat) row, log2phy[expert]? = some row → ∀ slot rank : Nat,
    (placed.phy2log.zip placed.rank)[slot]? = some (expert, rank) → row[rank]? = some (slot : Int)
  unused : ∀ (expert : Nat) row, log2phy[expert]? = some row → ∀ rank < numPhy - numLog + 1,
    placed.logcnt.getD expert 0 ≤ rank → row[rank]? = some (-1)

variable {placed : Replicas}

theorem log2phyOf_spec (h : ReplicasOk numLog numPhy placed) :
    ∃ log2phy, log2phyOf numLog numPhy placed = .ok log2phy ∧
      TableOk numLog numPhy placed log2phy := by
  let size := numPhy - numLog + 1
  let occs := placed.phy2log.zip placed.rank
  have hnumbered : Numbered occs placed.logcnt := h.numbered
  have hoccs : occs.length = numPhy := by simp [occs, h.length_phy, h.length_rank]
  have hcount : ∀ expert < numLog, placed.logcnt.getD expert 0 ≤ size := by
    intro expert hexpert
    have hspare := hnumbered.le_spare (h.length_cnt.symm ▸ h.pos) (h.length_cnt.symm ▸ hexpert)
    rw [h.length_cnt, hoccs] at hspare
    omega
  have hrank : ∀ o ∈ occs, o.1 < numLog ∧ o.2 < size := by
    intro o ho
    have hlt := h.length_cnt ▸ hnumbered.number_lt o ho
    exact ⟨hlt, Nat.lt_of_lt_of_le (hnumbered.rank_lt o ho) (hcount _ hlt)⟩
  -- A cell has one expert and one rank.
  have hcell : ∀ {e r e' r' : Nat}, r < size → r' < size → e * size + r = e' * size + r' →
      e = e' ∧ r = r' := by
    intro e r e' r' hr hr' heq
    have hdiv := congrArg (· / size) heq
    have hmod := congrArg (· % size) heq
    simp only [div_add_of_lt hr, div_add_of_lt hr'] at hdiv
    simp only [mod_add_of_lt hr, mod_add_of_lt hr'] at hmod
    exact ⟨hdiv, hmod⟩
  let index := occs.map fun o => o.1 * size + o.2
  have hindex : List.zipWith (fun expert rank => expert * size + rank) placed.phy2log placed.rank =
      index := by simp [index, occs, List.zip, map_zipWith]
  have hnodup : index.Nodup := by
    refine hnumbered.nodup.map_on fun a ha b hb hab => ?_
    obtain ⟨h1, h2⟩ := hcell (hrank a ha).2 (hrank b hb).2 hab
    exact Prod.ext h1 h2
  obtain ⟨ys, hscatter, hlen, hwritten, hkept⟩ := @scatter_spec Int
    (List.replicate (numLog * size) (-1)) ((List.range numPhy).map Int.ofNat) index hnodup
    (by simp [index, hoccs]) (by
      intro i hi
      obtain ⟨o, ho, rfl⟩ := mem_map.mp hi
      rw [length_replicate]
      exact add_lt_of_lt (hrank o ho).1 (hrank o ho).2)
  rw [length_replicate] at hlen
  -- A row of the table.
  have hrow : ∀ (expert : Nat) row, (view ys numLog size)[expert]? = some row →
      expert < numLog ∧ row = (ys.drop (expert * size)).take size := by
    intro expert row hget
    rw [view, List.getElem?_map] at hget
    obtain ⟨j, hj, rfl⟩ := Option.map_eq_some_iff.mp hget
    obtain ⟨hlt, rfl⟩ := List.getElem?_eq_some_iff.mp hj
    rw [length_range] at hlt
    rw [getElem_range]
    exact ⟨hlt, rfl⟩
  have hat : ∀ expert rank, rank < size →
      ((ys.drop (expert * size)).take size)[rank]? = ys[expert * size + rank]? := by
    intro expert rank hlt
    rw [List.getElem?_take_of_lt hlt, List.getElem?_drop]
  refine ⟨view ys numLog size, ?_, length_view _ _ _, ?_, hcount, ?_, ?_⟩
  · unfold log2phyOf
    dsimp only
    rw [hindex, hscatter]
    rfl
  · intro expert row hget
    exact length_of_mem_view hlen (mem_of_getElem? hget)
  · intro expert row hget slot rank hslot
    have hmem := mem_of_getElem? hslot
    rw [(hrow expert row hget).2, hat expert rank (hrank _ hmem).2,
      hwritten slot (expert * size + rank) (by rw [List.getElem?_map, hslot]; rfl)]
    obtain ⟨hlt, -⟩ := List.getElem?_eq_some_iff.mp hslot
    rw [List.getElem?_map, List.getElem?_range (hoccs ▸ hlt)]
    rfl
  · intro expert row hget rank hlt hge
    obtain ⟨hexpert, rfl⟩ := hrow expert row hget
    rw [hat expert rank hlt, hkept, List.getElem?_replicate_of_lt (add_lt_of_lt hexpert hlt)]
    intro hmem
    obtain ⟨o, ho, heq⟩ := mem_map.mp hmem
    obtain ⟨rfl, rfl⟩ := hcell (hrank o ho).2 hlt heq
    exact Nat.not_lt_of_le hge (hnumbered.rank_lt o ho)

/-! ### All layers -/

/-- The GPU of a slot, and the node of a GPU. -/
def gpuOf (numReplicas numRanks slot : Nat) : Nat := slot / (numReplicas / numRanks)

def nodeOfGpu (numNodes numRanks gpu : Nat) : Nat := gpu / (numRanks / numNodes)

/-- A placement is well formed, in a call with these sizes. -/
structure PlacementOk (numLog numReplicas numGroups numNodes numRanks : Nat)
    (placement : Placement) : Prop where
  /-- Each slot has a logical expert. -/
  length_slots : placement.phy2log.length = numReplicas
  slot_lt : ∀ expert ∈ placement.phy2log, expert < numLog
  /-- The counts are those of the slots, and no expert is without one. -/
  length_counts : placement.logcnt.length = numLog
  count_eq : ∀ expert < numLog, placement.logcnt.getD expert 0 = placement.phy2log.count expert
  replicated : ∀ expert < numLog, 1 ≤ placement.logcnt.getD expert 0
  /-- A row has the slots of its expert, each of them once, and `-1` after them. -/
  length_rows : placement.log2phy.length = numLog
  row_slots : ∀ (expert : Nat) row, placement.log2phy[expert]? = some row →
    placement.logcnt.getD expert 0 ≤ row.length ∧
    (row.take (placement.logcnt.getD expert 0)).Nodup ∧
    (∀ x, x ∈ row.take (placement.logcnt.getD expert 0) ↔
      ∃ slot : Nat, placement.phy2log[slot]? = some expert ∧ x = slot) ∧
    ∀ x ∈ row.drop (placement.logcnt.getD expert 0), x = -1
  /-- Each GPU has its number of slots. -/
  gpu_slots : ∀ gpu < numRanks, (List.range placement.phy2log.length).countP
    (fun slot => gpuOf numReplicas numRanks slot == gpu) = numReplicas / numRanks
  /-- In the hierarchical case, the replicas of a group are on one node. -/
  group_node : numNodes ∣ numGroups → ∃ nodeOf : Nat → Nat,
    (∀ slot expert : Nat, placement.phy2log[slot]? = some expert →
      nodeOfGpu numNodes numRanks (gpuOf numReplicas numRanks slot) =
        nodeOf (expert / (numLog / numGroups))) ∧
    ∀ node < numNodes,
      (List.range numGroups).countP (fun group => nodeOf group == node) = numGroups / numNodes

variable {log2phy : List (List Int)}

/-- The first entries of a row are the slots of its expert. -/
theorem TableOk.row_slots (h : TableOk numLog numPhy placed log2phy)
    (hok : ReplicasOk numLog numPhy placed) {row : List Int} (hget : log2phy[expert]? = some row) :
    placed.logcnt.getD expert 0 ≤ row.length ∧
    (row.take (placed.logcnt.getD expert 0)).Nodup ∧
    (∀ x, x ∈ row.take (placed.logcnt.getD expert 0) ↔
      ∃ slot : Nat, placed.phy2log[slot]? = some expert ∧ x = slot) ∧
    ∀ x ∈ row.drop (placed.logcnt.getD expert 0), x = -1 := by
  let count := placed.logcnt.getD expert 0
  have hexpert : expert < numLog := h.length_rows ▸ (List.getElem?_eq_some_iff.mp hget).1
  have hlen := h.row_length expert row hget
  have hcount : count ≤ row.length := hlen.symm ▸ h.count_le expert hexpert
  -- What the row has at a rank below the count.
  have hat : ∀ rank < count, ∃ slot : Nat,
      (placed.phy2log.zip placed.rank)[slot]? = some (expert, rank) ∧
        (row.take count)[rank]? = some (slot : Int) := by
    intro rank hrank
    have hmem := hok.numbered.mem_iff.mpr ⟨hok.length_cnt.symm ▸ hexpert, hrank⟩
    obtain ⟨slot, hslot⟩ := List.getElem?_of_mem hmem
    refine ⟨slot, hslot, ?_⟩
    rw [List.getElem?_take_of_lt hrank]
    exact h.slot expert row hget slot rank hslot
  have hlenTake : (row.take count).length = count := by
    rw [length_take]
    omega
  refine ⟨hcount, ?_, fun x => ⟨fun hx => ?_, ?_⟩, fun x hx => ?_⟩
  · rw [nodup_iff_injective_get]
    intro i j hij
    obtain ⟨slot, hslot, hi⟩ := hat i.1 (hlenTake ▸ i.2)
    obtain ⟨slot', hslot', hj⟩ := hat j.1 (hlenTake ▸ j.2)
    rw [List.getElem?_eq_getElem i.2] at hi
    rw [List.getElem?_eq_getElem j.2] at hj
    have heq : (row.take count)[i.1] = (row.take count)[j.1] := hij
    have hslots : (slot : Int) = slot' := by
      rw [← Option.some.inj hi, ← Option.some.inj hj, heq]
    cases hslots
    rw [hslot] at hslot'
    exact Fin.ext (Prod.mk.inj (Option.some.inj hslot')).2
  · obtain ⟨rank, hrank, rfl⟩ := getElem_of_mem hx
    obtain ⟨slot, hslot, hrow⟩ := hat rank (hlenTake ▸ hrank)
    rw [List.getElem?_eq_getElem hrank] at hrow
    exact ⟨slot, (List.getElem?_zip_eq_some.mp hslot).1, Option.some.inj hrow⟩
  · rintro ⟨slot, hslot, rfl⟩
    have hlt : slot < placed.rank.length := by
      rw [hok.length_rank, ← hok.length_phy]
      exact (List.getElem?_eq_some_iff.mp hslot).1
    have hzip : (placed.phy2log.zip placed.rank)[slot]? = some (expert, placed.rank[slot]) :=
      List.getElem?_zip_eq_some.mpr ⟨hslot, List.getElem?_eq_getElem hlt⟩
    have hrank : placed.rank[slot] < count := hok.numbered.rank_lt _ (mem_of_getElem? hzip)
    refine mem_of_getElem? (i := placed.rank[slot]) ?_
    rw [List.getElem?_take_of_lt hrank]
    exact h.slot expert row hget slot _ hzip
  · obtain ⟨rank, hrank, rfl⟩ := getElem_of_mem hx
    rw [length_drop] at hrank
    have hunused := h.unused expert row hget (count + rank) (by omega) (Nat.le_add_right _ _)
    rw [getElem_drop]
    exact Option.some.inj ((List.getElem?_eq_getElem _).symm.trans hunused)

/-- The sizes that the policy works with: without a number of groups for each node, the experts are
one group on one node. -/
def policySizes (numGroups numNodes : Nat) : Nat × Nat :=
  if numGroups % numNodes = 0 then (numGroups, numNodes) else (1, 1)

variable {numRanks : Nat}

/-- A layer that is placed has a well-formed placement. -/
theorem placementOk {nodeOf : Nat → Nat}
    (hsizes : ValidSizes numLog numPhy (policySizes numGroups numNodes).1 (policySizes numGroups
      numNodes).2 numRanks)
    (hok : ReplicasOk numLog numPhy placed) (htable : TableOk numLog numPhy placed log2phy)
    (hnodes : NodesOk numLog numPhy (policySizes numGroups numNodes).1 (policySizes numGroups
      numNodes).2 placed.phy2log nodeOf) :
    PlacementOk numLog numPhy numGroups numNodes numRanks {
      phy2log := placed.phy2log
      log2phy := log2phy
      logcnt := placed.logcnt } := by
  constructor
  · exact hok.length_phy
  · exact hok.expert_lt
  · exact hok.length_cnt
  · intro expert hexpert
    rw [← hok.numbered.count_eq expert (hok.length_cnt.symm ▸ hexpert),
      map_fst_zip (by rw [hok.length_phy, hok.length_rank])]
  · exact hok.pos
  · exact htable.length_rows
  · intro expert row hget
    exact htable.row_slots hok hget
  · intro gpu hgpu
    dsimp only
    have hcount := @countP_div numRanks (numPhy / numRanks) gpu hgpu
    rw [Nat.mul_div_cancel' hsizes.slots] at hcount
    rw [hok.length_phy]
    exact hcount
  · intro hdvd
    rw [policySizes, if_pos (Nat.mod_eq_zero_of_dvd hdvd)] at hnodes hsizes
    refine ⟨nodeOf, fun slot expert hslot => ?_, hnodes.count_groups⟩
    rw [← hnodes.slot_node slot expert hslot, nodeOfGpu, gpuOf, Nat.div_div_eq_div_mul]
    obtain ⟨gpusPerNode, rfl⟩ := hsizes.gpus
    obtain ⟨perGpu, rfl⟩ := hsizes.slots
    have hpos := Nat.lt_of_lt_of_le hsizes.pos hsizes.le
    have hranks : 0 < numNodes * gpusPerNode := Nat.pos_of_mul_pos_right hpos
    have hpos' : 0 < numNodes := Nat.pos_of_mul_pos_right hranks
    rw [Nat.mul_div_cancel_left _ hranks, Nat.mul_div_cancel_left _ hpos', Nat.mul_assoc,
      Nat.mul_div_cancel_left _ hpos', Nat.mul_comm]

theorem assertDivides_eq_ok_iff {a b : Nat} {u : Unit} :
    (pyMod a b >>= fun remaining => pyAssert (remaining = 0) "") = .ok u ↔ 0 < b ∧ b ∣ a := by
  unfold pyMod
  split
  · rename_i hzero
    rw [except_error_bind]
    exact ⟨nofun, fun h => absurd hzero (Nat.ne_of_gt h.1)⟩
  · rename_i hne
    rw [except_ok_bind, pyAssert_eq_ok_iff, decide_eq_true_iff, Nat.dvd_iff_mod_eq_zero]
    exact (and_iff_right (Nat.pos_of_ne_zero hne)).symm

theorem checkSizes_eq_ok_iff {numLog numPhy numGroups numNodes numGpus : Nat} {u : Unit} :
    checkSizes numLog numPhy numGroups numNodes numGpus = .ok u ↔
      (0 < numGroups ∧ numGroups ∣ numLog) ∧ (0 < numNodes ∧ numNodes ∣ numGroups) ∧
        (0 < numNodes ∧ numNodes ∣ numGpus) ∧ 0 < numGpus ∧ numGpus ∣ numPhy := by
  have hshape : checkSizes numLog numPhy numGroups numNodes numGpus =
      ((pyMod numLog numGroups >>= fun remaining => pyAssert (remaining = 0) "") >>= fun _ =>
        (pyMod numGroups numNodes >>= fun remaining => pyAssert (remaining = 0) "") >>= fun _ =>
        (pyMod numGpus numNodes >>= fun remaining => pyAssert (remaining = 0) "") >>= fun _ =>
        (pyMod numPhy numGpus >>= fun remaining => pyAssert (remaining = 0) "")) := by
    simp only [bind_assoc]
    rfl
  rw [hshape]
  constructor
  · intro h
    obtain ⟨_, h1, h⟩ := bind_ok h
    obtain ⟨_, h2, h⟩ := bind_ok h
    obtain ⟨_, h3, h4⟩ := bind_ok h
    exact ⟨assertDivides_eq_ok_iff.mp h1, assertDivides_eq_ok_iff.mp h2,
      assertDivides_eq_ok_iff.mp h3, assertDivides_eq_ok_iff.mp h4⟩
  · rintro ⟨h1, h2, h3, h4⟩
    exact bind_eq_ok_iff.mpr ⟨(), assertDivides_eq_ok_iff.mpr h1, bind_eq_ok_iff.mpr
      ⟨(), assertDivides_eq_ok_iff.mpr h2, bind_eq_ok_iff.mpr
        ⟨(), assertDivides_eq_ok_iff.mpr h3, assertDivides_eq_ok_iff.mpr h4⟩⟩⟩

/-- A layer that is placed has experts, and slots for all of them. -/
theorem rebalanceLayer_ok {numGpus : Nat} {weight : List W} (hgroups : numGroups ∣ weight.length)
    (hnodes : 0 < numNodes) (hdvd : numNodes ∣ numGroups)
    (h : rebalanceLayer ops weight numPhy numGroups numNodes numGpus = .ok s) :
    0 < weight.length / numNodes ∧ weight.length / numNodes ≤ numPhy / numNodes := by
  obtain ⟨groupsPerNode, rfl⟩ := hdvd
  obtain ⟨groupSize, hlog⟩ := hgroups
  have hgroupSize : weight.length / (numNodes * groupsPerNode) * (numNodes * groupsPerNode) =
      weight.length := Nat.div_mul_cancel ⟨groupSize, hlog⟩
  obtain ⟨packIndex, rankInPack, log2mlog, mlog2log, hpacking, hlog2mlog, hinverse, hnames, -⟩ :=
    @packToNodes_spec W ops numNodes groupsPerNode (weight.length / (numNodes * groupsPerNode))
      weight hnodes (by rw [Nat.mul_comm, hgroupSize])
  unfold rebalanceLayer at h
  dsimp only at h
  rw [hpacking, except_ok_bind] at h
  dsimp only at h
  rw [Nat.mul_div_cancel_left _ hnodes, hlog2mlog, hinverse, except_ok_bind,
    (gather_perm hnames.inv ops.zero).1] at h
  dsimp only [inBounds] at h
  rw [except_ok_bind] at h
  obtain ⟨_, hcheck, h⟩ := bind_ok h
  obtain ⟨nodes, hmap, -⟩ := bind_ok h
  have hpos : 0 < weight.length / numNodes := by
    refine Nat.pos_of_ne_zero fun hzero => ?_
    rw [if_pos hzero] at hcheck
    cases hcheck
  refine ⟨hpos, ?_⟩
  -- The replication on the first node asserts that there are slots.
  obtain ⟨count, rfl⟩ := Nat.exists_eq_add_of_lt hnodes
  have hview : (view (mlog2log.map fun i => weight.getD i ops.zero) (0 + count + 1)
      (weight.length / (0 + count + 1)))[0]? =
      some ((mlog2log.map fun i => weight.getD i ops.zero).take
        (weight.length / (0 + count + 1))) := by
    simp [view]
  obtain ⟨node, -, hplace⟩ := (mapM_eq_ok_iff_getElem?.mp hmap).2 0 _ hview
  unfold placeInNode replicateExperts at hplace
  obtain ⟨replicas, hreplicas, -⟩ := bind_ok hplace
  obtain ⟨_, hle, -⟩ := bind_ok hreplicas
  have hle := of_decide_eq_true (pyAssert_eq_ok_iff.mp hle)
  rw [length_take, length_map, length_of_perm_range hnames.inv,
    Nat.min_eq_left (Nat.div_le_self _ _)] at hle
  exact hle

/-- The inputs that `rebalance_experts` accepts. -/
def Accepted (numLog numReplicas numGroups numNodes numRanks : Nat) : Prop :=
  0 < numNodes ∧ ValidSizes numLog numReplicas (policySizes numGroups numNodes).1
    (policySizes numGroups numNodes).2 numRanks

variable {weight : List (List W)}

theorem rebalanceExperts_eq (hnodes : 0 < numNodes) :
    rebalanceExperts ops numLog weight numPhy numGroups numNodes numRanks =
      (checkSizes numLog numPhy (policySizes numGroups numNodes).1
        (policySizes numGroups numNodes).2 numRanks >>= fun _ =>
      weight.mapM (placeLayer ops numLog numPhy (policySizes numGroups numNodes).1
        (policySizes numGroups numNodes).2 numRanks)) := by
  unfold rebalanceExperts
  rw [pyMod, if_neg (Nat.ne_of_gt hnodes), except_ok_bind]
  rfl

/-- A layer of an accepted call is placed, and well. -/
theorem placeLayer_spec {numLog numPhy numGroups numNodes numRanks : Nat} {row : List W}
    (hrow : row.length = numLog)
    (h : Accepted numLog numPhy numGroups numNodes numRanks) :
    ∃ placement, placeLayer ops numLog numPhy (policySizes numGroups numNodes).1
        (policySizes numGroups numNodes).2 numRanks row = .ok placement ∧
      PlacementOk numLog numPhy numGroups numNodes numRanks placement := by
  subst hrow
  obtain ⟨placed, hplaced, hok, nodeOf, hnodes⟩ := @rebalanceLayer_spec W ops _ _ _ _ row h.2
  obtain ⟨log2phy, hlog2phy, htable⟩ := log2phyOf_spec hok
  refine ⟨_, ?_, placementOk h.2 hok htable hnodes⟩
  rw [placeLayer, hplaced, except_ok_bind, hlog2phy]
  rfl

/-- A call that returns has accepted its sizes, if there is a layer. -/
theorem accepted_of_ok {placements : List Placement} (hrows : ∀ row ∈ weight, row.length = numLog)
    (hne : weight ≠ [])
    (h : rebalanceExperts ops numLog weight numPhy numGroups numNodes numRanks = .ok placements) :
    Accepted numLog numPhy numGroups numNodes numRanks := by
  have hnodes : 0 < numNodes := by
    refine Nat.pos_of_ne_zero fun hzero => ?_
    unfold rebalanceExperts at h
    rw [pyMod, if_pos hzero] at h
    cases h
  rw [rebalanceExperts_eq hnodes] at h
  obtain ⟨_, hcheck, h⟩ := bind_ok h
  obtain ⟨⟨_, hgroups⟩, ⟨hpos, hdvd⟩, ⟨-, hgpus⟩, -, hslots⟩ := checkSizes_eq_ok_iff.mp hcheck
  obtain ⟨row, rows, rfl⟩ := exists_cons_of_ne_nil hne
  obtain rfl := hrows row mem_cons_self
  obtain ⟨_, -, hrow⟩ := (mapM_eq_ok_iff_getElem?.mp h).2 0 row rfl
  obtain ⟨placed, hplaced, -⟩ := bind_ok hrow
  obtain ⟨hlog, hle⟩ := rebalanceLayer_ok hgroups hpos hdvd hplaced
  refine ⟨hnodes, ?_, hgroups, hdvd, hgpus, hslots, ?_⟩
  · exact Nat.lt_of_lt_of_le hlog (Nat.div_le_self _ _)
  · rw [← Nat.div_mul_cancel (hdvd.trans hgroups), ← Nat.div_mul_cancel (hgpus.trans hslots)]
    exact Nat.mul_le_mul_right _ hle

/-- The placement of experts is well formed. Every call with accepted sizes returns one, and in
each layer of it, every slot has an expert, every expert has replicas, the three maps agree, and the
GPUs and nodes have their number of slots and groups. -/
theorem rebalance_experts_well_formed {numLog : Nat} {weight : List (List W)}
    (hrows : ∀ row ∈ weight, row.length = numLog)
    (numReplicas numGroups numNodes numRanks : Nat) :
    (Accepted numLog numReplicas numGroups numNodes numRanks → ∃ placements,
      rebalanceExperts ops numLog weight numReplicas numGroups numNodes numRanks = .ok placements) ∧
    ∀ placements, rebalanceExperts ops numLog weight numReplicas numGroups numNodes numRanks =
        .ok placements →
      placements.length = weight.length ∧ ∀ placement ∈ placements,
        PlacementOk numLog numReplicas numGroups numNodes numRanks placement := by
  constructor
  · intro haccepted
    obtain ⟨placements, hplacements⟩ := exists_mapM_eq_ok fun row hrow =>
      (@placeLayer_spec W ops _ _ _ _ _ row (hrows row hrow) haccepted).imp fun _ h => h.1
    obtain ⟨hnodes, hsizes⟩ := haccepted
    have hpos := Nat.lt_of_lt_of_le hsizes.pos hsizes.le
    have hcheck := (@checkSizes_eq_ok_iff _ _ _ _ _ ()).mpr
      ⟨⟨Nat.pos_of_dvd_of_pos hsizes.groups hsizes.pos, hsizes.groups⟩,
        ⟨Nat.pos_of_dvd_of_pos (hsizes.nodes.trans hsizes.groups) hsizes.pos, hsizes.nodes⟩,
        ⟨Nat.pos_of_dvd_of_pos (hsizes.nodes.trans hsizes.groups) hsizes.pos, hsizes.gpus⟩,
        Nat.pos_of_dvd_of_pos hsizes.slots hpos, hsizes.slots⟩
    exact ⟨placements, by rw [rebalanceExperts_eq hnodes, hcheck, except_ok_bind, hplacements]⟩
  · intro placements h
    rcases eq_or_ne weight [] with rfl | hne
    · -- Without layers there is nothing to place.
      unfold rebalanceExperts at h
      obtain ⟨_, -, h⟩ := bind_ok h
      obtain ⟨_, -, h⟩ := bind_ok h
      cases h
      exact ⟨rfl, by simp⟩
    · have haccepted := accepted_of_ok hrows hne h
      rw [rebalanceExperts_eq haccepted.1] at h
      obtain ⟨_, -, h⟩ := bind_ok h
      obtain ⟨hlen, hget⟩ := mapM_eq_ok_iff_getElem?.mp h
      refine ⟨hlen, fun placement hmem => ?_⟩
      obtain ⟨i, hi, rfl⟩ := getElem_of_mem hmem
      have hrow : i < weight.length := hlen ▸ hi
      obtain ⟨placed, hplaced, hplace⟩ := hget i _ (List.getElem?_eq_getElem hrow)
      obtain ⟨placement, hplace', hok⟩ :=
        @placeLayer_spec W ops _ _ _ _ _ _ (hrows _ (getElem_mem hrow)) haccepted
      rw [List.getElem?_eq_getElem hi] at hplaced
      rw [hplace] at hplace'
      rwa [Option.some.inj hplaced, Except.ok.inj hplace']

/-- Weights are fractions. -/
def ratOps : WeightOps Rat where
  zero := 0
  add := (· + ·)
  divCount weight count := weight / count
  lt a b := a < b
  sum := List.sum
  argsortDesc weight := (List.range weight.length).insertionSort fun i j =>
    weight.getD j 0 ≤ weight.getD i 0
  argsortDesc_perm weight := perm_insertionSort _ _
  argmax weight := (List.range weight.length).foldl
    (fun best i => if weight.getD best 0 < weight.getD i 0 then i else best) 0
  argmax_lt weight hne := by
    have hmem := foldl_pick_mem (fun best i => decide (weight.getD best 0 < weight.getD i 0))
      (List.range weight.length) 0
    have hpos := length_pos_iff.mpr hne
    simp only [decide_eq_true_eq] at hmem
    rcases mem_cons.mp hmem with hzero | hmem
    · exact lt_of_eq_of_lt hzero hpos
    · exact mem_range.mp hmem
/-- Two groups on two nodes with two GPUs in all, and two redundant slots. -/
theorem rebalance_experts_two_nodes : rebalanceExperts ratOps 4 [[10, 2, 7, 1]] 6 2 2 2 = .ok [{
      phy2log := [0, 0, 1, 2, 2, 3]
      log2phy := [[0, 1, -1], [2, -1, -1], [3, 4, -1], [5, -1, -1]]
      logcnt := [2, 1, 2, 1] }] ∧
    PlacementOk 4 6 2 2 2 {
      phy2log := [0, 0, 1, 2, 2, 3]
      log2phy := [[0, 1, -1], [2, -1, -1], [3, 4, -1], [5, -1, -1]]
      logcnt := [2, 1, 2, 1] } := by
  have hrun : rebalanceExperts ratOps 4 [[10, 2, 7, 1]] 6 2 2 2 = .ok [{
      phy2log := [0, 0, 1, 2, 2, 3]
      log2phy := [[0, 1, -1], [2, -1, -1], [3, 4, -1], [5, -1, -1]]
      logcnt := [2, 1, 2, 1] }] := by decide +kernel
  refine ⟨hrun, ?_⟩
  exact ((rebalance_experts_well_formed (by simp) 6 2 2 2).2 _ hrun).2 _ mem_cons_self

end Vllm.Proofs.Distributed
