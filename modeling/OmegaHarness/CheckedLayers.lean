import OmegaHarness.CheckedRuns
import OmegaHarness.LegacyWitnesses

/-!
# The layers of a tree, with unchecked reads

The two builders, the readers of a tree and the makers of inclusion witnesses once more, as
they run: a chunk is read at both places without a look at its length, a neighbour is read
without a look at the layer's, and the loops go on until the last layer has one element.
The row is padded to a power of two first. That makes every chunk full and every neighbour
exist, and each layer half of the one below, so the loops end. The trees are those
of the earlier modules, in which such reads had a default.

Machine sizes are not modelled: lengths and positions are natural numbers, apart from the
`u32` of a witness.
-/
namespace OmegaHarness.CheckedLayers
open CheckedRuns DomainHashes LayeredTree MembershipExactness MerkleTreeV1

section Build
variable (node : Hash → Hash → Hash)

/-- `while row.len() < target`, one padding leaf at a time. -/
def padLoop (fuel target : ℕ) (pad : Hash) (row : List Hash) : Checked (List Hash) :=
  whileLoop (fun row => .ok (decide (row.length < target))) (fun row => .ok (row++[pad])) fuel row

def chunkNode (chunk : List Hash) : Checked Hash := do
  let left ← index chunk 0
  let right ← index chunk 1
  return node left right

/-- The test of the loop over the layers. -/
def aboveRoot (layers : List (List Hash)) : Checked Bool := do
  let last ← expect layers.getLast?
  return decide (1 < last.length)

/-- One iteration. -/
def pushLayer (layers : List (List Hash)) : Checked (List (List Hash)) := do
  let prev ← expect layers.getLast?
  let next ← (chunksOfTwo prev).mapM (chunkNode node)
  return layers++[next]

/-- The layers over a padded row, and the copy of the first. -/
def layerLoop (fuel : ℕ) (leaves : List Hash) : Checked MerkleTree := do
  let layers ← whileLoop aboveRoot (pushLayer node) fuel [leaves]
  let first ← index layers 0
  return ⟨first,layers⟩

end Build

section Builders
variable (blake3 : Bytes → Hash) (fuel : ℕ)

def buildLayersV1 (leaves : List Hash) : Checked MerkleTree :=
  layerLoop (nodeHashV2 blake3) fuel leaves

def buildV1 (subTreeId : UInt8) (payloads : List Bytes) : Checked (Except BuildError MerkleTree) :=
  let sorted := sortPayloads payloads
  match firstEqualWindow sorted with
  | some duplicate =>
      .ok (.error (.duplicateLeafPayload subTreeId ((sorted.findIdx? (· = duplicate)).getD 0)))
  | none => do
      let leaves := payloadLeaves blake3 subTreeId sorted
      let target := nextPowerOfTwo (max leaves.length 1)
      let padded ← padLoop fuel target (emptyLeaf blake3 subTreeId) leaves
      let tree ← buildLayersV1 blake3 fuel padded
      return .ok tree

def buildLegacy (input : List Hash) : Checked MerkleTree := do
  let sorted := input.insertionSort fun a b => a.toList ≤ b.toList
  let padded ← padLoop fuel (nextPowerOfTwo (max sorted.length 1)) zeroHash sorted
  layerLoop (CommitCommand.legacyNode blake3) fuel padded

end Builders

section Readers
variable (tree : MerkleTree)

/-- `self.layers.len() - 1`. -/
def depth : Checked ℕ :=
  if tree.layers.length = 0 then .error .panicked else .ok (tree.layers.length-1)

def root : Checked Hash := do
  let top ← expect tree.layers.getLast?
  expect top.head?

/-- One pass of the loop over the layers: the index, and the siblings so far. -/
def pushSibling (state : ℕ × List Hash) (layer : List Hash) : Checked (ℕ × List Hash) := do
  let sibling ← index layer (state.1 ^^^ 1)
  return (state.1/2,state.2++[sibling])

/-- The loop over the layers below the root. -/
def readSiblings (leafIndex : ℕ) : Checked (List Hash) := do
  let depth ← depth tree
  let below ← sliceTo tree.layers depth
  let last ← below.foldlM pushSibling (leafIndex,[])
  return last.2

def buildAtIndex (leafIndex : UInt32) : Checked (Option InclusionWitness) :=
  match tree.leaves[leafIndex.toNat]? with
  | none => .ok none
  | some leaf => do
      let siblings ← readSiblings tree leafIndex.toNat
      return some ⟨leaf,leafIndex,siblings⟩

def build (leaf : Hash) : Checked (Option InclusionWitness) :=
  match tree.leaves.findIdx? (· = leaf) with
  | none => .ok none
  | some position => do
      let leafIndex := UInt32.ofNat position
      let siblings ← readSiblings tree leafIndex.toNat
      return some ⟨leaf,leafIndex,siblings⟩

end Readers

section Runs

/-- So many leaves are missing, and with them the row is the padded one. -/
structure Missing (target : ℕ) (pad : Hash) (padded : List Hash) (n : ℕ) (row : List Hash) : Prop where
  length : row.length+n = target
  filled : row++List.replicate n pad = padded

theorem Missing.pushed {target n : ℕ} {pad : Hash} {padded row : List Hash}
    (h : Missing target pad padded (n+1) row) : Missing target pad padded n (row++[pad]) := by
  constructor
  · rw [List.length_append,List.length_singleton,Nat.add_right_comm]
    exact h.length
  · rw [← h.filled,List.append_assoc,List.singleton_append,← List.replicate_succ]

theorem padLoop_ok {fuel target : ℕ} (pad : Hash) {row : List Hash} (hle : row.length ≤ target)
    (hfuel : target ≤ fuel) :
    padLoop fuel target pad row = .ok (row++List.replicate (target-row.length) pad) := by
  have hstart : Missing target pad (row++List.replicate (target-row.length) pad)
      (target-row.length) row := ⟨Nat.add_sub_cancel' hle,rfl⟩
  obtain ⟨last,hlast,hnone⟩ : ∃ last, padLoop fuel target pad row = .ok last ∧
      Missing target pad (row++List.replicate (target-row.length) pad) 0 last := by
    refine whileLoop_ok ?_ ?_ ((Nat.sub_le _ _).trans hfuel) hstart
    · intro s hs
      rw [decide_eq_false (by rw [← hs.length]; omega)]
    · intro n s hs
      exact ⟨by rw [decide_eq_true (by rw [← hs.length]; omega)],_,rfl,hs.pushed⟩
  have hfilled := hnone.filled
  rw [List.replicate_zero,List.append_nil] at hfilled
  rw [hlast,hfilled]

variable (node : Hash → Hash → Hash)

/-- Both reads of a full chunk succeed. -/
theorem chunkNode_ok {chunk : List Hash} (h : chunk.length = 2) :
    chunkNode node chunk = .ok (node chunk[0]! chunk[1]!) := by
  obtain ⟨a,b,rfl⟩ := List.length_eq_two.mp h
  rfl

theorem pushLayer_ok (front : List (List Hash)) {prev : List Hash} (h : prev.length % 2 = 0) :
    pushLayer node (front++[prev]) = .ok (front++[prev]++[nextLayer node prev]) := by
  have hchunks : (chunksOfTwo prev).mapM (chunkNode node) = .ok (nextLayer node prev) :=
    mapM_eq_map fun chunk hmem => chunkNode_ok node (chunksOfTwo_full prev h chunk hmem)
  rw [pushLayer,List.getLast?_concat,expect_some,bind_value,hchunks,bind_value]
  rfl

theorem aboveRoot_concat (front : List (List Hash)) (prev : List Hash) :
    aboveRoot (front++[prev]) = .ok (decide (1 < prev.length)) := by
  rw [aboveRoot,List.getLast?_concat,expect_some,bind_value]
  rfl

/-- The last layer has `2^n` elements, and the layers which are still to come are its own. -/
def Growing (leaves : List Hash) (n : ℕ) (layers : List (List Hash)) : Prop :=
  ∃ front prev, layers = front++[prev] ∧ prev.length = 2^n ∧
    front++growLayers node prev = growLayers node leaves

variable {node} {leaves : List Hash} {layers : List (List Hash)}

theorem Growing.top (h : Growing node leaves 0 layers) : aboveRoot layers = .ok false := by
  obtain ⟨front,prev,rfl,hwidth,-⟩ := h
  rw [aboveRoot_concat,hwidth]
  rfl

/-- Below the root one layer is pushed, of half the width. -/
theorem Growing.pushed {n : ℕ} (h : Growing node leaves (n+1) layers) : aboveRoot layers = .ok true ∧
    ∃ next, pushLayer node layers = .ok next ∧ Growing node leaves n next := by
  obtain ⟨front,prev,rfl,hwidth,hrest⟩ := h
  have hmore : 1 < prev.length := by
    rw [hwidth]
    exact Nat.one_lt_two_pow (Nat.succ_ne_zero n)
  have heven : prev.length % 2 = 0 := by
    rw [hwidth,pow_succ]
    exact Nat.mul_mod_left _ _
  refine ⟨?_,_,pushLayer_ok node front heven,_,_,rfl,nextLayer_two_pow node hwidth,?_⟩
  · rw [aboveRoot_concat,decide_eq_true hmore]
  · rw [← hrest,growLayers_succ node hwidth,List.append_assoc,List.singleton_append]

theorem Growing.finished (h : Growing node leaves 0 layers) : layers = growLayers node leaves := by
  obtain ⟨front,prev,rfl,hwidth,hrest⟩ := h
  rwa [growLayers_zero node (by rw [hwidth]; rfl)] at hrest

theorem layerLoop_ok {fuel depth : ℕ} (hfuel : depth ≤ fuel) (h : leaves.length = 2^depth) :
    layerLoop node fuel leaves = .ok ⟨leaves,growLayers node leaves⟩ := by
  have hstart : Growing node leaves depth [leaves] := ⟨[],leaves,rfl,h,rfl⟩
  obtain ⟨layers,hlayers,hlast⟩ :=
    whileLoop_ok (fun _ => Growing.top) (fun _ _ => Growing.pushed) hfuel hstart
  rw [hlast.finished] at hlayers
  have hfirst : index (growLayers node leaves) 0 = .ok leaves :=
    index_ok ((growLayers_some_iff node h).mpr ⟨Nat.zero_le depth,rfl⟩)
  rw [layerLoop,hlayers,bind_value,hfirst,bind_value]
  rfl

end Runs

/-- A tree whose layers were grown from a row of a power of two. -/
structure Grown (node : Hash → Hash → Hash) (height : ℕ) (tree : MerkleTree) : Prop where
  width : tree.leaves.length = 2^height
  layers : tree.layers = growLayers node tree.leaves

section Refinement
variable (blake3 : Bytes → Hash) {fuel : ℕ}

theorem legacy_grown (input : List Hash) : Grown (CommitCommand.legacyNode blake3)
    (depthOf input.length) (CommitCommand.buildLegacy blake3 input) := by
  have hleaves := CommitCommand.buildLegacy_leaves blake3 input
  refine ⟨by rw [hleaves,CommitCommand.legacyRow_length],?_⟩
  rw [hleaves]
  rfl

theorem v1_grown {subTreeId : UInt8} {payloads : List Bytes} {tree : MerkleTree}
    (h : MerkleTreeV1.buildV1 blake3 subTreeId payloads = .ok tree) :
    Grown (nodeHashV2 blake3) (depthOf payloads.length) tree := by
  obtain ⟨hleaves,hlayers⟩ := buildV1_ok blake3 subTreeId h
  exact ⟨by rw [hleaves,leafRow_length],by rw [hlayers,hleaves]⟩

/-- Within the bound, a row is padded and its layers are grown. -/
theorem padded_layers (node : Hash → Hash → Hash) (pad : Hash) {row : List Hash}
    (hfuel : nextPowerOfTwo (max row.length 1) ≤ fuel) :
    ∃ padded, padLoop fuel (nextPowerOfTwo (max row.length 1)) pad row = .ok padded ∧
      padded = row++List.replicate (nextPowerOfTwo (max row.length 1)-row.length) pad ∧
      layerLoop node fuel padded = .ok ⟨padded,growLayers node padded⟩ := by
  have hle : row.length ≤ nextPowerOfTwo (max row.length 1) := count_le_width row.length
  have hdepth : depthOf row.length ≤ nextPowerOfTwo (max row.length 1) := Nat.lt_two_pow_self.le
  refine ⟨_,padLoop_ok pad hle hfuel,rfl,layerLoop_ok (hdepth.trans hfuel) ?_⟩
  rw [List.length_append,List.length_replicate,Nat.add_sub_cancel' hle]
  rfl

/-- The older builder returns the tree of its model. -/
theorem buildLegacy_returns {input : List Hash} (hfuel : nextPowerOfTwo (max input.length 1) ≤ fuel) :
    buildLegacy blake3 fuel input = .ok (CommitCommand.buildLegacy blake3 input) := by
  have hsorted : (input.insertionSort fun a b => a.toList ≤ b.toList).length = input.length :=
    List.length_insertionSort _ _
  rw [← hsorted] at hfuel
  obtain ⟨padded,hpad,hrow,hloop⟩ := padded_layers (CommitCommand.legacyNode blake3) zeroHash hfuel
  have htree : CommitCommand.buildLegacy blake3 input =
      ⟨padded,growLayers (CommitCommand.legacyNode blake3) padded⟩ := by
    rw [hrow]
    exact congrArg (MerkleTree.mk · _) (growLayers_head _ _)
  rw [buildLegacy,hpad,bind_value,hloop,htree]

/-- So does the builder of a sub-tree, with its refusal of duplicates. -/
theorem buildV1_returns {subTreeId : UInt8} {payloads : List Bytes}
    (hfuel : nextPowerOfTwo (max payloads.length 1) ≤ fuel) :
    buildV1 blake3 fuel subTreeId payloads = .ok (MerkleTreeV1.buildV1 blake3 subTreeId payloads) := by
  unfold buildV1 MerkleTreeV1.buildV1
  dsimp only
  cases firstEqualWindow (sortPayloads payloads) with
  | some duplicate => rfl
  | none =>
      have hsorted : (payloadLeaves blake3 subTreeId (sortPayloads payloads)).length =
          payloads.length := by
        rw [payloadLeaves_length,sortPayloads_length]
      rw [← hsorted] at hfuel
      obtain ⟨padded,hpad,hrow,hloop⟩ := padded_layers (nodeHashV2 blake3)
        (emptyLeaf blake3 subTreeId) hfuel
      have htree : MerkleTreeV1.buildLayersV1 blake3 (padLeaves blake3 subTreeId
          (payloadLeaves blake3 subTreeId (sortPayloads payloads))) =
          ⟨padded,growLayers (nodeHashV2 blake3) padded⟩ := by
        rw [hrow]
        exact congrArg (MerkleTree.mk · _) (growLayers_head _ _)
      dsimp only
      rw [hpad,bind_value,buildLayersV1,hloop,bind_value,htree]
      rfl

end Refinement

section Reading
variable {node : Hash → Hash → Hash} {height : ℕ} {tree : MerkleTree}

theorem Grown.length (h : Grown node height tree) : tree.layers.length = height+1 := by
  rw [h.layers,growLayers_length node h.width]

theorem Grown.depth (h : Grown node height tree) : tree.depth = height := by
  rw [MerkleTree.depth,h.length]
  rfl

theorem depth_returns (h : Grown node height tree) : depth tree = .ok tree.depth :=
  if_neg (by rw [h.length]; exact Nat.succ_ne_zero height)

/-- The last layer is the root alone. -/
theorem root_returns (h : Grown node height tree) : root tree = .ok tree.root := by
  have htop : tree.layers.getLast? = some (layerAt node height tree.leaves) := by
    rw [List.getLast?_eq_getElem?,h.length,Nat.add_sub_cancel,h.layers]
    exact (growLayers_some_iff node h.width).mpr ⟨le_rfl,rfl⟩
  have hone : (layerAt node height tree.leaves).length = 2^0 := layerAt_length node h.width
  obtain ⟨top,hsingle⟩ := List.length_eq_one_iff.mp hone
  rw [root,htop,expect_some,bind_value,MerkleTree.root,List.getLast!_eq_getLast?_getD,htop,
    Option.getD_some,hsingle]
  rfl

/-- The loop over the layers below the root stays inside each of them. -/
theorem foldlM_pushSibling {row : List Hash} {i : ℕ} (hrow : row.length = 2^height)
    (hi : i < 2^height) (found : List Hash) :
    ((growLayers node row).take height).foldlM pushSibling (i,found) = .ok (i/2^height,
      found++MembershipExactness.readSiblings i ((growLayers node row).take height)) := by
  induction height generalizing row i found with
  | zero =>
      rw [List.take_zero,pow_zero,Nat.div_one,MembershipExactness.readSiblings,List.append_nil]
      rfl
  | succ height ih =>
      have hsibling : i ^^^ 1 < row.length := by
        rw [hrow]
        exact Nat.xor_lt_two_pow hi (Nat.one_lt_two_pow (Nat.succ_ne_zero height))
      have hstep : pushSibling (i,found) row = .ok (i/2,found++[row[i ^^^ 1]!]) := by
        rw [pushSibling,index_ok (getElem?_in_range hsibling)]
        rfl
      have hhalf : i/2 < 2^height := by
        rw [pow_succ] at hi
        omega
      rw [growLayers_succ node hrow,List.take_succ_cons,List.foldlM_cons,hstep,bind_value,
        ih (nextLayer_two_pow node hrow) hhalf,Nat.div_div_eq_div_mul,← pow_succ',
        MembershipExactness.readSiblings,List.append_assoc,List.singleton_append]

theorem readSiblings_returns (h : Grown node height tree) {i : ℕ} (hi : i < tree.leafCount) :
    readSiblings tree i = .ok (MembershipExactness.readSiblings i (tree.layers.take tree.depth)) := by
  have hslice : sliceTo tree.layers tree.depth = .ok (tree.layers.take tree.depth) :=
    sliceTo_ok (Nat.sub_le _ _)
  rw [MerkleTree.leafCount,h.width] at hi
  rw [readSiblings,depth_returns h,bind_value,hslice,bind_value,h.depth,h.layers,
    foldlM_pushSibling h.width hi,bind_value]
  rfl

/-- No position is out of reach of the makers of witnesses, or panics. -/
theorem buildAtIndex_returns (h : Grown node height tree) (i : UInt32) :
    buildAtIndex tree i = .ok (MembershipExactness.buildAtIndex tree i) := by
  unfold buildAtIndex MembershipExactness.buildAtIndex
  cases hleaf : tree.leaves[i.toNat]? with
  | none => rfl
  | some leaf =>
      have hi : i.toNat < tree.leafCount := (List.getElem?_eq_some_iff.mp hleaf).1
      dsimp only
      rw [readSiblings_returns h hi]
      rfl

theorem build_returns (h : Grown node height tree) (leaf : Hash) :
    build tree leaf = .ok (LegacyWitnesses.build tree leaf) := by
  unfold build LegacyWitnesses.build
  cases hfind : tree.leaves.findIdx? (· = leaf) with
  | none => rfl
  | some position =>
      have hposition : position < tree.leafCount := (List.findIdx?_eq_some_iff_getElem.mp hfind).1
      -- the cast to `u32` can only lower the position
      have hcast : (UInt32.ofNat position).toNat ≤ position := by
        rw [UInt32.toNat_ofNat']
        exact Nat.mod_le _ _
      dsimp only
      rw [readSiblings_returns h (by omega)]
      rfl

end Reading

/-- An element of a layer. -/
def entry (tree : MerkleTree) (k j : ℕ) : Option Hash := tree.layers[k]?.bind (·[j]?)

/-- The shape of a tree over so many elements. -/
structure Layered (node : Hash → Hash → Hash) (count : ℕ) (tree : MerkleTree) : Prop where
  leafCount : IsLeast {width | (∃ k, width = 2^k) ∧ max 1 count ≤ width} tree.leafCount
  depth : tree.depth = Nat.log 2 tree.leafCount
  layers : tree.layers.length = tree.depth+1
  leaves : tree.layers[0]? = some tree.leaves
  width : ∀ k layer, tree.layers[k]? = some layer → layer.length = tree.leafCount/2^k
  nodes : ∀ k < tree.depth, ∀ j < tree.leafCount/2^(k+1), ∃ left right,
    entry tree k (2*j) = some left ∧ entry tree k (2*j+1) = some right ∧
      entry tree (k+1) j = some (node left right)

/-- What can be asked of a tree without a panic. -/
structure Readable (tree : MerkleTree) : Prop where
  depth : CheckedLayers.depth tree = .ok tree.depth
  root : CheckedLayers.root tree = .ok tree.root
  atIndex : ∀ i : UInt32, ∃ w, buildAtIndex tree i = .ok w ∧ (w.isSome ↔ i.toNat < tree.leafCount)
  ofLeaf : ∀ leaf, ∃ w, build tree leaf = .ok w ∧ (w.isSome ↔ leaf ∈ tree.leaves)

section Shape
variable {node : Hash → Hash → Hash} {tree : MerkleTree}

theorem width_isLeast (count : ℕ) :
    IsLeast {width | (∃ k, width = 2^k) ∧ max 1 count ≤ width} (2^depthOf count) := by
  rw [max_comm]
  refine ⟨⟨⟨_,rfl⟩,Nat.le_pow_clog (by decide) _⟩,?_⟩
  intro width hwidth
  obtain ⟨⟨k,rfl⟩,hle⟩ := hwidth
  exact Nat.pow_le_pow_right (by decide) (Nat.clog_le_of_le_pow hle)

theorem Grown.layered {count : ℕ} (h : Grown node (depthOf count) tree) : Layered node count tree := by
  have hcount : tree.leafCount = 2^depthOf count := h.width
  have hdepth := h.depth
  have hlayer : ∀ k layer, tree.layers[k]? = some layer ↔
      k ≤ depthOf count ∧ layer = layerAt node k tree.leaves := by
    intro k layer
    rw [h.layers]
    exact growLayers_some_iff node h.width
  have hsplit : ∀ k ≤ depthOf count, 2^depthOf count/2^k = 2^(depthOf count-k) := by
    intro k hk
    exact Nat.pow_div hk (by decide)
  constructor
  · rw [hcount]
    exact width_isLeast count
  · rw [hdepth,hcount,Nat.log_pow (by decide)]
  · rw [hdepth,h.length]
  · exact (hlayer 0 _).mpr ⟨Nat.zero_le _,rfl⟩
  · intro k layer hk
    obtain ⟨hle,rfl⟩ := (hlayer k layer).mp hk
    rw [hcount,hsplit k hle]
    exact layerAt_length node (by rw [h.width,Nat.add_sub_cancel' hle])
  · intro k hk j hj
    rw [hdepth] at hk
    rw [hcount,hsplit (k+1) hk] at hj
    obtain ⟨left,right,hleft,hright,hnode⟩ :=
      layerAt_node node (by rw [h.width,Nat.add_sub_cancel' hk]) hj
    have hbelow := (hlayer k _).mpr ⟨hk.le,rfl⟩
    have habove := (hlayer (k+1) _).mpr ⟨hk,rfl⟩
    refine ⟨left,right,?_,?_,?_⟩
    · rw [entry,hbelow,Option.bind_some,hleft]
    · rw [entry,hbelow,Option.bind_some,hright]
    · rw [entry,habove,Option.bind_some,hnode]

theorem Grown.readable {height : ℕ} (h : Grown node height tree) : Readable tree := by
  refine ⟨depth_returns h,root_returns h,?_,?_⟩
  · intro i
    refine ⟨_,buildAtIndex_returns h i,?_⟩
    unfold MembershipExactness.buildAtIndex
    cases hleaf : tree.leaves[i.toNat]? with
    | none => simpa [MerkleTree.leafCount] using hleaf
    | some leaf => simpa [MerkleTree.leafCount] using (List.getElem?_eq_some_iff.mp hleaf).1
  · intro leaf
    refine ⟨_,build_returns h leaf,?_⟩
    rw [Option.isSome_iff_exists]
    exact LegacyWitnesses.build_isSome tree leaf

end Shape

/-- Both builders return for every input, whatever bound from the width of the row on cuts off
their loops. Their trees have the shape of a tree over that many elements, and no reader of
such a tree panics, for any position and any leaf. -/
theorem built_layers_structured (blake3 : Bytes → Hash) :
    (∀ input : List Hash, ∃ tree,
      (∀ fuel, nextPowerOfTwo (max input.length 1) ≤ fuel → buildLegacy blake3 fuel input = .ok tree) ∧
      Layered (CommitCommand.legacyNode blake3) input.length tree ∧ Readable tree) ∧
    ∀ (subTreeId : UInt8) (payloads : List Bytes), ∃ result,
      (∀ fuel, nextPowerOfTwo (max payloads.length 1) ≤ fuel →
        buildV1 blake3 fuel subTreeId payloads = .ok result) ∧
      ∀ tree, result = .ok tree →
        Layered (nodeHashV2 blake3) payloads.length tree ∧ Readable tree := by
  constructor
  · intro input
    have hgrown := legacy_grown blake3 input
    exact ⟨_,fun fuel hfuel => buildLegacy_returns blake3 hfuel,hgrown.layered,hgrown.readable⟩
  · intro subTreeId payloads
    refine ⟨_,fun fuel hfuel => buildV1_returns blake3 hfuel,?_⟩
    intro tree htree
    have hgrown := v1_grown blake3 htree
    exact ⟨hgrown.layered,hgrown.readable⟩

end OmegaHarness.CheckedLayers
