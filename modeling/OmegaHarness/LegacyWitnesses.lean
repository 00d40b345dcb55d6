import OmegaHarness.CommitCommand
import OmegaHarness.KeyedTables

/-!
# Inclusion witnesses of the older tree

A witness of the older tree is a leaf, its position and the neighbours along its path. The
library makes one from a position or from a leaf, and the command goes through a map from
leaves to positions. All three find the first position of the leaf, duplicates and padding
included, and the neighbours they read from the stored layers are the siblings of the
layered tree. So an honest witness is replayed to the root, and a witness of the right
length which is replayed to the root is the honest one of its position, unless two of the
strings which were hashed collide.
-/
namespace OmegaHarness.LegacyWitnesses
open CommitCommand DomainHashes FiniteCollisions KeyedTables LayeredTree MembershipExactness
open MerkleTreeV1

/-- The witness of the first position of a leaf. The position is cast to `u32` before the
layers are read. -/
def build (tree : MerkleTree) (leaf : Hash) : Option InclusionWitness := do
  let position ← tree.leaves.findIdx? (· = leaf)
  let leafIndex := UInt32.ofNat position
  return ⟨leaf,leafIndex,readSiblings leafIndex.toNat (tree.layers.take tree.depth)⟩

section Verify
variable (blake3 : Bytes → Hash)

/-- The loop of `verify` over the siblings. -/
def replay : Hash → ℕ → List Hash → Hash
  | current,_,[] => current
  | current,idx,sib::rest =>
      let buf := if idx &&& 1 = 0 then current.toList++sib.toList else sib.toList++current.toList
      replay (blake3 buf) (idx/2) rest

def verify (w : InclusionWitness) (root : Hash) : Bool :=
  let depth := w.siblings.length
  if depth ≥ 32 then false
  else
    let maxIndex := if depth = 0 then 1 else 1 <<< depth
    if w.leafIndex.toNat ≥ maxIndex then false
    else replay blake3 w.leaf w.leafIndex.toNat w.siblings = root

theorem replay_eq_walk (current : Hash) (idx : ℕ) (siblings : List Hash) :
    replay blake3 current idx siblings = walk (legacyNode blake3) current idx siblings := by
  induction siblings generalizing current idx with
  | nil => rfl
  | cons sib rest ih =>
      rw [replay,walk,Nat.and_one_is_mod,ih,orderedPair]
      split
      · rfl
      · rfl

theorem verify_iff (w : InclusionWitness) (root : Hash) :
    verify blake3 w root = true ↔
      w.siblings.length < 32 ∧ w.leafIndex.toNat < 2^w.siblings.length ∧
        walk (legacyNode blake3) w.leaf w.leafIndex.toNat w.siblings = root := by
  have hmax : (if w.siblings.length = 0 then 1 else 1 <<< w.siblings.length) =
      2^w.siblings.length := by
    split
    · rename_i hzero
      rw [hzero,pow_zero]
    · rw [Nat.one_shiftLeft]
  unfold verify
  dsimp only
  rw [hmax,replay_eq_walk]
  split
  · simp only [Bool.false_eq_true,false_iff]
    omega
  · split
    · simp only [Bool.false_eq_true,false_iff]
      omega
    · rw [decide_eq_true_eq]
      constructor
      · intro h
        exact ⟨by omega,by omega,h⟩
      · intro h
        exact h.2.2

end Verify

/-- The map of the command from leaves to positions. -/
def leafIndexMap (leaves : List Hash) : Table Hash UInt32 :=
  leaves.zipIdx.foldl (fun table entry => orInsert entry.1 (UInt32.ofNat entry.2) table) ∅

theorem lookup_leafIndexMap (leaves : List Hash) (leaf : Hash) :
    (leafIndexMap leaves).lookup leaf = leafIdx leaves leaf := by
  rw [leafIndexMap,lookup_foldl_orInsert Prod.fst (fun entry => UInt32.ofNat entry.2),
    Finmap.lookup_empty,Option.none_or,leafIdx,List.findIdx?_eq_fst_find?_zipIdx,Option.map_map]
  rfl

/-- The neighbours read from the stored layers are the siblings of the path. -/
theorem readSiblings_growLayers (node : Hash → Hash → Hash) {row : List Hash} {depth i : ℕ}
    (h : row.length = 2^depth) (hi : i < 2^depth) :
    readSiblings i ((growLayers node row).take depth) = siblingsAt node depth row i := by
  induction depth generalizing row i with
  | zero => rfl
  | succ depth ih =>
      have hhalf : i/2 < 2^depth := by
        rw [pow_succ] at hi
        omega
      rw [growLayers_succ node h,List.take_succ_cons,readSiblings,siblingsAt,Nat.mod_eq_of_lt hi,
        siblingOf_eq_xor,ih (nextLayer_two_pow node h) hhalf]

section
variable {blake3 : Bytes → Hash} {input : List Hash}

theorem legacy_siblings {i : ℕ} (hi : i < (buildLegacy blake3 input).leafCount) :
    readSiblings i ((buildLegacy blake3 input).layers.take (buildLegacy blake3 input).depth) =
      siblingsAt (legacyNode blake3) (depthOf input.length) (legacyRow input) i := by
  rw [buildLegacy_leafCount] at hi
  rw [buildLegacy_depth]
  exact readSiblings_growLayers _ (legacyRow_length input) hi

/-- What is made from a position below the number of leaves. -/
theorem buildAtIndex_legacy {i : UInt32} (hi : i.toNat < (buildLegacy blake3 input).leafCount) :
    buildAtIndex (buildLegacy blake3 input) i =
      some ⟨(legacyRow input)[i.toNat]!,i,
        siblingsAt (legacyNode blake3) (depthOf input.length) (legacyRow input) i.toNat⟩ := by
  have hleaf : i.toNat < (legacyRow input).length := by
    rw [legacyRow_length,← buildLegacy_leafCount blake3]
    exact hi
  rw [buildAtIndex,legacy_siblings hi,buildLegacy_leaves,List.getElem?_eq_getElem hleaf,
    getElem!_pos (legacyRow input) _ hleaf]
  rfl

theorem verify_legacy (hdepth : (buildLegacy blake3 input).depth < 32) {i : UInt32}
    (hi : i.toNat < (buildLegacy blake3 input).leafCount) :
    verify blake3 ⟨(legacyRow input)[i.toNat]!,i,
      siblingsAt (legacyNode blake3) (depthOf input.length) (legacyRow input) i.toNat⟩
      (buildLegacy blake3 input).root = true := by
  rw [buildLegacy_depth] at hdepth
  rw [buildLegacy_leafCount] at hi
  have hwalk := walk_siblingsAt (legacyNode blake3) (legacyRow_length input) i.toNat
  rw [Nat.mod_eq_of_lt hi] at hwalk
  rw [verify_iff,buildLegacy_root]
  simp only [siblingsAt_length]
  exact ⟨hdepth,hi,hwalk⟩

/-- The first position at which a leaf stands. -/
def FirstAt (leaves : List Hash) (leaf : Hash) (i : ℕ) : Prop :=
  leaves[i]? = some leaf ∧ ∀ j < i, leaves[j]? ≠ some leaf

theorem findIdx_iff_firstAt {leaves : List Hash} {leaf : Hash} {i : ℕ} :
    leaves.findIdx? (· = leaf) = some i ↔ FirstAt leaves leaf i := by
  rw [List.findIdx?_eq_some_iff_getElem,FirstAt,List.getElem?_eq_some_iff]
  constructor
  · intro h
    obtain ⟨hi,hleaf,hbefore⟩ := h
    refine ⟨⟨hi,of_decide_eq_true hleaf⟩,?_⟩
    intro j hj hat
    obtain ⟨hlt,heq⟩ := List.getElem?_eq_some_iff.mp hat
    exact hbefore j hj (decide_eq_true heq)
  · intro h
    obtain ⟨⟨hi,hleaf⟩,hbefore⟩ := h
    refine ⟨hi,decide_eq_true hleaf,?_⟩
    intro j hj hat
    exact hbefore j hj (List.getElem?_eq_some_iff.mpr ⟨hj.trans hi,of_decide_eq_true hat⟩)

theorem exists_firstAt {leaves : List Hash} {leaf : Hash} :
    (∃ i, FirstAt leaves leaf i) ↔ leaf ∈ leaves := by
  simp only [← findIdx_iff_firstAt,← Option.isSome_iff_exists,List.findIdx?_isSome]
  simp

/-- A position of a tree of less than 32 levels is not changed by the cast. -/
theorem ofNat_toNat_of_lt (hdepth : (buildLegacy blake3 input).depth < 32) {i : ℕ}
    (hi : i < (buildLegacy blake3 input).leafCount) : (UInt32.ofNat i).toNat = i := by
  rw [buildLegacy_depth] at hdepth
  rw [buildLegacy_leafCount] at hi
  have hle : 2^depthOf input.length ≤ 2^32 := Nat.pow_le_pow_right (by decide) hdepth.le
  rw [UInt32.toNat_ofNat',Nat.mod_eq_of_lt (by omega)]

theorem FirstAt.lt {tree : MerkleTree} {leaf : Hash} {i : ℕ} (h : FirstAt tree.leaves leaf i) :
    i < tree.leafCount := (List.getElem?_eq_some_iff.mp h.1).1

/-- The witness of a leaf is that of its first position. -/
theorem build_of_firstAt (hdepth : (buildLegacy blake3 input).depth < 32) {leaf : Hash} {i : ℕ}
    (h : FirstAt (buildLegacy blake3 input).leaves leaf i) :
    build (buildLegacy blake3 input) leaf =
      buildAtIndex (buildLegacy blake3 input) (UInt32.ofNat i) := by
  have hcast := ofNat_toNat_of_lt hdepth h.lt
  rw [build,findIdx_iff_firstAt.mpr h,buildAtIndex,hcast,h.1]
  simp only [Option.bind_eq_bind,Option.bind_some,hcast]

theorem build_isSome (tree : MerkleTree) (leaf : Hash) :
    (∃ w, build tree leaf = some w) ↔ leaf ∈ tree.leaves := by
  rw [← exists_firstAt]
  simp only [← findIdx_iff_firstAt]
  unfold build
  cases tree.leaves.findIdx? (· = leaf) with
  | none => simp
  | some i => simp

/-- The command writes the witness which is made from the leaf. -/
theorem build_of_writeWitness (hdepth : (buildLegacy blake3 input).depth < 32)
    {canonicalize : FileTree.Path → Except String FileTree.Path} {output target : FileTree.Path}
    {leaf : Hash} {w : InclusionWitness}
    (h : writeWitness canonicalize output (buildLegacy blake3 input) leaf = .ok (target,w)) :
    build (buildLegacy blake3 input) leaf = some w := by
  unfold writeWitness leafIdx at h
  cases hfind : (buildLegacy blake3 input).leaves.findIdx? (· = leaf) with
  | none =>
      rw [hfind] at h
      cases h
  | some i =>
      have hfirst := findIdx_iff_firstAt.mp hfind
      rw [hfind,Option.map_some] at h
      dsimp only at h
      rw [build_of_firstAt hdepth hfirst]
      split at h
      · cases h
      · rename_i w' hw
        obtain ⟨path,-,hpure⟩ := FallibleSteps.bind_ok.mp h
        cases hpure
        exact hw

/-- Every position of the padded row has a witness which verifies. A leaf has one exactly
if it stands in the row, and it is that of its first position. The command finds the same
position for each leaf of its input, and writes that witness. -/
theorem legacy_witnesses_verify (hdepth : (buildLegacy blake3 input).depth < 32) :
    (∀ i < (buildLegacy blake3 input).leafCount, ∃ w,
      buildAtIndex (buildLegacy blake3 input) (UInt32.ofNat i) = some w ∧
        w.leafIndex.toNat = i ∧ verify blake3 w (buildLegacy blake3 input).root = true) ∧
    (∀ leaf, ((∃ w, build (buildLegacy blake3 input) leaf = some w) ↔
        leaf ∈ (buildLegacy blake3 input).leaves) ∧
      ∀ i, FirstAt (buildLegacy blake3 input).leaves leaf i →
        build (buildLegacy blake3 input) leaf =
          buildAtIndex (buildLegacy blake3 input) (UInt32.ofNat i)) ∧
    ∀ leaf ∈ input,
      (∃ idx w, (leafIndexMap (buildLegacy blake3 input).leaves).lookup leaf = some idx ∧
        buildAtIndex (buildLegacy blake3 input) idx = some w ∧
        build (buildLegacy blake3 input) leaf = some w) ∧
      ∀ (canonicalize : FileTree.Path → Except String FileTree.Path) (output target : FileTree.Path)
        (w : InclusionWitness),
        writeWitness canonicalize output (buildLegacy blake3 input) leaf = .ok (target,w) →
          build (buildLegacy blake3 input) leaf = some w := by
  refine ⟨?_,?_,?_⟩
  · intro i hi
    have hcast := ofNat_toNat_of_lt hdepth hi
    have hi' : (UInt32.ofNat i).toNat < (buildLegacy blake3 input).leafCount := by rwa [hcast]
    exact ⟨_,buildAtIndex_legacy hi',hcast,verify_legacy hdepth hi'⟩
  · intro leaf
    exact ⟨build_isSome _ leaf,fun i hfirst => build_of_firstAt hdepth hfirst⟩
  · intro leaf hleaf
    refine ⟨?_,fun canonicalize output target w hwrite => build_of_writeWitness hdepth hwrite⟩
    have hmem : leaf ∈ (buildLegacy blake3 input).leaves := by
      rw [buildLegacy_leaves]
      exact mem_legacyRow hleaf
    obtain ⟨i,hfirst⟩ := exists_firstAt.mpr hmem
    obtain ⟨w,hw⟩ := (build_isSome _ leaf).mpr hmem
    refine ⟨UInt32.ofNat i,w,?_,(build_of_firstAt hdepth hfirst).symm.trans hw,hw⟩
    rw [lookup_leafIndexMap,leafIdx,findIdx_iff_firstAt.mpr hfirst]
    rfl

end

/-- A leaf which comes twice, and one more. -/
def repeatedLeaves : List Hash := [Vector.replicate 32 5,Vector.replicate 32 3,Vector.replicate 32 5]

theorem repeatedLeaves_depth :
    (buildLegacy Blake3Compression.singleChunkHash repeatedLeaves).depth = 2 := by
  rw [buildLegacy_depth]
  decide

theorem repeated_leaves_verify :
    ∃ w, buildAtIndex (buildLegacy Blake3Compression.singleChunkHash repeatedLeaves) 3 = some w ∧
      verify Blake3Compression.singleChunkHash w
        (buildLegacy Blake3Compression.singleChunkHash repeatedLeaves).root = true := by
  have hdepth : (buildLegacy Blake3Compression.singleChunkHash repeatedLeaves).depth < 32 := by
    rw [repeatedLeaves_depth]
    decide
  have hcount : (buildLegacy Blake3Compression.singleChunkHash repeatedLeaves).leafCount = 4 := by
    rw [buildLegacy_leafCount,← buildLegacy_depth Blake3Compression.singleChunkHash,
      repeatedLeaves_depth]
    rfl
  obtain ⟨w,hw,-,hverify⟩ := (legacy_witnesses_verify hdepth).1 3 (by rw [hcount]; decide)
  exact ⟨w,hw,hverify⟩

/-! ## Witnesses of anyone's making -/

section
variable {blake3 : Bytes → Hash} {input : List Hash}

/-- The strings hashed by `verify`. -/
def witnessPreimages (blake3 : Bytes → Hash) (w : InclusionWitness) : List Bytes :=
  (walkPairs (legacyNode blake3) w.leaf w.leafIndex.toNat w.siblings).map concatPair

/-- The strings hashed by the builder. -/
def nodePreimages (blake3 : Bytes → Hash) (input : List Hash) : List Bytes :=
  (treePairs (legacyNode blake3) (depthOf input.length) (legacyRow input)).map concatPair

theorem concatPair_injective : Function.Injective concatPair := by
  intro p q h
  have hparts := ByteFraming.vector_splits _ _ _ _ h
  exact Prod.ext hparts.1 (Vector.toList_inj.mp hparts.2)

theorem legacy_layer {k : ℕ} (hk : k < (buildLegacy blake3 input).depth) :
    (buildLegacy blake3 input).layers[k]! = layerAt (legacyNode blake3) k (legacyRow input) := by
  rw [buildLegacy_depth] at hk
  exact growLayers_get _ (legacyRow_length input) hk.le

/-- A witness with a sibling for each level which is replayed to the root has a position in
the row, the leaf which stands there and the neighbours of its path, or else two of the
strings hashed for it and for the tree have one digest. -/
theorem legacy_witness_binds {w : InclusionWitness}
    (hlength : w.siblings.length = (buildLegacy blake3 input).depth)
    (hverify : verify blake3 w (buildLegacy blake3 input).root = true) :
    (w.leafIndex.toNat < (buildLegacy blake3 input).leafCount ∧
      (buildLegacy blake3 input).leaves[w.leafIndex.toNat]? = some w.leaf ∧
      ∀ k < (buildLegacy blake3 input).depth,
        w.siblings[k]! = ((buildLegacy blake3 input).layers[k]!)[(w.leafIndex.toNat >>> k) ^^^ 1]!) ∨
    Collision blake3 (witnessPreimages blake3 w) (nodePreimages blake3 input) := by
  obtain ⟨-,hindex,hwalk⟩ := (verify_iff blake3 w _).mp hverify
  rw [buildLegacy_depth] at hlength
  rw [hlength] at hindex
  rw [buildLegacy_root] at hwalk
  rcases walk_binding (legacyNode blake3) (legacyRow_length input) w.leaf w.leafIndex.toNat
    w.siblings hlength hwalk with hown | hcol
  · left
    rw [Nat.mod_eq_of_lt hindex] at hown
    have hrow : w.leafIndex.toNat < (legacyRow input).length := by rwa [legacyRow_length]
    refine ⟨by rwa [buildLegacy_leafCount],?_,?_⟩
    · rw [buildLegacy_leaves,List.getElem?_eq_getElem hrow,hown.1,
        getElem!_pos (legacyRow input) _ hrow]
    · intro k hk
      rw [legacy_layer hk,hown.2]
      rw [buildLegacy_depth] at hk
      exact siblingsAt_get _ _ hk hindex
  · exact Or.inr (Collision.map concatPair_injective hcol)

end

/-! The slot of padding behind the repeated leaves. -/

section
open Blake3Compression

theorem repeatedLeaves_row : legacyRow repeatedLeaves =
    [Vector.replicate 32 3,Vector.replicate 32 5,Vector.replicate 32 5,zeroHash] := by decide

def lowerNode : Hash :=
  legacyNode singleChunkHash (Vector.replicate 32 3) (Vector.replicate 32 5)

def upperNode : Hash := legacyNode singleChunkHash (Vector.replicate 32 5) zeroHash

def paddingWitness : InclusionWitness := ⟨zeroHash,3,[Vector.replicate 32 5,lowerNode]⟩

theorem repeatedLeaves_digests : upperNode[0] ≠ lowerNode[0] ∧
    (legacyNode singleChunkHash lowerNode upperNode)[0] ≠ lowerNode[0] ∧
    (legacyNode singleChunkHash lowerNode upperNode)[0] ≠ upperNode[0] := by decide +kernel

theorem paddingWitness_preimages : witnessPreimages singleChunkHash paddingWitness =
    [concatPair (Vector.replicate 32 5,zeroHash),concatPair (lowerNode,upperNode)] := rfl

theorem repeatedLeaves_preimages : nodePreimages singleChunkHash repeatedLeaves =
    [concatPair (Vector.replicate 32 3,Vector.replicate 32 5),
      concatPair (Vector.replicate 32 5,zeroHash),concatPair (lowerNode,upperNode)] := by
  rw [nodePreimages,repeatedLeaves_row]
  rfl

theorem apart_of_digits {a b : Bytes} (h : (singleChunkHash a)[0] ≠ (singleChunkHash b)[0]) :
    singleChunkHash a ≠ singleChunkHash b := fun hsame => h (by rw [hsame])

/-- The three nodes have three digests, so nothing collides here. -/
theorem paddingWitness_apart : ¬Collision singleChunkHash
    (witnessPreimages singleChunkHash paddingWitness)
    (nodePreimages singleChunkHash repeatedLeaves) := by
  obtain ⟨hupper,hlower,hroot⟩ := repeatedLeaves_digests
  rw [paddingWitness_preimages,repeatedLeaves_preimages]
  rintro ⟨a,ha,b,hb,hne,himage⟩
  simp only [List.mem_cons,List.not_mem_nil,or_false] at ha hb
  rcases ha with rfl | rfl
  · rcases hb with rfl | rfl | rfl
    · exact apart_of_digits hupper himage
    · exact hne rfl
    · exact apart_of_digits hroot himage.symm
  · rcases hb with rfl | rfl | rfl
    · exact apart_of_digits hlower himage
    · exact apart_of_digits hroot himage
    · exact hne rfl

theorem padding_slot_bound :
    verify singleChunkHash paddingWitness (buildLegacy singleChunkHash repeatedLeaves).root = true ∧
      (buildLegacy singleChunkHash repeatedLeaves).leaves[3]? = some zeroHash ∧
      ∀ k < 2, paddingWitness.siblings[k]! =
        ((buildLegacy singleChunkHash repeatedLeaves).layers[k]!)[(3 >>> k) ^^^ 1]! := by
  have hlength : paddingWitness.siblings.length =
      (buildLegacy singleChunkHash repeatedLeaves).depth := repeatedLeaves_depth.symm
  have hverify : verify singleChunkHash paddingWitness
      (buildLegacy singleChunkHash repeatedLeaves).root = true := by
    rw [verify_iff,buildLegacy_root,repeatedLeaves_row]
    exact ⟨by decide,by decide,rfl⟩
  refine ⟨hverify,?_⟩
  rcases legacy_witness_binds hlength hverify with hown | hcol
  · rw [repeatedLeaves_depth] at hown
    exact hown.2
  · exact (paddingWitness_apart hcol).elim

end

end OmegaHarness.LegacyWitnesses
