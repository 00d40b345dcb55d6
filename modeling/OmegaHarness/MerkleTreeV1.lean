import OmegaHarness.DomainHashes
import OmegaHarness.LayeredTree

/-!
# The sub-tree builder and the path walk

`buildV1` follows the builder of the commitment core: sort the payloads, refuse
a duplicate, hash each payload under its sorted position, pad to a power of two
with the sentinel leaf and grow the layers. `walkV1Path` is the prover's climb
over a `u64` index. Both are read through the layered-tree library, which gives
the root, the depth and position binding. The digest is a parameter, so a
forged opening is answered by two named preimages with one digest.
-/
namespace OmegaHarness.MerkleTreeV1
open FixedWidthBytes FiniteCollisions DomainHashes LayeredTree

/-- `usize::next_power_of_two`: the least power of two at or above. -/
def nextPowerOfTwo (n : ℕ) : ℕ := 2^Nat.clog 2 n

inductive BuildError where
  | duplicateLeafPayload (subTreeId : UInt8) (index : ℕ)
  deriving DecidableEq, Repr

structure MerkleTree where
  leaves : List Hash
  layers : List (List Hash)
  deriving DecidableEq, Repr

namespace MerkleTree

def root (t : MerkleTree) : Hash := (t.layers.getLast!)[0]!

def depth (t : MerkleTree) : ℕ := t.layers.length-1

def leafCount (t : MerkleTree) : ℕ := t.leaves.length

end MerkleTree

/-- `payloads.sort()`: byte strings in lexicographic order. -/
def sortPayloads (payloads : List Bytes) : List Bytes := payloads.insertionSort (· ≤ ·)

theorem sortPayloads_perm (payloads : List Bytes) : (sortPayloads payloads).Perm payloads :=
  List.perm_insertionSort _ _

@[simp] theorem sortPayloads_length (payloads : List Bytes) :
    (sortPayloads payloads).length = payloads.length :=
  (sortPayloads_perm payloads).length_eq

/-- The second element of the first window of two equal payloads. -/
def firstEqualWindow : List Bytes → Option Bytes
  | [] => none
  | [_] => none
  | a::b::rest => if a = b then some b else firstEqualWindow (b::rest)

section Build
variable (blake3 : Bytes → Hash)

/-- Each sorted payload under its position, the position cast to `u64`. -/
def payloadLeaves (subTreeId : UInt8) (sorted : List Bytes) : List Hash :=
  sorted.mapIdx fun i p => leafHashV2 blake3 subTreeId (UInt64.ofNat i) p

def padLeaves (subTreeId : UInt8) (leaves : List Hash) : List Hash :=
  leaves++List.replicate (nextPowerOfTwo (max leaves.length 1)-leaves.length)
    (emptyLeaf blake3 subTreeId)

def buildLayersV1 (leaves : List Hash) : MerkleTree :=
  let layers := growLayers (nodeHashV2 blake3) leaves
  ⟨layers[0]!,layers⟩

def buildV1 (subTreeId : UInt8) (payloads : List Bytes) : Except BuildError MerkleTree :=
  let sorted := sortPayloads payloads
  match firstEqualWindow sorted with
  | some duplicate =>
      .error (.duplicateLeafPayload subTreeId ((sorted.findIdx? (· = duplicate)).getD 0))
  | none => .ok (buildLayersV1 blake3 (padLeaves blake3 subTreeId (payloadLeaves blake3 subTreeId sorted)))

end Build

/-- The depth of the tree over a given number of payloads. -/
def depthOf (count : ℕ) : ℕ := Nat.clog 2 (max count 1)

theorem count_le_width (count : ℕ) : count ≤ 2^depthOf count :=
  (le_max_left _ _).trans (Nat.le_pow_clog (by omega) _)

/-- Padding exists exactly when the number of payloads is no power of two. -/
theorem count_eq_width_iff (count : ℕ) : count = 2^depthOf count ↔ ∃ k, count = 2^k := by
  constructor
  · intro h
    exact ⟨_,h⟩
  · rintro ⟨k,rfl⟩
    rw [depthOf,max_eq_left (Nat.one_le_two_pow),Nat.clog_pow _ _ (by omega)]

section Spec
variable (blake3 : Bytes → Hash) (subTreeId : UInt8)

/-- The padded leaf row of a payload list, named for the statements below. -/
def leafRow (payloads : List Bytes) : List Hash :=
  padLeaves blake3 subTreeId (payloadLeaves blake3 subTreeId (sortPayloads payloads))

@[simp] theorem payloadLeaves_length (sorted : List Bytes) :
    (payloadLeaves blake3 subTreeId sorted).length = sorted.length := by
  simp [payloadLeaves]

theorem leafRow_length (payloads : List Bytes) :
    (leafRow blake3 subTreeId payloads).length = 2^depthOf payloads.length := by
  have h := count_le_width payloads.length
  simp only [leafRow,padLeaves,List.length_append,List.length_replicate,payloadLeaves_length,
    sortPayloads_length,nextPowerOfTwo]
  change payloads.length+(2^depthOf payloads.length-payloads.length) = _
  omega

/-- A slot below the item count holds the sorted payload under its own index. -/
theorem leafRow_payload (payloads : List Bytes) {j : ℕ} (h : j < payloads.length) :
    (leafRow blake3 subTreeId payloads)[j]! =
      leafHashV2 blake3 subTreeId (UInt64.ofNat j) (sortPayloads payloads)[j]! := by
  have hj : j < (payloadLeaves blake3 subTreeId (sortPayloads payloads)).length := by simpa using h
  have hs : j < (sortPayloads payloads).length := by simpa using h
  rw [leafRow,padLeaves,List.getElem!_eq_getElem?_getD,List.getElem?_append_left hj,
    List.getElem!_eq_getElem?_getD]
  simp [payloadLeaves,List.getElem?_eq_getElem hs]

/-- Every other slot of the row holds the sentinel leaf. -/
theorem leafRow_padding (payloads : List Bytes) {j : ℕ} (h : payloads.length ≤ j)
    (hj : j < 2^depthOf payloads.length) :
    (leafRow blake3 subTreeId payloads)[j]! = emptyLeaf blake3 subTreeId := by
  have hlen : (payloadLeaves blake3 subTreeId (sortPayloads payloads)).length = payloads.length := by
    simp
  have hrow := leafRow_length blake3 subTreeId payloads
  have hlt : j < (leafRow blake3 subTreeId payloads).length := by omega
  rw [List.getElem!_eq_getElem?_getD,List.getElem?_eq_getElem hlt]
  simp only [leafRow,padLeaves,Option.getD_some]
  rw [List.getElem_append_right (by omega),List.getElem_replicate]

/-- A successful build is the layered tree over the padded row. -/
theorem buildV1_ok {payloads : List Bytes} {t : MerkleTree}
    (h : buildV1 blake3 subTreeId payloads = .ok t) :
    t.leaves = leafRow blake3 subTreeId payloads ∧
      t.layers = growLayers (nodeHashV2 blake3) (leafRow blake3 subTreeId payloads) := by
  unfold buildV1 at h
  dsimp only at h
  split at h
  · cases h
  · cases h
    exact ⟨growLayers_head _ _,rfl⟩

theorem buildV1_depth {payloads : List Bytes} {t : MerkleTree}
    (h : buildV1 blake3 subTreeId payloads = .ok t) : t.depth = depthOf payloads.length := by
  rw [MerkleTree.depth,(buildV1_ok blake3 subTreeId h).2,
    growLayers_length _ (leafRow_length blake3 subTreeId payloads)]
  rfl

theorem buildV1_leafCount {payloads : List Bytes} {t : MerkleTree}
    (h : buildV1 blake3 subTreeId payloads = .ok t) : t.leafCount = 2^depthOf payloads.length := by
  rw [MerkleTree.leafCount,(buildV1_ok blake3 subTreeId h).1,leafRow_length]

theorem buildV1_root {payloads : List Bytes} {t : MerkleTree}
    (h : buildV1 blake3 subTreeId payloads = .ok t) :
    t.root = rootAt (nodeHashV2 blake3) (depthOf payloads.length) (leafRow blake3 subTreeId payloads) := by
  rw [MerkleTree.root,(buildV1_ok blake3 subTreeId h).2]
  exact growLayers_root _ (leafRow_length blake3 subTreeId payloads)

/-- A duplicate-free list is never refused. -/
theorem firstEqualWindow_none {sorted : List Bytes} (h : sorted.Nodup) :
    firstEqualWindow sorted = none := by
  induction sorted with
  | nil => rfl
  | cons a rest ih =>
      cases rest with
      | nil => rfl
      | cons b rest =>
          have hne : a ≠ b := by
            intro heq
            simp [heq] at h
          rw [firstEqualWindow,if_neg hne]
          exact ih h.of_cons

theorem buildV1_of_nodup {payloads : List Bytes} (h : payloads.Nodup) :
    buildV1 blake3 subTreeId payloads = .ok (buildLayersV1 blake3 (leafRow blake3 subTreeId payloads)) := by
  have hs : (sortPayloads payloads).Nodup := (sortPayloads_perm payloads).nodup_iff.mpr h
  unfold buildV1
  dsimp only
  rw [firstEqualWindow_none hs]
  rfl

/-- In a sorted list without an equal window every element is below all later ones. -/
theorem nodup_of_firstEqualWindow {sorted : List Bytes} (hsorted : sorted.Pairwise (· ≤ ·))
    (h : firstEqualWindow sorted = none) : sorted.Nodup := by
  induction sorted with
  | nil => exact List.nodup_nil
  | cons a rest ih =>
      cases rest with
      | nil => exact List.nodup_singleton a
      | cons b rest =>
          rw [firstEqualWindow] at h
          split at h
          · cases h
          next hne =>
            obtain ⟨hhead,htail⟩ := List.pairwise_cons.mp hsorted
            refine List.nodup_cons.mpr ⟨?_,ih htail h⟩
            intro hmem
            have hab : a ≤ b := hhead b List.mem_cons_self
            have hba : b ≤ a := by
              rcases List.mem_cons.mp hmem with heq | hlater
              · exact heq ▸ List.le_refl a
              · exact (List.pairwise_cons.mp htail).1 a hlater
            exact hne (List.le_antisymm hab hba)

theorem buildV1_nodup {payloads : List Bytes} {t : MerkleTree}
    (h : buildV1 blake3 subTreeId payloads = .ok t) : payloads.Nodup := by
  have hsorted : (sortPayloads payloads).Pairwise (· ≤ ·) := List.pairwise_insertionSort _ _
  unfold buildV1 at h
  dsimp only at h
  split at h
  · cases h
  next hnone => exact (sortPayloads_perm payloads).nodup_iff.mp (nodup_of_firstEqualWindow hsorted hnone)

/-- The only refusal is that of a duplicate. -/
theorem buildV1_error {payloads : List Bytes} {e : BuildError}
    (h : buildV1 blake3 subTreeId payloads = .error e) :
    ∃ index, e = .duplicateLeafPayload subTreeId index := by
  unfold buildV1 at h
  dsimp only at h
  split at h
  · cases h
    exact ⟨_,rfl⟩
  · cases h

/-- Every string the builder hashes: the payload leaves, the padding leaf and
the nodes of every layer. -/
def buildPreimages (payloads : List Bytes) : List Bytes :=
  ((sortPayloads payloads).mapIdx fun i p => leafPreimage subTreeId (UInt64.ofNat i) p)++
    leafPreimage subTreeId emptyIndexSentinel []::
      (treePairs (nodeHashV2 blake3) (depthOf payloads.length) (leafRow blake3 subTreeId payloads)).map
        pairPreimage

/-- The digests of those strings: the leaf row without repeated padding, then
every node. -/
theorem buildPreimages_digests (payloads : List Bytes) :
    (buildPreimages blake3 subTreeId payloads).map blake3 =
      payloadLeaves blake3 subTreeId (sortPayloads payloads)++emptyLeaf blake3 subTreeId::
        (treePairs (nodeHashV2 blake3) (depthOf payloads.length)
          (leafRow blake3 subTreeId payloads)).map (nodeOf (nodeHashV2 blake3)) := by
  have hleaves : ((sortPayloads payloads).mapIdx fun i p =>
      leafPreimage subTreeId (UInt64.ofNat i) p).map blake3 =
        payloadLeaves blake3 subTreeId (sortPayloads payloads) := by
    apply List.ext_getElem
    · simp
    · intro k hk hk'
      simp [payloadLeaves,leafHashV2]
  rw [buildPreimages,List.map_append,List.map_cons,List.map_map,hleaves]
  rfl

theorem buildPreimages_payload (payloads : List Bytes) {j : ℕ} (h : j < payloads.length) :
    leafPreimage subTreeId (UInt64.ofNat j) (sortPayloads payloads)[j]! ∈
      buildPreimages blake3 subTreeId payloads := by
  have hs : j < (sortPayloads payloads).length := by simpa using h
  refine List.mem_append_left _ (List.mem_mapIdx.mpr ⟨j,hs,?_⟩)
  rw [List.getElem!_eq_getElem?_getD,List.getElem?_eq_getElem hs]
  rfl

theorem buildPreimages_padding (payloads : List Bytes) :
    leafPreimage subTreeId emptyIndexSentinel [] ∈ buildPreimages blake3 subTreeId payloads :=
  List.mem_append_right _ List.mem_cons_self

theorem buildPreimages_node (payloads : List Bytes) {p : Hash × Hash}
    (h : p ∈ treePairs (nodeHashV2 blake3) (depthOf payloads.length)
      (leafRow blake3 subTreeId payloads)) :
    pairPreimage p ∈ buildPreimages blake3 subTreeId payloads :=
  List.mem_append_right _ (List.mem_cons_of_mem _ (List.mem_map_of_mem h))

end Spec

section Path
variable (blake3 : Bytes → Hash)

/-- The prover's climb, with the index shifted as a `u64`. -/
def walkV1Path (leaf : Hash) (leafIndex : UInt64) : List Hash → Hash
  | [] => leaf
  | sibling::rest =>
      walkV1Path
        (if leafIndex &&& 1 = 0 then nodeHashV2 blake3 leaf sibling else nodeHashV2 blake3 sibling leaf)
        (leafIndex/2) rest

theorem low_bit_zero_iff (i : UInt64) : i &&& 1 = 0 ↔ i.toNat % 2 = 0 := by
  rw [← UInt64.toNat_inj,UInt64.toNat_and]
  change i.toNat &&& 1 = 0 ↔ _
  rw [Nat.and_one_is_mod]

/-- The machine climb is the library climb at the index's value. -/
theorem walkV1Path_eq_walk (leaf : Hash) (leafIndex : UInt64) (siblings : List Hash) :
    walkV1Path blake3 leaf leafIndex siblings =
      walk (nodeHashV2 blake3) leaf leafIndex.toNat siblings := by
  induction siblings generalizing leaf leafIndex with
  | nil => rfl
  | cons sibling rest ih =>
      have hhalf : (leafIndex/2).toNat = leafIndex.toNat/2 := by
        rw [UInt64.toNat_div]
        rfl
      simp only [walkV1Path,walk,orderedPair]
      rw [ih,hhalf]
      simp only [low_bit_zero_iff]
      split <;> rfl

/-- Every string a claimed opening hashes: its leaf and its path nodes. -/
def openingPreimages (subTreeId : UInt8) (leafIndex : UInt64) (payload : Bytes)
    (siblings : List Hash) : List Bytes :=
  leafPreimage subTreeId leafIndex payload::
    (walkPairs (nodeHashV2 blake3) (leafHashV2 blake3 subTreeId leafIndex payload)
      leafIndex.toNat siblings).map pairPreimage

/-- What an opening of the root at an index can be, with arbitrary siblings: the
slot at the index's low bits is opened with its own leaf and siblings, or two
written-down preimages collide. -/
theorem opening_pins_slot {subTreeId : UInt8} {payloads : List Bytes} {t : MerkleTree}
    (h : buildV1 blake3 subTreeId payloads = .ok t) {leafIndex : UInt64} {payload : Bytes}
    {siblings : List Hash} (hdepth : siblings.length = t.depth)
    (hwalk : walkV1Path blake3 (leafHashV2 blake3 subTreeId leafIndex payload) leafIndex siblings =
      t.root) :
    (leafHashV2 blake3 subTreeId leafIndex payload =
        (leafRow blake3 subTreeId payloads)[leafIndex.toNat % 2^depthOf payloads.length]! ∧
      siblings = siblingsAt (nodeHashV2 blake3) (depthOf payloads.length)
        (leafRow blake3 subTreeId payloads) leafIndex.toNat) ∨
      Collision blake3 (openingPreimages blake3 subTreeId leafIndex payload siblings)
        (buildPreimages blake3 subTreeId payloads) := by
  rw [buildV1_depth blake3 subTreeId h] at hdepth
  rw [walkV1Path_eq_walk,buildV1_root blake3 subTreeId h] at hwalk
  rcases walk_binding _ (leafRow_length blake3 subTreeId payloads) _ _ _ hdepth hwalk with hown | hcol
  · exact Or.inl hown
  · right
    have hmap : Collision blake3 _ _ := Collision.map pairPreimage_injective hcol
    refine hmap.mono (fun _ hx => List.mem_cons_of_mem _ hx) ?_
    intro x hx
    obtain ⟨p,hp,rfl⟩ := List.mem_map.mp hx
    exact buildPreimages_node blake3 subTreeId payloads hp

/-- The opened slot is a payload slot whose index and payload are the claimed
ones, or it is a padding slot and the claim is the sentinel's own. -/
theorem opening_cases {subTreeId : UInt8} {payloads : List Bytes} {t : MerkleTree}
    (h : buildV1 blake3 subTreeId payloads = .ok t) {leafIndex : UInt64} {payload : Bytes}
    {siblings : List Hash} (hdepth : siblings.length = t.depth)
    (hwalk : walkV1Path blake3 (leafHashV2 blake3 subTreeId leafIndex payload) leafIndex siblings =
      t.root) :
    (∃ j, j < payloads.length ∧ leafIndex = UInt64.ofNat j ∧ payload = (sortPayloads payloads)[j]!) ∨
      (payloads.length ≠ 2^depthOf payloads.length ∧ leafIndex = emptyIndexSentinel ∧ payload = []) ∨
      Collision blake3 (openingPreimages blake3 subTreeId leafIndex payload siblings)
        (buildPreimages blake3 subTreeId payloads) := by
  rcases opening_pins_slot blake3 h hdepth hwalk with ⟨hleaf,-⟩ | hcol
  · have hslot := mod_lt_width leafIndex.toNat (depthOf payloads.length)
    have hown : leafPreimage subTreeId leafIndex payload ∈
        openingPreimages blake3 subTreeId leafIndex payload siblings := List.mem_cons_self
    by_cases hitem : leafIndex.toNat % 2^depthOf payloads.length < payloads.length
    · rw [leafRow_payload blake3 subTreeId payloads hitem] at hleaf
      rcases eq_or_collision hown (buildPreimages_payload blake3 subTreeId payloads hitem) hleaf
        with heq | hcol
      · obtain ⟨-,hindex,hpayload⟩ := leafPreimage_inj heq
        exact Or.inl ⟨_,hitem,hindex,hpayload⟩
      · exact Or.inr (Or.inr hcol)
    · rw [leafRow_padding blake3 subTreeId payloads (by omega) hslot] at hleaf
      rcases eq_or_collision hown (buildPreimages_padding blake3 subTreeId payloads) hleaf
        with heq | hcol
      · obtain ⟨-,hindex,hpayload⟩ := leafPreimage_inj heq
        exact Or.inr (Or.inl ⟨by omega,hindex,hpayload⟩)
      · exact Or.inr (Or.inr hcol)
  · exact Or.inr (Or.inr hcol)

end Path

end OmegaHarness.MerkleTreeV1
