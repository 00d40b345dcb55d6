import OmegaHarness.ClaimVerifier
import OmegaHarness.Blake3Compression

/-!
# The membership relation and the padding slots

What a sound membership proof shows about one public input: some payload and some
siblings climb from the input's leaf hash to its root. Against an honest sub-tree
such an opening is the committed payload at its own sorted index, or the sentinel
leaf of a padding slot, or a collision between two strings which the opening and
the builder hashed.

The builder's documentation asks the verifier to compare the index with the item
count. The verifier makes no such comparison, and the padding leaf of every
sub-tree whose size is no power of two is opened at the index `u64::MAX`.
-/
namespace OmegaHarness.MembershipRelation
open FixedWidthBytes FiniteCollisions DomainHashes LayeredTree MerkleTreeV1 ClaimTypes
open ProofPublicValues ClaimVerifier Blake3Compression

/-- What the proof hides: the leaf's payload and the siblings of its path. -/
structure Opening where
  payload : Bytes
  siblings : List Hash
  deriving DecidableEq, Repr

section Relation
variable (blake3 : Bytes → Hash)

/-- The relation behind one accepted membership trace. -/
structure Opens (p : ClaimPublicInputs) (o : Opening) : Prop where
  payload : o.payload.length ≤ 34
  depth : o.siblings.length = p.treeDepth.toNat
  walk : walkV1Path blake3 (leafHashV2 blake3 p.subTreeId p.leafIndex o.payload) p.leafIndex
    o.siblings = p.perSubTreeRoot

/-- Every string hashed by an opening and by the builder of the sub-tree. -/
def hashedStrings (payloads : List Bytes) (p : ClaimPublicInputs) (o : Opening) : List Bytes :=
  openingPreimages blake3 p.subTreeId p.leafIndex o.payload o.siblings++
    buildPreimages blake3 p.subTreeId payloads

end Relation

section Honest
variable {blake3 : Bytes → Hash} {c : OmegaCommitment} {i : Fin 7} {payloads : List Bytes}
  {t : MerkleTree} {p : ClaimPublicInputs} {o : Opening}

/-- The three things an opening of an honest sub-tree can be. -/
theorem opened_slot (h : HonestSubTree blake3 c i payloads t) (hp : Checked c i p)
    (ho : Opens blake3 p o) :
    (∃ j, j < payloads.length ∧ p.leafIndex = UInt64.ofNat j ∧
        o.payload = (sortPayloads payloads)[j]!) ∨
      (payloads.length ≠ 2^depthOf payloads.length ∧ p.leafIndex = emptyIndexSentinel ∧
        o.payload = []) ∨
      CollisionAmong blake3 (hashedStrings blake3 payloads p o) := by
  have hbuilt : buildV1 blake3 p.subTreeId payloads = .ok t := by
    rw [hp.subTree]
    exact h.built
  have hdepth : o.siblings.length = t.depth := by rw [ho.depth,hp.depth,h.depth]
  have hwalk := ho.walk
  rw [hp.root,h.root] at hwalk
  rcases opening_cases blake3 hbuilt hdepth hwalk with hslot | hpadding | hcol
  · exact Or.inl hslot
  · exact Or.inr (Or.inl hpadding)
  · exact Or.inr (Or.inr hcol.among)

/-- A canonical index below the item count is no padding index. -/
theorem canonical_lt_count (h : HonestSubTree blake3 c i payloads t) {j : ℕ}
    (hj : j < payloads.length) : UInt64.ofNat j < c.itemCounts.get i := by
  have hlt := h.count_lt
  rw [UInt64.lt_iff_toNat_lt,UInt64.toNat_ofNat',h.count,Nat.mod_eq_of_lt (by omega)]
  exact hj

theorem sentinel_not_lt (count : UInt64) : ¬emptyIndexSentinel < count := by
  have hlt := count.toNat_lt
  rw [UInt64.lt_iff_toNat_lt,emptyIndexSentinel_toNat]
  omega

/-- An opened index other than the sentinel lies below the item count. -/
theorem index_lt_count (h : HonestSubTree blake3 c i payloads t) (hp : Checked c i p)
    (ho : Opens blake3 p o) (hindex : p.leafIndex ≠ emptyIndexSentinel) :
    p.leafIndex < c.itemCounts.get i ∨ CollisionAmong blake3 (hashedStrings blake3 payloads p o) := by
  rcases opened_slot h hp ho with hslot | hpadding | hcol
  · obtain ⟨j,hj,hcanonical,-⟩ := hslot
    rw [hcanonical]
    exact Or.inl (canonical_lt_count h hj)
  · exact (hindex hpadding.2.1).elim
  · exact Or.inr hcol

end Honest

section Slots
variable (blake3 : Bytes → Hash) (c : OmegaCommitment) (i : Fin 7) (payloads : List Bytes)

/-- The public input which claims one index of a sub-tree. -/
def slotInput (index : UInt64) : ClaimPublicInputs where
  subTreeId := subTreeIdOf i
  leafIndex := index
  treeDepth := UInt8.ofNat (c.treeDepths.get i).toNat
  perSubTreeRoot := c.subTreeRootsBlake3.get i
  bundleRootBlake3 := c.bundleRootBlake3
  nullifier := zeroHash
  recipientStarstreamAddr := zeroHash

/-- The tree's own siblings at the slot which the index's low bits address. -/
def slotOpening (index : UInt64) (payload : Bytes) : Opening where
  payload := payload
  siblings := siblingsAt (nodeHashV2 blake3) (depthOf payloads.length)
    (leafRow blake3 (subTreeIdOf i) payloads) index.toNat

/-- The envelope of a prover which wrote the public values of its inputs. -/
def envelopeFor (publicInputs : List ClaimPublicInputs) (starkProof : Bytes) : ProofEnvelope where
  version := proofEnvelopeVersion
  config := ⟨1⟩
  commitment := c
  publicInputs := publicInputs
  publicValues := proofPublicValues blake3 c publicInputs
  starkProof := starkProof

end Slots

section Openings
variable {blake3 : Bytes → Hash} {c : OmegaCommitment} {i : Fin 7} {payloads : List Bytes}
  {t : MerkleTree}

theorem slotInput_checked (h : HonestSubTree blake3 c i payloads t) (index : UInt64) :
    Checked c i (slotInput c i index) := by
  have hle := h.depth_le
  have hdepth := h.depth
  refine ⟨rfl,rfl,rfl,?_⟩
  rw [slotInput,toNat_ofNat_byte]
  omega

theorem envelopeFor_checks (h : HonestSubTree blake3 c i payloads t) (indices : List UInt64)
    (starkProof : Bytes) :
    envelopeChecks blake3 c (indices.map (slotInput c i))
      (envelopeFor blake3 c (indices.map (slotInput c i)) starkProof) = .ok () := by
  rw [envelopeChecks_ok]
  refine ⟨rfl,rfl,rfl,?_,rfl⟩
  intro p hp
  obtain ⟨index,-,rfl⟩ := List.mem_map.mp hp
  exact ⟨i,slotInput_checked h index⟩

/-- A payload whose leaf hash stands at the addressed slot opens the root. -/
theorem slotOpening_opens (h : HonestSubTree blake3 c i payloads t) {index : UInt64}
    {payload : Bytes} (hlen : payload.length ≤ 34)
    (hleaf : leafHashV2 blake3 (subTreeIdOf i) index payload =
      (leafRow blake3 (subTreeIdOf i) payloads)[index.toNat % 2^depthOf payloads.length]!) :
    Opens blake3 (slotInput c i index) (slotOpening blake3 i payloads index payload) := by
  refine ⟨hlen,?_,?_⟩
  · rw [(slotInput_checked h index).depth,h.depth,h.depth_eq]
    exact siblingsAt_length _ _ _ _
  · rw [walkV1Path_eq_walk]
    change walk (nodeHashV2 blake3) (leafHashV2 blake3 (subTreeIdOf i) index payload) index.toNat
      (siblingsAt _ _ _ index.toNat) = c.subTreeRootsBlake3.get i
    rw [hleaf,walk_siblingsAt _ (leafRow_length blake3 _ payloads),h.root,buildV1_root blake3 _ h.built]

/-- Such an opening hashes nothing which the builder did not hash. -/
theorem slotOpening_strings {index : UInt64} {payload : Bytes}
    (hleaf : leafHashV2 blake3 (subTreeIdOf i) index payload =
      (leafRow blake3 (subTreeIdOf i) payloads)[index.toNat % 2^depthOf payloads.length]!)
    (hmem : leafPreimage (subTreeIdOf i) index payload ∈
      buildPreimages blake3 (subTreeIdOf i) payloads) :
    hashedStrings blake3 payloads (slotInput c i index) (slotOpening blake3 i payloads index payload) ⊆
      buildPreimages blake3 (subTreeIdOf i) payloads := by
  intro x hx
  rcases List.mem_append.mp hx with hx | hx
  · rcases List.mem_cons.mp hx with rfl | hx
    · exact hmem
    · obtain ⟨pair,hpair,rfl⟩ := List.mem_map.mp hx
      apply buildPreimages_node
      apply walkPairs_siblingsAt _ (leafRow_length blake3 _ payloads) index.toNat
      rw [← hleaf]
      exact hpair
  · exact hx

/-- The index `u64::MAX` addresses the last slot, whatever the depth. -/
theorem sentinel_slot (h : HonestSubTree blake3 c i payloads t) :
    emptyIndexSentinel.toNat % 2^depthOf payloads.length = 2^depthOf payloads.length-1 := by
  have hle := h.depth_le
  rw [h.depth_eq] at hle
  rw [emptyIndexSentinel_toNat,ones_mod_width hle]

/-- With at least one padding slot the last slot holds the sentinel leaf. -/
theorem sentinel_leaf (h : HonestSubTree blake3 c i payloads t)
    (hpad : ¬∃ k, payloads.length = 2^k) :
    leafHashV2 blake3 (subTreeIdOf i) emptyIndexSentinel [] =
      (leafRow blake3 (subTreeIdOf i) payloads)[emptyIndexSentinel.toNat %
        2^depthOf payloads.length]! := by
  have hne : payloads.length ≠ 2^depthOf payloads.length :=
    fun heq => hpad ((count_eq_width_iff payloads.length).mp heq)
  have hle := count_le_width payloads.length
  have hpos := Nat.two_pow_pos (depthOf payloads.length)
  rw [sentinel_slot h,leafRow_padding blake3 _ payloads (by omega) (by omega)]
  rfl

end Openings

end OmegaHarness.MembershipRelation
