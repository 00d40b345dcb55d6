import OmegaHarness.MembershipRelation

/-!
# Forged claims of padding slots

Which indices the verifier's checks let through. An input of an honest sub-tree
which passes them and has an opening lies below the item count exactly when its
index is not the sentinel `u64::MAX`. The sentinel gets through as soon as the
sub-tree has one padding slot, that is, unless its size is a power of two.
-/
namespace OmegaHarness.PaddingForgery
open FiniteCollisions DomainHashes LayeredTree MerkleTreeV1 ClaimTypes ClaimVerifier
open Blake3Compression MembershipRelation

/-- An input in a checked list is checked against the sub-tree it names. -/
theorem checked_of_envelope {blake3 : Bytes → Hash} {c : OmegaCommitment}
    {publicInputs : List ClaimPublicInputs} {envelope : ProofEnvelope}
    (h : EnvelopeChecked blake3 c publicInputs envelope) {p : ClaimPublicInputs}
    (hp : p ∈ publicInputs) {i : Fin 7} (hi : p.subTreeId = subTreeIdOf i) : Checked c i p := by
  obtain ⟨j,hj⟩ := h.checked p hp
  have hij : subTreeIndex (subTreeIdOf i) = subTreeIndex (subTreeIdOf j) := by
    rw [← hi,← hj.subTree]
  rw [subTreeIndex_subTreeIdOf,subTreeIndex_subTreeIdOf,Option.some.injEq] at hij
  rw [hij]
  exact hj

theorem opens_of_row {blake3 : Bytes → Hash} {publicInputs : List ClaimPublicInputs}
    {openings : List Opening} (h : List.Forall₂ (Opens blake3) publicInputs openings)
    {p : ClaimPublicInputs} {o : Opening} (hrow : (p,o) ∈ publicInputs.zip openings) :
    Opens blake3 p o :=
  (List.forall₂_iff_zip.mp h).2 hrow

/-- The verifier admits an index at or above the item count exactly at the
sentinel, up to a collision among the strings hashed on both sides. -/
theorem accepted_index_below_count_iff {blake3 : Bytes → Hash} {c : OmegaCommitment} {i : Fin 7}
    {payloads : List Bytes} {t : MerkleTree} (h : HonestSubTree blake3 c i payloads t)
    {publicInputs : List ClaimPublicInputs} {envelope : ProofEnvelope} {openings : List Opening}
    (hchecks : envelopeChecks blake3 c publicInputs envelope = .ok ())
    (hopens : List.Forall₂ (Opens blake3) publicInputs openings)
    {p : ClaimPublicInputs} {o : Opening} (hrow : (p,o) ∈ publicInputs.zip openings)
    (hs : p.subTreeId = subTreeIdOf i) :
    (p.leafIndex < c.itemCounts.get i ∨ CollisionAmong blake3 (hashedStrings blake3 payloads p o)) ↔
      (p.leafIndex ≠ emptyIndexSentinel ∨
        CollisionAmong blake3 (hashedStrings blake3 payloads p o)) := by
  have hchecked := checked_of_envelope ((envelopeChecks_ok blake3 c publicInputs envelope).mp hchecks)
    (List.of_mem_zip hrow).1 hs
  constructor
  · intro hor
    apply hor.imp_left
    intro hlt heq
    rw [heq] at hlt
    exact sentinel_not_lt _ hlt
  · intro hor
    rcases hor with hindex | hcol
    · exact index_lt_count h hchecked (opens_of_row hopens hrow) hindex
    · exact Or.inr hcol

/-- Every accepted input of the sub-tree lies below its item count. -/
def AcceptsOnlyItems (blake3 : Bytes → Hash) (c : OmegaCommitment) (i : Fin 7)
    (payloads : List Bytes) : Prop :=
  ∀ (publicInputs : List ClaimPublicInputs) (envelope : ProofEnvelope) (openings : List Opening),
    envelopeChecks blake3 c publicInputs envelope = .ok () →
    List.Forall₂ (Opens blake3) publicInputs openings →
    ∀ p o, (p,o) ∈ publicInputs.zip openings → p.subTreeId = subTreeIdOf i →
      p.leafIndex < c.itemCounts.get i ∨ CollisionAmong blake3 (hashedStrings blake3 payloads p o)

/-- A padding slot is all a forger needs: the sentinel's own leaf, claimed under
the sentinel's own index, passes every check. -/
theorem sentinel_accepted {blake3 : Bytes → Hash} {c : OmegaCommitment} {i : Fin 7}
    {payloads : List Bytes} {t : MerkleTree} (h : HonestSubTree blake3 c i payloads t)
    (hpad : ¬∃ k, payloads.length = 2^k) (starkProof : Bytes) :
    let p := slotInput c i emptyIndexSentinel
    let o := slotOpening blake3 i payloads emptyIndexSentinel []
    envelopeChecks blake3 c [p] (envelopeFor blake3 c [p] starkProof) = .ok () ∧ Opens blake3 p o ∧
      hashedStrings blake3 payloads p o ⊆ buildPreimages blake3 (subTreeIdOf i) payloads := by
  have hleaf := sentinel_leaf h hpad
  refine ⟨envelopeFor_checks h [emptyIndexSentinel] starkProof,?_,?_⟩
  · exact slotOpening_opens h (by simp) hleaf
  · exact slotOpening_strings hleaf (buildPreimages_padding blake3 _ payloads)

/-- The checks keep forgers out of exactly the sub-trees without padding. -/
theorem acceptsOnlyItems_iff {blake3 : Bytes → Hash} {c : OmegaCommitment} {i : Fin 7}
    {payloads : List Bytes} {t : MerkleTree} (h : HonestSubTree blake3 c i payloads t)
    (hcol : ¬CollisionAmong blake3 (buildPreimages blake3 (subTreeIdOf i) payloads)) :
    AcceptsOnlyItems blake3 c i payloads ↔ ∃ k, payloads.length = 2^k := by
  constructor
  · intro hall
    by_contra hpad
    obtain ⟨hchecks,hopens,hstrings⟩ := sentinel_accepted h hpad []
    rcases hall _ _ [_] hchecks (List.Forall₂.cons hopens .nil) _ _ List.mem_cons_self rfl with hlt | hbad
    · exact sentinel_not_lt _ hlt
    · exact hcol (hbad.mono hstrings)
  · intro hpow publicInputs envelope openings hchecks hopens p o hrow hs
    have hchecked := checked_of_envelope
      ((envelopeChecks_ok blake3 c publicInputs envelope).mp hchecks) (List.of_mem_zip hrow).1 hs
    rcases opened_slot h hchecked (opens_of_row hopens hrow) with hslot | hpadding | hcol
    · obtain ⟨j,hj,hcanonical,-⟩ := hslot
      rw [hcanonical]
      exact Or.inl (canonical_lt_count h hj)
    · exact (hpadding.1 ((count_eq_width_iff payloads.length).mpr hpow)).elim
    · exact Or.inr hcol

/-- Three payloads in the first sub-tree, so one of its four slots is padding. -/
def threePayloads (i : Fin 7) : List Bytes := if i = 0 then [[1],[2],[3]] else []

def threeCommitment : OmegaCommitment := commitmentOver singleChunkHash threePayloads

theorem threePayloads_honest :
    HonestSubTree singleChunkHash threeCommitment 0 [[1],[2],[3]]
      (buildLayersV1 singleChunkHash (leafRow singleChunkHash (subTreeIdOf 0) [[1],[2],[3]])) :=
  commitmentOver_honest singleChunkHash threePayloads 0 (by decide) (by decide)

theorem threePayloads_padded : ¬∃ k, ([[1],[2],[3]] : List Bytes).length = 2^k := by
  rw [← count_eq_width_iff]
  decide

def threeLeaves : List Hash :=
  [hashFromWords #v[0x94403d0d,0xc60b1a1f,0x17528ed3,0xdb5ddb44,0xbb29ed4e,0x30c504b7,0xea2e2f8f,
      0x8f34824e],
    hashFromWords #v[0x6d624735,0x42b76221,0xf19bb1f8,0x7ff06357,0xac8a1bb0,0xfb6fb6fb,0x6b51a83e,
      0xb9b289cf],
    hashFromWords #v[0x3f9cb87c,0x5b5d1a81,0x33ae70d9,0x8d21d422,0xefd08275,0x3bcf1945,0xad1fa92a,
      0xe1644dd6],
    hashFromWords #v[0xb22fc945,0x2b89d15a,0xf89a4f5f,0xbcf73f21,0xd7b7dab9,0xb675b3d2,0x212ce9f2,
      0x83d96adc]]

def threeNodes : List Hash :=
  [hashFromWords #v[0xb1a4dd09,0x9116c4ff,0x2ef0356b,0xbd18d129,0x9bcd9528,0xb4030a31,0xc6ee31cc,
      0x756d2cfa],
    hashFromWords #v[0x61cf850f,0x3d0b585d,0x5083ae1b,0x51419a15,0x98e74c60,0xa5139d04,0x389e7976,
      0xc6efbb5e]]

theorem leafRow_three : leafRow singleChunkHash (subTreeIdOf 0) [[1],[2],[3]] = threeLeaves := by
  decide +kernel

theorem nextLayer_three : nextLayer (nodeHashV2 singleChunkHash) threeLeaves = threeNodes := by
  decide +kernel

def threeRoot : Hash :=
  hashFromWords #v[0x7e5c3e2f,0x86f10c4,0x305c10e8,0xe85d2e9a,0x345a2dc8,0xbc3dd5bc,0x43aea28d,
    0xc57aca1b]

theorem nextLayer_threeNodes :
    nextLayer (nodeHashV2 singleChunkHash) threeNodes = [threeRoot] := by
  decide +kernel

/-- The seven digests of the padded tree. -/
theorem three_digests :
    (buildPreimages singleChunkHash (subTreeIdOf 0) [[1],[2],[3]]).map singleChunkHash =
      threeLeaves++(threeNodes++[threeRoot]) := by
  have hdepth : depthOf ([[1],[2],[3]] : List Bytes).length = 2 := by decide
  have hrow : payloadLeaves singleChunkHash (subTreeIdOf 0) (sortPayloads [[1],[2],[3]])++
      [emptyLeaf singleChunkHash (subTreeIdOf 0)] = threeLeaves := by
    have hwidth : nextPowerOfTwo (max 3 1) = 4 := by decide
    rw [← leafRow_three,leafRow,padLeaves,payloadLeaves_length,sortPayloads_length]
    simp only [List.length_cons,List.length_nil]
    rw [hwidth]
    rfl
  rw [buildPreimages_digests,leafRow_three,hdepth,treePairs,treePairs,treePairs,List.map_append,
    List.map_append,layerPairs_map,layerPairs_map,nextLayer_three,nextLayer_threeNodes,← hrow]
  simp

/-- No two of the strings hashed for the three payloads collide. -/
theorem three_no_collision {xs : List Bytes}
    (h : xs ⊆ buildPreimages singleChunkHash (subTreeIdOf 0) [[1],[2],[3]]) :
    ¬CollisionAmong singleChunkHash xs := by
  apply not_collisionAmong_of_images (fun digest : Hash => digest[0]) h
  have hkeys : ((threeLeaves++(threeNodes++[threeRoot])).map fun digest => digest[0]).Nodup := by
    decide +kernel
  rw [← three_digests,List.map_map] at hkeys
  exact hkeys

/-- The index of the padding slot is accepted for a sub-tree of three payloads. -/
theorem padding_slot_of_three_accepted :
    ∃ (p : ClaimPublicInputs) (envelope : ProofEnvelope) (o : Opening),
      envelopeChecks singleChunkHash threeCommitment [p] envelope = .ok () ∧
      List.Forall₂ (Opens singleChunkHash) [p] [o] ∧ p.subTreeId = subTreeIdOf 0 ∧
      HonestSubTree singleChunkHash threeCommitment 0 [[1],[2],[3]]
        (buildLayersV1 singleChunkHash
          (leafRow singleChunkHash (subTreeIdOf 0) [[1],[2],[3]])) ∧
      ¬(p.leafIndex < threeCommitment.itemCounts.get 0 ∨
        CollisionAmong singleChunkHash (hashedStrings singleChunkHash [[1],[2],[3]] p o)) := by
  obtain ⟨hchecks,hopens,hstrings⟩ := sentinel_accepted threePayloads_honest threePayloads_padded []
  refine ⟨_,_,_,hchecks,.cons hopens .nil,rfl,threePayloads_honest,?_⟩
  intro hor
  cases hor with
  | inl hlt => exact sentinel_not_lt _ hlt
  | inr hcol => exact three_no_collision hstrings hcol

/-- A committed payload passes the same checks under its own index. -/
theorem first_of_three_below_count :
    (slotInput threeCommitment 0 0).leafIndex < threeCommitment.itemCounts.get 0 := by
  have hpos : 0 < ([[1],[2],[3]] : List Bytes).length := by decide
  have hleaf := leafRow_payload singleChunkHash (subTreeIdOf 0) [[1],[2],[3]] hpos
  have hopens : Opens singleChunkHash (slotInput threeCommitment 0 0)
      (slotOpening singleChunkHash 0 [[1],[2],[3]] 0 [1]) :=
    slotOpening_opens threePayloads_honest (by decide) hleaf.symm
  have hor := (accepted_index_below_count_iff threePayloads_honest
    (envelopeFor_checks threePayloads_honest [0] []) (.cons hopens .nil) List.mem_cons_self rfl).mpr
    (Or.inl (by decide))
  apply hor.resolve_right
  apply three_no_collision
  apply slotOpening_strings hleaf.symm
  exact buildPreimages_payload singleChunkHash (subTreeIdOf 0) [[1],[2],[3]] hpos

end OmegaHarness.PaddingForgery
