import OmegaHarness.MerkleTreeV1

/-!
# Claims, commitments and proof envelopes

The records which travel between prover, verifier and ledger, field by field.
Counts and depths are machine integers, as in the source: a commitment can name
no more than `2^64-1` items, and a public tree depth is one byte.
-/
namespace OmegaHarness.ClaimTypes
open DomainHashes MerkleTreeV1

structure ClaimPublicInputs where
  subTreeId : UInt8
  leafIndex : UInt64
  treeDepth : UInt8
  perSubTreeRoot : Hash
  bundleRootBlake3 : Hash
  nullifier : Hash
  recipientStarstreamAddr : Hash
  deriving DecidableEq, Repr

/-- Submitter-side material. No byte of it enters the proof's public values. -/
structure ClaimWitness where
  leafPayload : Bytes
  merklePath : List Hash
  signingKeyProof : Bytes
  deriving DecidableEq, Repr

/-- Opaque bytes, decoded only by the verifier. -/
abbrev ProofBytes := Bytes

structure ClaimUtxo where
  publicInput : ClaimPublicInputs
  witness : ClaimWitness
  proof : ProofBytes
  deriving DecidableEq, Repr

/-- The two vectors may differ in length; the consumers check. -/
structure ClaimCollection where
  publicInputs : List ClaimPublicInputs
  witness : List ClaimWitness
  proof : ProofBytes
  deriving DecidableEq, Repr

inductive ClaimTx where
  | utxo (claim : ClaimUtxo)
  | collection (claim : ClaimCollection)
  deriving DecidableEq, Repr

structure OmegaCommitment where
  bundleRootBlake3 : Hash
  subTreeRootsBlake3 : Vector Hash 7
  itemCounts : Vector UInt64 7
  leafCounts : Vector UInt64 7
  treeDepths : Vector UInt32 7
  deriving DecidableEq, Repr

structure ProverConfig where
  rngSeed : UInt64
  deriving DecidableEq, Repr

structure ProofEnvelope where
  version : UInt8
  config : ProverConfig
  commitment : OmegaCommitment
  publicInputs : List ClaimPublicInputs
  publicValues : List (List UInt32)
  starkProof : Bytes
  deriving DecidableEq, Repr

/-- Identifiers are one-based; zero and everything above seven name no sub-tree. -/
def subTreeIndex (subTreeId : UInt8) : Option (Fin 7) :=
  if subTreeId = 0 then none
  else if h : subTreeId.toNat-1 < 7 then some ⟨subTreeId.toNat-1,h⟩ else none

/-- Literals of `Fin 7` find their instance here. -/
instance seven_ne_zero : NeZero 7 := ⟨by decide⟩

/-- The identifier of a sub-tree position. -/
def subTreeIdOf (i : Fin 7) : UInt8 := UInt8.ofNat (i.val+1)

theorem subTreeIndex_subTreeIdOf (i : Fin 7) : subTreeIndex (subTreeIdOf i) = some i := by
  revert i
  decide

theorem subTreeIdOf_inj {i j : Fin 7} (h : subTreeIdOf i = subTreeIdOf j) : i = j := by
  have hindex := congrArg subTreeIndex h
  rw [subTreeIndex_subTreeIdOf,subTreeIndex_subTreeIdOf] at hindex
  exact Option.some.inj hindex

theorem subTreeIndex_some {s : UInt8} {i : Fin 7} (h : subTreeIndex s = some i) :
    s = subTreeIdOf i := by
  unfold subTreeIndex at h
  split at h
  · cases h
  · rename_i hne
    split at h
    · cases h
      have hpos : s.toNat ≠ 0 := fun h0 => hne (UInt8.toNat_inj.mp h0)
      have hlt := s.toNat_lt
      rw [subTreeIdOf,← UInt8.toNat_inj,FixedWidthBytes.toNat_ofNat_byte]
      dsimp only
      omega
    · cases h

/-- One sub-tree entry of a commitment is the builder's output on a payload list. -/
structure HonestSubTree (blake3 : Bytes → Hash) (c : OmegaCommitment) (i : Fin 7)
    (payloads : List Bytes) (t : MerkleTree) : Prop where
  built : buildV1 blake3 (subTreeIdOf i) payloads = .ok t
  root : c.subTreeRootsBlake3.get i = t.root
  count : (c.itemCounts.get i).toNat = payloads.length
  depth : (c.treeDepths.get i).toNat = t.depth

namespace HonestSubTree
variable {blake3 : Bytes → Hash} {c : OmegaCommitment} {i : Fin 7} {payloads : List Bytes}
  {t : MerkleTree}

theorem count_lt (h : HonestSubTree blake3 c i payloads t) : payloads.length < 2^64 := by
  rw [← h.count]
  exact UInt64.toNat_lt _

theorem depth_eq (h : HonestSubTree blake3 c i payloads t) : t.depth = depthOf payloads.length :=
  buildV1_depth blake3 _ h.built

/-- A count which fits in `u64` keeps the depth far below one byte. -/
theorem depth_le (h : HonestSubTree blake3 c i payloads t) : t.depth ≤ 64 := by
  rw [h.depth_eq]
  unfold depthOf
  rw [Nat.clog_le_iff_le_pow (by omega)]
  have hlt := h.count_lt
  omega

end HonestSubTree

/-- The hash of the seven roots in order. -/
def bundleRoot (blake3 : Bytes → Hash) (roots : Vector Hash 7) : Hash :=
  blake3 (roots.toList.flatMap (·.toList))

/-- The header published for seven payload lists. -/
def commitmentOver (blake3 : Bytes → Hash) (bundle : Fin 7 → List Bytes) : OmegaCommitment :=
  let tree := fun i => buildLayersV1 blake3 (leafRow blake3 (subTreeIdOf i) (bundle i))
  let roots := Vector.ofFn fun i => (tree i).root
  { bundleRootBlake3 := bundleRoot blake3 roots
    subTreeRootsBlake3 := roots
    itemCounts := Vector.ofFn fun i => UInt64.ofNat (bundle i).length
    leafCounts := Vector.ofFn fun i => UInt64.ofNat (tree i).leafCount
    treeDepths := Vector.ofFn fun i => UInt32.ofNat (tree i).depth }

theorem get_ofFn {A : Type} {n : ℕ} (f : Fin n → A) (i : Fin n) : (Vector.ofFn f).get i = f i :=
  Vector.getElem_ofFn i.isLt

/-- Duplicate-free lists of representable length get honest entries. -/
theorem commitmentOver_honest (blake3 : Bytes → Hash) (bundle : Fin 7 → List Bytes) (i : Fin 7)
    (hnodup : (bundle i).Nodup) (hcount : (bundle i).length < 2^64) :
    HonestSubTree blake3 (commitmentOver blake3 bundle) i (bundle i)
      (buildLayersV1 blake3 (leafRow blake3 (subTreeIdOf i) (bundle i))) := by
  have hbuilt := buildV1_of_nodup blake3 (subTreeIdOf i) hnodup
  have hdepth := buildV1_depth blake3 _ hbuilt
  have hsmall : depthOf (bundle i).length ≤ 64 := by
    unfold depthOf
    rw [Nat.clog_le_iff_le_pow (by omega)]
    omega
  refine ⟨hbuilt,?_,?_,?_⟩
  · simp only [commitmentOver,get_ofFn]
  · simp only [commitmentOver,get_ofFn,UInt64.toNat_ofNat']
    exact Nat.mod_eq_of_lt hcount
  · rw [hdepth]
    simp only [commitmentOver,get_ofFn,hdepth,UInt32.toNat_ofNat']
    omega

end OmegaHarness.ClaimTypes
