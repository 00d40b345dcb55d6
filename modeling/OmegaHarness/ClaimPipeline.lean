import OmegaHarness.ClaimSubmission
import OmegaHarness.LookupBalance
import OmegaHarness.MembershipExactness

/-!
# From a committed payload to the ledger

The way of an honest claim: the inclusion witness of a payload, the prover's witness made of
it, a proof for a collection of them, the claim which carries the proof, and its submission.
That the proof library proves what is true is a hypothesis, stated for the batches which
satisfy the constraints and balance the lookups. What the prover hands to it is shown to be
such a batch. Sub-trees with a single payload are left out: their only trace satisfies no
constraints.
-/
namespace OmegaHarness.ClaimPipeline
open FixedWidthBytes FallibleSteps DomainHashes LayeredTree MerkleTreeV1 ClaimTypes
open ProofPublicValues BabyBearField Blake3Compression ClaimVerifier MembershipAir MembershipTrace
open AirCompleteness MembershipExactness CollectionProver Blake3Trace LookupBalance EnvelopeCodec
open KeyedTables LedgerStore RaftTypes ClaimApplication RaftStorage ReplayClasses ClaimUniqueness
open ClusterRuns ClaimSubmission
open LedgerHistory hiding Reachable

def fromInclusion (publicInput : ClaimPublicInputs) (leafPayload : Bytes)
    (inclusion : InclusionWitness) : MembershipWitness :=
  ⟨publicInput,leafPayload,inclusion.siblings⟩

/-- A payload which is claimed: its place, and what the claimant chooses. -/
structure Item where
  subTree : Fin 7
  index : UInt32
  nullifier : Hash
  recipient : Hash
  deriving DecidableEq, Repr

def itemInput (c : OmegaCommitment) (tree : MerkleTree) (item : Item) : ClaimPublicInputs where
  subTreeId := subTreeIdOf item.subTree
  leafIndex := item.index.toUInt64
  treeDepth := UInt8.ofNat tree.depth
  perSubTreeRoot := tree.root
  bundleRootBlake3 := c.bundleRootBlake3
  nullifier := item.nullifier
  recipientStarstreamAddr := item.recipient

/-- Build the tree, read the witness of the index, and make the prover's witness of it. -/
def witnessAt (blake3 : Bytes → Hash) (bundle : Fin 7 → List Bytes) (c : OmegaCommitment)
    (item : Item) : Option MembershipWitness :=
  match buildV1 blake3 (subTreeIdOf item.subTree) (bundle item.subTree) with
  | .error _ => none
  | .ok tree => do
      let inclusion ← buildAtIndex tree item.index
      let payload ← (sortPayloads (bundle item.subTree))[item.index.toNat]?
      return fromInclusion (itemInput c tree item) payload inclusion

/-- The witnesses which the prover is given here: accepted, each with a sibling. -/
def Ready (blake3 : Bytes → Hash) (c : OmegaCommitment) (witnesses : List MembershipWitness) : Prop :=
  ∀ w ∈ witnesses, w.merklePath ≠ [] ∧ ∃ i, Accepted blake3 c i w

section Witnesses
variable {blake3 : Bytes → Hash} {bundle : Fin 7 → List Bytes} {c : OmegaCommitment} {item : Item}

end Witnesses

section Proofs
variable {blake3 : Bytes → Hash} {bundle : Fin 7 → List Bytes} {c : OmegaCommitment}
  {prover : ProvingBackend} {backend : ProofBackend} {witnesses : List MembershipWitness}
  {config : ProverConfig}

end Proofs

section Landing
variable {N : Type} [DecidableEq N] {blake3 : Bytes → Hash} {c : OmegaCommitment}
  {prover : ProvingBackend} {backend : ProofBackend} {cbor : Cbor}
  {witnesses : List MembershipWitness} {config : ProverConfig} {proof : ProofBytes} {claim : ClaimTx}

end Landing

section Pair

def pairBundle : Fin 7 → List Bytes := fun _ => [[1],[2]]

def firstItem : Item := ⟨0,0,zeroHash,zeroHash⟩

def firstWitness : List MembershipWitness :=
  (witnessAt singleChunkHash pairBundle pairCommitment firstItem).toList

/-- The envelope for the first payload of a pair. -/
def firstEnvelope : ProofEnvelope :=
  assembleEnvelope singleChunkHash pairCommitment ⟨1⟩ firstWitness [3,3]

end Pair

end OmegaHarness.ClaimPipeline
