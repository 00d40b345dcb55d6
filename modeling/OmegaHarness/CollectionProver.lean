import OmegaHarness.AirCompleteness
import OmegaHarness.EnvelopeCodec
import OmegaHarness.ByteFraming

/-!
# Proving a collection, and which of its checks the verifier repeats

`proveCollection` checks the commitment and every witness before it builds the traces
and assembles the envelope. The verifier repeats the comparison of every public input
with the commitment, so the prover's envelope passes everything before the batch check.
The prover's first check, the hash of the seven roots, is not repeated: the verifier
takes any digest as the bundle root.
-/
namespace OmegaHarness.CollectionProver
open FallibleSteps FiniteCollisions ByteFraming DomainHashes ClaimTypes ProofPublicValues
open BabyBearField Blake3Compression ClaimVerifier MembershipRelation MembershipAir MembershipTrace
open AirCompleteness EnvelopeCodec

/-- What the prover takes from outside crates: the batch proof over the traces in its
serialised form, and postcard encoding of the envelope. The hash trace is a function of
the listed compressions. -/
structure ProvingBackend where
  proveBatch : ProverConfig → List OmegaProofAir → List Trace → List Compression →
    List (List Val) → Except String Bytes
  encodeEnvelope : ProofEnvelope → Except String ProofBytes

section Prove
variable (blake3 : Bytes → Hash) (c : OmegaCommitment)

def validateBundleRoot : Except ProverError Unit :=
  let recomputed := bundleRoot blake3 c.subTreeRootsBlake3
  if recomputed ≠ c.bundleRootBlake3 then
    .error (.commitmentMismatch c.bundleRootBlake3 recomputed)
  else .ok ()

def validateWitnesses (witnesses : List MembershipWitness) :
    Except ProverError (List CheckedWitness) :=
  witnesses.zipIdx.mapM fun w => validateWitness blake3 c w.2 w.1

/-- The two validations in the prover's order. -/
def validateCollection (witnesses : List MembershipWitness) :
    Except ProverError (List CheckedWitness) :=
  (validateBundleRoot blake3 c).bind fun _ => validateWitnesses blake3 c witnesses

/-- Only the first trace is tampered with. -/
def buildTraces : Option TraceTamper → List Compression → List CheckedWitness →
    List Trace × List Compression
  | _,compressions,[] => ([],compressions)
  | tamper,compressions,w::rest =>
      let built := buildMembershipTrace w tamper compressions
      let others := buildTraces none built.2 rest
      (built.1::others.1,others.2)

def publicValueFields (publicValues : List (List UInt32)) : List (List Val) :=
  publicValues.map (fun values => values.map fun w => (w.toNat : Val))++[[]]

def assembleEnvelope (config : ProverConfig) (witnesses : List MembershipWitness)
    (starkProof : Bytes) : ProofEnvelope :=
  let publicInputs := witnesses.map (·.publicInput)
  { version := proofEnvelopeVersion
    config := config
    commitment := c
    publicInputs := publicInputs
    publicValues := proofPublicValues blake3 c publicInputs
    starkProof := starkProof }

def proveCollectionInner (prover : ProvingBackend) (witnesses : List MembershipWitness)
    (config : ProverConfig) (tamper : Option TraceTamper) : Except ProverError ProofBytes := do
  let checked ← validateCollection blake3 c witnesses
  let built := buildTraces tamper [] checked
  let publicValues := proofPublicValues blake3 c (witnesses.map (·.publicInput))
  let starkProof ← (prover.proveBatch config (proofAirs built.1.length) built.1 built.2
    (publicValueFields publicValues)).mapError .serialize
  (prover.encodeEnvelope (assembleEnvelope blake3 c config witnesses starkProof)).mapError .serialize

def proveCollection (prover : ProvingBackend) (witnesses : List MembershipWitness)
    (config : ProverConfig) : Except ProverError ProofBytes :=
  proveCollectionInner blake3 c prover witnesses config none

end Prove

section Agreement
variable {blake3 : Bytes → Hash} {c : OmegaCommitment} {witnesses : List MembershipWitness}

theorem validateBundleRoot_ok :
    validateBundleRoot blake3 c = .ok () ↔
      c.bundleRootBlake3 = bundleRoot blake3 c.subTreeRootsBlake3 := by
  rw [validateBundleRoot,guard_ok,not_not,eq_comm]

theorem validateWitnesses_ok {checked : List CheckedWitness}
    (h : validateWitnesses blake3 c witnesses = .ok checked) {w : MembershipWitness}
    (hw : w ∈ witnesses) : ∃ i, Accepted blake3 c i w := by
  rcases List.mem_iff_getElem?.mp hw with ⟨n,hn⟩
  have hpair : (w,n) ∈ witnesses.zipIdx := List.mk_mem_zipIdx_iff_getElem?.mpr hn
  rcases mapM_mem_ok h hpair with ⟨cw,hcw⟩
  exact (validateWitness_ok hcw).2

/-- A proof was assembled from its own witnesses behind a successful validation. -/
theorem proveCollectionInner_ok {prover : ProvingBackend} {config : ProverConfig}
    {tamper : Option TraceTamper} {proof : ProofBytes}
    (h : proveCollectionInner blake3 c prover witnesses config tamper = .ok proof) :
    ∃ starkProof,
      prover.encodeEnvelope (assembleEnvelope blake3 c config witnesses starkProof) = .ok proof := by
  obtain ⟨checked,-,hrest⟩ := bind_ok.mp h
  obtain ⟨starkProof,-,hencoded⟩ := bind_ok.mp hrest
  exact ⟨starkProof,mapError_ok.mp hencoded⟩

/-- The prover's agreement with the commitment is the verifier's. -/
theorem accepted_checked {i : Fin 7} {w : MembershipWitness} (h : Accepted blake3 c i w) :
    Checked c i w.publicInput :=
  ⟨h.subTree,h.bundleRoot,h.root,h.depth⟩

theorem assembleEnvelope_checks {checked : List CheckedWitness}
    (h : validateCollection blake3 c witnesses = .ok checked) (config : ProverConfig)
    (starkProof : Bytes) :
    envelopeChecks blake3 c (witnesses.map (·.publicInput))
      (assembleEnvelope blake3 c config witnesses starkProof) = .ok () := by
  have hvalid := (check_bind_ok.mp h).2
  rw [envelopeChecks_ok]
  refine ⟨rfl,rfl,rfl,?_,rfl⟩
  intro p hp
  rcases List.mem_map.mp hp with ⟨w,hw,rfl⟩
  rcases validateWitnesses_ok hvalid hw with ⟨i,hi⟩
  exact ⟨i,accepted_checked hi⟩

/-- What the validation lets through is assembled into an envelope which passes every
check of the verifier before the batch; only the batch check is left of `verify`. -/
theorem assembled_envelope_passes {prover : ProvingBackend} {backend : ProofBackend}
    {checked : List CheckedWitness}
    (hround : ∀ envelope proof, prover.encodeEnvelope envelope = .ok proof →
      backend.decodeEnvelope proof = some envelope)
    (h : validateCollection blake3 c witnesses = .ok checked) (config : ProverConfig) :
    (∀ starkProof, envelopeChecks blake3 c (witnesses.map (·.publicInput))
      (assembleEnvelope blake3 c config witnesses starkProof) = .ok ()) ∧
    ∀ tamper proof, proveCollectionInner blake3 c prover witnesses config tamper = .ok proof →
      ∃ envelope, backend.decodeEnvelope proof = some envelope ∧
        envelopeChecks blake3 c (witnesses.map (·.publicInput)) envelope = .ok () ∧
        verify blake3 backend c (witnesses.map (·.publicInput)) proof =
          verifyMembershipBatch backend envelope := by
  refine ⟨assembleEnvelope_checks h config,fun tamper proof hproof => ?_⟩
  obtain ⟨starkProof,hencoded⟩ := proveCollectionInner_ok hproof
  have hdecoded := hround _ _ hencoded
  have hchecks := assembleEnvelope_checks h config starkProof
  refine ⟨_,hdecoded,hchecks,?_⟩
  unfold verify
  rw [hdecoded]
  dsimp only
  rw [hchecks]
  rfl

end Agreement

section Pair

def pairWitness : MembershipWitness := itemWitness singleChunkHash pairCommitment 0 [[1],[2]] 0

/-- The envelope for the first payload of a pair. The bytes of the batch proof stand for
the degrees of its two traces. -/
def pairEnvelope : ProofEnvelope :=
  assembleEnvelope singleChunkHash pairCommitment ⟨1⟩ [pairWitness] [3,8]

/-- Proves the pair, and encodes its one envelope. -/
def pairProver : ProvingBackend where
  proveBatch _ _ _ _ _ := .ok [3,8]
  encodeEnvelope e := if e = pairEnvelope then .ok (encodeEnvelope e) else .error "not encoded here"

theorem pairProver_decodes (envelope : ProofEnvelope) (proof : ProofBytes)
    (h : pairProver.encodeEnvelope envelope = .ok proof) :
    (listedBackend [pairEnvelope]).decodeEnvelope proof = some envelope := by
  unfold pairProver at h
  dsimp only at h
  split at h
  · rename_i heq
    cases h
    rw [heq]
    exact listedBackend_decodes_first pairEnvelope []
  · cases h

theorem pair_validated :
    validateCollection singleChunkHash pairCommitment [pairWitness] =
      .ok [checkedWitness singleChunkHash pairWitness] := by
  have hroot : validateBundleRoot singleChunkHash pairCommitment = .ok () :=
    validateBundleRoot_ok.mpr rfl
  refine check_bind_ok.mpr ⟨hroot,mapM_ok.mpr ?_⟩
  exact List.Forall₂.cons (validateWitness_accepted pair_accepted 0) List.Forall₂.nil

/-- The first payload of a pair is proved, and its envelope passes. -/
theorem pair_envelope_passes :
    ∃ proof envelope,
      proveCollection singleChunkHash pairCommitment pairProver [pairWitness] ⟨1⟩ = .ok proof ∧
      (listedBackend [pairEnvelope]).decodeEnvelope proof = some envelope ∧
      envelopeChecks singleChunkHash pairCommitment [pairWitness.publicInput] envelope = .ok () := by
  have hproved : proveCollection singleChunkHash pairCommitment pairProver [pairWitness] ⟨1⟩ =
      .ok (encodeEnvelope pairEnvelope) := by
    have hencoded : pairProver.encodeEnvelope pairEnvelope = .ok (encodeEnvelope pairEnvelope) :=
      if_pos rfl
    exact bind_ok.mpr ⟨_,pair_validated,bind_ok.mpr ⟨[3,8],rfl,mapError_ok.mpr hencoded⟩⟩
  have hpasses := assembled_envelope_passes pairProver_decodes pair_validated ⟨1⟩
  obtain ⟨envelope,hdecoded,hchecks,-⟩ := hpasses.2 none _ hproved
  exact ⟨_,envelope,hproved,hdecoded,hchecks⟩

end Pair

section BundleRoots
variable {blake3 : Bytes → Hash} {c c' : OmegaCommitment}

/-- The decoded envelope passes everything before the batch check. -/
def PassesChecks (blake3 : Bytes → Hash) (backend : ProofBackend) (c : OmegaCommitment)
    (publicInputs : List ClaimPublicInputs) (proof : ProofBytes) : Prop :=
  ∃ envelope, backend.decodeEnvelope proof = some envelope ∧
    envelopeChecks blake3 c publicInputs envelope = .ok ()

/-- The string which the bundle root is the hash of. -/
def rootsPreimage (c : OmegaCommitment) : Bytes := c.subTreeRootsBlake3.toList.flatMap (·.toList)

theorem rootsPreimage_inj (h : rootsPreimage c = rootsPreimage c') :
    c.subTreeRootsBlake3 = c'.subTreeRootsBlake3 :=
  (array_splits vector_splits _ _).inj h

/-- The same commitment, and the inputs which name it, with another bundle root. -/
def withBundleRoot (root : Hash) (c : OmegaCommitment) : OmegaCommitment :=
  { c with bundleRootBlake3 := root }

def inputWithBundleRoot (root : Hash) (p : ClaimPublicInputs) : ClaimPublicInputs :=
  { p with bundleRootBlake3 := root }

/-- The same commitment, and the inputs which name it, over seven other roots. -/
def withRoots (roots : Vector Hash 7) (c : OmegaCommitment) : OmegaCommitment :=
  { c with subTreeRootsBlake3 := roots }

def inputWithRoots (roots : Vector Hash 7) (p : ClaimPublicInputs) : ClaimPublicInputs :=
  { p with perSubTreeRoot := ((subTreeIndex p.subTreeId).map roots.get).getD p.perSubTreeRoot }

/-- The envelope with another commitment and other inputs in it, and their public values. -/
def echo (blake3 : Bytes → Hash) (envelope : ProofEnvelope) (c : OmegaCommitment)
    (publicInputs : List ClaimPublicInputs) : ProofEnvelope :=
  { envelope with
    commitment := c
    publicInputs := publicInputs
    publicValues := proofPublicValues blake3 c publicInputs }

/-- An input agrees with the commitment in everything but the bundle root. -/
def Matches (c : OmegaCommitment) (p : ClaimPublicInputs) : Prop :=
  ∃ i, p.subTreeId = subTreeIdOf i ∧ p.perSubTreeRoot = c.subTreeRootsBlake3.get i ∧
    p.treeDepth.toNat = (c.treeDepths.get i).toNat

/-- An envelope which echoes is refused for its version or for one of the inputs. -/
theorem echo_passes {publicInputs : List ClaimPublicInputs} {envelope : ProofEnvelope} :
    envelopeChecks blake3 c publicInputs (echo blake3 envelope c publicInputs) = .ok () ↔
      envelope.version = proofEnvelopeVersion ∧ ∀ p ∈ publicInputs, ∃ i, Checked c i p := by
  rw [envelopeChecks_ok]
  constructor
  · intro h
    exact ⟨h.version,h.checked⟩
  · intro h
    exact ⟨h.1,rfl,rfl,h.2,rfl⟩

/-- Nothing before the batch check looks at the bundle root itself: with any digest in its
place the checks come out the same. -/
theorem any_bundle_root_passes {publicInputs : List ClaimPublicInputs} {envelope : ProofEnvelope}
    (root : Hash) :
    envelopeChecks blake3 (withBundleRoot root c) (publicInputs.map (inputWithBundleRoot root))
        (echo blake3 envelope (withBundleRoot root c)
          (publicInputs.map (inputWithBundleRoot root))) = .ok () ↔
      envelope.version = proofEnvelopeVersion ∧ ∀ p ∈ publicInputs, Matches c p := by
  rw [echo_passes]
  apply and_congr_right
  intro _
  constructor
  · intro h p hp
    obtain ⟨i,hi⟩ := h _ (List.mem_map_of_mem hp)
    exact ⟨i,hi.subTree,hi.root,hi.depth⟩
  · intro h p hp
    obtain ⟨q,hq,rfl⟩ := List.mem_map.mp hp
    obtain ⟨i,hsubTree,hroot,hdepth⟩ := h q hq
    exact ⟨i,hsubTree,rfl,hroot,hdepth⟩

/-- Nor does anything connect the bundle root with the seven roots. -/
theorem any_roots_pass {publicInputs : List ClaimPublicInputs} {envelope : ProofEnvelope}
    (h : envelopeChecks blake3 c publicInputs envelope = .ok ()) (roots : Vector Hash 7) :
    envelopeChecks blake3 (withRoots roots c) (publicInputs.map (inputWithRoots roots))
      (echo blake3 envelope (withRoots roots c) (publicInputs.map (inputWithRoots roots))) =
        .ok () := by
  have hchecked := (envelopeChecks_ok blake3 _ _ _).mp h
  rw [echo_passes]
  refine ⟨hchecked.version,?_⟩
  intro p hp
  obtain ⟨q,hq,rfl⟩ := List.mem_map.mp hp
  obtain ⟨i,hi⟩ := hchecked.checked q hq
  refine ⟨i,hi.subTree,hi.bundleRoot,?_,hi.depth⟩
  rw [inputWithRoots,hi.subTree,subTreeIndex_subTreeIdOf]
  rfl

/-- Two lists of roots are the same or collide exactly when their digests are the same. -/
theorem roots_or_collision_iff (roots : Vector Hash 7) :
    (c.subTreeRootsBlake3 = roots ∨
        Collision blake3 [rootsPreimage c] [rootsPreimage (withRoots roots c)]) ↔
      blake3 (rootsPreimage c) = blake3 (rootsPreimage (withRoots roots c)) := by
  constructor
  · intro h
    rcases h with rfl | ⟨a,ha,b,hb,-,himage⟩
    · rfl
    · rwa [List.mem_singleton.mp ha,List.mem_singleton.mp hb] at himage
  · intro himage
    obtain heq | hcol := eq_or_collision List.mem_cons_self List.mem_cons_self himage
    · exact Or.inl (rootsPreimage_inj heq)
    · exact Or.inr hcol

theorem exists_ne_hash (digest : Hash) : ∃ root : Hash, root ≠ digest := by
  by_cases h : zeroHash = digest
  · refine ⟨Vector.replicate 32 1,?_⟩
    rw [← h]
    decide
  · exact ⟨zeroHash,h⟩

/-- Whatever the rest of a commitment, of the inputs and of the envelope is: the checks
force the bundle root to be the hash of the roots only where they refuse every bundle root,
for the envelope's version or for an input which disagrees in something else. And under the
bundle root of an accepted commitment any seven roots are accepted. -/
theorem accepted_bundle_roots_unchecked (blake3 : Bytes → Hash) :
    (∀ (c : OmegaCommitment) (publicInputs : List ClaimPublicInputs) (envelope : ProofEnvelope),
      (∀ root, envelopeChecks blake3 (withBundleRoot root c)
          (publicInputs.map (inputWithBundleRoot root))
          (echo blake3 envelope (withBundleRoot root c)
            (publicInputs.map (inputWithBundleRoot root))) = .ok () →
        (withBundleRoot root c).bundleRootBlake3 =
          blake3 (rootsPreimage (withBundleRoot root c))) ↔
      envelope.version ≠ proofEnvelopeVersion ∨ ∃ p ∈ publicInputs, ¬Matches c p) ∧
    ∀ (c : OmegaCommitment) (publicInputs : List ClaimPublicInputs) (envelope : ProofEnvelope),
      envelopeChecks blake3 c publicInputs envelope = .ok () →
      ∀ roots, envelopeChecks blake3 (withRoots roots c) (publicInputs.map (inputWithRoots roots))
          (echo blake3 envelope (withRoots roots c) (publicInputs.map (inputWithRoots roots))) =
            .ok () ∧
        (withRoots roots c).bundleRootBlake3 = c.bundleRootBlake3 ∧
        ((c.subTreeRootsBlake3 = (withRoots roots c).subTreeRootsBlake3 ∨
            Collision blake3 [rootsPreimage c] [rootsPreimage (withRoots roots c)]) ↔
          blake3 (rootsPreimage c) = blake3 (rootsPreimage (withRoots roots c))) := by
  constructor
  · intro c publicInputs envelope
    simp only [any_bundle_root_passes]
    constructor
    · intro h
      by_contra hno
      obtain ⟨root,hroot⟩ := exists_ne_hash (blake3 (rootsPreimage c))
      push Not at hno
      exact hroot (h root hno)
    · intro h root hpasses
      rcases h with hversion | ⟨p,hp,hdiffers⟩
      · exact (hversion hpasses.1).elim
      · exact (hdiffers (hpasses.2 p hp)).elim
  · intro c publicInputs envelope h roots
    exact ⟨any_roots_pass h roots,rfl,roots_or_collision_iff roots⟩

/-- Seven empty roots under a bundle root which is not their hash. -/
def zeroCommitment : OmegaCommitment where
  bundleRootBlake3 := zeroHash
  subTreeRootsBlake3 := Vector.replicate 7 zeroHash
  itemCounts := Vector.replicate 7 1
  leafCounts := Vector.replicate 7 1
  treeDepths := Vector.replicate 7 0

/-- The commitment is accepted with a claim on its first sub-tree. -/
theorem malformed_commitment_accepted :
    ∃ proof, PassesChecks singleChunkHash
        (listedBackend [envelopeFor singleChunkHash zeroCommitment [slotInput zeroCommitment 0 0] [3,8]])
        zeroCommitment [slotInput zeroCommitment 0 0] proof ∧
      zeroCommitment.bundleRootBlake3 ≠ singleChunkHash (rootsPreimage zeroCommitment) := by
  refine ⟨_,⟨_,listedBackend_decodes_first _ [],?_⟩,?_⟩
  · rw [envelopeChecks_ok]
    refine ⟨rfl,rfl,rfl,fun p hp => ?_,rfl⟩
    rw [List.mem_singleton.mp hp]
    exact ⟨0,rfl,rfl,rfl,rfl⟩
  · intro heq
    have hbyte : (singleChunkHash (rootsPreimage zeroCommitment))[0] ≠ 0 := by decide +kernel
    rw [← heq] at hbyte
    exact hbyte (by decide)

end BundleRoots

end OmegaHarness.CollectionProver
