import OmegaHarness.ProofPublicValues
import OmegaHarness.BabyBearField
import OmegaHarness.FallibleSteps

/-!
# The claim verifier

`verify` decodes an envelope, compares it with the caller's commitment and public
inputs, checks every public input against the commitment, compares the public
values and hands the batch to the proof library. Decoding and the batch check
come from outside crates; they are the fields of `ProofBackend`. The specification
of each stage says exactly when it returns `Ok`, so nothing later unfolds it.

No stage compares a leaf index with the commitment's item count.
-/
namespace OmegaHarness.ClaimVerifier
open FixedWidthBytes FallibleSteps DomainHashes MerkleTreeV1 ClaimTypes ProofPublicValues
open BabyBearField

inductive VerifyError where
  | unsupportedVersion (version : UInt8)
  | commitmentMismatch
  | publicInputMismatch
  | unknownSubTree (index : ℕ) (subTreeId : UInt8)
  | publicBundleRootMismatch (index : ℕ)
  | wrongSubTreeRoot (index : ℕ)
  | depthMismatch (index : ℕ) (expected actual : UInt8)
  | invalidProof
  deriving DecidableEq, Repr

def VerifyError.display : VerifyError → String
  | .unsupportedVersion version => s!"unsupported proof envelope version {version}"
  | .commitmentMismatch => "proof commitment does not match verifier commitment"
  | .publicInputMismatch => "proof public inputs do not match verifier public inputs"
  | .unknownSubTree index subTreeId =>
      s!"public input {index} references unknown sub-tree id {subTreeId}"
  | .publicBundleRootMismatch index =>
      s!"public input {index} bundle root does not match the verifier commitment"
  | .wrongSubTreeRoot index =>
      s!"public input {index} per-sub-tree root does not match the verifier commitment"
  | .depthMismatch index expected actual =>
      s!"public input {index} tree depth mismatch: expected {expected}, actual {actual}"
  | .invalidProof => "invalid Plonky3 proof"

def proofEnvelopeVersion : UInt8 := 2

/-- The two AIRs of a batch. -/
inductive OmegaProofAir where
  | membership
  | blake3
  deriving DecidableEq, Repr

def proofAirs (membershipCount : ℕ) : List OmegaProofAir :=
  List.replicate membershipCount .membership++[.blake3]

/-- What the verifier takes from outside crates: postcard decoding of the
envelope and of the batch proof, and `p3_batch_stark::verify_batch` under the
configuration derived from a seed. -/
structure ProofBackend where
  BatchProof : Type
  decodeEnvelope : ProofBytes → Option ProofEnvelope
  decodeBatchProof : Bytes → Option BatchProof
  degreeBits : BatchProof → List ℕ
  verifyBatch : UInt64 → List OmegaProofAir → BatchProof → List (List Val) → Bool

/-- One pass of the public-input loop; `u8::try_from` refuses a depth above 255. -/
def validatePublicInput (c : OmegaCommitment) (index : ℕ) (p : ClaimPublicInputs) :
    Except VerifyError Unit :=
  if p.bundleRootBlake3 ≠ c.bundleRootBlake3 then .error (.publicBundleRootMismatch index)
  else match subTreeIndex p.subTreeId with
    | none => .error (.unknownSubTree index p.subTreeId)
    | some i =>
        if p.perSubTreeRoot ≠ c.subTreeRootsBlake3.get i then .error (.wrongSubTreeRoot index)
        else if 256 ≤ (c.treeDepths.get i).toNat then .error .invalidProof
        else if p.treeDepth ≠ UInt8.ofNat (c.treeDepths.get i).toNat then
          .error (.depthMismatch index (UInt8.ofNat (c.treeDepths.get i).toNat) p.treeDepth)
        else .ok ()

def validatePublicInputsFrom (c : OmegaCommitment) : ℕ → List ClaimPublicInputs →
    Except VerifyError Unit
  | _,[] => .ok ()
  | index,p::rest =>
      (validatePublicInput c index p).bind fun _ => validatePublicInputsFrom c (index+1) rest

def validatePublicInputs (c : OmegaCommitment) (publicInputs : List ClaimPublicInputs) :
    Except VerifyError Unit := validatePublicInputsFrom c 0 publicInputs

/-- What an accepted public input agrees with. -/
structure Checked (c : OmegaCommitment) (i : Fin 7) (p : ClaimPublicInputs) : Prop where
  subTree : p.subTreeId = subTreeIdOf i
  bundleRoot : p.bundleRootBlake3 = c.bundleRootBlake3
  root : p.perSubTreeRoot = c.subTreeRootsBlake3.get i
  depth : p.treeDepth.toNat = (c.treeDepths.get i).toNat

theorem validatePublicInput_ok (c : OmegaCommitment) (index : ℕ) (p : ClaimPublicInputs) :
    validatePublicInput c index p = .ok () ↔ ∃ i, Checked c i p := by
  unfold validatePublicInput
  constructor
  · intro h
    split at h
    · cases h
    · rename_i hbundle
      split at h
      · cases h
      · rename_i i hi
        split at h
        · cases h
        · rename_i hroot
          split at h
          · cases h
          · rename_i hsmall
            split at h
            · cases h
            · rename_i hdepth
              refine ⟨i,subTreeIndex_some hi,not_not.mp hbundle,not_not.mp hroot,?_⟩
              rw [not_not.mp hdepth,toNat_ofNat_byte]
              omega
  · rintro ⟨i,h⟩
    have hlt := p.treeDepth.toNat_lt
    have hdepth : p.treeDepth = UInt8.ofNat (c.treeDepths.get i).toNat := by
      rw [← UInt8.toNat_inj,toNat_ofNat_byte,← h.depth]
      omega
    rw [if_neg (not_not.mpr h.bundleRoot),h.subTree,subTreeIndex_subTreeIdOf]
    dsimp only
    rw [if_neg (not_not.mpr h.root),if_neg (by have := h.depth; omega),
      if_neg (not_not.mpr hdepth)]

theorem validatePublicInputsFrom_ok (c : OmegaCommitment) (index : ℕ)
    (publicInputs : List ClaimPublicInputs) :
    validatePublicInputsFrom c index publicInputs = .ok () ↔
      ∀ p ∈ publicInputs, ∃ i, Checked c i p := by
  induction publicInputs generalizing index with
  | nil => simp [validatePublicInputsFrom]
  | cons p rest ih =>
      simp only [validatePublicInputsFrom,check_bind_ok,List.forall_mem_cons,ih,
        validatePublicInput_ok]

theorem validatePublicInputs_ok (c : OmegaCommitment) (publicInputs : List ClaimPublicInputs) :
    validatePublicInputs c publicInputs = .ok () ↔ ∀ p ∈ publicInputs, ∃ i, Checked c i p :=
  validatePublicInputsFrom_ok c 0 publicInputs

section Envelope
variable (blake3 : Bytes → Hash)

def validateEnvelopePublicValues (c : OmegaCommitment) (publicInputs : List ClaimPublicInputs)
    (publicValues : List (List UInt32)) : Except VerifyError Unit :=
  if publicValues.length ≠ publicInputs.length then .error .invalidProof
  else if (publicValues.zip publicInputs).all
      fun row => rowMatches (bindingWords blake3 c publicInputs) row.1 row.2 then .ok ()
  else .error .invalidProof

/-- Rows pass together exactly when they are the prover's rows. -/
theorem rows_all_iff {binding : List UInt32} (hb : binding.length = 32) :
    ∀ (publicValues : List (List UInt32)) (publicInputs : List ClaimPublicInputs),
      publicValues.length = publicInputs.length →
      (((publicValues.zip publicInputs).all fun row => rowMatches binding row.1 row.2) = true ↔
        publicValues = publicInputs.map (publicValueRow binding))
  | [],[],_ => by simp
  | [],_::_,h => by simp at h
  | _::_,[],h => by simp at h
  | values::publicValues,p::publicInputs,h => by
      have ih := rows_all_iff hb publicValues publicInputs (by simpa using h)
      simp only [List.zip_cons_cons,List.all_cons,Bool.and_eq_true,List.map_cons,List.cons.injEq]
      rw [rowMatches_iff hb,ih]

theorem validateEnvelopePublicValues_ok (c : OmegaCommitment)
    (publicInputs : List ClaimPublicInputs) (publicValues : List (List UInt32)) :
    validateEnvelopePublicValues blake3 c publicInputs publicValues = .ok () ↔
      publicValues = proofPublicValues blake3 c publicInputs := by
  unfold validateEnvelopePublicValues
  by_cases hlen : publicValues.length = publicInputs.length
  · have hrows := rows_all_iff (bindingWords_length blake3 c publicInputs) publicValues publicInputs hlen
    rw [if_neg (not_not.mpr hlen),proofPublicValues,← hrows]
    split <;> simp_all
  · rw [if_pos hlen]
    constructor
    · intro h
      cases h
    · rintro rfl
      exact (hlen (by simp [proofPublicValues])).elim

/-- Everything `verify` decides on a decoded envelope before the batch check. -/
def envelopeChecks (c : OmegaCommitment) (publicInputs : List ClaimPublicInputs)
    (envelope : ProofEnvelope) : Except VerifyError Unit :=
  if envelope.version ≠ proofEnvelopeVersion then .error (.unsupportedVersion envelope.version)
  else if envelope.commitment ≠ c then .error .commitmentMismatch
  else if envelope.publicInputs ≠ publicInputs then .error .publicInputMismatch
  else (validatePublicInputs c publicInputs).bind fun _ =>
    validateEnvelopePublicValues blake3 c publicInputs envelope.publicValues

/-- The state of an envelope behind which only the batch check remains. -/
structure EnvelopeChecked (c : OmegaCommitment) (publicInputs : List ClaimPublicInputs)
    (envelope : ProofEnvelope) : Prop where
  version : envelope.version = proofEnvelopeVersion
  commitment : envelope.commitment = c
  inputs : envelope.publicInputs = publicInputs
  checked : ∀ p ∈ publicInputs, ∃ i, Checked c i p
  values : envelope.publicValues = proofPublicValues blake3 c publicInputs

theorem envelopeChecks_ok (c : OmegaCommitment) (publicInputs : List ClaimPublicInputs)
    (envelope : ProofEnvelope) :
    envelopeChecks blake3 c publicInputs envelope = .ok () ↔
      EnvelopeChecked blake3 c publicInputs envelope := by
  unfold envelopeChecks
  constructor
  · intro h
    split at h
    · cases h
    · rename_i hversion
      split at h
      · cases h
      · rename_i hcommitment
        split at h
        · cases h
        · rename_i hinputs
          obtain ⟨hpublic,hvalues⟩ := check_bind_ok.mp h
          exact ⟨not_not.mp hversion,not_not.mp hcommitment,not_not.mp hinputs,
            (validatePublicInputs_ok c publicInputs).mp hpublic,
            (validateEnvelopePublicValues_ok blake3 c publicInputs _).mp hvalues⟩
  · intro h
    rw [if_neg (not_not.mpr h.version),if_neg (not_not.mpr h.commitment),
      if_neg (not_not.mpr h.inputs),check_bind_ok]
    exact ⟨(validatePublicInputs_ok c publicInputs).mpr h.checked,
      (validateEnvelopePublicValues_ok blake3 c publicInputs _).mpr h.values⟩

end Envelope

/-- The public values as field elements, with the empty row of the hash AIR. -/
def batchPublicValues (envelope : ProofEnvelope) : List (List Val) :=
  envelope.publicValues.map (fun values => values.map fun w => (w.toNat : Val))++[[]]

def verifyMembershipBatch (backend : ProofBackend) (envelope : ProofEnvelope) :
    Except VerifyError Unit :=
  match backend.decodeBatchProof envelope.starkProof with
  | none => .error .invalidProof
  | some proof =>
      let airs := proofAirs envelope.publicInputs.length
      if (backend.degreeBits proof).length ≠ airs.length then .error .invalidProof
      else if backend.verifyBatch envelope.config.rngSeed airs proof (batchPublicValues envelope) then
        .ok ()
      else .error .invalidProof

section Verify
variable (blake3 : Bytes → Hash) (backend : ProofBackend)

def verify (c : OmegaCommitment) (publicInputs : List ClaimPublicInputs) (proof : ProofBytes) :
    Except VerifyError Unit :=
  match backend.decodeEnvelope proof with
  | none => .error .invalidProof
  | some envelope =>
      (envelopeChecks blake3 c publicInputs envelope).bind fun _ =>
        verifyMembershipBatch backend envelope

theorem verify_ok (c : OmegaCommitment) (publicInputs : List ClaimPublicInputs)
    (proof : ProofBytes) :
    verify blake3 backend c publicInputs proof = .ok () ↔
      ∃ envelope, backend.decodeEnvelope proof = some envelope ∧
        EnvelopeChecked blake3 c publicInputs envelope ∧
        verifyMembershipBatch backend envelope = .ok () := by
  unfold verify
  cases hdecode : backend.decodeEnvelope proof with
  | none => simp
  | some envelope =>
      simp only [check_bind_ok,envelopeChecks_ok,Option.some.injEq,exists_eq_left']

end Verify

end OmegaHarness.ClaimVerifier
