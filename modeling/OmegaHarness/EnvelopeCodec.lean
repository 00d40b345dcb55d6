import OmegaHarness.MembershipRelation

/-!
# Envelopes on the wire and ideal proofs

The serialised form of an envelope, field by field: variable-length integers,
length prefixes before vectors, hashes as hexadecimal text where the source asks
for it and raw otherwise. Only the encoder is needed here, to name the bytes of
a given envelope.

A verifier is ideal when a batch it accepts has an opening for every public
input. The verifier of a list of envelopes decodes exactly their encodings and
accepts their batches; it is ideal as soon as all their inputs have openings.
-/
namespace OmegaHarness.EnvelopeCodec
open DomainHashes ClaimTypes ProofPublicValues ClaimVerifier MembershipRelation

/-- At most the given number of seven-bit groups, low group first. -/
def varintGroups : ℕ → ℕ → Bytes
  | 0,_ => []
  | groups+1,n =>
      if n < 128 then [UInt8.ofNat n] else UInt8.ofNat (n % 128+128)::varintGroups groups (n / 128)

/-- Ten groups hold every `u64`. -/
def varint (n : ℕ) : Bytes := varintGroups 10 n

def hexDigit (n : ℕ) : UInt8 := UInt8.ofNat (if n < 10 then 48+n else 87+n)

/-- A hash as a string of lower-case digits behind its length. -/
def hexText (h : Hash) : Bytes :=
  varint 64++h.toList.flatMap fun b => [hexDigit (b.toNat / 16),hexDigit (b.toNat % 16)]

def encodeCommitment (c : OmegaCommitment) : Bytes :=
  hexText c.bundleRootBlake3++c.subTreeRootsBlake3.toList.flatMap (·.toList)++
    c.itemCounts.toList.flatMap (varint ·.toNat)++c.leafCounts.toList.flatMap (varint ·.toNat)++
    c.treeDepths.toList.flatMap (varint ·.toNat)

def encodePublicInput (p : ClaimPublicInputs) : Bytes :=
  p.subTreeId::(varint p.leafIndex.toNat++p.treeDepth::(hexText p.perSubTreeRoot++
    hexText p.bundleRootBlake3++hexText p.nullifier++hexText p.recipientStarstreamAddr))

def encodeEnvelope (e : ProofEnvelope) : Bytes :=
  e.version::(varint e.config.rngSeed.toNat++(encodeCommitment e.commitment++
    varint e.publicInputs.length++e.publicInputs.flatMap encodePublicInput++
    varint e.publicValues.length++
    e.publicValues.flatMap (fun row => varint row.length++row.flatMap (varint ·.toNat))++
    varint e.starkProof.length++e.starkProof))

/-- Envelopes with different small seeds have different encodings. -/
theorem encodeEnvelope_ne {e e' : ProofEnvelope} (h : e.config.rngSeed.toNat < 128)
    (h' : e'.config.rngSeed.toNat < 128) (hne : e.config.rngSeed ≠ e'.config.rngSeed) :
    encodeEnvelope e ≠ encodeEnvelope e' := by
  intro heq
  have hsecond := congrArg (fun bytes : Bytes => bytes[1]?) heq
  simp only [encodeEnvelope,varint,varintGroups,if_pos h,if_pos h',List.getElem?_cons_succ,
    List.cons_append,List.getElem?_cons_zero,Option.some.injEq] at hsecond
  rw [FixedWidthBytes.ofNat_eq_iff] at hsecond
  apply hne
  rw [← UInt64.toNat_inj]
  omega

/-- A batch which the proof library accepts has an opening for each of its inputs. -/
def IdealProofs (blake3 : Bytes → Hash) (backend : ProofBackend) : Prop :=
  ∀ proof envelope, backend.decodeEnvelope proof = some envelope →
    envelope.publicValues = proofPublicValues blake3 envelope.commitment envelope.publicInputs →
    verifyMembershipBatch backend envelope = .ok () →
    ∀ p ∈ envelope.publicInputs, ∃ o, Opens blake3 p o

/-- Every input which the verifier accepts is checked and has an opening. -/
theorem opened_of_verify {blake3 : Bytes → Hash} {backend : ProofBackend}
    (hideal : IdealProofs blake3 backend) {c : OmegaCommitment}
    {publicInputs : List ClaimPublicInputs} {proof : ProofBytes}
    (h : verify blake3 backend c publicInputs proof = .ok ()) {p : ClaimPublicInputs}
    (hp : p ∈ publicInputs) : ∃ i, Checked c i p ∧ ∃ o, Opens blake3 p o := by
  obtain ⟨envelope,hdecode,hchecked,hbatch⟩ := (verify_ok blake3 backend c publicInputs proof).mp h
  obtain ⟨i,hi⟩ := hchecked.checked p hp
  refine ⟨i,hi,hideal proof envelope hdecode ?_ hbatch p ?_⟩
  · rw [hchecked.values,hchecked.commitment,hchecked.inputs]
  · rw [hchecked.inputs]
    exact hp

section Listed
variable (envelopes : List ProofEnvelope)

/-- Decodes the listed envelopes; the bytes of a batch proof stand for its
degrees. -/
def listedBackend : ProofBackend where
  BatchProof := List ℕ
  decodeEnvelope proof := envelopes.find? fun e => encodeEnvelope e = proof
  decodeBatchProof bytes := some (bytes.map UInt8.toNat)
  degreeBits proof := proof
  verifyBatch _ _ _ _ := true

variable {envelopes}

theorem listedBackend_decodes_first (e : ProofEnvelope) (rest : List ProofEnvelope) :
    (listedBackend (e::rest)).decodeEnvelope (encodeEnvelope e) = some e := by
  simp [listedBackend]

theorem listedBackend_decodes_second {e e' : ProofEnvelope} (rest : List ProofEnvelope)
    (hne : encodeEnvelope e' ≠ encodeEnvelope e) :
    (listedBackend (e'::e::rest)).decodeEnvelope (encodeEnvelope e) = some e := by
  simp [listedBackend,hne]

theorem listedBackend_ideal {blake3 : Bytes → Hash}
    (h : ∀ e ∈ envelopes, ∀ p ∈ e.publicInputs, ∃ o, Opens blake3 p o) :
    IdealProofs blake3 (listedBackend envelopes) := by
  intro proof envelope hdecode _ _ p hp
  exact h envelope (List.mem_of_find?_eq_some hdecode) p hp

theorem listedBackend_verify {blake3 : Bytes → Hash} {e : ProofEnvelope}
    (hdecode : (listedBackend envelopes).decodeEnvelope (encodeEnvelope e) = some e)
    (hchecks : envelopeChecks blake3 e.commitment e.publicInputs e = .ok ())
    (hdegrees : e.starkProof.length = e.publicInputs.length+1) :
    verify blake3 (listedBackend envelopes) e.commitment e.publicInputs (encodeEnvelope e) = .ok () := by
  refine (verify_ok blake3 _ _ _ _).mpr ⟨e,hdecode,(envelopeChecks_ok blake3 _ _ _).mp hchecks,?_⟩
  simp [verifyMembershipBatch,listedBackend,proofAirs,hdegrees]

end Listed

end OmegaHarness.EnvelopeCodec
