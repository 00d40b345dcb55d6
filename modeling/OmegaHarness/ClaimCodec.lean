import OmegaHarness.Blake3Compression
import OmegaHarness.BundleAssembly
import OmegaHarness.CborHeads
import OmegaHarness.ClaimTypes
import OmegaHarness.FallibleSteps

/-!
# The wire form of a claim transaction

`ClaimTx::to_cbor` writes the array of wire version, payload and
`blake3(payload)`; the payload is the claim itself, field by field in a fixed
order. `from_cbor` takes the envelope apart, compares the checksum, decodes the
payload and encodes the result again to compare. The library underneath is a
reader and a writer of CBOR items, with the decoder's position counted from what
is left. Vectors are reserved from a declared count before any element is read.

The forms of a value are stated once, over any forms of the items: at the items
a writer puts out they contain the encoding, and at the items of RFC 8949 they
are what the decoder accepts.
-/
namespace OmegaHarness.ClaimCodec
open Blake3Compression BundleAssembly ByteDecoders CborHeads ClaimTypes Decode DomainHashes FallibleSteps
open Language (append_mem_mul)

def claimTxWireVersion : UInt64 := 2
def variantUtxo : UInt64 := 0
def variantCollection : UInt64 := 1
def checksumLen : ℕ := 32

/-- Encoding into a vector of bytes cannot fail, so there is no encoder error. -/
inductive CborError where
  | decode (message : String)
  | unsupportedVersion (version : UInt64)
  | checksumMismatch
  | nonCanonicalPayload
  | trailingBytes (position total : ℕ)
  | invalidByteLength (field : String) (expected actual : ℕ)
  | invalidArrayLength (field : String) (expected actual : UInt64)
  | indefiniteArray (field : String)
  | unknownVariant (variant : UInt64)
  | collectionArityMismatch (publicCount witnessCount : ℕ)
  deriving DecidableEq, Repr

/-- Sizes in memory, which the language leaves to the compiler. -/
structure ElementSizes where
  publicInputs : ℕ
  witness : ℕ
  publicInputs_pos : 0 < publicInputs
  witness_pos : 0 < witness

/-- A hash is an array of 32 bytes. -/
def hashSize : ℕ := 32

/-! ## Encoding -/

section
variable (w : Writer) (blake3 : Bytes → Hash)

def encodePublicInputs (p : ClaimPublicInputs) : Bytes :=
  w.array 7++w.u8 p.subTreeId++w.u64 p.leafIndex++w.u8 p.treeDepth++
    w.bytes p.perSubTreeRoot.toList++w.bytes p.bundleRootBlake3.toList++
    w.bytes p.nullifier.toList++w.bytes p.recipientStarstreamAddr.toList

def encodeWitness (witness : ClaimWitness) : Bytes :=
  w.array 3++w.bytes witness.leafPayload++
    w.array (UInt64.ofNat witness.merklePath.length)++
    witness.merklePath.flatMap (fun sibling => w.bytes sibling.toList)++
    w.bytes witness.signingKeyProof

def encodeUtxo (claim : ClaimUtxo) : Bytes :=
  w.array 3++encodePublicInputs w claim.publicInput++encodeWitness w claim.witness++
    w.bytes claim.proof

def encodeCollection (claim : ClaimCollection) : Bytes :=
  w.array 3++
    w.array (UInt64.ofNat claim.publicInputs.length)++
    claim.publicInputs.flatMap (encodePublicInputs w)++
    w.array (UInt64.ofNat claim.witness.length)++
    claim.witness.flatMap (encodeWitness w)++
    w.bytes claim.proof

def encodePayload : ClaimTx → Bytes
  | .utxo claim => w.array 2++w.u64 variantUtxo++encodeUtxo w claim
  | .collection claim => w.array 2++w.u64 variantCollection++encodeCollection w claim

def validate : ClaimTx → Except CborError Unit
  | .utxo _ => .ok ()
  | .collection claim =>
      if claim.publicInputs.length ≠ claim.witness.length then
        .error (.collectionArityMismatch claim.publicInputs.length claim.witness.length)
      else .ok ()

def toCbor (tx : ClaimTx) : Except CborError Bytes := do
  validate tx
  let payload := encodePayload w tx
  let checksum := blake3 payload
  pure (w.array 3++w.u64 claimTxWireVersion++w.bytes payload++w.bytes checksum.toList)

end

/-! ## Decoding -/

section
variable (r : Reader) (sizes : ElementSizes)

def arrayLen (field : String) : Decode CborError UInt64 := do
  match ← item .decode r.array with
  | some n => pure n
  | none => fail (.indefiniteArray field)

def expectArray (field : String) (expected : UInt64) : Decode CborError Unit := do
  let actual ← arrayLen r field
  ensure (actual = expected) (.invalidArrayLength field expected actual)

/-- The position is what has been read of the `total` bytes. -/
def expectEnd (total : ℕ) : Decode CborError Unit := do
  let rest ← remaining
  let position := total-rest
  ensure (position = total) (.trailingBytes position total)

def readHash (field : String) : Decode CborError Hash := do
  let bytes ← item .decode r.bytes
  if h : bytes.length = checksumLen then pure ⟨bytes.toArray,h⟩
  else fail (.invalidByteLength field checksumLen bytes.length)

def decodePublicInputs : Decode CborError ClaimPublicInputs := do
  expectArray r "public_inputs" 7
  let subTreeId ← item .decode r.u8
  let leafIndex ← item .decode r.u64
  let treeDepth ← item .decode r.u8
  let perSubTreeRoot ← readHash r "per_sub_tree_root"
  let bundleRootBlake3 ← readHash r "bundle_root_blake3"
  let nullifier ← readHash r "nullifier"
  let recipientStarstreamAddr ← readHash r "recipient_starstream_addr"
  pure ⟨subTreeId,leafIndex,treeDepth,perSubTreeRoot,bundleRootBlake3,nullifier,
    recipientStarstreamAddr⟩

def decodeWitness : Decode CborError ClaimWitness := do
  expectArray r "witness" 3
  let leafPayload ← item .decode r.bytes
  let merklePathLen ← arrayLen r "witness.merkle_path"
  withCapacity hashSize merklePathLen.toNat
  let merklePath ← times (readHash r "witness.merkle_path.sibling") merklePathLen.toNat
  let signingKeyProof ← item .decode r.bytes
  pure ⟨leafPayload,merklePath,signingKeyProof⟩

def decodeUtxo : Decode CborError ClaimUtxo := do
  expectArray r "utxo" 3
  let publicInput ← decodePublicInputs r
  let witness ← decodeWitness r
  let proof ← item .decode r.bytes
  pure ⟨publicInput,witness,proof⟩

def decodeCollection : Decode CborError ClaimCollection := do
  expectArray r "collection" 3
  let publicLen ← arrayLen r "collection.public"
  withCapacity sizes.publicInputs publicLen.toNat
  let publicInputs ← times (decodePublicInputs r) publicLen.toNat
  let witnessLen ← arrayLen r "collection.witness"
  withCapacity sizes.witness witnessLen.toNat
  let witness ← times (decodeWitness r) witnessLen.toNat
  ensure (publicInputs.length = witness.length)
    (.collectionArityMismatch publicInputs.length witness.length)
  let proof ← item .decode r.bytes
  pure ⟨publicInputs,witness,proof⟩

def decodeVariant (variant : UInt64) : Decode CborError ClaimTx :=
  if variant = variantUtxo then do
    let claim ← decodeUtxo r
    pure (.utxo claim)
  else if variant = variantCollection then do
    let claim ← decodeCollection r sizes
    pure (.collection claim)
  else fail (.unknownVariant variant)

def decodeClaimTx : Decode CborError ClaimTx := do
  expectArray r "claim_tx" 2
  let variant ← item .decode r.u64
  decodeVariant r sizes variant

/-- A decoder run to the end of its input. -/
def whole {A : Type} (p : Decode CborError A) (bytes : Bytes) : Except (Halt CborError) A :=
  run (do
    let a ← p
    expectEnd bytes.length
    pure a) bytes

def decodePayload (payload : Bytes) : Except (Halt CborError) ClaimTx :=
  whole (decodeClaimTx r sizes) payload

/-- The reads of `from_cbor` itself. -/
def readEnvelope : Decode CborError (Bytes × Hash) := do
  expectArray r "envelope" 3
  let version ← item .decode r.u64
  ensure (version = claimTxWireVersion) (.unsupportedVersion version)
  let payload ← item .decode r.bytes
  let checksum ← readHash r "checksum"
  pure (payload,checksum)

variable (w : Writer) (blake3 : Bytes → Hash)

def checkChecksum (payload : Bytes) (checksum : Hash) : Except (Halt CborError) Unit :=
  if blake3 payload ≠ checksum then .error (.failed .checksumMismatch) else .ok ()

def checkCanonical (payload : Bytes) (decoded : ClaimTx) : Except (Halt CborError) Unit :=
  if encodePayload w decoded ≠ payload then .error (.failed .nonCanonicalPayload) else .ok ()

def fromCbor (bytes : Bytes) : Except (Halt CborError) ClaimTx := do
  let (payload,checksum) ← whole (readEnvelope r) bytes
  checkChecksum blake3 payload checksum
  let decoded ← decodePayload r sizes payload
  checkCanonical w payload decoded
  pure decoded

end

/-! ## The forms of a claim -/

section
variable (F : Items)

def publicInputsForm (p : ClaimPublicInputs) : Language UInt8 :=
  F.array 7*F.u8 p.subTreeId*F.u64 p.leafIndex*F.u8 p.treeDepth*
    F.bytes p.perSubTreeRoot.toList*F.bytes p.bundleRootBlake3.toList*
    F.bytes p.nullifier.toList*F.bytes p.recipientStarstreamAddr.toList

def witnessForm (witness : ClaimWitness) : Language UInt8 :=
  F.array 3*F.bytes witness.leafPayload*
    F.array (UInt64.ofNat witness.merklePath.length)*
    (witness.merklePath.map fun sibling => F.bytes sibling.toList).prod*
    F.bytes witness.signingKeyProof

def utxoForm (claim : ClaimUtxo) : Language UInt8 :=
  F.array 3*publicInputsForm F claim.publicInput*witnessForm F claim.witness*F.bytes claim.proof

def collectionForm (claim : ClaimCollection) : Language UInt8 :=
  F.array 3*
    F.array (UInt64.ofNat claim.publicInputs.length)*
    (claim.publicInputs.map (publicInputsForm F)).prod*
    F.array (UInt64.ofNat claim.witness.length)*
    (claim.witness.map (witnessForm F)).prod*
    F.bytes claim.proof

def payloadForm : ClaimTx → Language UInt8
  | .utxo claim => F.array 2*F.u64 variantUtxo*utxoForm F claim
  | .collection claim => F.array 2*F.u64 variantCollection*collectionForm F claim

def envelopeForm (payload : Bytes) (checksum : Hash) : Language UInt8 :=
  F.array 3*F.u64 claimTxWireVersion*F.bytes payload*F.bytes checksum.toList

end

/-! ## The decoder reads every form -/

section
variable {r : Reader} {F : Items} {sizes : ElementSizes}

theorem arrayLen_reads (h : r.Reads F) (field : String) (n : UInt64) :
    Reads (arrayLen r field) n (F.array n) := by
  have hpure : Reads (pure n : Decode CborError UInt64) n 1 := Reads.pure n
  have hbind := (h.array_item CborError.decode n).bind (f := fun
    | some n => pure n
    | none => fail (.indefiniteArray field)) hpure
  rwa [mul_one] at hbind

theorem expectArray_reads (h : r.Reads F) (field : String) (n : UInt64) :
    Reads (expectArray r field n) () (F.array n) := by
  intro x hx rest
  exact bind_ok.mpr ⟨n,rest,arrayLen_reads h field n x hx rest,ensure_ok.mpr ⟨rfl,rfl⟩⟩

theorem readHash_reads (h : r.Reads F) (field : String) (hash : Hash) :
    Reads (readHash r field) hash (F.bytes hash.toList) := by
  intro x hx rest
  refine bind_ok.mpr ⟨hash.toList,rest,h.bytes_item _ _ x hx rest,?_⟩
  have hmk : (⟨hash.toList.toArray,by simp⟩ : Hash) = hash := by
    cases hash
    rfl
  simp [checksumLen,hmk]

theorem decodePublicInputs_reads (h : r.Reads F) (p : ClaimPublicInputs) :
    Reads (decodePublicInputs r) p (publicInputsForm F p) := by
  have hroot := readHash_reads h "per_sub_tree_root" p.perSubTreeRoot
  have hbundle := readHash_reads h "bundle_root_blake3" p.bundleRootBlake3
  have hnullifier := readHash_reads h "nullifier" p.nullifier
  have haddr := readHash_reads h "recipient_starstream_addr" p.recipientStarstreamAddr
  unfold decodePublicInputs publicInputsForm
  simp only [mul_assoc]
  exact (expectArray_reads h _ _).bind ((h.u8_item _ _).bind ((h.u64_item _ _).bind
    ((h.u8_item _ _).bind (hroot.bind (hbundle.bind (hnullifier.bind haddr.bind_pure))))))

theorem toNat_ofNat_length {n size : ℕ} (hsize : 0 < size) (h : n*size ≤ isizeMax) :
    (UInt64.ofNat n).toNat = n := by
  have hle : n ≤ n*size := Nat.le_mul_of_pos_right n hsize
  unfold isizeMax at h
  rw [UInt64.toNat_ofNat']
  omega

theorem decodeWitness_reads (h : r.Reads F) (witness : ClaimWitness)
    (hpath : witness.merklePath.length*hashSize ≤ isizeMax) :
    Reads (decodeWitness r) witness (witnessForm F witness) := by
  have hlen := toNat_ofNat_length (by decide) hpath
  have hsiblings := Reads.times witness.merklePath fun sibling _ =>
    readHash_reads h "witness.merkle_path.sibling" sibling
  unfold decodeWitness witnessForm
  simp only [mul_assoc]
  refine (expectArray_reads h _ _).bind ((h.bytes_item _ _).bind ((arrayLen_reads h _ _).bind ?_))
  rw [hlen]
  exact Reads.after_withCapacity hpath (hsiblings.bind (h.bytes_item _ _).bind_pure)

/-- The invariant of vectors in memory, for those of a witness. -/
structure WitnessInMemory (witness : ClaimWitness) : Prop where
  leafPayload : witness.leafPayload.length ≤ isizeMax
  merklePath : witness.merklePath.length*hashSize ≤ isizeMax
  signingKeyProof : witness.signingKeyProof.length ≤ isizeMax

structure UtxoInMemory (claim : ClaimUtxo) : Prop where
  witness : WitnessInMemory claim.witness
  proof : claim.proof.length ≤ isizeMax

structure CollectionInMemory (sizes : ElementSizes) (claim : ClaimCollection) : Prop where
  publicInputs : claim.publicInputs.length*sizes.publicInputs ≤ isizeMax
  witness : claim.witness.length*sizes.witness ≤ isizeMax
  witnesses : ∀ witness ∈ claim.witness, WitnessInMemory witness
  proof : claim.proof.length ≤ isizeMax

/-- No vector of the claim has more than `isizeMax` bytes; a value of the type
cannot be built otherwise. -/
def InMemory (sizes : ElementSizes) : ClaimTx → Prop
  | .utxo claim => UtxoInMemory claim
  | .collection claim => CollectionInMemory sizes claim

/-- The only claims which are not encoded are collections of two lengths. -/
def AritiesAgree : ClaimTx → Prop
  | .utxo _ => True
  | .collection claim => claim.publicInputs.length = claim.witness.length

theorem decodeUtxo_reads (h : r.Reads F) {claim : ClaimUtxo} (hmem : UtxoInMemory claim) :
    Reads (decodeUtxo r) claim (utxoForm F claim) := by
  have hwitness := decodeWitness_reads h claim.witness hmem.witness.merklePath
  unfold decodeUtxo utxoForm
  simp only [mul_assoc]
  exact (expectArray_reads h _ _).bind ((decodePublicInputs_reads h _).bind
    (hwitness.bind (h.bytes_item _ _).bind_pure))

theorem decodeCollection_reads (h : r.Reads F) {claim : ClaimCollection}
    (hmem : CollectionInMemory sizes claim)
    (harity : claim.publicInputs.length = claim.witness.length) :
    Reads (decodeCollection r sizes) claim (collectionForm F claim) := by
  have hpublicLen := toNat_ofNat_length sizes.publicInputs_pos hmem.publicInputs
  have hwitnessLen := toNat_ofNat_length sizes.witness_pos hmem.witness
  have hpublic := Reads.times claim.publicInputs fun p _ => decodePublicInputs_reads h p
  have hwitness := Reads.times claim.witness fun witness hw =>
    decodeWitness_reads h witness (hmem.witnesses witness hw).merklePath
  have hproof := (h.bytes_item CborError.decode claim.proof).bind_pure
    (g := ClaimCollection.mk claim.publicInputs claim.witness)
  unfold decodeCollection collectionForm
  simp only [mul_assoc]
  refine (expectArray_reads h _ _).bind ((arrayLen_reads h _ _).bind ?_)
  rw [hpublicLen]
  refine Reads.after_withCapacity hmem.publicInputs
    (hpublic.bind ((arrayLen_reads h _ _).bind ?_))
  rw [hwitnessLen]
  exact Reads.after_withCapacity hmem.witness (hwitness.bind (hproof.after_ensure harity))

theorem decodeClaimTx_reads (h : r.Reads F) {tx : ClaimTx} (hmem : InMemory sizes tx)
    (harity : AritiesAgree tx) : Reads (decodeClaimTx r sizes) tx (payloadForm F tx) := by
  unfold decodeClaimTx
  cases tx with
  | utxo claim =>
      rw [payloadForm,mul_assoc]
      refine (expectArray_reads h _ _).bind ((h.u64_item _ _).bind ?_)
      exact (decodeUtxo_reads h hmem).bind_pure
  | collection claim =>
      rw [payloadForm,mul_assoc]
      refine (expectArray_reads h _ _).bind ((h.u64_item _ _).bind ?_)
      exact (decodeCollection_reads h hmem harity).bind_pure

theorem whole_reads {A : Type} {p : Decode CborError A} {a : A} {L : Language UInt8}
    (h : Reads p a L) {bytes : Bytes} (hbytes : bytes ∈ L) : whole p bytes = .ok a := by
  have hread := h bytes hbytes []
  rw [List.append_nil] at hread
  have hend : expectEnd bytes.length [] = .ok ((),[]) :=
    bind_ok.mpr ⟨0,[],rfl,ensure_ok.mpr ⟨rfl,rfl⟩⟩
  exact run_ok.mpr ⟨[],bind_ok.mpr ⟨a,[],hread,bind_ok.mpr ⟨(),[],hend,rfl⟩⟩⟩

theorem readEnvelope_reads (h : r.Reads F) (payload : Bytes) (checksum : Hash) :
    Reads (readEnvelope r) (payload,checksum) (envelopeForm F payload checksum) := by
  have hchecksum := (readHash_reads h "checksum" checksum).bind_pure (g := Prod.mk payload)
  unfold readEnvelope envelopeForm
  simp only [mul_assoc]
  refine (expectArray_reads h _ _).bind ((h.u64_item _ _).bind (Reads.after_ensure rfl ?_))
  exact (h.bytes_item _ payload).bind hchecksum

variable {w : Writer} {blake3 : Bytes → Hash}

/-- An envelope with the right checksum is decided by its payload. -/
theorem fromCbor_envelope (h : r.Reads F) {bytes payload : Bytes}
    (hbytes : bytes ∈ envelopeForm F payload (blake3 payload)) :
    fromCbor r sizes w blake3 bytes = (decodePayload r sizes payload).bind fun decoded =>
      (checkCanonical w payload decoded).bind fun _ => .ok decoded := by
  unfold fromCbor
  rw [whole_reads (readEnvelope_reads h payload (blake3 payload)) hbytes]
  simp only [bind,Except.bind,pure,Except.pure,checkChecksum,ne_eq,not_true_eq_false,if_false]

end

/-! ## What the encoder writes is a form of the claim -/

section
variable {w : Writer} {sizes : ElementSizes}

theorem bytes_written {v : Bytes} (h : v.length ≤ isizeMax) :
    w.bytes v ∈ (Items.written w).bytes v := ⟨h,rfl⟩

theorem hash_written (hash : Hash) : w.bytes hash.toList ∈ (Items.written w).bytes hash.toList :=
  bytes_written (by rw [Vector.length_toList]; decide)

theorem encodePublicInputs_mem (p : ClaimPublicInputs) :
    encodePublicInputs w p ∈ publicInputsForm (Items.written w) p := by
  have hhead : w.array 7++w.u8 p.subTreeId++w.u64 p.leafIndex++w.u8 p.treeDepth ∈
      (Items.written w).array 7*(Items.written w).u8 p.subTreeId*
        (Items.written w).u64 p.leafIndex*(Items.written w).u8 p.treeDepth :=
    append_mem_mul (append_mem_mul (append_mem_mul rfl rfl) rfl) rfl
  exact append_mem_mul (append_mem_mul (append_mem_mul (append_mem_mul hhead
    (hash_written _)) (hash_written _)) (hash_written _)) (hash_written _)

theorem encodeWitness_mem {witness : ClaimWitness} (hmem : WitnessInMemory witness) :
    encodeWitness w witness ∈ witnessForm (Items.written w) witness := by
  have hsiblings := flatMap_mem_prod (G := fun sibling : Hash =>
    (Items.written w).bytes sibling.toList) witness.merklePath fun sibling _ => hash_written sibling
  have hleaf := append_mem_mul (l := (Items.written w).array 3) rfl
    (bytes_written (w := w) hmem.leafPayload)
  exact append_mem_mul (append_mem_mul (append_mem_mul hleaf rfl) hsiblings)
    (bytes_written hmem.signingKeyProof)

theorem encodeUtxo_mem {claim : ClaimUtxo} (hmem : UtxoInMemory claim) :
    encodeUtxo w claim ∈ utxoForm (Items.written w) claim := by
  have hpublic := encodePublicInputs_mem (w := w) claim.publicInput
  have hwitness := encodeWitness_mem (w := w) hmem.witness
  exact append_mem_mul (append_mem_mul (append_mem_mul rfl hpublic) hwitness)
    (bytes_written hmem.proof)

theorem encodeCollection_mem {claim : ClaimCollection} (hmem : CollectionInMemory sizes claim) :
    encodeCollection w claim ∈ collectionForm (Items.written w) claim := by
  have hpublic := flatMap_mem_prod claim.publicInputs fun p _ => encodePublicInputs_mem (w := w) p
  have hwitness := flatMap_mem_prod claim.witness fun witness h =>
    encodeWitness_mem (w := w) (hmem.witnesses witness h)
  have hfirst := append_mem_mul (append_mem_mul (l := (Items.written w).array 3)
    (m := (Items.written w).array (UInt64.ofNat claim.publicInputs.length)) rfl rfl) hpublic
  exact append_mem_mul (append_mem_mul (append_mem_mul hfirst rfl) hwitness)
    (bytes_written hmem.proof)

theorem encodePayload_mem {tx : ClaimTx} (hmem : InMemory sizes tx) :
    encodePayload w tx ∈ payloadForm (Items.written w) tx := by
  cases tx with
  | utxo claim =>
      have hclaim := encodeUtxo_mem (w := w) hmem
      exact append_mem_mul (append_mem_mul rfl rfl) hclaim
  | collection claim =>
      have hclaim := encodeCollection_mem (w := w) hmem
      exact append_mem_mul (append_mem_mul rfl rfl) hclaim

variable {blake3 : Bytes → Hash}

theorem validate_ok {tx : ClaimTx} {u : Unit} : validate tx = .ok u ↔ AritiesAgree tx := by
  cases tx with
  | utxo claim => simp [validate,AritiesAgree]
  | collection claim => simp [validate,AritiesAgree]

/-- A claim of agreeing lengths is encoded, and in one way. -/
theorem toCbor_ok {tx : ClaimTx} {bytes : Bytes} : toCbor w blake3 tx = .ok bytes ↔
    AritiesAgree tx ∧ bytes = w.array 3++w.u64 claimTxWireVersion++w.bytes (encodePayload w tx)++
      w.bytes (blake3 (encodePayload w tx)).toList := by
  unfold toCbor
  rw [← validate_ok (u := ())]
  refine check_bind_ok.trans (and_congr_right fun _ => ?_)
  exact ⟨fun h => (Except.ok.inj h).symm,fun h => congrArg Except.ok h.symm⟩

/-- The payload is no longer than the envelope around it. -/
theorem payload_length_le (hw : w.WritesMinimal) {tx : ClaimTx} {b : Vec UInt8}
    (h : toCbor w blake3 tx = .ok b.val) : (encodePayload w tx).length ≤ isizeMax := by
  have hb := b.property
  rw [(toCbor_ok.mp h).2,hw.bytes] at hb
  simp only [List.length_append] at hb
  unfold isizeMax
  omega

/-- The bytes of an encoded claim are an envelope around its payload. -/
theorem toCbor_mem {tx : ClaimTx} {bytes : Bytes} (h : toCbor w blake3 tx = .ok bytes)
    (hlen : (encodePayload w tx).length ≤ isizeMax) :
    bytes ∈ envelopeForm (Items.written w) (encodePayload w tx) (blake3 (encodePayload w tx)) := by
  rw [(toCbor_ok.mp h).2]
  have hpayload := append_mem_mul (append_mem_mul (l := (Items.written w).array 3)
    (m := (Items.written w).u64 claimTxWireVersion) rfl rfl) (bytes_written (w := w) hlen)
  exact append_mem_mul hpayload (hash_written _)

end

section
variable (r : Reader) (w : Writer) (blake3 : Bytes → Hash) (sizes : ElementSizes)

/-- Exactly the claims whose lengths agree are encoded, and decoding returns the
claim which was encoded. -/
theorem claim_round_trip (hread : r.Reads (Items.written w)) (hwrite : w.WritesMinimal)
    (tx : ClaimTx) :
    ((∃ bytes, toCbor w blake3 tx = .ok bytes) ↔
      (∃ claim, tx = .utxo claim) ∨
      ∃ claim, tx = .collection claim ∧ claim.publicInputs.length = claim.witness.length) ∧
    (InMemory sizes tx → ∀ bytes : Vec UInt8, toCbor w blake3 tx = .ok bytes.val →
      fromCbor r sizes w blake3 bytes.val = .ok tx) := by
  constructor
  · have hencoded : (∃ bytes, toCbor w blake3 tx = .ok bytes) ↔ AritiesAgree tx :=
      ⟨fun ⟨_,h⟩ => (toCbor_ok.mp h).1,fun h => ⟨_,toCbor_ok.mpr ⟨h,rfl⟩⟩⟩
    rw [hencoded]
    cases tx with
    | utxo claim => simp [AritiesAgree]
    | collection claim => simp [AritiesAgree]
  · intro hmem bytes hencode
    have henvelope := toCbor_mem hencode (payload_length_le hwrite hencode)
    have hpayload : decodePayload r sizes (encodePayload w tx) = .ok tx :=
      whole_reads (decodeClaimTx_reads hread hmem (toCbor_ok.mp hencode).1) (encodePayload_mem hmem)
    rw [fromCbor_envelope hread henvelope,hpayload]
    simp [Except.bind,checkCanonical]

end

def sampleHash : Hash := Vector.replicate 32 0x11

def samplePublicInputs : ClaimPublicInputs :=
  ⟨1,300,1,sampleHash,sampleHash,sampleHash,sampleHash⟩

/-- One claim of a collection, with a payload, a sibling and a proof. -/
def sampleClaim : ClaimTx :=
  .collection ⟨[samplePublicInputs],[⟨[0xaa,0xbb],[sampleHash],[0xcc]⟩],[0xdd]⟩

/-- The layout of a 64-bit target: four hashes, an index and two bytes, padded to
its alignment; three vectors of three words. -/
def sampleSizes : ElementSizes := ⟨144,72,by decide,by decide⟩

theorem sampleClaim_inMemory : InMemory sampleSizes sampleClaim := by
  refine ⟨by decide,by decide,?_,by decide⟩
  intro witness hwitness
  rw [List.mem_singleton.mp hwitness]
  exact ⟨by decide,by decide,by decide⟩

theorem sampleClaim_length (blake3 : Bytes → Hash) {bytes : Bytes}
    (h : toCbor referenceWriter blake3 sampleClaim = .ok bytes) : bytes.length < 2^63 := by
  have hpayload : (encodePayload referenceWriter sampleClaim).length = 190 := by decide +kernel
  have hw := referenceWriter_minimal
  rw [(toCbor_ok.mp h).2,hw.array,hw.u64,hw.bytes,hw.bytes]
  simp only [List.length_append,minimalHead,head_length,hpayload,Vector.length_toList]
  decide

/-- The sample is encoded under the real hash, and decoded. -/
theorem sampleClaim_round_trip : ∃ bytes : Vec UInt8,
    toCbor referenceWriter singleChunkHash sampleClaim = .ok bytes.val ∧
    fromCbor reference.toReader sampleSizes referenceWriter singleChunkHash bytes.val =
      .ok sampleClaim := by
  have hread := referenceWriter_minimal.reads reference_reads
  obtain ⟨hencoded,hdecoded⟩ := claim_round_trip reference.toReader referenceWriter singleChunkHash
    sampleSizes hread referenceWriter_minimal sampleClaim
  obtain ⟨bytes,hbytes⟩ := hencoded.mpr (Or.inr ⟨_,rfl,rfl⟩)
  exact ⟨⟨bytes,sampleClaim_length _ hbytes⟩,hbytes,hdecoded sampleClaim_inMemory _ hbytes⟩

end OmegaHarness.ClaimCodec
