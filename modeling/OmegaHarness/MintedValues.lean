import OmegaHarness.LedgerHistory
import OmegaHarness.EnvelopeCodec
import OmegaHarness.PaddingForgery

/-!
# What an accepted claim proves and what it mints

The ledger stores leaf indices as signed integers, so the sentinel index of the
padding slots never gets past its range check: against an honest commitment each
accepted public input is a committed item, opened with its committed payload.

The minted value, however, is read from the witness which travels beside the
proof, and nothing compares that witness with the payload inside the proof. A
row carries the committed value exactly when the submitter chose to send it.
-/
namespace OmegaHarness.MintedValues
open FiniteCollisions DomainHashes MerkleTreeV1 ClaimTypes ClaimVerifier Blake3Compression
open MembershipRelation PaddingForgery FaultyTransactions KeyedTables LedgerStore RaftTypes
open ClaimApplication LedgerWriter LedgerHistory EnvelopeCodec

/-- All seven entries of a commitment are the builder's. -/
def HonestCommitment (blake3 : Bytes → Hash) (c : OmegaCommitment) (bundle : Fin 7 → List Bytes)
    (trees : Fin 7 → MerkleTree) : Prop :=
  ∀ i, HonestSubTree blake3 c i (bundle i) (trees i)

theorem ne_sentinel_of_range {index : UInt64} (h : index.toNat < 2^63) :
    index ≠ emptyIndexSentinel := by
  intro heq
  rw [heq,emptyIndexSentinel_toNat] at h
  omega

/-- Below the signed range an opening is a committed item at its own index. -/
theorem opened_item {blake3 : Bytes → Hash} {c : OmegaCommitment} {i : Fin 7}
    {payloads : List Bytes} {t : MerkleTree} {p : ClaimPublicInputs} {o : Opening}
    (h : HonestSubTree blake3 c i payloads t) (hp : Checked c i p) (ho : Opens blake3 p o)
    (hrange : p.leafIndex.toNat < 2^63) :
    (p.leafIndex.toNat < payloads.length ∧
        o.payload = (sortPayloads payloads)[p.leafIndex.toNat]!) ∨
      CollisionAmong blake3 (hashedStrings blake3 payloads p o) := by
  rcases opened_slot h hp ho with hslot | hpadding | hcol
  · rcases hslot with ⟨j,hj,hindex,hpayload⟩
    have hcount := h.count_lt
    have htoNat : p.leafIndex.toNat = j := by
      rw [hindex,UInt64.toNat_ofNat',Nat.mod_eq_of_lt (by omega)]
    rw [htoNat]
    exact Or.inl ⟨hj,hpayload⟩
  · exact (ne_sentinel_of_range hrange hpadding.2.1).elim
  · exact Or.inr hcol

section Accepted
variable {blake3 : Bytes → Hash} {backend : ProofBackend} {command : LedgerCommand}
  {bundle : Fin 7 → List Bytes} {trees : Fin 7 → MerkleTree}

theorem vetted_index {p : ClaimPublicInputs} (h : Vetted blake3 backend command)
    (hp : p ∈ claimInputs command.claim) : p.leafIndex.toNat < 2^63 := by
  rw [← claimRows_inputs h.arity] at hp
  rcases List.mem_map.mp hp with ⟨r,hr,rfl⟩
  exact h.indices r hr

/-- Every input the ledger accepts against an honest commitment is an item. -/
theorem ledger_accepts_only_items {s t : Ledger} (hideal : IdealProofs blake3 backend)
    (honest : HonestCommitment blake3 command.commitment bundle trees)
    (hrun : (applyClaimTx blake3 backend command).run s = (.ok (),t)) {p : ClaimPublicInputs}
    (hp : p ∈ claimInputs command.claim) :
    ∃ i, p.subTreeId = subTreeIdOf i ∧ (∃ o, Opens blake3 p o) ∧
      ∀ o, Opens blake3 p o →
        (p.leafIndex < command.commitment.itemCounts.get i ∧
            o.payload = (sortPayloads (bundle i))[p.leafIndex.toNat]!) ∨
          CollisionAmong blake3 (hashedStrings blake3 (bundle i) p o) := by
  have hvetted := (acceptable_iff.mp (applyClaimTx_ok blake3 hrun).1).1
  rcases opened_of_verify hideal hvetted.verified hp with ⟨i,hchecked,hopened⟩
  refine ⟨i,hchecked.subTree,hopened,?_⟩
  intro o ho
  rcases opened_item (honest i) hchecked ho (vetted_index hvetted hp) with hitem | hcol
  · rw [UInt64.lt_iff_toNat_lt,(honest i).count]
    exact Or.inl hitem
  · exact Or.inr hcol

/-- The output at one position of a recorded claim. -/
theorem minted_row {commands : List LedgerCommand} {db : Db}
    (h : Recorded blake3 backend commands db) (hcommand : command ∈ commands) {k : ℕ}
    {p : ClaimPublicInputs} {w : ClaimWitness} (hrow : (claimRows command.claim)[k]? = some (p,w)) :
    db.starstreamUtxos.lookup
        (starstreamUtxoId blake3 (utxoSource p w command.blockIdx (UInt64.ofNat k))) =
      some (starstreamRow p.recipientStarstreamAddr (payloadValue w.leafPayload).toNat
        command.blockIdx.toNat) := by
  rw [h.utxos]
  apply lookup_addAll_inside h.utxosFree
  apply List.mem_map_of_mem (f := utxoRow blake3)
    (a := utxoSource p w command.blockIdx (UInt64.ofNat k))
  apply List.mem_flatMap.mpr ⟨command,hcommand,?_⟩
  apply List.mem_map.mpr ⟨((p,w),k),?_,rfl⟩
  exact List.mk_mem_zipIdx_iff_getElem?.mpr hrow

end Accepted

/-- In every reachable ledger, the row of a claim accepted against an honest
commitment has the committed value exactly when the witness carries it. -/
theorem minted_value_committed_iff {blake3 : Bytes → Hash} {backend : ProofBackend} {cbor : Cbor}
    (hideal : IdealProofs blake3 backend) {s : Ledger} {commands : List LedgerCommand}
    (h : Reachable blake3 backend cbor s commands) {command : LedgerCommand}
    (hcommand : command ∈ commands) {bundle : Fin 7 → List Bytes} {trees : Fin 7 → MerkleTree}
    (honest : HonestCommitment blake3 command.commitment bundle trees) {k : ℕ}
    {p : ClaimPublicInputs} {w : ClaimWitness}
    (hrow : (claimRows command.claim)[k]? = some (p,w)) :
    ∃ i row, p.subTreeId = subTreeIdOf i ∧ (∃ o, Opens blake3 p o) ∧
      s.db.starstreamUtxos.lookup
          (starstreamUtxoId blake3 (utxoSource p w command.blockIdx (UInt64.ofNat k))) = some row ∧
      ∀ o, Opens blake3 p o →
        (((∃ q, (sortPayloads (bundle i))[p.leafIndex.toNat]? = some q ∧
              row.value = (payloadValue q).toNat) ∨
            CollisionAmong blake3 (hashedStrings blake3 (bundle i) p o)) ↔
          (payloadValue w.leafPayload =
              payloadValue (sortPayloads (bundle i))[p.leafIndex.toNat]! ∨
            CollisionAmong blake3 (hashedStrings blake3 (bundle i) p o))) := by
  have hrecorded := reachable_recorded blake3 backend cbor h
  have hvetted := hrecorded.vetted command hcommand
  have hp : p ∈ claimInputs command.claim := by
    rw [← claimRows_inputs hvetted.arity]
    exact List.mem_map_of_mem (f := Prod.fst) (List.mem_of_getElem? hrow)
  rcases opened_of_verify hideal hvetted.verified hp with ⟨i,hchecked,hopened⟩
  refine ⟨i,_,hchecked.subTree,hopened,minted_row hrecorded hcommand hrow,?_⟩
  intro o ho
  constructor
  · intro hor
    apply hor.imp_left
    intro hvalue
    rcases hvalue with ⟨q,hq,hvalue⟩
    rw [List.getElem!_eq_getElem?_getD,hq,Option.getD_some,← UInt64.toNat_inj]
    exact Int.natCast_inj.mp hvalue
  · intro hor
    rcases hor with hvalue | hcol
    · rcases opened_item (honest i) hchecked ho (vetted_index hvetted hp) with hitem | hcol
      · have hlen : p.leafIndex.toNat < (sortPayloads (bundle i)).length := by
          rw [sortPayloads_length]
          exact hitem.1
        refine Or.inl ⟨_,List.getElem?_eq_getElem hlen,?_⟩
        rw [List.getElem!_eq_getElem?_getD,List.getElem?_eq_getElem hlen,Option.getD_some] at hvalue
        rw [← hvalue]
        rfl
      · exact Or.inr hcol
    · exact Or.inr hcol

def threeTrees (i : Fin 7) : MerkleTree :=
  buildLayersV1 singleChunkHash (leafRow singleChunkHash (subTreeIdOf i) (threePayloads i))

theorem three_honest :
    HonestCommitment singleChunkHash threeCommitment threePayloads threeTrees := by
  intro i
  apply commitmentOver_honest singleChunkHash threePayloads i
  · revert i
    decide
  · revert i
    decide

def firstInput : ClaimPublicInputs := slotInput threeCommitment 0 0

def firstOpening : Opening := slotOpening singleChunkHash 0 [[1],[2],[3]] 0 [1]

theorem firstOpening_opens : Opens singleChunkHash firstInput firstOpening := by
  apply slotOpening_opens threePayloads_honest (by decide)
  exact (leafRow_payload singleChunkHash (subTreeIdOf 0) [[1],[2],[3]] (by decide)).symm

theorem firstOpening_no_collision :
    ¬CollisionAmong singleChunkHash
      (hashedStrings singleChunkHash (threePayloads 0) firstInput firstOpening) := by
  apply three_no_collision
  apply slotOpening_strings
  · exact (leafRow_payload singleChunkHash (subTreeIdOf 0) [[1],[2],[3]] (by decide)).symm
  · exact buildPreimages_payload singleChunkHash (subTreeIdOf 0) [[1],[2],[3]] (by decide)

def firstEnvelope : ProofEnvelope := envelopeFor singleChunkHash threeCommitment [firstInput] [2,16]

/-- The claim of the first of three payloads, with a witness of the submitter's
choice. -/
def firstCommand (leafPayload : Bytes) : LedgerCommand where
  blockIdx := 0
  commitment := threeCommitment
  claim := .utxo ⟨firstInput,⟨leafPayload,[],[]⟩,encodeEnvelope firstEnvelope⟩

def firstBackend : ProofBackend := listedBackend [firstEnvelope]

/-- A codec for runs which never call it. -/
def unusedCbor : Cbor :=
  ⟨listedCodec [],listedCodec [],listedCodec [],listedCodec [],listedCodec []⟩

theorem firstBackend_ideal : IdealProofs singleChunkHash firstBackend := by
  apply listedBackend_ideal
  intro e he p hp
  rw [List.mem_singleton.mp he] at hp
  rw [List.mem_singleton.mp hp]
  exact ⟨firstOpening,firstOpening_opens⟩

theorem zero_in_range : (0 : UInt64).toNat < 2^63 := by decide

theorem firstCommand_vetted {leafPayload : Bytes} (h : (payloadValue leafPayload).toNat < 2^63) :
    Vetted singleChunkHash firstBackend (firstCommand leafPayload) := by
  apply vetted_utxo zero_in_range _ zero_in_range h
  apply listedBackend_verify
  · exact listedBackend_decodes_first firstEnvelope []
  · exact envelopeFor_checks threePayloads_honest [0] [2,16]
  · rfl

theorem firstCommand_run {leafPayload : Bytes} (h : (payloadValue leafPayload).toNat < 2^63)
    (outside : Outside) :
    (applyClaimTx singleChunkHash firstBackend (firstCommand leafPayload)).run
        (calmAt emptyDb outside) =
      (.ok (),calmAt (applied singleChunkHash (firstCommand leafPayload) emptyDb) outside) :=
  (applyClaimTx_calm singleChunkHash).mpr ⟨utxo_acceptable_empty (firstCommand_vetted h),rfl⟩

/-- The range check of the ledger lets the first payload's claim through. -/
theorem first_claim_is_item :
    firstInput.leafIndex < threeCommitment.itemCounts.get 0 ∧
      firstOpening.payload = (sortPayloads (threePayloads 0))[firstInput.leafIndex.toNat]! := by
  have hspec := ledger_accepts_only_items firstBackend_ideal three_honest
    (@firstCommand_run [1] (by decide) ⟨∅,false⟩) List.mem_cons_self
  rcases hspec with ⟨i,hi,-,hitems⟩
  rw [← subTreeIdOf_inj hi] at hitems
  exact (hitems firstOpening firstOpening_opens).resolve_right firstOpening_no_collision

/-- Eight zero bytes and then the value 1000, where the committed payload is too
short to carry any value. -/
def inflatedPayload : Bytes := [0,0,0,0,0,0,0,0,0,0,0,0,0,0,3,232]

theorem firstCommand_row {leafPayload : Bytes} (h : (payloadValue leafPayload).toNat < 2^63) :
    (applied singleChunkHash (firstCommand leafPayload) emptyDb).starstreamUtxos.lookup
        (starstreamUtxoId singleChunkHash (utxoSource firstInput ⟨leafPayload,[],[]⟩ 0 0)) =
      some (starstreamRow firstInput.recipientStarstreamAddr (payloadValue leafPayload).toNat
        (0 : UInt64).toNat) := by
  have hspec := applyClaimTx_ok singleChunkHash (firstCommand_run h ⟨∅,false⟩)
  have hrecorded := recorded_applied singleChunkHash firstBackend
    (recorded_empty singleChunkHash firstBackend) hspec.1
  have hrow : (claimRows (firstCommand leafPayload).claim)[0]? =
      some (firstInput,⟨leafPayload,[],[]⟩) := rfl
  exact minted_row hrecorded List.mem_cons_self hrow

/-- A claim of the value 1000 on a payload of value zero is accepted. -/
theorem inflated_claim_accepted :
    ∃ (backend : ProofBackend) (command : LedgerCommand) (t : Ledger) (p : ClaimPublicInputs)
      (w : ClaimWitness) (o : Opening) (row : UtxoRow),
      IdealProofs singleChunkHash backend ∧
      HonestCommitment singleChunkHash command.commitment threePayloads threeTrees ∧
      (applyClaimTx singleChunkHash backend command).run (calmAt emptyDb ⟨∅,false⟩) = (.ok (),t) ∧
      (claimRows command.claim)[0]? = some (p,w) ∧ p.subTreeId = subTreeIdOf 0 ∧
      Opens singleChunkHash p o ∧
      t.db.starstreamUtxos.lookup
        (starstreamUtxoId singleChunkHash (utxoSource p w command.blockIdx 0)) = some row ∧
      ¬((∃ q, (sortPayloads (threePayloads 0))[p.leafIndex.toNat]? = some q ∧
            row.value = (payloadValue q).toNat) ∨
          CollisionAmong singleChunkHash (hashedStrings singleChunkHash (threePayloads 0) p o)) := by
  have hvalue : (payloadValue inflatedPayload).toNat < 2^63 := by decide
  refine ⟨firstBackend,firstCommand inflatedPayload,_,firstInput,_,firstOpening,_,
    firstBackend_ideal,three_honest,firstCommand_run hvalue ⟨∅,false⟩,rfl,rfl,firstOpening_opens,
    firstCommand_row hvalue,?_⟩
  intro hor
  rcases hor with hsame | hcol
  · rcases hsame with ⟨q,hq,hsame⟩
    have hfirst : (sortPayloads (threePayloads 0))[firstInput.leafIndex.toNat]? = some [1] := by
      decide
    rw [hfirst,Option.some.injEq] at hq
    rw [← hq] at hsame
    have hdiffer : ((payloadValue inflatedPayload).toNat : ℤ) ≠ (payloadValue [1]).toNat := by decide
    exact hdiffer hsame
  · exact firstOpening_no_collision hcol

/-- An honest witness mints the committed value. -/
theorem honest_claim_mints_committed :
    ∃ row, (applied singleChunkHash (firstCommand [1]) emptyDb).starstreamUtxos.lookup
        (starstreamUtxoId singleChunkHash (utxoSource firstInput ⟨[1],[],[]⟩ 0 0)) = some row ∧
      ∃ q, (sortPayloads (threePayloads 0))[firstInput.leafIndex.toNat]? = some q ∧
        row.value = (payloadValue q).toNat := by
  have hreach := reachable_accepted singleChunkHash firstBackend unusedCbor
    (reachable_calm_empty _ _ _ ⟨∅,false⟩) (@firstCommand_run [1] (by decide) ⟨∅,false⟩)
  have hrow : (claimRows (firstCommand [1]).claim)[0]? = some (firstInput,⟨[1],[],[]⟩) := rfl
  rcases minted_value_committed_iff firstBackend_ideal hreach List.mem_cons_self three_honest hrow with
    ⟨i,row,hi,-,hlookup,hiff⟩
  rw [← subTreeIdOf_inj hi] at hiff
  have hsame : payloadValue [1] =
      payloadValue (sortPayloads (threePayloads 0))[firstInput.leafIndex.toNat]! := by decide
  have hor := (hiff firstOpening firstOpening_opens).mpr (Or.inl hsame)
  exact ⟨row,hlookup,hor.resolve_right firstOpening_no_collision⟩

/-! ## The second payload's claim beside the first -/

def laterInput : ClaimPublicInputs := slotInput threeCommitment 0 1

/-- Proved under a seed of its own. -/
def laterEnvelope : ProofEnvelope :=
  { envelopeFor singleChunkHash threeCommitment [laterInput] [2,16] with config := ⟨2⟩ }

def laterCommand : LedgerCommand where
  blockIdx := 0
  commitment := threeCommitment
  claim := .utxo ⟨laterInput,⟨[2],[],[]⟩,encodeEnvelope laterEnvelope⟩

def pairBackend : ProofBackend := listedBackend [firstEnvelope,laterEnvelope]

theorem pair_decodes_first :
    pairBackend.decodeEnvelope (encodeEnvelope firstEnvelope) = some firstEnvelope :=
  listedBackend_decodes_first _ _

theorem pair_decodes_later :
    pairBackend.decodeEnvelope (encodeEnvelope laterEnvelope) = some laterEnvelope := by
  apply listedBackend_decodes_second []
  apply encodeEnvelope_ne <;> decide

theorem pair_vetted_first : Vetted singleChunkHash pairBackend (firstCommand [1]) := by
  have hverified : verify singleChunkHash pairBackend threeCommitment [firstInput]
      (encodeEnvelope firstEnvelope) = .ok () := by
    apply listedBackend_verify pair_decodes_first
    · exact envelopeFor_checks threePayloads_honest [0] [2,16]
    · rfl
  exact vetted_utxo zero_in_range hverified zero_in_range zero_in_range

theorem pair_vetted_later : Vetted singleChunkHash pairBackend laterCommand := by
  have hverified : verify singleChunkHash pairBackend threeCommitment [laterInput]
      (encodeEnvelope laterEnvelope) = .ok () := by
    apply listedBackend_verify pair_decodes_later
    · exact envelopeFor_checks threePayloads_honest [1] [2,16]
    · rfl
  exact vetted_utxo zero_in_range hverified (by decide) zero_in_range

/-- The outputs of the first two payloads have different identifiers under the real hash. -/
theorem payload_ids_differ :
    starstreamUtxoId singleChunkHash ⟨zeroHash,[1],0,0⟩ ≠
      starstreamUtxoId singleChunkHash ⟨zeroHash,[2],0,0⟩ := by
  intro heq
  have hdiffer : (starstreamUtxoId singleChunkHash ⟨zeroHash,[1],0,0⟩)[0] ≠
      (starstreamUtxoId singleChunkHash ⟨zeroHash,[2],0,0⟩)[0] := by decide +kernel
  exact hdiffer (congrArg (fun id : Hash => id[0]) heq)

end OmegaHarness.MintedValues
