import OmegaHarness.ClaimUniqueness

/-!
# Which commitment a submitted claim is verified against

A command carries the published commitment its proof is verified against. The
submission path takes that commitment out of the claim's own proof envelope, so
whatever a run of submitted claims accepts was verified against what its
submitter put there, and nothing pins one commitment for the ledger: two claims
against two commitments are both accepted.

The accepted claims share their commitment in every run exactly when the
submitters see to it: any two of their claims which could both be accepted must
carry the same one.
-/
namespace OmegaHarness.SubmittedCommitments
open FiniteCollisions DomainHashes MerkleTreeV1 ClaimTypes ClaimVerifier Blake3Compression
open MembershipRelation PaddingForgery FaultyTransactions KeyedTables LedgerStore RaftTypes
open ClaimApplication LedgerWriter LedgerHistory EnvelopeCodec MintedValues ClaimUniqueness

/-- The command which submitting one of these claims proposes. -/
def Issued (backend : ProofBackend) (claims : Set ClaimTx) (command : LedgerCommand) : Prop :=
  ∃ claim ∈ claims, LedgerCommand.applyClaim backend claim = .ok command

/-- The entry carries no command, or one built from a submitted claim. -/
def SubmittedEntry (backend : ProofBackend) (claims : Set ClaimTx) (entry : Entry) : Prop :=
  ∀ command, entry.payload = .normal command → Issued backend claims command

/-- The writer's commands when claims arrive through the replicated log only, and
only these claims are submitted. -/
def Submitted (backend : ProofBackend) (claims : Set ClaimTx) : WriteCmd → Prop
  | .applyClaim _ => False
  | .applyRaftEntries entries _ => ∀ entry ∈ entries, SubmittedEntry backend claims entry
  | cmd => Ordinary cmd

theorem Submitted.ordinary {backend : ProofBackend} {claims : Set ClaimTx} {cmd : WriteCmd}
    (h : Submitted backend claims cmd) : Ordinary cmd := by
  cases cmd <;> first | exact h | trivial

section Origins
variable {blake3 : Bytes → Hash} {backend : ProofBackend} {cbor : Cbor} {command : LedgerCommand}

theorem acceptedPayload_origin {payload : EntryPayload} {s : Ledger}
    (h : command ∈ acceptedPayload blake3 backend payload s) : payload = .normal command := by
  cases payload with
  | blank => exact (List.not_mem_nil h).elim
  | membership m => exact (List.not_mem_nil h).elim
  | normal other =>
      rw [acceptedPayload] at h
      cases hrun : ((applyClaimTx blake3 backend other).run s).1 with
      | error e =>
          rw [hrun] at h
          exact (List.not_mem_nil h).elim
      | ok a =>
          rw [hrun] at h
          rw [List.mem_singleton.mp h]

theorem acceptedEntries_origin {entries : List Entry} {s : Ledger}
    (h : command ∈ acceptedEntries blake3 backend cbor entries s) :
    ∃ entry ∈ entries, entry.payload = .normal command := by
  induction entries generalizing s with
  | nil => exact (List.not_mem_nil h).elim
  | cons entry rest ih =>
      rw [acceptedEntries] at h
      rcases List.mem_append.mp h with hhead | htail
      · exact ⟨entry,List.mem_cons_self,acceptedPayload_origin hhead⟩
      · cases hrun : (applyEntry blake3 backend cbor entry).run s with
        | mk r t =>
          rw [hrun] at htail
          cases r with
          | error e => exact (List.not_mem_nil htail).elim
          | ok response =>
              rcases ih htail with ⟨found,hmem,hpayload⟩
              exact ⟨found,List.mem_cons_of_mem _ hmem,hpayload⟩

/-- Along submitted commands every accepted command was built from a claim. -/
theorem acceptedAlong_origin {claims : Set ClaimTx} {cmds : List WriteCmd}
    (hcmds : ∀ cmd ∈ cmds, Submitted backend claims cmd) {s : Ledger}
    (h : command ∈ acceptedAlong blake3 backend cbor cmds s) : Issued backend claims command := by
  induction cmds generalizing s with
  | nil => exact (List.not_mem_nil h).elim
  | cons cmd rest ih =>
      have hsplit := List.forall_mem_cons.mp hcmds
      rw [acceptedAlong] at h
      rcases List.mem_append.mp h with hhead | htail
      · cases cmd with
        | applyClaim other => exact hsplit.1.elim
        | applyRaftEntries entries lastMembership =>
            rcases acceptedEntries_origin hhead with ⟨entry,hmem,hpayload⟩
            exact hsplit.1 entry hmem command hpayload
        | _ => exact (List.not_mem_nil hhead).elim
      · exact ih hsplit.2 htail

end Origins

/-- The commitment of an accepted command is its own envelope's, and it is the
one the claim was verified against. -/
structure OwnCommitment (blake3 : Bytes → Hash) (backend : ProofBackend) (command : LedgerCommand)
    (envelope : ProofEnvelope) : Prop where
  decoded : backend.decodeEnvelope (claimProof command.claim) = some envelope
  commitment : command.commitment = envelope.commitment
  verified : verify blake3 backend envelope.commitment (claimInputs command.claim)
    (claimProof command.claim) = .ok ()

section Runs
variable {blake3 : Bytes → Hash} {backend : ProofBackend} {cbor : Cbor} {outside : Outside}
  {faults : ℕ → Option String} {claims : Set ClaimTx} {cmds : List WriteCmd} {a b : LedgerCommand}

theorem recorded_of_submitted (hcmds : ∀ cmd ∈ cmds, Submitted backend claims cmd) :
    Recorded blake3 backend (acceptedAlong blake3 backend cbor cmds ⟨emptyDb,outside,faults⟩)
      (runAll blake3 backend cbor cmds ⟨emptyDb,outside,faults⟩).db := by
  have hreach := reachable_runAll blake3 backend cbor (fun cmd hcmd => (hcmds cmd hcmd).ordinary)
    (.opened outside faults)
  exact reachable_recorded blake3 backend cbor hreach

theorem ownCommitment_of_accepted (hcmds : ∀ cmd ∈ cmds, Submitted backend claims cmd)
    (h : a ∈ acceptedAlong blake3 backend cbor cmds ⟨emptyDb,outside,faults⟩) :
    ∃ envelope, OwnCommitment blake3 backend a envelope := by
  have hverified := ((recorded_of_submitted hcmds).vetted a h).verified
  rcases acceptedAlong_origin hcmds h with ⟨claim,-,hclaim⟩
  rcases applyClaim_ok.mp hclaim with ⟨envelope,hdecode,hcommand⟩
  rw [hcommand] at hverified ⊢
  exact ⟨envelope,hdecode,rfl,hverified⟩

/-- Two different accepted commands are compatible in the order in which they came. -/
theorem compatible_of_accepted (hcmds : ∀ cmd ∈ cmds, Submitted backend claims cmd)
    (ha : a ∈ acceptedAlong blake3 backend cbor cmds ⟨emptyDb,outside,faults⟩)
    (hb : b ∈ acceptedAlong blake3 backend cbor cmds ⟨emptyDb,outside,faults⟩) (hne : a ≠ b) :
    Compatible blake3 backend a b ∨ Compatible blake3 backend b a := by
  have hrecorded := @recorded_of_submitted blake3 backend cbor outside faults claims cmds hcmds
  obtain ⟨before,after,hsplit⟩ := List.append_of_mem ha
  rw [hsplit] at hb hrecorded
  rcases List.mem_append.mp hb with hb | hb
  · right
    apply compatible_of_recorded hrecorded
    exact (List.singleton_sublist.mpr hb).append (List.singleton_sublist.mpr List.mem_cons_self)
  · left
    rcases List.mem_cons.mp hb with hb | hb
    · exact absurd hb.symm hne
    · apply compatible_of_recorded hrecorded
      exact ((List.singleton_sublist.mpr hb).cons_cons a).trans (List.sublist_append_right _ _)

/-- Two compatible claims as one batch of the replicated log, both accepted. -/
theorem acceptedAlong_batch {idA idB : LogId} {bytesA bytesB : Bytes}
    (hA : cbor.logId.encode idA = .ok bytesA) (hB : cbor.logId.encode idB = .ok bytesB)
    (h : Compatible blake3 backend a b) :
    acceptedAlong blake3 backend cbor
      [.applyRaftEntries [⟨idA,.normal a⟩,⟨idB,.normal b⟩] none] (calmAt emptyDb outside) = [a,b] := by
  rw [acceptedAlong,acceptedAlong,accepted,acceptedEntries_accepts _ _ _ h.acceptable_first hA,
    acceptedEntries_accepts _ _ _ (h.acceptable_second _) hB]
  rfl

theorem submitted_batch (ha : Issued backend claims a) (hb : Issued backend claims b)
    (idA idB : LogId) :
    ∀ cmd ∈ [WriteCmd.applyRaftEntries [⟨idA,.normal a⟩,⟨idB,.normal b⟩] none],
      Submitted backend claims cmd := by
  intro cmd hcmd
  rw [List.mem_singleton.mp hcmd]
  intro entry hentry command hcommand
  rcases List.mem_cons.mp hentry with hfirst | hsecond
  · rw [hfirst] at hcommand
    cases hcommand
    exact ha
  · rw [List.mem_singleton.mp hsecond] at hcommand
    cases hcommand
    exact hb

/-- Whatever is accepted was verified against the commitment of its own envelope.
Over all runs in which only the given claims are submitted, any two accepted claims
with a public input share their commitment exactly when any two compatible ones of
the given claims do. -/
theorem accepted_share_commitment_iff {idA idB : LogId} {bytesA bytesB : Bytes}
    (hA : cbor.logId.encode idA = .ok bytesA) (hB : cbor.logId.encode idB = .ok bytesB)
    (claims : Set ClaimTx) :
    (∀ outside faults cmds, (∀ cmd ∈ cmds, Submitted backend claims cmd) →
      ∀ a ∈ acceptedAlong blake3 backend cbor cmds ⟨emptyDb,outside,faults⟩,
        ∃ envelope, OwnCommitment blake3 backend a envelope) ∧
    ((∀ outside faults cmds, (∀ cmd ∈ cmds, Submitted backend claims cmd) →
      ∀ a ∈ acceptedAlong blake3 backend cbor cmds ⟨emptyDb,outside,faults⟩,
      ∀ b ∈ acceptedAlong blake3 backend cbor cmds ⟨emptyDb,outside,faults⟩,
        claimInputs a.claim ≠ [] → claimInputs b.claim ≠ [] → a.commitment = b.commitment) ↔
    ∀ a b, Issued backend claims a → Issued backend claims b →
      claimInputs a.claim ≠ [] → claimInputs b.claim ≠ [] →
      Compatible blake3 backend a b → a.commitment = b.commitment) := by
  refine ⟨fun _ _ _ hcmds _ ha => ownCommitment_of_accepted hcmds ha,?_,?_⟩
  · intro h a b ha hb hinputsA hinputsB hcompatible
    have haccepted := @acceptedAlong_batch blake3 backend cbor ⟨∅,false⟩ _ _ _ _ _ _ hA hB hcompatible
    have hboth := h ⟨∅,false⟩ (fun _ => none) _ (submitted_batch ha hb idA idB)
    apply hboth a _ b _ hinputsA hinputsB
    · exact haccepted ▸ List.mem_cons_self
    · exact haccepted ▸ List.mem_cons_of_mem _ List.mem_cons_self
  · intro h outside faults cmds hcmds a ha b hb hinputsA hinputsB
    by_cases hne : a = b
    · rw [hne]
    have hissuedA := acceptedAlong_origin hcmds ha
    have hissuedB := acceptedAlong_origin hcmds hb
    rcases compatible_of_accepted hcmds ha hb hne with hcompatible | hcompatible
    · exact h a b hissuedA hissuedB hinputsA hinputsB hcompatible
    · exact (h b a hissuedB hissuedA hinputsB hinputsA hcompatible).symm

end Runs

def secondInput : ClaimPublicInputs := slotInput twinCommitment 0 1

theorem secondInput_opens :
    Opens singleChunkHash secondInput (slotOpening singleChunkHash 0 (twinPayloads 0) 1 [2]) := by
  apply slotOpening_opens (twin_honest 0) (by decide)
  have hindex : 1 < (twinPayloads 0).length := by decide
  exact (leafRow_payload singleChunkHash (subTreeIdOf 0) (twinPayloads 0) hindex).symm

def secondEnvelope : ProofEnvelope :=
  { envelopeFor singleChunkHash twinCommitment [secondInput] [2,16] with config := ⟨2⟩ }

/-- Decodes one envelope for each of two commitments. -/
def mixedBackend : ProofBackend := listedBackend [firstEnvelope,secondEnvelope]

theorem mixedBackend_ideal : IdealProofs singleChunkHash mixedBackend := by
  apply listedBackend_ideal
  intro e he p hp
  rcases List.mem_cons.mp he with rfl | he
  · rw [List.mem_singleton.mp hp]
    exact ⟨firstOpening,firstOpening_opens⟩
  · rw [List.mem_singleton.mp he] at hp
    rw [List.mem_singleton.mp hp]
    exact ⟨_,secondInput_opens⟩

def secondCommand : LedgerCommand where
  blockIdx := 0
  commitment := twinCommitment
  claim := .utxo ⟨secondInput,⟨[2],[],[]⟩,encodeEnvelope secondEnvelope⟩

theorem mixed_decodes_first :
    mixedBackend.decodeEnvelope (encodeEnvelope firstEnvelope) = some firstEnvelope :=
  listedBackend_decodes_first _ _

theorem mixed_decodes_second :
    mixedBackend.decodeEnvelope (encodeEnvelope secondEnvelope) = some secondEnvelope := by
  apply listedBackend_decodes_second []
  apply encodeEnvelope_ne
  · decide
  · decide
  · decide

/-- Both commands are what submitting the two claims produces. -/
theorem mixed_submitted :
    LedgerCommand.applyClaim mixedBackend (firstCommand [1]).claim = .ok (firstCommand [1]) ∧
      LedgerCommand.applyClaim mixedBackend secondCommand.claim = .ok secondCommand :=
  ⟨applyClaim_ok.mpr ⟨_,mixed_decodes_first,rfl⟩,applyClaim_ok.mpr ⟨_,mixed_decodes_second,rfl⟩⟩

theorem mixed_vetted_first : Vetted singleChunkHash mixedBackend (firstCommand [1]) := by
  have hverified : verify singleChunkHash mixedBackend threeCommitment [firstInput]
      (encodeEnvelope firstEnvelope) = .ok () := by
    apply listedBackend_verify mixed_decodes_first
    · exact envelopeFor_checks threePayloads_honest [0] [2,16]
    · rfl
  exact vetted_utxo zero_in_range hverified zero_in_range zero_in_range

theorem mixed_vetted_second : Vetted singleChunkHash mixedBackend secondCommand := by
  have hverified : verify singleChunkHash mixedBackend twinCommitment [secondInput]
      (encodeEnvelope secondEnvelope) = .ok () := by
    apply listedBackend_verify mixed_decodes_second
    · exact envelopeFor_checks (twin_honest 0) [1] [2,16]
    · rfl
  exact vetted_utxo zero_in_range hverified (by decide) zero_in_range

theorem mixed_compatible :
    Compatible singleChunkHash mixedBackend (firstCommand [1]) secondCommand where
  vettedFirst := mixed_vetted_first
  vettedSecond := mixed_vetted_second
  pairs := by decide
  ids := List.nodup_cons.mpr ⟨fun hmem => payload_ids_differ (List.mem_singleton.mp hmem),
    List.nodup_singleton _⟩

/-- Log entry 1 of term 1, proposed by node 1, and entry 2 after it. -/
def mixedLogId (index : UInt64) : LogId := ⟨⟨1,1⟩,index⟩

/-- The entry's log id in CBOR: the names and values of the two nested maps. -/
def mixedLogBytes (index : UInt8) : Bytes :=
  [0xa2,0x69,0x6c,0x65,0x61,0x64,0x65,0x72,0x5f,0x69,0x64,
    0xa2,0x64,0x74,0x65,0x72,0x6d,0x01,0x67,0x6e,0x6f,0x64,0x65,0x5f,0x69,0x64,0x01,
    0x65,0x69,0x6e,0x64,0x65,0x78,index]

def mixedCbor : Cbor :=
  { unusedCbor with
    logId := listedCodec [(mixedLogId 1,mixedLogBytes 1),(mixedLogId 2,mixedLogBytes 2)] }

/-- Two submitted claims with a public input each are accepted in one run
against different commitments. -/
theorem two_commitments_accepted :
    ∃ (backend : ProofBackend) (cbor : Cbor) (outside : Outside) (faults : ℕ → Option String)
      (cmds : List WriteCmd) (a b : LedgerCommand),
      IdealProofs singleChunkHash backend ∧
      (∀ cmd ∈ cmds, Submitted backend Set.univ cmd) ∧
      a ∈ acceptedAlong singleChunkHash backend cbor cmds ⟨emptyDb,outside,faults⟩ ∧
      b ∈ acceptedAlong singleChunkHash backend cbor cmds ⟨emptyDb,outside,faults⟩ ∧
      claimInputs a.claim ≠ [] ∧ claimInputs b.claim ≠ [] ∧
      a.commitment ≠ b.commitment := by
  have haccepted := @acceptedAlong_batch singleChunkHash mixedBackend mixedCbor ⟨∅,false⟩ _ _
    (mixedLogId 1) (mixedLogId 2) (mixedLogBytes 1) (mixedLogBytes 2) rfl rfl mixed_compatible
  refine ⟨mixedBackend,mixedCbor,⟨∅,false⟩,fun _ => none,_,firstCommand [1],secondCommand,
    mixedBackend_ideal,submitted_batch ⟨_,Set.mem_univ _,mixed_submitted.1⟩
      ⟨_,Set.mem_univ _,mixed_submitted.2⟩ (mixedLogId 1) (mixedLogId 2),?_,?_,List.cons_ne_nil _ _,List.cons_ne_nil _ _,?_⟩
  · exact haccepted ▸ List.mem_cons_self
  · exact haccepted ▸ List.mem_cons_of_mem _ List.mem_cons_self
  · intro heq
    have hcounts := congrArg (fun c : OmegaCommitment => c.itemCounts.get 1) heq
    exact absurd hcounts (by decide)

/-- The two claims of one commitment, submitted in one batch: both are accepted,
against that commitment. -/
theorem one_commitment_batch :
    ∃ cmds, (∀ cmd ∈ cmds, Submitted pairBackend {(firstCommand [1]).claim,laterCommand.claim} cmd) ∧
      acceptedAlong singleChunkHash pairBackend mixedCbor cmds (calmAt emptyDb ⟨∅,false⟩) =
        [firstCommand [1],laterCommand] ∧
      (firstCommand [1]).commitment = laterCommand.commitment := by
  have hfirst : LedgerCommand.applyClaim pairBackend (firstCommand [1]).claim =
      .ok (firstCommand [1]) :=
    applyClaim_ok.mpr ⟨_,pair_decodes_first,rfl⟩
  have hlater : LedgerCommand.applyClaim pairBackend laterCommand.claim = .ok laterCommand :=
    applyClaim_ok.mpr ⟨_,pair_decodes_later,rfl⟩
  have hthree : ∀ command, Issued pairBackend {(firstCommand [1]).claim,laterCommand.claim} command →
      command.commitment = threeCommitment := by
    intro command hissued
    rcases hissued with ⟨claim,hmem,hcommand⟩
    rcases hmem with rfl | rfl
    · rw [← Except.ok.inj (hfirst.symm.trans hcommand)]
      rfl
    · rw [← Except.ok.inj (hlater.symm.trans hcommand)]
      rfl
  have haccepted := @acceptedAlong_batch singleChunkHash pairBackend mixedCbor ⟨∅,false⟩ _ _
    (mixedLogId 1) (mixedLogId 2) (mixedLogBytes 1) (mixedLogBytes 2) rfl rfl pair_compatible
  have hissuedFirst : Issued pairBackend {(firstCommand [1]).claim,laterCommand.claim}
      (firstCommand [1]) := ⟨_,Or.inl rfl,hfirst⟩
  have hissuedLater : Issued pairBackend {(firstCommand [1]).claim,laterCommand.claim}
      laterCommand := ⟨_,Or.inr rfl,hlater⟩
  have hsubmitted := submitted_batch hissuedFirst hissuedLater (mixedLogId 1) (mixedLogId 2)
  have hiff := (@accepted_share_commitment_iff singleChunkHash pairBackend mixedCbor
    (mixedLogId 1) (mixedLogId 2) (mixedLogBytes 1) (mixedLogBytes 2) rfl rfl
    {(firstCommand [1]).claim,laterCommand.claim}).2
  have hshared := hiff.mpr fun a b ha hb _ _ _ => (hthree a ha).trans (hthree b hb).symm
  refine ⟨_,hsubmitted,haccepted,?_⟩
  apply hshared ⟨∅,false⟩ (fun _ => none) _ hsubmitted
  · exact haccepted ▸ List.mem_cons_self
  · exact haccepted ▸ List.mem_cons_of_mem _ List.mem_cons_self
  · exact List.cons_ne_nil _ _
  · exact List.cons_ne_nil _ _

end OmegaHarness.SubmittedCommitments
