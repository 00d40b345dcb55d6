import OmegaHarness.MintedValues

/-!
# The class of a replayed claim

All probes of a claim run before its first insert, so they see the leaves of earlier
claims and not those of the claim itself. A leaf claimed before is reported as a replay. A
leaf which the claim names twice passes the probes, and the primary key stops the second
insert: the ledger answers with an internal error.
-/
namespace OmegaHarness.ReplayClasses
open Blake3Compression DomainHashes ClaimTypes ClaimVerifier FaultyTransactions KeyedTables
open LedgerStore RaftTypes ClaimApplication LedgerWriter LedgerHistory MembershipRelation
open EnvelopeCodec PaddingForgery MintedValues

section Probes
variable {db : Db} {outside : Outside}

theorem rejectReplay_claimed {p : ClaimPublicInputs} (hrange : p.leafIndex.toNat < 2^63)
    (h : nullifierKey p ∈ db.nullifiers) :
    (rejectReplay p).run (calmAt db outside) =
      (.error (.replay p.subTreeId p.leafIndex),calmAt db outside) := by
  have hindex : sqliteI64 "leaf_index" p.leafIndex = .ok p.leafIndex.toNat :=
    sqliteI64_ok.mpr ⟨hrange,rfl⟩
  have hmem : decide (((p.subTreeId.toNat : ℤ),(p.leafIndex.toNat : ℤ)) ∈ db.nullifiers) = true :=
    decide_eq_true h
  rw [rejectReplay,hindex]
  change (sql _ >>= _).run (calmAt db outside) = _
  rw [bind_run,(sql_calm (a := true)).mpr ⟨db,by rw [hmem],rfl⟩]
  rfl

/-- The first leaf which an earlier claim has used decides. -/
theorem rejectReplays_claimed {publicInputs : List ClaimPublicInputs}
    (hrange : ∀ p ∈ publicInputs, p.leafIndex.toNat < 2^63)
    (h : ∃ p ∈ publicInputs, nullifierKey p ∈ db.nullifiers) :
    ∃ p : ClaimPublicInputs, (rejectReplays publicInputs).run (calmAt db outside) =
      (.error (.replay p.subTreeId p.leafIndex),calmAt db outside) := by
  induction publicInputs with
  | nil =>
      obtain ⟨p,hp,-⟩ := h
      exact (List.not_mem_nil hp).elim
  | cons q rest ih =>
      obtain ⟨hq,hrest⟩ := List.forall_mem_cons.mp hrange
      rw [rejectReplays,bind_run]
      by_cases hclaimed : nullifierKey q ∈ db.nullifiers
      · rw [rejectReplay_claimed hq hclaimed]
        exact ⟨q,rfl⟩
      · rw [(rejectReplay_calm (a := ())).mpr ⟨⟨hq,hclaimed⟩,rfl⟩]
        obtain ⟨p,hp,hmem⟩ := h
        obtain rfl | hlater := List.mem_cons.mp hp
        · exact (hclaimed hmem).elim
        · exact ih hrest ⟨p,hlater,hmem⟩

end Probes

/-- Errors which the ledger passes on as its own failure. -/
def IsInternal (e : LedgerError) : Prop := rejectClass e = .internal

theorem isInternal_sqlite (e : SqliteError) : IsInternal (.sqlite e) := rfl

theorem fails_sqliteI64 (field : String) (value : UInt64) :
    Fails IsInternal (ofExcept (sqliteI64 field value) : LedgerOp ℤ) := by
  apply fails_ofExcept
  intro e he
  unfold sqliteI64 at he
  split at he
  · cases he
  · cases he
    rfl

theorem fails_insertRow {K V : Type} [DecidableEq K] {conflict : LedgerError}
    (hconflict : IsInternal conflict) (key : K) (value : V) (table : Db → Table K V)
    (put : Db → Table K V → Db) :
    Fails IsInternal (execute fun db => (insertRow conflict key value (table db)).map (put db)) := by
  unfold execute sql
  apply fails_statement
  · intro _
    rfl
  · intro db e he
    unfold insertRow at he
    dsimp only at he
    by_cases hkey : key ∈ table db
    · rw [if_pos hkey] at he
      cases he
      exact hconflict
    · rw [if_neg hkey] at he
      cases he

theorem fails_insertRowsFrom (blake3 : Bytes → Hash) (blockIdx : UInt64) (blockIdxI64 : ℤ)
    (ordinal : ℕ) (rows : List (ClaimPublicInputs × ClaimWitness)) :
    Fails IsInternal (insertRowsFrom blake3 blockIdx blockIdxI64 ordinal rows) := by
  induction rows generalizing ordinal with
  | nil => exact fails_pure ()
  | cons r rest ih =>
      have hnullifier : Fails IsInternal (insertNullifier r.1 blockIdxI64) :=
        fails_bind (fails_sqliteI64 _ _) fun _ => fails_insertRow (isInternal_sqlite _) _ _ Db.nullifiers _
      have hutxo : Fails IsInternal (insertStarstreamUtxo blake3 r.1 r.2 blockIdx
          (UInt64.ofNat ordinal) blockIdxI64) :=
        fails_bind (fails_sqliteI64 _ _) fun _ => fails_insertRow (isInternal_sqlite _) _ _ Db.starstreamUtxos _
      exact fails_bind hnullifier fun _ => fails_bind hutxo fun _ => ih (ordinal+1)

section Classes
variable (blake3 : Bytes → Hash) (backend : ProofBackend)

/-- The response to the claim is a rejection of the given class. -/
def RespondsWith (command : LedgerCommand) (db : Db) (outside : Outside) (c : LedgerReject) :
    Prop :=
  ∃ text t, (applyPayload blake3 backend (.normal command)).run (calmAt db outside) =
    (.ok ⟨false,some c,some text⟩,t)

/-- Some leaf of the claim has been claimed before. -/
def Claimed (command : LedgerCommand) (db : Db) : Prop :=
  ∃ p ∈ claimInputs command.claim, nullifierKey p ∈ db.nullifiers

/-- The claim names one leaf twice. -/
def NamesTwice (command : LedgerCommand) : Prop :=
  ¬((claimInputs command.claim).map nullifierKey).Nodup

variable {blake3} {backend} {command : LedgerCommand} {db : Db} {outside : Outside}

theorem respondsWith_of_error {e : LedgerError} {t : Ledger}
    (h : (applyClaimTx blake3 backend command).run (calmAt db outside) = (.error e,t)) :
    RespondsWith blake3 backend command db outside (rejectClass e) := by
  refine ⟨e.display,t,?_⟩
  rw [applyPayload,bind_run,attempt_run,h]
  rfl

theorem RespondsWith.unique {c c' : LedgerReject}
    (h : RespondsWith blake3 backend command db outside c)
    (h' : RespondsWith blake3 backend command db outside c') : c = c' := by
  obtain ⟨text,t,hrun⟩ := h
  obtain ⟨text',t',hrun'⟩ := h'
  rw [hrun] at hrun'
  cases hrun'
  rfl

/-- Behind the checks only the transaction is left. -/
theorem applyClaimTx_checked (hblock : command.blockIdx.toNat < 2^63)
    (harity : (claimInputs command.claim).length = (claimWitnesses command.claim).length)
    (hverified : verify blake3 backend command.commitment (claimInputs command.claim)
      (claimProof command.claim) = .ok ()) :
    (applyClaimTx blake3 backend command).run (calmAt db outside) =
      (sqlTransaction (do
        rejectReplays (claimInputs command.claim)
        insertRowsFrom blake3 command.blockIdx command.blockIdx.toNat 0
          (claimRows command.claim))).run (calmAt db outside) := by
  rw [applyClaimTx,sqliteI64_ok.mpr ⟨hblock,rfl⟩]
  change (ofExcept (parseClaim command.claim) >>= _).run (calmAt db outside) = _
  rw [parseClaim_ok.mpr ⟨harity,rfl⟩]
  change (ofExcept (Except.mapError _ (verify blake3 backend command.commitment
    (claimInputs command.claim) (claimProof command.claim))) >>= _).run (calmAt db outside) = _
  rw [hverified]
  rfl

theorem responds_replay (hblock : command.blockIdx.toNat < 2^63)
    (harity : (claimInputs command.claim).length = (claimWitnesses command.claim).length)
    (hverified : verify blake3 backend command.commitment (claimInputs command.claim)
      (claimProof command.claim) = .ok ())
    (hindices : ∀ p ∈ claimInputs command.claim, p.leafIndex.toNat < 2^63)
    (h : Claimed command db) : RespondsWith blake3 backend command db outside .replay := by
  obtain ⟨p,hprobes⟩ := @rejectReplays_claimed db outside _ hindices h
  have hbody : (rejectReplays (claimInputs command.claim) >>= fun _ =>
      insertRowsFrom blake3 command.blockIdx command.blockIdx.toNat 0 (claimRows command.claim)).run
        (calmAt db outside) = (.error (.replay p.subTreeId p.leafIndex),calmAt db outside) := by
    rw [bind_run,hprobes]
  have hrun := @applyClaimTx_checked blake3 backend command db outside hblock harity hverified
  rw [sqlTransaction,transaction_body_error rfl hbody] at hrun
  exact respondsWith_of_error hrun

/-- Without a leaf of an earlier claim the probes pass, and what stops a leaf named twice is
the insert. -/
theorem responds_internal (hblock : command.blockIdx.toNat < 2^63)
    (harity : (claimInputs command.claim).length = (claimWitnesses command.claim).length)
    (hverified : verify blake3 backend command.commitment (claimInputs command.claim)
      (claimProof command.claim) = .ok ())
    (hindices : ∀ p ∈ claimInputs command.claim, p.leafIndex.toNat < 2^63)
    (hfresh : ¬Claimed command db) (htwice : NamesTwice command) :
    RespondsWith blake3 backend command db outside .internal := by
  have hprobes : (rejectReplays (claimInputs command.claim)).run (calmAt db outside) =
      (.ok (),calmAt db outside) :=
    rejectReplays_calm.mpr ⟨fun p hp => ⟨hindices p hp,fun hmem => hfresh ⟨p,hp,hmem⟩⟩,rfl⟩
  cases hinsert : (insertRowsFrom blake3 command.blockIdx command.blockIdx.toNat 0
      (claimRows command.claim)).run (calmAt db outside) with
  | mk r u =>
    cases r with
    | ok a =>
        have hkeys := ((insertRowsFrom_calm blake3).mp hinsert).1.nullifiers.nodup
        rw [claimRows_nullifiers harity,List.map_map] at hkeys
        exact (htwice hkeys).elim
    | error e =>
        have hclass := fails_insertRowsFrom blake3 _ _ _ _ _ _ _ hinsert
        have hbody : (rejectReplays (claimInputs command.claim) >>= fun _ =>
            insertRowsFrom blake3 command.blockIdx command.blockIdx.toNat 0
              (claimRows command.claim)).run (calmAt db outside) = (.error e,u) := by
          rw [bind_run,hprobes]
          exact hinsert
        have hrun := @applyClaimTx_checked blake3 backend command db outside hblock harity hverified
        rw [sqlTransaction,transaction_body_error rfl hbody] at hrun
        rw [← hclass]
        exact respondsWith_of_error hrun

/-- A claim of vectors of different lengths is refused before its proof is looked at. -/
theorem responds_invalid (hblock : command.blockIdx.toNat < 2^63)
    (harity : (claimInputs command.claim).length ≠ (claimWitnesses command.claim).length) :
    RespondsWith blake3 backend command db outside .invalidClaim := by
  have hparse : parseClaim command.claim = .error (.invalidClaim "collection arity mismatch") := by
    cases hclaim : command.claim with
    | utxo claim =>
        rw [hclaim] at harity
        exact (harity rfl).elim
    | collection claim =>
        rw [hclaim] at harity
        exact if_pos harity
  have hrun : (applyClaimTx blake3 backend command).run (calmAt db outside) =
      (.error (.invalidClaim "collection arity mismatch"),calmAt db outside) := by
    rw [applyClaimTx,sqliteI64_ok.mpr ⟨hblock,rfl⟩,hparse]
    rfl
  exact respondsWith_of_error hrun

/-- A verified claim which repeats a leaf is rejected as a replay exactly when its vectors
match and an earlier claim has used one of its leaves; a repetition inside the claim alone
is rejected as an internal error. -/
theorem replay_class_iff (hblock : command.blockIdx.toNat < 2^63)
    (hverified : verify blake3 backend command.commitment (claimInputs command.claim)
      (claimProof command.claim) = .ok ())
    (hindices : ∀ p ∈ claimInputs command.claim, p.leafIndex.toNat < 2^63)
    (hrepeats : Claimed command db ∨ NamesTwice command) :
    (RespondsWith blake3 backend command db outside .replay ↔
        (claimInputs command.claim).length = (claimWitnesses command.claim).length ∧
          Claimed command db) ∧
      ((claimInputs command.claim).length = (claimWitnesses command.claim).length →
        ¬Claimed command db → RespondsWith blake3 backend command db outside .internal) := by
  have hinside : (claimInputs command.claim).length = (claimWitnesses command.claim).length →
      ¬Claimed command db → RespondsWith blake3 backend command db outside .internal := by
    intro harity hfresh
    exact responds_internal hblock harity hverified hindices hfresh (hrepeats.resolve_left hfresh)
  refine ⟨⟨?_,?_⟩,hinside⟩
  · intro hreplay
    by_cases harity : (claimInputs command.claim).length = (claimWitnesses command.claim).length
    · refine ⟨harity,?_⟩
      by_contra hfresh
      cases hreplay.unique (hinside harity hfresh)
    · cases hreplay.unique (responds_invalid hblock harity)
  · rintro ⟨harity,hclaimed⟩
    exact responds_replay hblock harity hverified hindices hclaimed

end Classes

/-- The claim of the first of three payloads, sent again. -/
theorem second_claim_replayed :
    Claimed (firstCommand [1]) (applied singleChunkHash (firstCommand [1]) emptyDb) ∧
      RespondsWith singleChunkHash firstBackend (firstCommand [1])
        (applied singleChunkHash (firstCommand [1]) emptyDb) ⟨∅,false⟩ .replay := by
  have hclaimed : Claimed (firstCommand [1]) (applied singleChunkHash (firstCommand [1]) emptyDb) :=
    ⟨firstInput,List.mem_cons_self,mem_addAll.mpr (Or.inr List.mem_cons_self)⟩
  have hvetted := @firstCommand_vetted [1] (by decide)
  refine ⟨hclaimed,((replay_class_iff zero_in_range hvetted.verified ?_ (Or.inl hclaimed)).1).mpr
    ⟨rfl,hclaimed⟩⟩
  intro p hp
  rw [List.mem_singleton.mp hp]
  exact zero_in_range

def doubleEnvelope : ProofEnvelope :=
  envelopeFor singleChunkHash threeCommitment [firstInput,firstInput] [2,2,16]

/-- A collection which claims the first of three payloads twice. -/
def doubleCommand : LedgerCommand where
  blockIdx := 0
  commitment := threeCommitment
  claim := .collection ⟨[firstInput,firstInput],[⟨[1],[],[]⟩,⟨[1],[],[]⟩],
    encodeEnvelope doubleEnvelope⟩

def doubleBackend : ProofBackend := listedBackend [doubleEnvelope]

theorem doubleBackend_ideal : IdealProofs singleChunkHash doubleBackend := by
  apply listedBackend_ideal
  intro e he p hp
  rw [List.mem_singleton.mp he] at hp
  have hp' : p = firstInput := by
    simpa [doubleEnvelope,envelopeFor] using hp
  rw [hp']
  exact ⟨firstOpening,firstOpening_opens⟩

theorem doubleCommand_verified :
    verify singleChunkHash doubleBackend doubleCommand.commitment (claimInputs doubleCommand.claim)
      (claimProof doubleCommand.claim) = .ok () := by
  apply listedBackend_verify
  · exact listedBackend_decodes_first doubleEnvelope []
  · exact envelopeFor_checks threePayloads_honest [0,0] [2,2,16]
  · rfl

/-- On the empty ledger the proof of that collection is good, and the ledger reports a
failure of its own instead of a replay. -/
theorem double_claim_internal :
    Reachable singleChunkHash doubleBackend unusedCbor (calmAt emptyDb ⟨∅,false⟩) [] ∧
      IdealProofs singleChunkHash doubleBackend ∧
      verify singleChunkHash doubleBackend doubleCommand.commitment
        (claimInputs doubleCommand.claim) (claimProof doubleCommand.claim) = .ok () ∧
      (∀ p ∈ claimInputs doubleCommand.claim, p.leafIndex.toNat < 2^63) ∧
      (∀ w ∈ claimWitnesses doubleCommand.claim, (payloadValue w.leafPayload).toNat < 2^63) ∧
      doubleCommand.blockIdx.toNat < 2^63 ∧ NamesTwice doubleCommand ∧
      RespondsWith singleChunkHash doubleBackend doubleCommand emptyDb ⟨∅,false⟩ .internal ∧
      ¬RespondsWith singleChunkHash doubleBackend doubleCommand emptyDb ⟨∅,false⟩ .replay := by
  have hindices : ∀ p ∈ claimInputs doubleCommand.claim, p.leafIndex.toNat < 2^63 := by
    intro p hp
    have hp' : p = firstInput := by simpa [doubleCommand,claimInputs] using hp
    rw [hp']
    exact zero_in_range
  have hvalues : ∀ w ∈ claimWitnesses doubleCommand.claim,
      (payloadValue w.leafPayload).toNat < 2^63 := by
    intro w hw
    have hw' : w = ⟨[1],[],[]⟩ := by simpa [doubleCommand,claimWitnesses] using hw
    rw [hw']
    exact zero_in_range
  have htwice : NamesTwice doubleCommand := by
    intro hnodup
    exact (List.nodup_cons.mp hnodup).1 List.mem_cons_self
  have hfresh : ¬Claimed doubleCommand emptyDb := by
    rintro ⟨p,-,hmem⟩
    exact Finmap.notMem_empty hmem
  have hinternal := @responds_internal singleChunkHash doubleBackend doubleCommand emptyDb ⟨∅,false⟩
    zero_in_range rfl doubleCommand_verified hindices hfresh htwice
  refine ⟨reachable_calm_empty _ _ _ _,doubleBackend_ideal,doubleCommand_verified,hindices,hvalues,
    zero_in_range,htwice,hinternal,?_⟩
  intro hreplay
  cases hreplay.unique hinternal

end OmegaHarness.ReplayClasses
