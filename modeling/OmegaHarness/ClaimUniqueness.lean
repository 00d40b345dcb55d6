import OmegaHarness.MintedValues

/-!
# Claims against each other

Two questions about a whole run. Can a leaf be claimed twice? It cannot: the
pairs of the accepted claims are pairwise different, the nullifier table is the
set of them, and each has one output beside it.

Can an accepted claim stand in the way of another leaf's claim? It can: outputs
are told apart by recipient, payload, block index and position only, and a claim
is refused when an earlier one has used its combination.
-/
namespace OmegaHarness.ClaimUniqueness
open FiniteCollisions DomainHashes MerkleTreeV1 ClaimTypes ClaimVerifier Blake3Compression
open MembershipRelation PaddingForgery FaultyTransactions KeyedTables LedgerStore RaftTypes
open ClaimApplication LedgerWriter LedgerHistory EnvelopeCodec MintedValues

/-- The leaves a command claims, with repetitions. -/
def claimedPairs (command : LedgerCommand) : List (UInt8 × UInt64) :=
  (claimInputs command.claim).map fun p => (p.subTreeId,p.leafIndex)

/-- The primary key under which a leaf is stored. -/
def pairKey (pair : UInt8 × UInt64) : ℤ × ℤ := (pair.1.toNat,pair.2.toNat)

theorem pairKey_inj : Function.Injective pairKey := by
  intro a b h
  simp only [pairKey,Prod.mk.injEq,Int.natCast_inj,UInt8.toNat_inj,UInt64.toNat_inj] at h
  exact Prod.ext h.1 h.2

theorem nullifierRow_keys (command : LedgerCommand) :
    ((claimInputs command.claim).map (nullifierRow command.blockIdx)).map Prod.fst =
      (claimedPairs command).map pairKey := by
  simp only [claimedPairs,List.map_map]
  rfl

theorem nullifierRowsOf_keys (commands : List LedgerCommand) :
    (nullifierRowsOf commands).map Prod.fst = (commands.flatMap claimedPairs).map pairKey := by
  simp only [nullifierRowsOf,List.map_flatMap,nullifierRow_keys]

section Recorded
variable {blake3 : Bytes → Hash} {backend : ProofBackend} {commands : List LedgerCommand} {db : Db}

theorem recorded_pairs_nodup (h : Recorded blake3 backend commands db) :
    (commands.flatMap claimedPairs).Nodup := by
  have hnodup := h.nullifiersFree.nodup
  rw [nullifierRowsOf_keys] at hnodup
  exact List.Nodup.of_map pairKey hnodup

theorem recorded_keys (h : Recorded blake3 backend commands db) :
    db.nullifiers.keys = ((commands.flatMap claimedPairs).map pairKey).toFinset := by
  rw [h.nullifiers,keys_addAll_empty,nullifierRowsOf_keys]

/-- As many outputs as nullifiers, claim by claim. -/
theorem recorded_lengths (h : Recorded blake3 backend commands db) :
    (sourcesOf commands).length = (nullifierRowsOf commands).length := by
  have hvetted := h.vetted
  unfold sourcesOf nullifierRowsOf
  rw [List.length_flatMap,List.length_flatMap]
  congr 1
  apply List.map_congr_left
  intro command hcommand
  simp [sourcesFrom,claimRows,(hvetted command hcommand).arity]

theorem recorded_card (h : Recorded blake3 backend commands db) :
    db.starstreamUtxos.keys.card = db.nullifiers.keys.card := by
  rw [h.utxos,h.nullifiers,card_keys_addAll h.utxosFree,card_keys_addAll h.nullifiersFree,
    List.length_map,recorded_lengths h,Finmap.keys_empty,Finmap.keys_empty,Finset.card_empty,
    Finset.card_empty]

theorem recorded_nullifier (h : Recorded blake3 backend commands db) {k : ℤ × ℤ} {b : ℤ}
    (hlookup : db.nullifiers.lookup k = some b) :
    ∃ command ∈ commands, (k,b) ∈ (claimInputs command.claim).map (nullifierRow command.blockIdx) := by
  rw [h.nullifiers] at hlookup
  exact List.mem_flatMap.mp (mem_of_lookup_addAll h.nullifiersFree hlookup)

theorem recorded_utxo (h : Recorded blake3 backend commands db) {id : Hash} {row : UtxoRow}
    (hlookup : db.starstreamUtxos.lookup id = some row) :
    ∃ command ∈ commands, (id,row) ∈
      (sourcesFrom command.blockIdx 0 (claimRows command.claim)).map (utxoRow blake3) := by
  rw [h.utxos] at hlookup
  have hmem := mem_of_lookup_addAll h.utxosFree hlookup
  rw [sourcesOf,List.map_flatMap] at hmem
  exact List.mem_flatMap.mp hmem

end Recorded

/-- The sources of one command's outputs. -/
def commandSources (command : LedgerCommand) : List UtxoSource :=
  sourcesFrom command.blockIdx 0 (claimRows command.claim)

/-- Two commands which do not get into each other's way: each passes the checks
that do not look at the tables, and they share no leaf and no output. -/
structure Compatible (blake3 : Bytes → Hash) (backend : ProofBackend)
    (first second : LedgerCommand) : Prop where
  vettedFirst : Vetted blake3 backend first
  vettedSecond : Vetted blake3 backend second
  pairs : (claimedPairs first++claimedPairs second).Nodup
  ids : ((commandSources first++commandSources second).map (starstreamUtxoId blake3)).Nodup

section Compatible
variable {blake3 : Bytes → Hash} {backend : ProofBackend} {first second : LedgerCommand}

theorem Compatible.nullifiers (h : Compatible blake3 backend first second) :
    Addable ∅ ((claimInputs first.claim).map (nullifierRow first.blockIdx)++
      (claimInputs second.claim).map (nullifierRow second.blockIdx)) := by
  rw [addable_empty,List.map_append,nullifierRow_keys,nullifierRow_keys,← List.map_append]
  exact h.pairs.map pairKey_inj

theorem Compatible.utxos (h : Compatible blake3 backend first second) :
    Addable ∅ ((commandSources first).map (utxoRow blake3)++
      (commandSources second).map (utxoRow blake3)) := by
  rw [addable_empty,← List.map_append,List.map_map]
  exact h.ids

theorem Compatible.acceptable_first (h : Compatible blake3 backend first second) :
    Acceptable blake3 backend first emptyDb :=
  acceptable_iff.mpr ⟨h.vettedFirst,(addable_append.mp h.nullifiers).1,(addable_append.mp h.utxos).1⟩

/-- The second is accepted after the first, whatever the log's marker says. -/
theorem Compatible.acceptable_second (h : Compatible blake3 backend first second)
    (metaRows : Table MetaKey Bytes) :
    Acceptable blake3 backend second { applied blake3 first emptyDb with raftMeta := metaRows } := by
  have hrows := rowsAdded_of_acceptable blake3 h.acceptable_first
  refine acceptable_iff.mpr ⟨h.vettedSecond,?_,?_⟩
  · dsimp only
    rw [hrows.nullifiers]
    exact (addable_append.mp h.nullifiers).2
  · dsimp only
    rw [hrows.utxos]
    exact (addable_append.mp h.utxos).2

/-- Any two commands recorded one after the other are compatible. -/
theorem compatible_of_recorded {commands : List LedgerCommand} {db : Db}
    (h : Recorded blake3 backend commands db) (hsub : List.Sublist [first,second] commands) :
    Compatible blake3 backend first second := by
  have hpairs := (hsub.flatMap claimedPairs).nodup (recorded_pairs_nodup h)
  have hids := h.utxosFree.nodup
  rw [List.map_map] at hids
  have hsources := ((hsub.flatMap commandSources).map (starstreamUtxoId blake3)).nodup hids
  simp only [List.flatMap_cons,List.flatMap_nil,List.append_nil] at hpairs hsources
  exact ⟨h.vetted first (hsub.subset List.mem_cons_self),
    h.vetted second (hsub.subset (List.mem_cons_of_mem _ List.mem_cons_self)),hpairs,hsources⟩

end Compatible

theorem pair_compatible :
    Compatible singleChunkHash pairBackend (firstCommand [1]) laterCommand where
  vettedFirst := pair_vetted_first
  vettedSecond := pair_vetted_later
  pairs := by decide
  ids := List.nodup_cons.mpr ⟨fun hmem => payload_ids_differ (List.mem_singleton.mp hmem),
    List.nodup_singleton _⟩

/-- The ledger after both claims. -/
def pairDb : Db :=
  applied singleChunkHash laterCommand (applied singleChunkHash (firstCommand [1]) emptyDb)

theorem pair_first_run (outside : Outside) :
    (applyClaimTx singleChunkHash pairBackend (firstCommand [1])).run (calmAt emptyDb outside) =
      (.ok (),calmAt (applied singleChunkHash (firstCommand [1]) emptyDb) outside) :=
  (applyClaimTx_calm _).mpr ⟨pair_compatible.acceptable_first,rfl⟩

theorem pair_later_run (outside : Outside) :
    (applyClaimTx singleChunkHash pairBackend laterCommand).run
        (calmAt (applied singleChunkHash (firstCommand [1]) emptyDb) outside) =
      (.ok (),calmAt pairDb outside) :=
  (applyClaimTx_calm _).mpr ⟨pair_compatible.acceptable_second _,rfl⟩

theorem pair_replay_fails (outside : Outside) :
    ∃ e, ((applyClaimTx singleChunkHash pairBackend (firstCommand [1])).run
      (calmAt pairDb outside)).1 = .error e := by
  have hclaimed : nullifierKey firstInput ∈ pairDb.nullifiers := by
    change _ ∈ addAll (addAll ∅ _) _
    rw [mem_addAll,mem_addAll]
    exact Or.inl (Or.inr (by decide))
  cases hrun : (applyClaimTx singleChunkHash pairBackend (firstCommand [1])).run
      (calmAt pairDb outside) with
  | mk r t =>
    cases r with
    | error e => exact ⟨e,rfl⟩
    | ok a =>
        have hok := ((applyClaimTx_calm _).mp hrun).1
        exact absurd hclaimed (hok.unclaimed _ firstInput List.mem_cons_self).2

theorem acceptedAlong_applyClaim {blake3 : Bytes → Hash} {backend : ProofBackend} {cbor : Cbor}
    {command : LedgerCommand} {s t : Ledger} {a : Unit} {rest : List WriteCmd}
    (hrun : (applyClaimTx blake3 backend command).run s = (.ok a,t)) :
    acceptedAlong blake3 backend cbor (.applyClaim command::rest) s =
      command::acceptedAlong blake3 backend cbor rest t := by
  rw [acceptedAlong,accepted_applyClaim _ _ _ hrun,runWriter,replyWith,hrun]
  rfl

/-- The verifier accepted the command's claim against the command's commitment. -/
def Verified (blake3 : Bytes → Hash) (backend : ProofBackend) (command : LedgerCommand) : Prop :=
  verify blake3 backend command.commitment (claimInputs command.claim)
    (claimProof command.claim) = .ok ()

/-- After any sequence of claim commands on an empty ledger, under any faults. -/
theorem no_leaf_claimed_twice (blake3 : Bytes → Hash) (backend : ProofBackend) (cbor : Cbor)
    (outside : Outside) (faults : ℕ → Option String) (cmds : List WriteCmd)
    (hcmds : ∀ cmd ∈ cmds, Applies cmd) :
    let commands := acceptedAlong blake3 backend cbor cmds ⟨emptyDb,outside,faults⟩
    let db := (runAll blake3 backend cbor cmds ⟨emptyDb,outside,faults⟩).db
    (commands.flatMap claimedPairs).Nodup ∧
      db.nullifiers.keys = ((commands.flatMap claimedPairs).map pairKey).toFinset ∧
      db.starstreamUtxos.keys.card = db.nullifiers.keys.card ∧
      (∀ k b, db.nullifiers.lookup k = some b → ∃ command ∈ commands,
        (k,b) ∈ (claimInputs command.claim).map (nullifierRow command.blockIdx) ∧
          Verified blake3 backend command) ∧
      ∀ id row, db.starstreamUtxos.lookup id = some row → ∃ command ∈ commands,
        (id,row) ∈ (sourcesFrom command.blockIdx 0 (claimRows command.claim)).map (utxoRow blake3) ∧
          Verified blake3 backend command := by
  intro commands db
  have hreach := reachable_runAll blake3 backend cbor (fun cmd hcmd => (hcmds cmd hcmd).ordinary)
    (.opened outside faults)
  have hrecorded : Recorded blake3 backend commands db := reachable_recorded blake3 backend cbor hreach
  refine ⟨recorded_pairs_nodup hrecorded,recorded_keys hrecorded,recorded_card hrecorded,?_,?_⟩
  · intro k b hlookup
    rcases recorded_nullifier hrecorded hlookup with ⟨command,hmem,hrow⟩
    exact ⟨command,hmem,hrow,(hrecorded.vetted command hmem).verified⟩
  · intro id row hlookup
    rcases recorded_utxo hrecorded hlookup with ⟨command,hmem,hrow⟩
    exact ⟨command,hmem,hrow,(hrecorded.vetted command hmem).verified⟩

/-- Two claims and the first of them once more: the replay is refused, and the
two leaves have one nullifier each. -/
theorem replayed_claim_recorded_once :
    acceptedAlong singleChunkHash pairBackend unusedCbor
        [.applyClaim (firstCommand [1]),.applyClaim laterCommand,.applyClaim (firstCommand [1])]
        ⟨emptyDb,⟨∅,false⟩,fun _ => none⟩ = [firstCommand [1],laterCommand] ∧
      (runAll singleChunkHash pairBackend unusedCbor
        [.applyClaim (firstCommand [1]),.applyClaim laterCommand,.applyClaim (firstCommand [1])]
        ⟨emptyDb,⟨∅,false⟩,fun _ => none⟩).db.nullifiers.keys = {(1,0),(1,1)} := by
  have hspec := no_leaf_claimed_twice singleChunkHash pairBackend unusedCbor ⟨∅,false⟩
    (fun _ => none) [.applyClaim (firstCommand [1]),.applyClaim laterCommand,
      .applyClaim (firstCommand [1])] (by simp [Applies])
  have hstart : (⟨emptyDb,⟨∅,false⟩,fun _ => none⟩ : Ledger) = calmAt emptyDb ⟨∅,false⟩ := rfl
  have haccepted : acceptedAlong singleChunkHash pairBackend unusedCbor
      [.applyClaim (firstCommand [1]),.applyClaim laterCommand,.applyClaim (firstCommand [1])]
      ⟨emptyDb,⟨∅,false⟩,fun _ => none⟩ = [firstCommand [1],laterCommand] := by
    obtain ⟨e,hreplay⟩ := pair_replay_fails ⟨∅,false⟩
    rw [hstart,acceptedAlong_applyClaim (pair_first_run _),acceptedAlong_applyClaim (pair_later_run _),
      acceptedAlong,accepted,acceptedPayload,hreplay]
    rfl
  have hfirst : claimedPairs (firstCommand [1]) = [(1,0)] := rfl
  have hlater : claimedPairs laterCommand = [(1,1)] := rfl
  refine ⟨haccepted,?_⟩
  rw [hspec.2.1,haccepted,List.flatMap_cons,List.flatMap_singleton,hfirst,hlater]
  rfl

section Outputs
variable {blake3 : Bytes → Hash} {backend : ProofBackend}

/-- The strings whose digests tell all these outputs apart. -/
def idStrings (commands : List LedgerCommand) (command : LedgerCommand) : List Bytes :=
  (sourcesOf commands++commandSources command).map utxoPreimage

/-- Different sources have different identifiers, up to a collision. -/
theorem ids_nodup_iff (us : List UtxoSource) :
    ((us.map (starstreamUtxoId blake3)).Nodup ∨ CollisionAmong blake3 (us.map utxoPreimage)) ↔
      (us.Nodup ∨ CollisionAmong blake3 (us.map utxoPreimage)) := by
  constructor
  · intro hor
    exact hor.imp_left (List.Nodup.of_map _)
  · intro hor
    rcases hor with hnodup | hcol
    · by_cases hcol : CollisionAmong blake3 (us.map utxoPreimage)
      · exact Or.inr hcol
      · refine Or.inl (List.Nodup.map_on ?_ hnodup)
        intro u hu v hv hid
        have hpreimage := eq_or_collision (List.mem_map_of_mem hu) (List.mem_map_of_mem hv) hid
        exact utxoPreimage_inj (hpreimage.resolve_right hcol)
    · exact Or.inr hcol

/-- Free identifiers for the new outputs, in terms of all identifiers so far. -/
theorem utxos_addable_iff {commands : List LedgerCommand} {db : Db}
    (h : Recorded blake3 backend commands db) (command : LedgerCommand) :
    Addable db.starstreamUtxos ((commandSources command).map (utxoRow blake3)) ↔
      ((sourcesOf commands++commandSources command).map (starstreamUtxoId blake3)).Nodup := by
  have hids : ((sourcesOf commands++commandSources command).map (starstreamUtxoId blake3)) =
      ((sourcesOf commands).map (utxoRow blake3)++
        (commandSources command).map (utxoRow blake3)).map Prod.fst := by
    rw [← List.map_append,List.map_map]
    rfl
  rw [hids,← addable_empty,addable_append,← h.utxos]
  exact (and_iff_right h.utxosFree).symm

/-- The outputs of a command use no combination twice and none which an accepted
command has used. -/
structure Unminted (commands : List LedgerCommand) (command : LedgerCommand) : Prop where
  nodup : (commandSources command).Nodup
  unused : ∀ u ∈ commandSources command, u ∉ sourcesOf commands

theorem sources_nodup_iff {commands : List LedgerCommand} {db : Db}
    (h : Recorded blake3 backend commands db) (command : LedgerCommand) :
    (sourcesOf commands++commandSources command).Nodup ↔ Unminted commands command := by
  have hold : (sourcesOf commands).Nodup := by
    have hids := addable_empty.mp h.utxosFree
    rw [List.map_map] at hids
    exact List.Nodup.of_map _ hids
  rw [List.nodup_append']
  constructor
  · intro hall
    exact ⟨hall.2.1,fun u hu hmem => hall.2.2 hmem hu⟩
  · intro hnew
    exact ⟨hold,hnew.nodup,fun u hmem hu => hnew.unused u hu hmem⟩

theorem pairs_addable {command : LedgerCommand} {db : Db} (hpairs : (claimedPairs command).Nodup)
    (hfresh : ∀ pair ∈ claimedPairs command, pairKey pair ∉ db.nullifiers) :
    Addable db.nullifiers ((claimInputs command.claim).map (nullifierRow command.blockIdx)) := by
  constructor
  · rw [nullifierRow_keys]
    exact hpairs.map pairKey_inj
  · intro k hk
    rw [nullifierRow_keys] at hk
    rcases List.mem_map.mp hk with ⟨pair,hpair,rfl⟩
    exact hfresh pair hpair

/-- A verified claim of free leaves is accepted exactly when its vectors match
and no earlier claim has used its recipient, payload, block index and position. -/
theorem claim_unblocked_iff {cbor : Cbor} {db : Db} {outside : Outside}
    {commands : List LedgerCommand}
    (h : Reachable blake3 backend cbor (calmAt db outside) commands) {command : LedgerCommand}
    (hverified : verify blake3 backend command.commitment (claimInputs command.claim)
      (claimProof command.claim) = .ok ())
    (hpairs : (claimedPairs command).Nodup)
    (hindices : ∀ pair ∈ claimedPairs command, pair.2.toNat < 2^63)
    (hfresh : ∀ pair ∈ claimedPairs command, pairKey pair ∉ db.nullifiers)
    (hvalues : ∀ w ∈ claimWitnesses command.claim, (payloadValue w.leafPayload).toNat < 2^63)
    (hblock : command.blockIdx.toNat < 2^63) :
    ((∃ t, (applyClaimTx blake3 backend command).run (calmAt db outside) = (.ok (),t)) ∨
        CollisionAmong blake3 (idStrings commands command)) ↔
      (((claimInputs command.claim).length = (claimWitnesses command.claim).length ∧
          Unminted commands command) ∨
        CollisionAmong blake3 (idStrings commands command)) := by
  have hrecorded : Recorded blake3 backend commands db := reachable_recorded blake3 backend cbor h
  have hsources := @ids_nodup_iff blake3 (sourcesOf commands++commandSources command)
  rw [← utxos_addable_iff hrecorded,sources_nodup_iff hrecorded] at hsources
  constructor
  · intro hor
    rcases hor with haccepted | hcol
    · rcases haccepted with ⟨t,hrun⟩
      have hsplit := acceptable_iff.mp ((applyClaimTx_calm blake3).mp hrun).1
      exact (hsources.mp (Or.inl hsplit.2.2)).imp_left fun hunminted => ⟨hsplit.1.arity,hunminted⟩
    · exact Or.inr hcol
  · intro hor
    rcases hor with hfree | hcol
    · apply (hsources.mpr (Or.inl hfree.2)).imp_left
      intro hutxos
      have hvetted : Vetted blake3 backend command := by
        refine ⟨hblock,hfree.1,hverified,?_,?_⟩
        · intro r hr
          exact hindices _ (List.mem_map_of_mem (List.of_mem_zip hr).1)
        · intro r hr
          exact hvalues r.2 (List.of_mem_zip hr).2
      have hacceptable := acceptable_iff.mpr ⟨hvetted,pairs_addable hpairs hfresh,hutxos⟩
      exact ⟨_,(applyClaimTx_calm blake3).mpr ⟨hacceptable,rfl⟩⟩
    · exact Or.inr hcol

end Outputs

/-- One payload list in the first two sub-trees. -/
def twinPayloads (i : Fin 7) : List Bytes := if i.val < 2 then [[1],[2],[3]] else []

def twinCommitment : OmegaCommitment := commitmentOver singleChunkHash twinPayloads

theorem twin_honest (i : Fin 7) :
    HonestSubTree singleChunkHash twinCommitment i (twinPayloads i)
      (buildLayersV1 singleChunkHash (leafRow singleChunkHash (subTreeIdOf i) (twinPayloads i))) := by
  apply commitmentOver_honest singleChunkHash twinPayloads i
  · revert i
    decide
  · revert i
    decide

/-- The proof envelope for the first leaf of a sub-tree. -/
def twinEnvelope (i : Fin 7) (rngSeed : UInt64) : ProofEnvelope :=
  { envelopeFor singleChunkHash twinCommitment [slotInput twinCommitment i 0] [2,16] with
    config := ⟨rngSeed⟩ }

def twinBackend : ProofBackend := listedBackend [twinEnvelope 0 1,twinEnvelope 1 2]

/-- The claim of that leaf with the payload committed there. -/
def twinCommand (i : Fin 7) (rngSeed : UInt64) : LedgerCommand where
  blockIdx := 0
  commitment := twinCommitment
  claim := .utxo ⟨slotInput twinCommitment i 0,⟨[1],[],[]⟩,encodeEnvelope (twinEnvelope i rngSeed)⟩

theorem twin_verified {i : Fin 7} {rngSeed : UInt64}
    (hdecode : twinBackend.decodeEnvelope (encodeEnvelope (twinEnvelope i rngSeed)) =
      some (twinEnvelope i rngSeed)) :
    verify singleChunkHash twinBackend twinCommitment [slotInput twinCommitment i 0]
      (encodeEnvelope (twinEnvelope i rngSeed)) = .ok () := by
  apply listedBackend_verify hdecode
  · exact envelopeFor_checks (twin_honest i) [0] [2,16]
  · rfl

theorem twin_verified_first :
    verify singleChunkHash twinBackend twinCommitment [slotInput twinCommitment 0 0]
      (encodeEnvelope (twinEnvelope 0 1)) = .ok () :=
  twin_verified (listedBackend_decodes_first _ _)

theorem twin_verified_second :
    verify singleChunkHash twinBackend twinCommitment [slotInput twinCommitment 1 0]
      (encodeEnvelope (twinEnvelope 1 2)) = .ok () := by
  apply twin_verified
  apply listedBackend_decodes_second []
  apply encodeEnvelope_ne
  · decide
  · decide
  · decide

theorem twin_first_run (outside : Outside) :
    (applyClaimTx singleChunkHash twinBackend (twinCommand 0 1)).run (calmAt emptyDb outside) =
      (.ok (),calmAt (applied singleChunkHash (twinCommand 0 1) emptyDb) outside) := by
  have hvetted : Vetted singleChunkHash twinBackend (twinCommand 0 1) :=
    vetted_utxo zero_in_range twin_verified_first zero_in_range zero_in_range
  exact (applyClaimTx_calm singleChunkHash).mpr ⟨utxo_acceptable_empty hvetted,rfl⟩

theorem twin_fresh :
    ∀ pair ∈ claimedPairs (twinCommand 1 2),
      pairKey pair ∉ (applied singleChunkHash (twinCommand 0 1) emptyDb).nullifiers := by
  intro pair hpair hmem
  rw [List.mem_singleton.mp hpair] at hmem
  have hkey := mem_addAll.mp hmem
  rcases hkey with hempty | hkey
  · exact Finmap.notMem_empty hempty
  · have hdiffer : ((2,0) : ℤ × ℤ) ≠ (1,0) := by decide
    exact hdiffer (List.mem_singleton.mp hkey)

/-- The same payload for the same recipient in two sub-trees: once the first leaf
is claimed, the claim of the second is refused although its proof is good and its
leaf is free. -/
theorem twin_claim_blocked :
    ∃ (backend : ProofBackend) (cbor : Cbor) (db : Db) (outside : Outside)
      (commands : List LedgerCommand) (command : LedgerCommand),
      Reachable singleChunkHash backend cbor (calmAt db outside) commands ∧
      verify singleChunkHash backend command.commitment (claimInputs command.claim)
        (claimProof command.claim) = .ok () ∧
      (claimedPairs command).Nodup ∧
      (∀ pair ∈ claimedPairs command, pair.2.toNat < 2^63 ∧ pairKey pair ∉ db.nullifiers) ∧
      (∀ w ∈ claimWitnesses command.claim, (payloadValue w.leafPayload).toNat < 2^63) ∧
      command.blockIdx.toNat < 2^63 ∧
      ¬((∃ t, (applyClaimTx singleChunkHash backend command).run (calmAt db outside) = (.ok (),t)) ∨
        CollisionAmong singleChunkHash (idStrings commands command)) := by
  have hreach := reachable_accepted singleChunkHash twinBackend unusedCbor
    (reachable_calm_empty _ _ _ ⟨∅,false⟩) (twin_first_run ⟨∅,false⟩)
  refine ⟨twinBackend,unusedCbor,_,_,[twinCommand 0 1],twinCommand 1 2,hreach,twin_verified_second,
    List.nodup_singleton _,?_,?_,zero_in_range,?_⟩
  · intro pair hpair
    refine ⟨?_,twin_fresh pair hpair⟩
    rw [List.mem_singleton.mp hpair]
    exact zero_in_range
  · intro w hw
    rw [List.mem_singleton.mp hw]
    exact zero_in_range
  · intro hor
    rcases hor with haccepted | hcol
    · rcases haccepted with ⟨t,hrun⟩
      have hsplit := acceptable_iff.mp ((applyClaimTx_calm singleChunkHash).mp hrun).1
      have hrecorded := reachable_recorded singleChunkHash twinBackend unusedCbor hreach
      have hids := (utxos_addable_iff hrecorded (twinCommand 1 2)).mp hsplit.2.2
      have hnodup := List.Nodup.of_map _ hids
      have hunused := ((sources_nodup_iff hrecorded (twinCommand 1 2)).mp hnodup).unused
      exact hunused _ List.mem_cons_self List.mem_cons_self
    · rcases hcol with ⟨a,ha,b,hb,hne,-⟩
      have hsame : idStrings [twinCommand 0 1] (twinCommand 1 2) =
          List.replicate 2 (utxoPreimage ⟨zeroHash,[1],0,0⟩) := rfl
      rw [hsame] at ha hb
      exact hne ((List.eq_of_mem_replicate ha).trans (List.eq_of_mem_replicate hb).symm)

/-- On an empty ledger the same claim is accepted. -/
theorem twin_claim_alone_accepted :
    (∃ t, (applyClaimTx singleChunkHash twinBackend (twinCommand 1 2)).run
        (calmAt emptyDb ⟨∅,false⟩) = (.ok (),t)) ∨
      CollisionAmong singleChunkHash (idStrings [] (twinCommand 1 2)) := by
  have hpairs : (claimedPairs (twinCommand 1 2)).Nodup := List.nodup_singleton _
  refine (claim_unblocked_iff (reachable_calm_empty singleChunkHash twinBackend unusedCbor ⟨∅,false⟩)
    twin_verified_second hpairs ?_ ?_ ?_ zero_in_range).mpr (Or.inl ⟨rfl,?_⟩)
  · intro pair hpair
    rw [List.mem_singleton.mp hpair]
    exact zero_in_range
  · intro pair _
    exact Finmap.notMem_empty
  · intro w hw
    rw [List.mem_singleton.mp hw]
    exact zero_in_range
  · exact ⟨List.nodup_singleton _,fun _ _ hmem => List.not_mem_nil hmem⟩

end OmegaHarness.ClaimUniqueness
