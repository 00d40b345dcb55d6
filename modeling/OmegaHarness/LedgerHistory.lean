import OmegaHarness.WriterFrames

/-!
# What the tables owe to the accepted claims

Along a run the writer accepts a list of commands. The nullifiers are then
exactly those of their public inputs and the Starstream table holds exactly
their outputs, in whatever order and under whatever faults the commands came.
This is `Recorded`; one accepted claim extends it by its own rows, every other
statement of the writer leaves it alone, and the whole run follows by induction.

A restored snapshot carries the history of the node which wrote it, so the
invariant also survives the exchange of snapshots between nodes.
-/
namespace OmegaHarness.LedgerHistory
open DomainHashes ClaimTypes ClaimVerifier FaultyTransactions KeyedTables LedgerStore RaftTypes
open ClaimApplication LedgerWriter WriterFrames

/-- The part of acceptability which no table decides. -/
structure Vetted (blake3 : Bytes → Hash) (backend : ProofBackend) (command : LedgerCommand) : Prop where
  blockIdx : command.blockIdx.toNat < 2^63
  arity : (claimInputs command.claim).length = (claimWitnesses command.claim).length
  verified : verify blake3 backend command.commitment (claimInputs command.claim)
    (claimProof command.claim) = .ok ()
  indices : ∀ r ∈ claimRows command.claim, r.1.leafIndex.toNat < 2^63
  values : ∀ r ∈ claimRows command.claim, (payloadValue r.2.leafPayload).toNat < 2^63

theorem acceptable_iff {blake3 : Bytes → Hash} {backend : ProofBackend} {command : LedgerCommand}
    {db : Db} :
    Acceptable blake3 backend command db ↔ Vetted blake3 backend command ∧
      Addable db.nullifiers ((claimInputs command.claim).map (nullifierRow command.blockIdx)) ∧
      Addable db.starstreamUtxos
        ((sourcesFrom command.blockIdx 0 (claimRows command.claim)).map (utxoRow blake3)) := by
  constructor
  · intro h
    have hrows := rowsAdded_of_acceptable blake3 h
    exact ⟨⟨h.blockIdx,h.arity,h.verified,h.insertable.indices,h.insertable.values⟩,
      hrows.nullifiersFree,hrows.utxosFree⟩
  · intro h
    refine ⟨h.1.blockIdx,h.1.arity,h.1.verified,h.1.indices,h.1.values,?_,h.2.2⟩
    rw [claimRows_nullifiers h.1.arity]
    exact h.2.1

section Single
variable {blake3 : Bytes → Hash} {backend : ProofBackend} {blockIdx : UInt64}
  {commitment : OmegaCommitment} {claim : ClaimUtxo}

/-- A claim of one leaf is vetted by its proof and its three numbers. -/
theorem vetted_utxo (hblock : blockIdx.toNat < 2^63)
    (hverified : verify blake3 backend commitment [claim.publicInput] claim.proof = .ok ())
    (hindex : claim.publicInput.leafIndex.toNat < 2^63)
    (hvalue : (payloadValue claim.witness.leafPayload).toNat < 2^63) :
    Vetted blake3 backend ⟨blockIdx,commitment,.utxo claim⟩ where
  blockIdx := hblock
  arity := rfl
  verified := hverified
  indices := by
    intro r hr
    rw [List.mem_singleton.mp hr]
    exact hindex
  values := by
    intro r hr
    rw [List.mem_singleton.mp hr]
    exact hvalue

theorem utxo_acceptable_empty (h : Vetted blake3 backend ⟨blockIdx,commitment,.utxo claim⟩) :
    Acceptable blake3 backend ⟨blockIdx,commitment,.utxo claim⟩ emptyDb :=
  acceptable_iff.mpr ⟨h,addable_empty_one _,addable_empty_one _⟩

end Single

/-- The nullifier rows of a list of commands, in order. -/
def nullifierRowsOf (commands : List LedgerCommand) : List ((ℤ × ℤ) × ℤ) :=
  commands.flatMap fun command =>
    (claimInputs command.claim).map (nullifierRow command.blockIdx)

/-- The sources of the outputs of a list of commands, in order. -/
def sourcesOf (commands : List LedgerCommand) : List UtxoSource :=
  commands.flatMap fun command => sourcesFrom command.blockIdx 0 (claimRows command.claim)

section Invariant
variable (blake3 : Bytes → Hash) (backend : ProofBackend)

/-- The two ledger tables hold the rows of these commands and no others. -/
structure Recorded (commands : List LedgerCommand) (db : Db) : Prop where
  vetted : ∀ command ∈ commands, Vetted blake3 backend command
  nullifiersFree : Addable ∅ (nullifierRowsOf commands)
  nullifiers : db.nullifiers = addAll ∅ (nullifierRowsOf commands)
  utxosFree : Addable ∅ ((sourcesOf commands).map (utxoRow blake3))
  utxos : db.starstreamUtxos = addAll ∅ ((sourcesOf commands).map (utxoRow blake3))

theorem recorded_empty : Recorded blake3 backend [] emptyDb :=
  ⟨by simp,addable_nil _,rfl,addable_nil _,rfl⟩

/-- The step which matters: an accepted claim appends its own rows. -/
theorem recorded_applied {commands : List LedgerCommand} {command : LedgerCommand} {db : Db}
    (h : Recorded blake3 backend commands db) (hok : Acceptable blake3 backend command db) :
    Recorded blake3 backend (commands++[command]) (applied blake3 command db) := by
  have hsplit := acceptable_iff.mp hok
  have hrows := rowsAdded_of_acceptable blake3 hok
  have hnullifiers : nullifierRowsOf (commands++[command]) = nullifierRowsOf commands++
      (claimInputs command.claim).map (nullifierRow command.blockIdx) := by
    simp [nullifierRowsOf]
  have hutxos : (sourcesOf (commands++[command])).map (utxoRow blake3) =
      (sourcesOf commands).map (utxoRow blake3)++
        (sourcesFrom command.blockIdx 0 (claimRows command.claim)).map (utxoRow blake3) := by
    simp [sourcesOf]
  constructor
  · intro other hother
    rcases List.mem_append.mp hother with hold | hnew
    · exact h.vetted other hold
    · rw [List.mem_singleton.mp hnew]
      exact hsplit.1
  · rw [hnullifiers,addable_append,← h.nullifiers]
    exact ⟨h.nullifiersFree,hsplit.2.1⟩
  · rw [hnullifiers,addAll_append,← h.nullifiers]
    exact hrows.nullifiers
  · rw [hutxos,addable_append,← h.utxos]
    exact ⟨h.utxosFree,hsplit.2.2⟩
  · rw [hutxos,addAll_append,← h.utxos]
    exact hrows.utxos

end Invariant

theorem recorded_ledgerOnly (blake3 : Bytes → Hash) (backend : ProofBackend)
    (commands : List LedgerCommand) : LedgerOnly (Recorded blake3 backend commands) := by
  intro db db' hnullifiers hutxos h
  exact ⟨h.vetted,h.nullifiersFree,hnullifiers.trans h.nullifiers,h.utxosFree,hutxos.trans h.utxos⟩

section Runs
variable (blake3 : Bytes → Hash) (backend : ProofBackend) (cbor : Cbor)

/-- The command of a payload, if the ledger accepts it here. -/
def acceptedPayload (payload : EntryPayload) (s : Ledger) : List LedgerCommand :=
  match payload with
  | .blank => []
  | .membership _ => []
  | .normal command =>
      match ((applyClaimTx blake3 backend command).run s).1 with
      | .ok _ => [command]
      | .error _ => []

/-- The commands of a batch which are accepted, up to the first storage error. -/
def acceptedEntries : List Entry → Ledger → List LedgerCommand
  | [],_ => []
  | entry::rest,s =>
      acceptedPayload blake3 backend entry.payload s++
        match (applyEntry blake3 backend cbor entry).run s with
        | (.ok _,t) => acceptedEntries rest t
        | (.error _,_) => []

def accepted : WriteCmd → Ledger → List LedgerCommand
  | .applyClaim command,s => acceptedPayload blake3 backend (.normal command) s
  | .applyRaftEntries entries _,s => acceptedEntries blake3 backend cbor entries s
  | _,_ => []

theorem accepted_applyClaim {s t : Ledger} {command : LedgerCommand} {a : Unit}
    (hrun : (applyClaimTx blake3 backend command).run s = (.ok a,t)) :
    accepted blake3 backend cbor (.applyClaim command) s = [command] := by
  rw [accepted,acceptedPayload,hrun]

theorem recorded_applyClaimTx {commands : List LedgerCommand} {s : Ledger}
    (h : Recorded blake3 backend commands s.db) (command : LedgerCommand) :
    Recorded blake3 backend (commands++acceptedPayload blake3 backend (.normal command) s)
      ((applyClaimTx blake3 backend command).run s).2.db := by
  rw [acceptedPayload]
  cases hrun : (applyClaimTx blake3 backend command).run s with
  | mk r t =>
    cases r with
    | error e =>
        have hsame := atomic_applyClaimTx blake3 backend command s e t hrun
        simpa [hsame] using h
    | ok a =>
        have hspec := applyClaimTx_ok blake3 hrun
        dsimp only
        rw [hspec.2]
        exact recorded_applied blake3 backend h hspec.1

theorem recorded_applyPayload {commands : List LedgerCommand} {s : Ledger}
    (h : Recorded blake3 backend commands s.db) (payload : EntryPayload) :
    Recorded blake3 backend (commands++acceptedPayload blake3 backend payload s)
      ((applyPayload blake3 backend payload).run s).2.db := by
  cases payload with
  | blank => simpa [acceptedPayload,applyPayload,pure_run] using h
  | membership m => simpa [acceptedPayload,applyPayload,pure_run] using h
  | normal command =>
      refine keeps_after ?_ (recorded_applyClaimTx blake3 backend h command)
      intro result
      cases result <;> exact keeps_pure _

/-- A fault-free entry whose claim is acceptable and whose identifier encodes. -/
theorem applyEntry_accepts {command : LedgerCommand} {logId : LogId} {bytes : Bytes} {db : Db}
    {outside : Outside} (hok : Acceptable blake3 backend command db)
    (hencode : cbor.logId.encode logId = .ok bytes) :
    (applyEntry blake3 backend cbor ⟨logId,.normal command⟩).run (calmAt db outside) =
      (.ok .ofAccepted,calmAt { applied blake3 command db with
        raftMeta := db.raftMeta.insert .lastAppliedLogId bytes } outside) := by
  have hrun := (@applyClaimTx_calm blake3 backend command db outside () _).mpr ⟨hok,rfl⟩
  have hpayload : (applyPayload blake3 backend (.normal command)).run (calmAt db outside) =
      (.ok .ofAccepted,calmAt (applied blake3 command db) outside) := by
    rw [applyPayload,bind_run,attempt_run,hrun]
    rfl
  rw [applyEntry,bind_run,hpayload]
  dsimp only
  rw [hencode]
  rfl

theorem acceptedEntries_accepts {command : LedgerCommand} {logId : LogId} {bytes : Bytes} {db : Db}
    {outside : Outside} (hok : Acceptable blake3 backend command db)
    (hencode : cbor.logId.encode logId = .ok bytes) (rest : List Entry) :
    acceptedEntries blake3 backend cbor (⟨logId,.normal command⟩::rest) (calmAt db outside) =
      command::acceptedEntries blake3 backend cbor rest (calmAt { applied blake3 command db with
        raftMeta := db.raftMeta.insert .lastAppliedLogId bytes } outside) := by
  have hrun := (@applyClaimTx_calm blake3 backend command db outside () _).mpr ⟨hok,rfl⟩
  rw [acceptedEntries,acceptedPayload,hrun,applyEntry_accepts blake3 backend cbor hok hencode]
  rfl

theorem recorded_applyEntry {commands : List LedgerCommand} {s : Ledger}
    (h : Recorded blake3 backend commands s.db) (entry : Entry) :
    Recorded blake3 backend (commands++acceptedPayload blake3 backend entry.payload s)
      ((applyEntry blake3 backend cbor entry).run s).2.db := by
  refine keeps_after ?_ (recorded_applyPayload blake3 backend h entry.payload)
  intro response
  refine keeps_bind (keeps_ofExcept _) ?_
  intro lastApplied
  exact keeps_bind (keeps_saveRaftMeta ((recorded_ledgerOnly blake3 backend _).ignoresMeta _) _) fun _ => keeps_pure _

theorem recorded_applyEntries {commands : List LedgerCommand} {s : Ledger}
    (h : Recorded blake3 backend commands s.db) (entries : List Entry) :
    Recorded blake3 backend (commands++acceptedEntries blake3 backend cbor entries s)
      ((applyEntries blake3 backend cbor entries).run s).2.db := by
  induction entries generalizing commands s with
  | nil => simpa [acceptedEntries,applyEntries,pure_run] using h
  | cons entry rest ih =>
      have hentry := recorded_applyEntry blake3 backend cbor h entry
      rw [applyEntries,bind_run,acceptedEntries,← List.append_assoc]
      cases hrun : (applyEntry blake3 backend cbor entry).run s with
      | mk r t =>
        rw [hrun] at hentry
        cases r with
        | error e => simpa using hentry
        | ok response => exact keeps_after (fun _ => keeps_pure _) (ih hentry)

theorem recorded_applyRaftEntries {commands : List LedgerCommand} {s : Ledger}
    (h : Recorded blake3 backend commands s.db) (entries : List Entry)
    (lastMembership : Option Bytes) :
    Recorded blake3 backend (commands++acceptedEntries blake3 backend cbor entries s)
      ((applyRaftEntries blake3 backend cbor entries lastMembership).run s).2.db := by
  refine keeps_after ?_ (recorded_applyEntries blake3 backend cbor h entries)
  intro responses
  have honly := recorded_ledgerOnly blake3 backend
    (commands++acceptedEntries blake3 backend cbor entries s)
  exact keeps_bind (keeps_saveLastMembership (honly.ignoresMeta _) _) fun _ => keeps_pure _

end Runs

/-- The commands of a node in service, snapshot restores apart. -/
def Ordinary : WriteCmd → Prop
  | .restoreSnapshot _ => False
  | .insertSyntheticClaim _ _ _ => False
  | _ => True

/-- The commands which apply claims. -/
def Applies : WriteCmd → Prop
  | .applyClaim _ => True
  | .applyRaftEntries _ _ => True
  | _ => False

theorem Applies.ordinary {cmd : WriteCmd} (h : Applies cmd) : Ordinary cmd := by
  cases cmd <;> first | exact h.elim | trivial

section Steps
variable (blake3 : Bytes → Hash) (backend : ProofBackend) (cbor : Cbor)

/-- One turn of the writer extends the record by the commands it accepted. -/
theorem recorded_runWriter {commands : List LedgerCommand} {s : Ledger}
    (h : Recorded blake3 backend commands s.db) {cmd : WriteCmd} (hcmd : Ordinary cmd) :
    Recorded blake3 backend (commands++accepted blake3 backend cbor cmd s)
      (runWriter blake3 backend cbor cmd s).2.db := by
  have honly := recorded_ledgerOnly blake3 backend commands
  cases cmd with
  | applyClaim command => exact recorded_applyClaimTx blake3 backend h command
  | checkpointWalTruncate => simpa [accepted,runWriter,replyWith] using keeps_checkpointWalTruncate s h
  | snapshot snapshotId => simpa [accepted,runWriter,replyWith] using keeps_snapshot snapshotId s h
  | restoreSnapshot path => exact hcmd.elim
  | insertSyntheticClaim subTreeId leafIndex blockIdx => exact hcmd.elim
  | saveRaftMeta key value =>
      have hkept := keeps_saveRaftMeta (honly.ignoresMeta key) value s h
      simpa [accepted,runWriter,replyWith] using hkept
  | appendRaftLogs rows =>
      have hkept := keeps_appendRaftLogs honly.ignoresLog rows s h
      simpa [accepted,runWriter,replyWith] using hkept
  | deleteRaftLogsSince logIdx =>
      have hkept := keeps_deleteRaftLogsSince honly.ignoresLog logIdx s h
      simpa [accepted,runWriter,replyWith] using hkept
  | purgeRaftLogsUpto logIdx lastPurged =>
      have hkept := keeps_purgeRaftLogsUpto honly.ignoresLog (honly.ignoresMeta _) logIdx lastPurged s h
      simpa [accepted,runWriter,replyWith] using hkept
  | applyRaftEntries entries lastMembership =>
      exact recorded_applyRaftEntries blake3 backend cbor h entries lastMembership

/-- The states of a ledger, each with the commands its tables owe their rows to.
The files beside it and the faults ahead of it may change at any time, and it may
restore a snapshot of any reachable ledger. -/
inductive Reachable : Ledger → List LedgerCommand → Prop
  | opened (outside : Outside) (faults : ℕ → Option String) : Reachable ⟨emptyDb,outside,faults⟩ []
  | surroundings {s : Ledger} {commands : List LedgerCommand} (outside : Outside)
      (faults : ℕ → Option String) (h : Reachable s commands) :
      Reachable ⟨s.db,outside,faults⟩ commands
  | step {s : Ledger} {commands : List LedgerCommand} (cmd : WriteCmd) (hcmd : Ordinary cmd)
      (h : Reachable s commands) :
      Reachable (runWriter blake3 backend cbor cmd s).2
        (commands++accepted blake3 backend cbor cmd s)
  | restored {s source : Ledger} {commands sourceCommands : List LedgerCommand} (path : String)
      (h : Reachable s commands) (hsource : Reachable source sourceCommands)
      (hfile : s.world.files.lookup path = some (.database (imageOf source.db)))
      (hdb : ((restoreSnapshot path).run s).2.db = source.db) :
      Reachable ((restoreSnapshot path).run s).2 sourceCommands
  | unrestored {s : Ledger} {commands : List LedgerCommand} (path : String)
      (h : Reachable s commands) (hdb : ((restoreSnapshot path).run s).2.db = s.db) :
      Reachable ((restoreSnapshot path).run s).2 commands

theorem reachable_calm_empty (outside : Outside) :
    Reachable blake3 backend cbor (calmAt emptyDb outside) [] := .opened outside fun _ => none

theorem reachable_accepted {s t : Ledger} {commands : List LedgerCommand} {command : LedgerCommand}
    {a : Unit} (h : Reachable blake3 backend cbor s commands)
    (hrun : (applyClaimTx blake3 backend command).run s = (.ok a,t)) :
    Reachable blake3 backend cbor t (commands++[command]) := by
  have hstep : Reachable blake3 backend cbor ((applyClaimTx blake3 backend command).run s).2
      (commands++accepted blake3 backend cbor (.applyClaim command) s) :=
    Reachable.step (.applyClaim command) trivial h
  rw [accepted_applyClaim blake3 backend cbor hrun,hrun] at hstep
  exact hstep

theorem reachable_recorded {s : Ledger} {commands : List LedgerCommand}
    (h : Reachable blake3 backend cbor s commands) : Recorded blake3 backend commands s.db := by
  induction h with
  | opened outside faults => exact recorded_empty blake3 backend
  | surroundings outside faults h ih => exact ih
  | step cmd hcmd h ih => exact recorded_runWriter blake3 backend cbor ih hcmd
  | restored path h hsource hfile hdb ih ihsource =>
      rw [hdb]
      exact ihsource
  | unrestored path h hdb ih =>
      rw [hdb]
      exact ih

/-- Restoring any reachable ledger's snapshot leads to a reachable state again. -/
theorem reachable_restore {s source : Ledger} {commands sourceCommands : List LedgerCommand}
    {path : String} (h : Reachable blake3 backend cbor s commands)
    (hsource : Reachable blake3 backend cbor source sourceCommands)
    (hfile : s.world.files.lookup path = some (.database (imageOf source.db))) :
    ∃ known, Reachable blake3 backend cbor (runWriter blake3 backend cbor (.restoreSnapshot path) s).2
      known := by
  rcases restoreSnapshot_db hfile with hsame | hcopied
  · exact ⟨commands,.unrestored path h hsame⟩
  · exact ⟨sourceCommands,.restored path h hsource hfile hcopied⟩

/-- The session after a sequence of commands. -/
def runAll : List WriteCmd → Ledger → Ledger
  | [],s => s
  | cmd::rest,s => runAll rest (runWriter blake3 backend cbor cmd s).2

/-- The commands accepted along a sequence. -/
def acceptedAlong : List WriteCmd → Ledger → List LedgerCommand
  | [],_ => []
  | cmd::rest,s => accepted blake3 backend cbor cmd s++
      acceptedAlong rest (runWriter blake3 backend cbor cmd s).2

theorem recorded_runAll {cmds : List WriteCmd} (hcmds : ∀ cmd ∈ cmds, Ordinary cmd) {s : Ledger}
    {commands : List LedgerCommand} (h : Recorded blake3 backend commands s.db) :
    Recorded blake3 backend (commands++acceptedAlong blake3 backend cbor cmds s)
      (runAll blake3 backend cbor cmds s).db := by
  induction cmds generalizing s commands with
  | nil => simpa [runAll,acceptedAlong] using h
  | cons cmd rest ih =>
      have hsplit := List.forall_mem_cons.mp hcmds
      rw [acceptedAlong,← List.append_assoc]
      exact ih hsplit.2 (recorded_runWriter blake3 backend cbor h hsplit.1)

theorem reachable_runAll {cmds : List WriteCmd} (hcmds : ∀ cmd ∈ cmds, Ordinary cmd) {s : Ledger}
    {commands : List LedgerCommand} (h : Reachable blake3 backend cbor s commands) :
    Reachable blake3 backend cbor (runAll blake3 backend cbor cmds s)
      (commands++acceptedAlong blake3 backend cbor cmds s) := by
  induction cmds generalizing s commands with
  | nil => simpa [runAll,acceptedAlong] using h
  | cons cmd rest ih =>
      have hsplit := List.forall_mem_cons.mp hcmds
      rw [runAll,acceptedAlong,← List.append_assoc]
      exact ih hsplit.2 (.step cmd hsplit.1 h)

end Steps

end OmegaHarness.LedgerHistory
