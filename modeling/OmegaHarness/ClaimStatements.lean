import OmegaHarness.FaultStreams
import OmegaHarness.LedgerHistory

/-!
# The statements of one claim

An acceptable claim takes one statement to begin, one probe and two inserts for
each public input, and one to commit. It is accepted exactly when none of these
is struck by a local fault; otherwise the tables stay as they were, as they do
when the claim was not acceptable in the first place.
-/
namespace OmegaHarness.ClaimStatements
open DomainHashes ClaimTypes ClaimVerifier FaultyTransactions FaultStreams KeyedTables LedgerStore
open RaftTypes ClaimApplication LedgerWriter LedgerHistory
variable (blake3 : Bytes → Hash) (backend : ProofBackend)

theorem execute_takes {f : Db → Except LedgerError Db} {db db' : Db} (h : f db = .ok db')
    (outside : Outside) : Takes (execute f) db outside 1 () db' outside := by
  have hstatement : (f db).map (fun db => ((),db)) = .ok ((),db') := by
    rw [h]
    rfl
  exact takes_statement (f := fun db => (f db).map fun db => ((),db)) hstatement outside

theorem rejectReplays_takes {publicInputs : List ClaimPublicInputs} {db : Db}
    (h : ∀ p ∈ publicInputs, p.leafIndex.toNat < 2^63 ∧ nullifierKey p ∉ db.nullifiers)
    (outside : Outside) :
    Takes (rejectReplays publicInputs) db outside publicInputs.length () db outside := by
  induction publicInputs with
  | nil => exact takes_pure () db outside
  | cons p rest ih =>
      have hp := h p List.mem_cons_self
      have hrest := ih fun q hq => h q (List.mem_cons_of_mem p hq)
      have hrange : sqliteI64 "leaf_index" p.leafIndex = .ok p.leafIndex.toNat :=
        sqliteI64_ok.mpr ⟨hp.1,rfl⟩
      have hprobe : Takes (rejectReplay p) db outside (0+(1+0)) () db outside := by
        apply takes_bind (takes_ofExcept hrange db outside)
        apply takes_bind (takes_statement rfl outside)
        exact takes_ofExcept (if_neg fun hmem => hp.2 (of_decide_eq_true hmem)) db outside
      rw [List.length_cons,Nat.add_comm]
      exact takes_bind hprobe hrest

theorem insertNullifier_takes {p : ClaimPublicInputs} {db : Db} (hrange : p.leafIndex.toNat < 2^63)
    (hfree : nullifierKey p ∉ db.nullifiers) (blockIdx : ℤ) (outside : Outside) :
    Takes (insertNullifier p blockIdx) db outside (0+1) ()
      { db with nullifiers := db.nullifiers.insert (nullifierKey p) blockIdx } outside := by
  have hindex : sqliteI64 "leaf_index" p.leafIndex = .ok p.leafIndex.toNat :=
    sqliteI64_ok.mpr ⟨hrange,rfl⟩
  apply takes_bind (takes_ofExcept hindex db outside)
  exact execute_takes (FallibleSteps.map_ok.mpr ⟨_,insertRow_ok.mpr ⟨hfree,rfl⟩,rfl⟩) outside

theorem insertStarstreamUtxo_takes {p : ClaimPublicInputs} {w : ClaimWitness}
    {blockIdx ordinal : UInt64} {db : Db} (hrange : (payloadValue w.leafPayload).toNat < 2^63)
    (hfree : starstreamUtxoId blake3 (utxoSource p w blockIdx ordinal) ∉ db.starstreamUtxos)
    (blockIdxI64 : ℤ) (outside : Outside) :
    Takes (insertStarstreamUtxo blake3 p w blockIdx ordinal blockIdxI64) db outside (0+1) ()
      { db with
        starstreamUtxos := db.starstreamUtxos.insert
          (starstreamUtxoId blake3 (utxoSource p w blockIdx ordinal))
          (starstreamRow p.recipientStarstreamAddr (payloadValue w.leafPayload).toNat
            blockIdxI64) } outside := by
  have hvalue : sqliteI64 "value" (payloadValue w.leafPayload) =
      .ok (payloadValue w.leafPayload).toNat := sqliteI64_ok.mpr ⟨hrange,rfl⟩
  apply takes_bind (takes_ofExcept hvalue db outside)
  exact execute_takes (FallibleSteps.map_ok.mpr ⟨_,insertRow_ok.mpr ⟨hfree,rfl⟩,rfl⟩) outside

theorem insertRowsFrom_takes {blockIdx : UInt64} {ordinal : ℕ}
    {rows : List (ClaimPublicInputs × ClaimWitness)} {db : Db}
    (h : Insertable blake3 blockIdx ordinal rows db) (outside : Outside) :
    Takes (insertRowsFrom blake3 blockIdx blockIdx.toNat ordinal rows) db outside (2*rows.length) ()
      (inserted blake3 blockIdx ordinal rows db) outside := by
  induction rows generalizing ordinal db with
  | nil => exact takes_pure () db outside
  | cons r rest ih =>
      cases r with
      | mk p w =>
        rcases (insertable_cons blake3).mp h with ⟨hindex,hvalue,hkey,hid,hrest⟩
        have hnullifier := insertNullifier_takes hindex hkey blockIdx.toNat outside
        have hutxo := @insertStarstreamUtxo_takes blake3 p w blockIdx _ { db with
          nullifiers := db.nullifiers.insert (nullifierKey p) blockIdx.toNat } hvalue hid
          blockIdx.toNat outside
        rw [List.length_cons,show 2*(rest.length+1) = (0+1)+((0+1)+2*rest.length) by omega]
        exact takes_bind hnullifier (takes_bind hutxo (ih hrest))

/-- How many statements an acceptable claim takes. -/
def claimStatements (command : LedgerCommand) : ℕ := 3*(claimInputs command.claim).length+2

theorem applyClaimTx_takes {command : LedgerCommand} {db : Db}
    (h : Acceptable blake3 backend command db) (outside : Outside) :
    Takes (applyClaimTx blake3 backend command) db outside (claimStatements command) ()
      (applied blake3 command db) outside := by
  have hblock : sqliteI64 "block_idx" command.blockIdx = .ok command.blockIdx.toNat :=
    sqliteI64_ok.mpr ⟨h.blockIdx,rfl⟩
  have hverified : (verify blake3 backend command.commitment (claimInputs command.claim)
      (claimProof command.claim)).mapError LedgerError.verify = .ok () :=
    FallibleSteps.mapError_ok.mpr h.verified
  have hrows : (claimRows command.claim).length = (claimInputs command.claim).length := by
    rw [← claimRows_inputs h.arity,List.length_map]
  have hbody := takes_bind
    (f := fun _ => insertRowsFrom blake3 command.blockIdx command.blockIdx.toNat 0
      (claimRows command.claim))
    (rejectReplays_takes (h.unclaimed blake3) outside)
    (insertRowsFrom_takes blake3 h.insertable outside)
  rw [hrows,show (claimInputs command.claim).length+2*(claimInputs command.claim).length =
    3*(claimInputs command.claim).length by omega] at hbody
  rw [show claimStatements command = 0+(0+(0+claimStatements command)) by omega]
  apply takes_bind (takes_ofExcept hblock db outside)
  apply takes_bind (takes_ofExcept (parseClaim_ok.mpr ⟨h.arity,rfl⟩) db outside)
  apply takes_bind (takes_ofExcept hverified db outside)
  exact takes_transaction hbody

/-- The two tables which claims read and write. -/
structure SameClaims (a b : Db) : Prop where
  nullifiers : a.nullifiers = b.nullifiers
  utxos : a.starstreamUtxos = b.starstreamUtxos

variable {blake3} {backend}

theorem SameClaims.acceptable {a b : Db} (h : SameClaims a b) {command : LedgerCommand} :
    Acceptable blake3 backend command a ↔ Acceptable blake3 backend command b := by
  rw [acceptable_iff,acceptable_iff,h.nullifiers,h.utxos]

theorem SameClaims.applied {a b : Db} (h : SameClaims a b) (command : LedgerCommand) :
    SameClaims (applied blake3 command a) (applied blake3 command b) where
  nullifiers := by
    change addAll a.nullifiers _ = addAll b.nullifiers _
    rw [h.nullifiers]
  utxos := by
    change addAll a.starstreamUtxos _ = addAll b.starstreamUtxos _
    rw [h.utxos]

theorem applied_of_no_inputs {command : LedgerCommand} (h : claimInputs command.claim = []) (db : Db) :
    applied blake3 command db = db := by
  have hrows : claimRows command.claim = [] := by rw [claimRows,h,List.zip_nil_left]
  rw [applied,hrows]
  rfl

/-- A claim is refused once it has been applied. -/
theorem not_acceptable_applied {command : LedgerCommand} {db : Db}
    (h : claimInputs command.claim ≠ []) (hok : Acceptable blake3 backend command db) :
    ¬Acceptable blake3 backend command (ClaimApplication.applied blake3 command db) := by
  intro hagain
  have hrows := rowsAdded_of_acceptable blake3 hok
  rcases List.exists_mem_of_ne_nil _ h with ⟨p,hp⟩
  have hfree := ((acceptable_iff.mp hagain).2.1).fresh (nullifierRow command.blockIdx p).1
    (List.mem_map_of_mem (List.mem_map_of_mem hp))
  rw [hrows.nullifiers,mem_addAll] at hfree
  exact hfree (Or.inr (List.mem_map_of_mem (List.mem_map_of_mem hp)))

section Payloads
variable (blake3) (backend)

/-- A local fault strikes a claim which would have written rows. -/
def Interrupted : EntryPayload → Ledger → Prop
  | .blank,_ => False
  | .membership _,_ => False
  | .normal command,s =>
      Acceptable blake3 backend command s.db ∧ claimInputs command.claim ≠ [] ∧
        ∃ k < claimStatements command, s.faults k ≠ none

/-- What a payload makes of the database when nothing fails. -/
def settle (payload : EntryPayload) (db : Db) : Db :=
  ((applyPayload blake3 backend payload).run (calmAt db ⟨∅,false⟩)).2.db

theorem applyPayload_normal (command : LedgerCommand) (s : Ledger) :
    ∃ response, (applyPayload blake3 backend (.normal command)).run s =
      (.ok response,((applyClaimTx blake3 backend command).run s).2) := by
  rw [applyPayload,bind_run,attempt_run]
  cases (applyClaimTx blake3 backend command).run s with
  | mk result t => cases result <;> exact ⟨_,rfl⟩

variable {blake3} {backend}

theorem settle_accepts {command : LedgerCommand} {db : Db} (h : Acceptable blake3 backend command db) :
    settle blake3 backend (.normal command) db = applied blake3 command db := by
  rcases applyPayload_normal blake3 backend command (calmAt db ⟨∅,false⟩) with ⟨response,hrun⟩
  rw [settle,hrun,(applyClaimTx_calm (a := ()) blake3).mpr ⟨h,rfl⟩]
  rfl

/-- Whatever strikes on the way, a refused claim changes nothing. -/
theorem applyClaimTx_refused {command : LedgerCommand} {s : Ledger}
    (h : ¬Acceptable blake3 backend command s.db) :
    ((applyClaimTx blake3 backend command).run s).2.db = s.db := by
  cases hrun : (applyClaimTx blake3 backend command).run s with
  | mk result t =>
    cases result with
    | error e => exact atomic_applyClaimTx blake3 backend command s e t hrun
    | ok a => exact (h (applyClaimTx_ok blake3 hrun).1).elim

theorem settle_rejects {command : LedgerCommand} {db : Db} (h : ¬Acceptable blake3 backend command db) :
    settle blake3 backend (.normal command) db = db := by
  rcases applyPayload_normal blake3 backend command (calmAt db ⟨∅,false⟩) with ⟨response,hrun⟩
  rw [settle,hrun]
  exact applyClaimTx_refused h

/-- Only an acceptable claim with inputs writes. -/
theorem settle_unchanged {payload : EntryPayload} {db : Db}
    (h : ∀ command, payload = .normal command → Acceptable blake3 backend command db →
      claimInputs command.claim = []) :
    settle blake3 backend payload db = db := by
  cases payload with
  | blank => rfl
  | membership m => rfl
  | normal command =>
      by_cases hok : Acceptable blake3 backend command db
      · rw [settle_accepts hok,applied_of_no_inputs (h command rfl hok)]
      · exact settle_rejects hok

theorem settle_sameClaims {a b : Db} (h : SameClaims a b) (payload : EntryPayload) :
    SameClaims (settle blake3 backend payload a) (settle blake3 backend payload b) := by
  cases payload with
  | blank => exact h
  | membership m => exact h
  | normal command =>
      by_cases hok : Acceptable blake3 backend command a
      · rw [settle_accepts hok,settle_accepts (h.acceptable.mp hok)]
        exact h.applied command
      · rw [settle_rejects hok,settle_rejects fun hb => hok (h.acceptable.mpr hb)]
        exact h

/-- An entry which is applied again after a restart is absorbed by the replay check. -/
theorem settle_twice (payload : EntryPayload) (db : Db) :
    settle blake3 backend payload (settle blake3 backend payload db) =
      settle blake3 backend payload db := by
  apply settle_unchanged
  intro command hpayload hok
  rw [hpayload] at hok
  by_contra hsome
  by_cases hfirst : Acceptable blake3 backend command db
  · rw [settle_accepts hfirst] at hok
    exact not_acceptable_applied hsome hfirst hok
  · rw [settle_rejects hfirst] at hok
    exact hfirst hok

theorem settle_raftMeta (payload : EntryPayload) (db : Db) :
    (settle blake3 backend payload db).raftMeta = db.raftMeta := by
  cases payload with
  | blank => rfl
  | membership m => rfl
  | normal command =>
      by_cases hok : Acceptable blake3 backend command db
      · rw [settle_accepts hok]
        rfl
      · rw [settle_rejects hok]

theorem draws_execute (f : Db → Except LedgerError Db) : Draws (execute f) :=
  draws_statement fun db => (f db).map fun db => ((),db)

theorem draws_rejectReplays (publicInputs : List ClaimPublicInputs) :
    Draws (rejectReplays publicInputs) := by
  induction publicInputs with
  | nil => exact draws_pure ()
  | cons p rest ih =>
      refine draws_bind ?_ fun _ => ih
      exact draws_bind (draws_ofExcept _) fun _ => draws_bind (draws_statement _) fun _ =>
        draws_ofExcept _

theorem draws_insertRowsFrom (blockIdx : UInt64) (blockIdxI64 : ℤ) (ordinal : ℕ)
    (rows : List (ClaimPublicInputs × ClaimWitness)) :
    Draws (insertRowsFrom blake3 blockIdx blockIdxI64 ordinal rows) := by
  induction rows generalizing ordinal with
  | nil => exact draws_pure ()
  | cons r rest ih =>
      refine draws_bind ?_ fun _ => draws_bind ?_ fun _ => ih (ordinal+1)
      · exact draws_bind (draws_ofExcept _) fun _ => draws_execute _
      · exact draws_bind (draws_ofExcept _) fun _ => draws_execute _

theorem draws_applyClaimTx (command : LedgerCommand) :
    Draws (applyClaimTx blake3 backend command) := by
  refine draws_bind (draws_ofExcept _) fun _ => draws_bind (draws_ofExcept _) fun _ =>
    draws_bind (draws_ofExcept _) fun _ => draws_transaction ?_
  exact draws_bind (draws_rejectReplays _) fun _ => draws_insertRowsFrom _ _ _ _

theorem draws_applyPayload (payload : EntryPayload) : Draws (applyPayload blake3 backend payload) := by
  cases payload with
  | blank => exact draws_pure _
  | membership m => exact draws_pure _
  | normal command =>
      refine draws_bind (draws_attempt (draws_applyClaimTx command)) ?_
      intro result
      cases result <;> exact draws_pure _

/-- An interrupted claim leaves the database alone, and a crash is then final. -/
theorem applyPayload_interrupted {payload : EntryPayload} {s : Ledger}
    (h : Interrupted blake3 backend payload s) :
    ((applyPayload blake3 backend payload).run s).2.db = s.db ∧
      (Crashing s.faults → Dead ((applyPayload blake3 backend payload).run s).2.faults) := by
  cases payload with
  | blank => exact h.elim
  | membership m => exact h.elim
  | normal command =>
      rcases h with ⟨hok,-,hstruck⟩
      rcases (applyClaimTx_takes blake3 backend hok s.world).struck s.faults hstruck with
        ⟨e,t,j,hrun,hbefore,hleft⟩
      rcases applyPayload_normal blake3 backend command s with ⟨response,hpayload⟩
      rw [hpayload,hrun]
      refine ⟨atomic_applyClaimTx blake3 backend command _ e t hrun,?_⟩
      intro hcrash
      dsimp only
      rw [hleft]
      exact hcrash.dead hbefore

theorem applyPayload_settles {payload : EntryPayload} {s : Ledger}
    (h : ¬Interrupted blake3 backend payload s) :
    ((applyPayload blake3 backend payload).run s).2.db = settle blake3 backend payload s.db := by
  cases payload with
  | blank => rfl
  | membership m => rfl
  | normal command =>
      rcases applyPayload_normal blake3 backend command s with ⟨response,hpayload⟩
      rw [hpayload]
      dsimp only
      by_cases hok : Acceptable blake3 backend command s.db
      · rw [settle_accepts hok]
        rcases struck_or_quiet s.faults (claimStatements command) with hstruck | hquiet
        · have hnone : claimInputs command.claim = [] := by
            by_contra hsome
            exact h ⟨hok,hsome,hstruck⟩
          rcases (applyClaimTx_takes blake3 backend hok s.world).struck s.faults hstruck with
            ⟨e,t,j,hrun,-,-⟩
          rw [applied_of_no_inputs hnone,hrun]
          exact atomic_applyClaimTx blake3 backend command _ e t hrun
        · rw [(applyClaimTx_takes blake3 backend hok s.world).quiet s.faults hquiet]
      · rw [settle_rejects hok]
        exact applyClaimTx_refused hok

end Payloads

end OmegaHarness.ClaimStatements
