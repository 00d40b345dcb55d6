import OmegaHarness.RaftTypes

/-!
# Applying one claim

`apply_claim_tx` as a sequence of statements: range check, shape check, proof
check, and then one transaction which probes every nullifier before it inserts
the first one. The probes do not see the rows of their own claim, so a pair
repeated inside a claim is stopped by the primary key.

The main result says exactly when a fault-free call succeeds (`Acceptable`) and
which tables it then leaves behind (`applied`). A success under faults is also
a success without them, and a failure leaves the database as it was.
-/
namespace OmegaHarness.ClaimApplication
open DomainHashes ClaimTypes ClaimVerifier FaultyTransactions KeyedTables LedgerStore RaftTypes
open FallibleSteps (map_ok mapError_ok guard_ok)

structure ParsedClaim where
  publicInputs : List ClaimPublicInputs
  witnesses : List ClaimWitness
  proof : ProofBytes
  deriving DecidableEq, Repr

def parseClaim : ClaimTx → Except LedgerError ParsedClaim
  | .utxo claim => .ok ⟨[claim.publicInput],[claim.witness],claim.proof⟩
  | .collection claim =>
      if claim.publicInputs.length ≠ claim.witness.length then
        .error (.invalidClaim "collection arity mismatch")
      else .ok ⟨claim.publicInputs,claim.witness,claim.proof⟩

/-- The public inputs of a claim of either shape. -/
def claimInputs : ClaimTx → List ClaimPublicInputs
  | .utxo claim => [claim.publicInput]
  | .collection claim => claim.publicInputs

def claimWitnesses : ClaimTx → List ClaimWitness
  | .utxo claim => [claim.witness]
  | .collection claim => claim.witness

theorem parseClaim_ok {claim : ClaimTx} {parsed : ParsedClaim} :
    parseClaim claim = .ok parsed ↔
      (claimInputs claim).length = (claimWitnesses claim).length ∧
        parsed = ⟨claimInputs claim,claimWitnesses claim,claimProof claim⟩ := by
  cases claim with
  | utxo claim => simp [parseClaim,claimInputs,claimWitnesses,claimProof,eq_comm]
  | collection claim =>
      unfold parseClaim claimInputs claimWitnesses claimProof
      by_cases h : claim.publicInputs.length = claim.witness.length
      · simp [h,eq_comm]
      · simp [h]

/-- The primary key of a claimed leaf. -/
def nullifierKey (p : ClaimPublicInputs) : ℤ × ℤ := (p.subTreeId.toNat,p.leafIndex.toNat)

def rejectReplay (p : ClaimPublicInputs) : LedgerOp Unit := do
  let leafIndex ← ofExcept (sqliteI64 "leaf_index" p.leafIndex)
  let existing ← sql fun db => .ok (decide (((p.subTreeId.toNat : ℤ),leafIndex) ∈ db.nullifiers),db)
  ofExcept (if existing then .error (.replay p.subTreeId p.leafIndex) else .ok ())

theorem rejectReplay_calm {p : ClaimPublicInputs} {db : Db} {w : Outside} {a : Unit} {t : Ledger} :
    (rejectReplay p).run (calmAt db w) = (.ok a,t) ↔
      (p.leafIndex.toNat < 2^63 ∧ nullifierKey p ∉ db.nullifiers) ∧ t = calmAt db w := by
  rw [rejectReplay,ofExcept_bind_ok]
  simp only [sqliteI64_ok,bind_ok,sql_calm,ofExcept_ok,guard_ok]
  constructor
  · rintro ⟨_,⟨hrange,rfl⟩,existing,u,⟨db',hread,rfl⟩,hfree,rfl⟩
    cases hread
    exact ⟨⟨hrange,fun hmem => hfree (decide_eq_true hmem)⟩,rfl⟩
  · rintro ⟨⟨hrange,hfree⟩,rfl⟩
    exact ⟨_,⟨hrange,rfl⟩,_,_,⟨db,rfl,rfl⟩,fun hmem => hfree (of_decide_eq_true hmem),rfl⟩

def rejectReplays : List ClaimPublicInputs → LedgerOp Unit
  | [] => pure ()
  | p::rest => do
      rejectReplay p
      rejectReplays rest

theorem rejectReplays_calm {publicInputs : List ClaimPublicInputs} {db : Db} {w : Outside} {a : Unit}
    {t : Ledger} :
    (rejectReplays publicInputs).run (calmAt db w) = (.ok a,t) ↔
      (∀ p ∈ publicInputs, p.leafIndex.toNat < 2^63 ∧ nullifierKey p ∉ db.nullifiers) ∧
        t = calmAt db w := by
  induction publicInputs with
  | nil => simp [rejectReplays,pure_run,eq_comm]
  | cons p rest ih =>
      simp only [rejectReplays,bind_ok,rejectReplay_calm,List.forall_mem_cons]
      constructor
      · rintro ⟨_,u,⟨hp,rfl⟩,hrest⟩
        have hrest := ih.mp hrest
        exact ⟨⟨hp,hrest.1⟩,hrest.2⟩
      · rintro ⟨⟨hp,hrest⟩,ht⟩
        exact ⟨(),_,⟨hp,rfl⟩,ih.mpr ⟨hrest,ht⟩⟩

def nullifierConflict : LedgerError :=
  .sqlite (.uniqueConstraint "nullifiers.sub_tree_id, nullifiers.leaf_index")

def utxoConflict : LedgerError := .sqlite (.uniqueConstraint "starstream_utxos.utxo_id")

/-- A row with one checked integer is inserted if the integer is in range and its key free. -/
theorem insertChecked_calm {K V : Type} [DecidableEq K] {field : String} {n : UInt64}
    {conflict : LedgerError} {key : ℤ → K} {row : ℤ → V} {table : Db → Table K V}
    {put : Db → Table K V → Db} {db : Db} {w : Outside} {a : Unit} {t : Ledger} :
    (ofExcept (sqliteI64 field n) >>= fun checked => execute fun db =>
        (insertRow conflict (key checked) (row checked) (table db)).map (put db)).run (calmAt db w) =
        (.ok a,t) ↔
      n.toNat < 2^63 ∧ key n.toNat ∉ table db ∧
        t = calmAt (put db ((table db).insert (key n.toNat) (row n.toNat))) w := by
  simp only [ofExcept_bind_ok,sqliteI64_ok,execute_calm]
  constructor
  · rintro ⟨_,⟨hrange,rfl⟩,db',hinsert,rfl⟩
    obtain ⟨table,htable,rfl⟩ := map_ok.mp hinsert
    obtain ⟨hfree,rfl⟩ := insertRow_ok.mp htable
    exact ⟨hrange,hfree,rfl⟩
  · rintro ⟨hrange,hfree,rfl⟩
    exact ⟨_,⟨hrange,rfl⟩,_,map_ok.mpr ⟨_,insertRow_ok.mpr ⟨hfree,rfl⟩,rfl⟩,rfl⟩

def insertNullifier (p : ClaimPublicInputs) (blockIdx : ℤ) : LedgerOp Unit := do
  let leafIndex ← ofExcept (sqliteI64 "leaf_index" p.leafIndex)
  execute fun db =>
    (insertRow nullifierConflict ((p.subTreeId.toNat : ℤ),leafIndex) blockIdx db.nullifiers).map
      fun table => { db with nullifiers := table }

theorem insertNullifier_calm {p : ClaimPublicInputs} {blockIdx : ℤ} {db : Db} {w : Outside}
    {a : Unit} {t : Ledger} :
    (insertNullifier p blockIdx).run (calmAt db w) = (.ok a,t) ↔
      p.leafIndex.toNat < 2^63 ∧ nullifierKey p ∉ db.nullifiers ∧
        t = calmAt { db with nullifiers := db.nullifiers.insert (nullifierKey p) blockIdx } w := by
  rw [insertNullifier,insertChecked_calm]
  rfl

/-- What the identifier of one output of a claim is computed from. -/
def utxoSource (p : ClaimPublicInputs) (w : ClaimWitness) (blockIdx ordinal : UInt64) :
    UtxoSource where
  recipient := p.recipientStarstreamAddr
  leafPayload := w.leafPayload
  blockIdx := blockIdx
  ordinal := ordinal

def starstreamRow (recipient : Hash) (value blockIdx : ℤ) : UtxoRow where
  recipient := recipient
  value := value
  assetBlob := []
  datum := none
  scriptRef := none
  blockIdx := blockIdx
  spentIn := none

section Writer
variable (blake3 : Bytes → Hash)

def insertStarstreamUtxo (p : ClaimPublicInputs) (w : ClaimWitness) (blockIdx ordinal : UInt64)
    (blockIdxI64 : ℤ) : LedgerOp Unit := do
  let value ← ofExcept (sqliteI64 "value" (payloadValue w.leafPayload))
  execute fun db =>
    (insertRow utxoConflict (starstreamUtxoId blake3 (utxoSource p w blockIdx ordinal))
      (starstreamRow p.recipientStarstreamAddr value blockIdxI64) db.starstreamUtxos).map
      fun table => { db with starstreamUtxos := table }

theorem insertStarstreamUtxo_calm {p : ClaimPublicInputs} {w : ClaimWitness}
    {blockIdx ordinal : UInt64} {blockIdxI64 : ℤ} {db : Db} {outside : Outside} {a : Unit}
    {t : Ledger} :
    (insertStarstreamUtxo blake3 p w blockIdx ordinal blockIdxI64).run (calmAt db outside) = (.ok a,t) ↔
      (payloadValue w.leafPayload).toNat < 2^63 ∧
        starstreamUtxoId blake3 (utxoSource p w blockIdx ordinal) ∉ db.starstreamUtxos ∧
        t = calmAt { db with
          starstreamUtxos := db.starstreamUtxos.insert
            (starstreamUtxoId blake3 (utxoSource p w blockIdx ordinal))
            (starstreamRow p.recipientStarstreamAddr (payloadValue w.leafPayload).toNat
              blockIdxI64) } outside := by
  rw [insertStarstreamUtxo,insertChecked_calm]

/-- The loop over the zipped vectors, from a given position on. -/
def insertRowsFrom (blockIdx : UInt64) (blockIdxI64 : ℤ) :
    ℕ → List (ClaimPublicInputs × ClaimWitness) → LedgerOp Unit
  | _,[] => pure ()
  | ordinal,(p,w)::rest => do
      insertNullifier p blockIdxI64
      insertStarstreamUtxo blake3 p w blockIdx (UInt64.ofNat ordinal) blockIdxI64
      insertRowsFrom blockIdx blockIdxI64 (ordinal+1) rest

/-- The sources of the outputs, in the order of the loop. -/
def sourcesFrom (blockIdx : UInt64) (ordinal : ℕ)
    (rows : List (ClaimPublicInputs × ClaimWitness)) : List UtxoSource :=
  (rows.zipIdx ordinal).map fun r => utxoSource r.1.1 r.1.2 blockIdx (UInt64.ofNat r.2)

/-- The table row of an output is a function of its source. -/
def utxoRow (u : UtxoSource) : Hash × UtxoRow :=
  (starstreamUtxoId blake3 u,
    starstreamRow u.recipient (payloadValue u.leafPayload).toNat u.blockIdx.toNat)

def nullifierRow (blockIdx : UInt64) (p : ClaimPublicInputs) : (ℤ × ℤ) × ℤ :=
  (nullifierKey p,blockIdx.toNat)

/-- The database after the loop has inserted all its rows. -/
def inserted (blockIdx : UInt64) (ordinal : ℕ) (rows : List (ClaimPublicInputs × ClaimWitness))
    (db : Db) : Db :=
  { db with
    nullifiers := addAll db.nullifiers (rows.map fun r => nullifierRow blockIdx r.1)
    starstreamUtxos := addAll db.starstreamUtxos
      ((sourcesFrom blockIdx ordinal rows).map (utxoRow blake3)) }

/-- What the loop needs of the rows and of the tables it starts from. -/
structure Insertable (blockIdx : UInt64) (ordinal : ℕ)
    (rows : List (ClaimPublicInputs × ClaimWitness)) (db : Db) : Prop where
  indices : ∀ r ∈ rows, r.1.leafIndex.toNat < 2^63
  values : ∀ r ∈ rows, (payloadValue r.2.leafPayload).toNat < 2^63
  nullifiers : Addable db.nullifiers (rows.map fun r => nullifierRow blockIdx r.1)
  utxos : Addable db.starstreamUtxos ((sourcesFrom blockIdx ordinal rows).map (utxoRow blake3))

theorem insertable_cons {blockIdx : UInt64} {ordinal : ℕ} {p : ClaimPublicInputs} {w : ClaimWitness}
    {rest : List (ClaimPublicInputs × ClaimWitness)} {db : Db} :
    Insertable blake3 blockIdx ordinal ((p,w)::rest) db ↔
      p.leafIndex.toNat < 2^63 ∧ (payloadValue w.leafPayload).toNat < 2^63 ∧
        nullifierKey p ∉ db.nullifiers ∧
        starstreamUtxoId blake3 (utxoSource p w blockIdx (UInt64.ofNat ordinal)) ∉
          db.starstreamUtxos ∧
        Insertable blake3 blockIdx (ordinal+1) rest (inserted blake3 blockIdx ordinal [(p,w)] db) := by
  constructor
  · intro h
    have hnullifiers := addable_cons.mp h.nullifiers
    have hutxos := addable_cons.mp h.utxos
    have hindices := List.forall_mem_cons.mp h.indices
    have hvalues := List.forall_mem_cons.mp h.values
    exact ⟨hindices.1,hvalues.1,hnullifiers.1,hutxos.1,hindices.2,hvalues.2,hnullifiers.2,hutxos.2⟩
  · intro h
    rcases h with ⟨hindex,hvalue,hkey,hid,hrest⟩
    exact ⟨List.forall_mem_cons.mpr ⟨hindex,hrest.indices⟩,
      List.forall_mem_cons.mpr ⟨hvalue,hrest.values⟩,
      addable_cons.mpr ⟨hkey,hrest.nullifiers⟩,addable_cons.mpr ⟨hid,hrest.utxos⟩⟩

theorem insertRowsFrom_calm {blockIdx : UInt64} {ordinal : ℕ}
    {rows : List (ClaimPublicInputs × ClaimWitness)} {db : Db} {outside : Outside} {a : Unit}
    {t : Ledger} :
    (insertRowsFrom blake3 blockIdx blockIdx.toNat ordinal rows).run (calmAt db outside) = (.ok a,t) ↔
      Insertable blake3 blockIdx ordinal rows db ∧
        t = calmAt (inserted blake3 blockIdx ordinal rows db) outside := by
  induction rows generalizing ordinal db with
  | nil =>
      have hnil : Insertable blake3 blockIdx ordinal [] db :=
        ⟨by simp,by simp,addable_nil _,addable_nil _⟩
      simp only [insertRowsFrom,pure_run,Prod.mk.injEq,true_and,hnil]
      exact eq_comm
  | cons r rest ih =>
      cases r with
      | mk p w =>
        simp only [insertRowsFrom,bind_ok,insertNullifier_calm,insertable_cons]
        constructor
        · intro h
          rcases h with ⟨_,_,⟨hindex,hkey,rfl⟩,_,_,hutxo,hrest⟩
          rcases (insertStarstreamUtxo_calm blake3).mp hutxo with ⟨hvalue,hid,rfl⟩
          have hrest := ih.mp hrest
          exact ⟨⟨hindex,hvalue,hkey,hid,hrest.1⟩,hrest.2⟩
        · intro h
          rcases h with ⟨⟨hindex,hvalue,hkey,hid,hrest⟩,rfl⟩
          exact ⟨(),_,⟨hindex,hkey,rfl⟩,(),_,
            (insertStarstreamUtxo_calm blake3).mpr ⟨hvalue,hid,rfl⟩,ih.mpr ⟨hrest,rfl⟩⟩

def applyClaimTx (backend : ProofBackend) (command : LedgerCommand) : LedgerOp Unit := do
  let blockIdxI64 ← ofExcept (sqliteI64 "block_idx" command.blockIdx)
  let parsed ← ofExcept (parseClaim command.claim)
  ofExcept ((verify blake3 backend command.commitment parsed.publicInputs parsed.proof).mapError
    LedgerError.verify)
  sqlTransaction do
    rejectReplays parsed.publicInputs
    insertRowsFrom blake3 command.blockIdx blockIdxI64 0 (parsed.publicInputs.zip parsed.witnesses)

/-- The pairs which the loop of a claim goes through. -/
def claimRows (claim : ClaimTx) : List (ClaimPublicInputs × ClaimWitness) :=
  (claimInputs claim).zip (claimWitnesses claim)

/-- Everything a claim needs to be applied to a database. -/
structure Acceptable (backend : ProofBackend) (command : LedgerCommand) (db : Db) : Prop where
  blockIdx : command.blockIdx.toNat < 2^63
  arity : (claimInputs command.claim).length = (claimWitnesses command.claim).length
  verified : verify blake3 backend command.commitment (claimInputs command.claim)
    (claimProof command.claim) = .ok ()
  insertable : Insertable blake3 command.blockIdx 0 (claimRows command.claim) db

/-- The database after an accepted claim. -/
def applied (command : LedgerCommand) (db : Db) : Db :=
  inserted blake3 command.blockIdx 0 (claimRows command.claim) db

/-- Claims of equal lengths meet every public input in their loop. -/
theorem claimRows_inputs {claim : ClaimTx}
    (h : (claimInputs claim).length = (claimWitnesses claim).length) :
    (claimRows claim).map Prod.fst = claimInputs claim :=
  List.map_fst_zip h.le

/-- The probes of an acceptable claim find nothing. -/
theorem Acceptable.unclaimed {backend : ProofBackend} {command : LedgerCommand} {db : Db}
    (h : Acceptable blake3 backend command db) :
    ∀ p ∈ claimInputs command.claim, p.leafIndex.toNat < 2^63 ∧ nullifierKey p ∉ db.nullifiers := by
  intro p hp
  rw [← claimRows_inputs h.arity] at hp
  rcases List.mem_map.mp hp with ⟨r,hr,rfl⟩
  refine ⟨h.insertable.indices r hr,?_⟩
  exact h.insertable.nullifiers.fresh _
    (List.mem_map_of_mem (List.mem_map_of_mem (f := fun r => nullifierRow command.blockIdx r.1) hr))

theorem applyClaimTx_calm {backend : ProofBackend} {command : LedgerCommand} {db : Db}
    {outside : Outside} {a : Unit} {t : Ledger} :
    (applyClaimTx blake3 backend command).run (calmAt db outside) = (.ok a,t) ↔
      Acceptable blake3 backend command db ∧ t = calmAt (applied blake3 command db) outside := by
  rw [applyClaimTx]
  simp only [ofExcept_bind_ok,sqliteI64_ok,parseClaim_ok,mapError_ok,sqlTransaction_calm]
  constructor
  · intro h
    rcases h with ⟨_,⟨hblock,rfl⟩,_,⟨harity,rfl⟩,_,hverified,u,hbody,-,rfl⟩
    rcases bind_ok.mp hbody with ⟨_,_,hreplays,hrows⟩
    rcases rejectReplays_calm.mp hreplays with ⟨-,rfl⟩
    rcases (insertRowsFrom_calm blake3).mp hrows with ⟨hinsert,rfl⟩
    exact ⟨⟨hblock,harity,hverified,hinsert⟩,rfl⟩
  · intro h
    rcases h with ⟨hok,rfl⟩
    refine ⟨_,⟨hok.blockIdx,rfl⟩,_,⟨hok.arity,rfl⟩,(),hok.verified,
      calmAt (applied blake3 command db) outside,?_,rfl,rfl⟩
    exact bind_ok.mpr ⟨(),calmAt db outside,rejectReplays_calm.mpr ⟨hok.unclaimed,rfl⟩,
      (insertRowsFrom_calm blake3).mpr ⟨hok.insertable,rfl⟩⟩

theorem steady_rejectReplays (publicInputs : List ClaimPublicInputs) :
    Steady (rejectReplays publicInputs) := by
  induction publicInputs with
  | nil => exact steady_pure ()
  | cons p rest ih =>
      apply steady_bind _ fun _ => ih
      exact steady_bind (steady_ofExcept _) fun _ => steady_bind (steady_statement _) fun _ =>
        steady_ofExcept _

theorem steady_insertRowsFrom (blockIdx : UInt64) (blockIdxI64 : ℤ) (ordinal : ℕ)
    (rows : List (ClaimPublicInputs × ClaimWitness)) :
    Steady (insertRowsFrom blake3 blockIdx blockIdxI64 ordinal rows) := by
  induction rows generalizing ordinal with
  | nil => exact steady_pure ()
  | cons r rest ih =>
      have hnullifier : Steady (insertNullifier r.1 blockIdxI64) :=
        steady_bind (steady_ofExcept _) fun _ => steady_execute _
      have hutxo : Steady (insertStarstreamUtxo blake3 r.1 r.2 blockIdx (UInt64.ofNat ordinal)
          blockIdxI64) :=
        steady_bind (steady_ofExcept _) fun _ => steady_execute _
      exact steady_bind hnullifier fun _ => steady_bind hutxo fun _ => ih (ordinal+1)

theorem steady_applyClaimTx (backend : ProofBackend) (command : LedgerCommand) :
    Steady (applyClaimTx blake3 backend command) := by
  apply steady_bind (steady_ofExcept _)
  intro blockIdxI64
  apply steady_bind (steady_ofExcept _)
  intro parsed
  apply steady_bind (steady_ofExcept _)
  intro _
  apply steady_transaction
  exact steady_bind (steady_rejectReplays _) fun _ => steady_insertRowsFrom blake3 _ _ _ _

/-- What any successful call, faults or not, says about its command. -/
theorem applyClaimTx_ok {backend : ProofBackend} {command : LedgerCommand} {s t : Ledger} {a : Unit}
    (h : (applyClaimTx blake3 backend command).run s = (.ok a,t)) :
    Acceptable blake3 backend command s.db ∧ t.db = applied blake3 command s.db := by
  have hcalm := steady_applyClaimTx blake3 backend command s a t h
  have hspec := (applyClaimTx_calm blake3).mp hcalm
  exact ⟨hspec.1,congrArg Session.db hspec.2⟩

theorem atomic_applyClaimTx (backend : ProofBackend) (command : LedgerCommand) :
    Atomic (applyClaimTx blake3 backend command) := by
  apply atomic_ofExcept_bind
  intro blockIdxI64
  apply atomic_ofExcept_bind
  intro parsed
  apply atomic_ofExcept_bind
  intro _
  exact atomic_transaction _

/-- One nullifier and one output per public input, each under a key of its own
which was free before, and no other change. -/
structure RowsAdded (command : LedgerCommand) (before after : Db) : Prop where
  nullifiersFree : Addable before.nullifiers
    ((claimInputs command.claim).map (nullifierRow command.blockIdx))
  nullifiers : after.nullifiers = addAll before.nullifiers
    ((claimInputs command.claim).map (nullifierRow command.blockIdx))
  utxosFree : Addable before.starstreamUtxos
    ((sourcesFrom command.blockIdx 0 (claimRows command.claim)).map (utxoRow blake3))
  utxos : after.starstreamUtxos = addAll before.starstreamUtxos
    ((sourcesFrom command.blockIdx 0 (claimRows command.claim)).map (utxoRow blake3))
  oneEach : (sourcesFrom command.blockIdx 0 (claimRows command.claim)).length =
    (claimInputs command.claim).length
  raftLog : after.raftLog = before.raftLog
  raftMeta : after.raftMeta = before.raftMeta
  genesis : after.genesis = before.genesis

/-- The loop's nullifiers are those of the claim's public inputs. -/
theorem claimRows_nullifiers {command : LedgerCommand}
    (h : (claimInputs command.claim).length = (claimWitnesses command.claim).length) :
    ((claimRows command.claim).map fun r => nullifierRow command.blockIdx r.1) =
      (claimInputs command.claim).map (nullifierRow command.blockIdx) := by
  rw [← claimRows_inputs h,List.map_map]
  rfl

theorem rowsAdded_of_acceptable {backend : ProofBackend} {command : LedgerCommand} {db : Db}
    (h : Acceptable blake3 backend command db) :
    RowsAdded blake3 command db (applied blake3 command db) where
  nullifiersFree := by
    rw [← claimRows_nullifiers h.arity]
    exact h.insertable.nullifiers
  nullifiers := by
    rw [← claimRows_nullifiers h.arity]
    rfl
  utxosFree := h.insertable.utxos
  utxos := rfl
  oneEach := by simp [sourcesFrom,claimRows,h.arity]
  raftLog := rfl
  raftMeta := rfl
  genesis := rfl

/-- Whatever the state, the command and the failures on the way: an error leaves
all five tables as they were, a success adds the claim's rows and nothing else. -/
theorem apply_claim_all_or_nothing (backend : ProofBackend) (command : LedgerCommand) (s : Ledger) :
    (∀ e t, (applyClaimTx blake3 backend command).run s = (.error e,t) → t.db = s.db) ∧
      ∀ t, (applyClaimTx blake3 backend command).run s = (.ok (),t) →
        RowsAdded blake3 command s.db t.db := by
  constructor
  · intro e t h
    exact atomic_applyClaimTx blake3 backend command s e t h
  · intro t h
    have hspec := applyClaimTx_ok blake3 h
    rw [hspec.2]
    exact rowsAdded_of_acceptable blake3 hspec.1

end Writer

end OmegaHarness.ClaimApplication
