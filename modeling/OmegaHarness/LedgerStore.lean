import OmegaHarness.ClaimVerifier
import OmegaHarness.FaultyTransactions
import OmegaHarness.KeyedTables

/-!
# The ledger's database

The five tables of the schema, the error type of the ledger and the helpers
which prepare a row: the conversion of a `u64` to SQLite's signed integers, the
value carried by a payload and the identifier of a Starstream output. Snapshot
files live outside the database and are not covered by its transactions.

The identifier hashes the recipient, the block index, the position inside the
claim and the payload. Neither the sub-tree nor the leaf index enters it.
-/
namespace OmegaHarness.LedgerStore
open FixedWidthBytes DomainHashes ClaimTypes ClaimVerifier FaultyTransactions KeyedTables

inductive SqliteError where
  | uniqueConstraint (columns : String)
  | failure (message : String)
  deriving DecidableEq, Repr

def SqliteError.display : SqliteError → String
  | .uniqueConstraint columns => s!"UNIQUE constraint failed: {columns}"
  | .failure message => message

inductive LedgerError where
  | io (message : String)
  | sqlite (error : SqliteError)
  | pool (message : String)
  | writerClosed
  | writerReplyCanceled
  | readerJoin (message : String)
  | verify (error : VerifyError)
  | invalidClaim (reason : String)
  | codec (message : String)
  | integerOutOfRange (field : String) (value : UInt64)
  | replay (subTreeId : UInt8) (leafIndex : UInt64)
  deriving DecidableEq, Repr

def LedgerError.display : LedgerError → String
  | .io message => s!"io error: {message}"
  | .sqlite error => s!"sqlite error: {error.display}"
  | .pool message => s!"sqlite reader pool error: {message}"
  | .writerClosed => "writer actor is closed"
  | .writerReplyCanceled => "writer actor dropped the reply channel"
  | .readerJoin message => s!"reader task failed: {message}"
  | .verify error => s!"claim verification failed: {error.display}"
  | .invalidClaim reason => s!"claim shape is invalid: {reason}"
  | .codec message => s!"codec error: {message}"
  | .integerOutOfRange field value =>
      s!"integer value {value} for {field} does not fit sqlite INTEGER"
  | .replay subTreeId leafIndex =>
      s!"claim replay for sub_tree_id={subTreeId}, leaf_index={leafIndex}"

/-- The keys under which `raft_meta` holds the consensus state. -/
inductive MetaKey where
  | vote
  | committed
  | lastPurgedLogId
  | lastAppliedLogId
  | lastMembership
  | snapshotMeta
  deriving DecidableEq, Repr

structure LogRow where
  term : ℤ
  payload : Bytes
  deriving DecidableEq, Repr

structure UtxoRow where
  recipient : Hash
  value : ℤ
  assetBlob : Bytes
  datum : Option Bytes
  scriptRef : Option Bytes
  blockIdx : ℤ
  spentIn : Option ℤ
  deriving DecidableEq, Repr

structure Db where
  raftLog : Table ℤ LogRow
  raftMeta : Table MetaKey Bytes
  nullifiers : Table (ℤ × ℤ) ℤ
  starstreamUtxos : Table Hash UtxoRow
  genesis : Table String Bytes
  deriving DecidableEq

/-- What `create_tables` leaves behind. -/
def emptyDb : Db := ⟨∅,∅,∅,∅,∅⟩

/-- A database file may lack any of the tables. -/
structure Image where
  raftLog : Option (Table ℤ LogRow)
  raftMeta : Option (Table MetaKey Bytes)
  nullifiers : Option (Table (ℤ × ℤ) ℤ)
  starstreamUtxos : Option (Table Hash UtxoRow)
  genesis : Option (Table String Bytes)
  deriving DecidableEq

def blankImage : Image := ⟨none,none,none,none,none⟩

def imageOf (db : Db) : Image :=
  ⟨some db.raftLog,some db.raftMeta,some db.nullifiers,some db.starstreamUtxos,some db.genesis⟩

inductive FileContents where
  | database (image : Image)
  | other (bytes : Bytes)
  deriving DecidableEq

/-- Files beside the ledger, and whether a snapshot file is attached. -/
structure Outside where
  files : Table String FileContents
  attached : Bool
  deriving DecidableEq

abbrev Ledger := Session Db Outside String
abbrev LedgerOp := Op Db Outside String LedgerError

def sqliteFault (message : String) : LedgerError := .sqlite (.failure message)

/-- `rusqlite` execution of one statement. -/
def sql {A : Type} (f : Db → Except LedgerError (A × Db)) : LedgerOp A := statement sqliteFault f

/-- A statement which writes and returns nothing. -/
def execute (f : Db → Except LedgerError Db) : LedgerOp Unit :=
  sql fun db => (f db).map fun db => ((),db)

def sqlTransaction {A : Type} (body : LedgerOp A) : LedgerOp A := transaction sqliteFault body

theorem sql_calm {A : Type} {f : Db → Except LedgerError (A × Db)} {db : Db} {w : Outside} {a : A}
    {t : Ledger} :
    (sql f).run (calmAt db w) = (.ok a,t) ↔ ∃ db', f db = .ok (a,db') ∧ t = calmAt db' w := by
  rw [sql,statement_ok]
  exact and_iff_right rfl

theorem execute_calm {f : Db → Except LedgerError Db} {db : Db} {w : Outside} {a : Unit}
    {t : Ledger} :
    (execute f).run (calmAt db w) = (.ok a,t) ↔ ∃ db', f db = .ok db' ∧ t = calmAt db' w := by
  rw [execute,sql_calm]
  cases f db <;> simp [Except.map]

theorem steady_execute (f : Db → Except LedgerError Db) : Steady (execute f) := by
  unfold execute sql
  exact steady_statement _

theorem atomic_execute (f : Db → Except LedgerError Db) : Atomic (execute f) := by
  unfold execute sql
  exact atomic_statement _

theorem keeps_execute {I : Db → Prop} {f : Db → Except LedgerError Db}
    (hf : ∀ db db', I db → f db = .ok db' → I db') : Keeps I (execute f) := by
  unfold execute sql
  apply keeps_statement
  intro db _ db' hdb hrun
  cases hcase : f db with
  | error e => simp [hcase,Except.map] at hrun
  | ok db'' =>
      simp only [hcase,Except.map,Except.ok.injEq,Prod.mk.injEq,true_and] at hrun
      rw [← hrun]
      exact hf db db'' hdb hcase

theorem sqlTransaction_calm {A : Type} {body : LedgerOp A} {db : Db} {w : Outside} {a : A}
    {t : Ledger} :
    (sqlTransaction body).run (calmAt db w) = (.ok a,t) ↔
      ∃ u, body.run (calmAt db w) = (.ok a,u) ∧ u.faults 0 = none ∧ t = u.next := by
  rw [sqlTransaction,transaction_ok]
  exact and_iff_right rfl

def sqliteI64 (field : String) (value : UInt64) : Except LedgerError ℤ :=
  if value.toNat < 2^63 then .ok value.toNat else .error (.integerOutOfRange field value)

theorem sqliteI64_ok {field : String} {value : UInt64} {n : ℤ} :
    sqliteI64 field value = .ok n ↔ value.toNat < 2^63 ∧ n = value.toNat := by
  unfold sqliteI64
  by_cases h : value.toNat < 2^63
  · rw [if_pos h,Except.ok.injEq,eq_comm,and_iff_right h]
  · rw [if_neg h]
    simp only [reduceCtorEq,h,false_and]

/-- Short payloads carry no value field. -/
def payloadValue (payload : Bytes) : UInt64 :=
  if payload.length < 16 then 0 else UInt64.ofNat (ofBeBytes ((payload.drop 8).take 8))

def domainUtxo : Bytes :=
  ascii ['o','m','e','g','a',':','m','o','c','k','-','l','e','d','g','e','r',':','v','1',':','u',
    't','x','o']

/-- What an output's identifier is computed from. -/
structure UtxoSource where
  recipient : Hash
  leafPayload : Bytes
  blockIdx : UInt64
  ordinal : UInt64
  deriving DecidableEq, Repr

def utxoPreimage (u : UtxoSource) : Bytes :=
  domainUtxo++(u.recipient.toList++(toBeBytes u.blockIdx++(toBeBytes u.ordinal++
    (beBytes 8 u.leafPayload.length++u.leafPayload))))

/-- Fixed widths in front of the payload again leave nothing to reinterpret. -/
theorem utxoPreimage_inj : Function.Injective utxoPreimage := by
  intro u v h
  have htail := List.append_cancel_left h
  obtain ⟨hrecipient,htail⟩ := List.append_inj htail (by simp)
  obtain ⟨hblock,htail⟩ := List.append_inj htail (by simp)
  obtain ⟨hordinal,htail⟩ := List.append_inj htail (by simp)
  have hpayload := (List.append_inj htail (by simp)).2
  cases u
  cases v
  simp only [UtxoSource.mk.injEq]
  exact ⟨Vector.toList_inj.mp hrecipient,hpayload,toBeBytes_inj hblock,toBeBytes_inj hordinal⟩

def starstreamUtxoId (blake3 : Bytes → Hash) (u : UtxoSource) : Hash := blake3 (utxoPreimage u)

end OmegaHarness.LedgerStore
