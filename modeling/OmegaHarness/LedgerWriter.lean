import OmegaHarness.ClaimApplication

/-!
# The writer actor

All commands of the single writer, each as an operation on the ledger's session,
and the dispatch which runs one command and produces its reply. A committed
batch is a loop: every entry is applied, rejected or not, and the applied index
moves on with a statement of its own before the next entry.

Snapshot files are written and removed outside the database. Restoring one
attaches it under a fixed name, replaces all five tables in one transaction,
detaches it and removes the file.
-/
namespace OmegaHarness.LedgerWriter
open DomainHashes ClaimTypes ClaimVerifier FaultyTransactions KeyedTables LedgerStore RaftTypes
open ClaimApplication

def checkpointWalTruncate : LedgerOp Unit := sql fun db => .ok ((),db)

def snapshotFile (snapshotId : String) : String := s!"snapshot-{snapshotId}.sqlite"

def removeFile (path : String) : LedgerOp Unit := external LedgerError.io fun _ outside =>
  if path ∈ outside.files then .ok ((),{ outside with files := outside.files.erase path })
  else .error (.io "No such file or directory (os error 2)")

def vacuumInto (path : String) : LedgerOp Unit := external sqliteFault fun db outside =>
  if path ∈ outside.files then .error (sqliteFault "output file already exists")
  else .ok ((),{ outside with files := outside.files.insert path (.database (imageOf db)) })

def removeIfPresent (path : String) : LedgerOp Unit := do
  let seen ← peek
  if path ∈ seen.2.files then removeFile path else pure ()

def snapshot (snapshotId : String) : LedgerOp String := do
  removeIfPresent (snapshotFile snapshotId)
  vacuumInto (snapshotFile snapshotId)
  pure (snapshotFile snapshotId)

/-- What SQLite finds in a file. One of no byte, or of a single one, counts as a
database without tables; any other file needs the format's header. -/
def openedImage : FileContents → Option Image
  | .database image => some image
  | .other bytes => if bytes.length ≤ 1 then some blankImage else none

/-- A missing file is created, with no byte in it. A path is a name which SQLite reads
as that of a file. -/
def attachSnapshot (path : String) : LedgerOp Image := external sqliteFault fun _ outside =>
  if outside.attached then .error (sqliteFault "database snapshot_db is already in use")
  else match outside.files.lookup path with
    | none => .ok (blankImage,⟨outside.files.insert path (.other []),true⟩)
    | some contents =>
        match openedImage contents with
        | some image => .ok (image,{ outside with attached := true })
        | none => .error (sqliteFault "file is not a database")

theorem openedImage_none {contents : FileContents} :
    openedImage contents = none ↔ ∃ bytes, contents = .other bytes ∧ 1 < bytes.length := by
  cases contents with
  | database image => simp [openedImage]
  | other bytes => simp [openedImage]

/-- All five tables are found in a database file only. -/
theorem openedImage_complete {contents : FileContents} {db : Db} :
    openedImage contents = some (imageOf db) ↔ contents = .database (imageOf db) := by
  cases contents with
  | database image => simp [openedImage]
  | other bytes => simp [openedImage,imageOf,blankImage]

def detachSnapshot : LedgerOp Unit := external sqliteFault fun _ outside =>
  if outside.attached then .ok ((),{ outside with attached := false })
  else .error (sqliteFault "no such database: snapshot_db")

/-- `DELETE FROM main.t`, then `INSERT INTO main.t SELECT * FROM snapshot_db.t`. -/
def copyTable {K V : Type} (name : String) (source : Option (Table K V))
    (put : Db → Table K V → Db) : LedgerOp Unit := do
  execute fun db => .ok (put db ∅)
  execute fun db =>
    match source with
    | none => .error (sqliteFault s!"no such table: snapshot_db.{name}")
    | some table => .ok (put db table)

theorem copyTable_calm {K V : Type} {name : String} {source : Option (Table K V)}
    {put : Db → Table K V → Db} {db : Db} {outside : Outside} {a : Unit} {t : Ledger} :
    (copyTable name source put).run (calmAt db outside) = (.ok a,t) ↔
      ∃ table, source = some table ∧ t = calmAt (put (put db ∅) table) outside := by
  simp only [copyTable,bind_ok,execute_calm]
  cases source with
  | none =>
      constructor
      · intro h
        rcases h with ⟨_,_,⟨_,_,rfl⟩,hcopy⟩
        rcases execute_calm.mp hcopy with ⟨_,hcopy,-⟩
        cases hcopy
      · intro h
        rcases h with ⟨_,hsome,-⟩
        cases hsome
  | some table =>
      constructor
      · intro h
        rcases h with ⟨_,_,⟨_,hdelete,rfl⟩,hcopy⟩
        cases hdelete
        rcases execute_calm.mp hcopy with ⟨_,hcopy,rfl⟩
        cases hcopy
        exact ⟨table,rfl,rfl⟩
      · intro h
        rcases h with ⟨_,hsome,rfl⟩
        cases hsome
        exact ⟨(),_,⟨_,rfl,rfl⟩,execute_calm.mpr ⟨_,rfl,rfl⟩⟩

theorem steady_copyTable {K V : Type} (name : String) (source : Option (Table K V))
    (put : Db → Table K V → Db) : Steady (copyTable name source put) :=
  steady_bind (steady_execute _) fun _ => steady_execute _

def copyTables (image : Image) : LedgerOp Unit := do
  copyTable "raft_log" image.raftLog fun db table => { db with raftLog := table }
  copyTable "raft_meta" image.raftMeta fun db table => { db with raftMeta := table }
  copyTable "nullifiers" image.nullifiers fun db table => { db with nullifiers := table }
  copyTable "starstream_utxos" image.starstreamUtxos fun db table =>
    { db with starstreamUtxos := table }
  copyTable "genesis" image.genesis fun db table => { db with genesis := table }

theorem steady_copyTables (image : Image) : Steady (copyTables image) :=
  steady_bind (steady_copyTable _ _ _) fun _ => steady_bind (steady_copyTable _ _ _) fun _ =>
    steady_bind (steady_copyTable _ _ _) fun _ => steady_bind (steady_copyTable _ _ _) fun _ =>
      steady_copyTable _ _ _

theorem copyTables_calm (db restored : Db) (outside : Outside) :
    (copyTables (imageOf restored)).run (calmAt db outside) = (.ok (),calmAt restored outside) :=
  bind_ok.mpr ⟨(),_,copyTable_calm.mpr ⟨_,rfl,rfl⟩,
    bind_ok.mpr ⟨(),_,copyTable_calm.mpr ⟨_,rfl,rfl⟩,
      bind_ok.mpr ⟨(),_,copyTable_calm.mpr ⟨_,rfl,rfl⟩,
        bind_ok.mpr ⟨(),_,copyTable_calm.mpr ⟨_,rfl,rfl⟩,copyTable_calm.mpr ⟨_,rfl,rfl⟩⟩⟩⟩⟩

/-- A complete copy is the database behind the image, whatever was there. -/
theorem copyTables_ok {image : Image} {s t : Ledger} {a : Unit}
    (h : (copyTables image).run s = (.ok a,t)) : image = imageOf t.db := by
  have hcalm := steady_copyTables image s a t h
  rcases bind_ok.mp hcalm with ⟨_,_,hfirst,hrest⟩
  rcases bind_ok.mp hrest with ⟨_,_,hsecond,hrest⟩
  rcases bind_ok.mp hrest with ⟨_,_,hthird,hrest⟩
  rcases bind_ok.mp hrest with ⟨_,_,hfourth,hfifth⟩
  rcases copyTable_calm.mp hfirst with ⟨log,hlog,rfl⟩
  rcases copyTable_calm.mp hsecond with ⟨metaRows,hmeta,rfl⟩
  rcases copyTable_calm.mp hthird with ⟨nullifiers,hnullifiers,rfl⟩
  rcases copyTable_calm.mp hfourth with ⟨utxos,hutxos,rfl⟩
  rcases copyTable_calm.mp hfifth with ⟨genesis,hgenesis,-⟩
  have himage : image = imageOf ⟨log,metaRows,nullifiers,utxos,genesis⟩ := by
    cases image
    simp only [imageOf,Image.mk.injEq]
    exact ⟨hlog,hmeta,hnullifiers,hutxos,hgenesis⟩
  rw [himage,copyTables_calm] at hcalm
  have hdb := congrArg (fun r => r.2.db) hcalm
  exact himage.trans (congrArg imageOf hdb)

theorem imageOf_inj {db db' : Db} (h : imageOf db = imageOf db') : db = db' := by
  cases db
  cases db'
  simpa [imageOf] using h

def restoreSnapshot (path : String) : LedgerOp Unit := do
  let image ← attachSnapshot path
  sqlTransaction (copyTables image)
  detachSnapshot
  removeFile path

/-- A restore either leaves the tables alone or makes them the file's tables. -/
theorem restoreSnapshot_db {path : String} {s : Ledger} {db : Db}
    (hfile : s.world.files.lookup path = some (.database (imageOf db))) :
    ((restoreSnapshot path).run s).2.db = s.db ∨ ((restoreSnapshot path).run s).2.db = db := by
  have hattach : Keeps (fun d => d = s.db ∨ d = db) (attachSnapshot path) := keeps_external _
  rw [restoreSnapshot,bind_run]
  cases hrun : (attachSnapshot path).run s with
  | mk r t =>
    have hkept := hattach s (Or.inl rfl)
    rw [hrun] at hkept
    cases r with
    | error e => exact hkept
    | ok image =>
        have himage : image = imageOf db := by
          rcases (external_ok.mp hrun).2 with ⟨w,hopen,-⟩
          rw [hfile] at hopen
          split at hopen
          · cases hopen
          · cases hopen
            rfl
        have hcopy : Keeps (fun d => d = s.db ∨ d = db) (sqlTransaction (copyTables image)) := by
          apply keeps_transaction_of_ok
          intro u _ v _ hcopy
          exact Or.inr (imageOf_inj ((copyTables_ok hcopy).symm.trans himage))
        exact keeps_bind hcopy (fun _ => keeps_bind (keeps_external _) fun _ => keeps_external _) t hkept

/-- Without faults the tables become the file's, and the file is used up. -/
theorem restoreSnapshot_calm {path : String} {files : Table String FileContents} {restored : Db}
    (hfile : files.lookup path = some (.database (imageOf restored))) (db : Db) :
    (restoreSnapshot path).run (calmAt db ⟨files,false⟩) =
      (.ok (),calmAt restored ⟨files.erase path,false⟩) := by
  have hattach : (attachSnapshot path).run (calmAt db ⟨files,false⟩) =
      (.ok (imageOf restored),calmAt db ⟨files,true⟩) := by
    apply external_calm
    simp [hfile,openedImage]
  have hcopy : (sqlTransaction (copyTables (imageOf restored))).run (calmAt db ⟨files,true⟩) =
      (.ok (),calmAt restored ⟨files,true⟩) := transaction_calm (copyTables_calm db restored _)
  have hdetach : detachSnapshot.run (calmAt restored ⟨files,true⟩) =
      (.ok (),calmAt restored ⟨files,false⟩) := external_calm rfl
  have hremove : (removeFile path).run (calmAt restored ⟨files,false⟩) =
      (.ok (),calmAt restored ⟨files.erase path,false⟩) :=
    external_calm (if_pos (Finmap.mem_of_lookup_eq_some hfile))
  exact bind_ok.mpr ⟨_,_,hattach,bind_ok.mpr ⟨_,_,hcopy,bind_ok.mpr ⟨_,_,hdetach,hremove⟩⟩⟩

def saturatingSucc (n : UInt64) : UInt64 := if n.toNat = 2^64-1 then n else n+1

def syntheticSource (leafIndex blockIdx : UInt64) : UtxoSource where
  recipient := Vector.replicate 32 0xC7
  leafPayload := toBeBytes leafIndex++toBeBytes blockIdx
  blockIdx := blockIdx
  ordinal := leafIndex

/-- The sibling of `apply_claim_tx` for synthetic rows: here the leaf index is
both the ordinal and a part of the payload. -/
def insertSyntheticClaim (blake3 : Bytes → Hash) (subTreeId : UInt8) (leafIndex blockIdx : UInt64) :
    LedgerOp Unit := do
  let leafIndexI64 ← ofExcept (sqliteI64 "leaf_index" leafIndex)
  let blockIdxI64 ← ofExcept (sqliteI64 "block_idx" blockIdx)
  let source := syntheticSource leafIndex blockIdx
  sqlTransaction do
    execute fun db =>
      (insertRow nullifierConflict ((subTreeId.toNat : ℤ),leafIndexI64) blockIdxI64 db.nullifiers).map
        fun table => { db with nullifiers := table }
    let value ← ofExcept (sqliteI64 "value" (saturatingSucc leafIndex))
    execute fun db =>
      (insertRow utxoConflict (starstreamUtxoId blake3 source)
        (starstreamRow source.recipient value blockIdxI64) db.starstreamUtxos).map
        fun table => { db with starstreamUtxos := table }

def saveRaftMeta (key : MetaKey) (value : Option Bytes) : LedgerOp Unit := execute fun db =>
  .ok { db with
    raftMeta := match value with
      | some bytes => db.raftMeta.insert key bytes
      | none => db.raftMeta.erase key }

structure RaftLogRow where
  logIdx : UInt64
  term : UInt64
  payload : Bytes
  deriving DecidableEq, Repr

def appendRows : List RaftLogRow → LedgerOp Unit
  | [] => pure ()
  | row::rest => do
      let logIdx ← ofExcept (sqliteI64 "log_idx" row.logIdx)
      let term ← ofExcept (sqliteI64 "term" row.term)
      execute fun db => .ok { db with raftLog := db.raftLog.insert logIdx ⟨term,row.payload⟩ }
      appendRows rest

def appendRaftLogs (rows : List RaftLogRow) : LedgerOp Unit := sqlTransaction (appendRows rows)

def deleteRaftLogsSince (logIdx : UInt64) : LedgerOp Unit := do
  let bound ← ofExcept (sqliteI64 "log_idx" logIdx)
  execute fun db => .ok { db with raftLog := keepRows (fun k => decide (k < bound)) db.raftLog }

def purgeRaftLogsUpto (logIdx : UInt64) (lastPurged : Bytes) : LedgerOp Unit :=
  sqlTransaction do
    let bound ← ofExcept (sqliteI64 "log_idx" logIdx)
    execute fun db => .ok { db with raftLog := keepRows (fun k => decide (bound < k)) db.raftLog }
    saveRaftMeta .lastPurgedLogId (some lastPurged)

section Entries
variable (blake3 : Bytes → Hash) (backend : ProofBackend) (cbor : Cbor)

/-- The response to a payload; a rejected claim is a response, not an error. -/
def applyPayload : EntryPayload → LedgerOp LedgerResponse
  | .blank => pure .ofAccepted
  | .membership _ => pure .ofAccepted
  | .normal command => do
      let result ← attempt (applyClaimTx blake3 backend command)
      match result with
      | .ok _ => pure .ofAccepted
      | .error e => pure (.rejected e)

def applyEntry (entry : Entry) : LedgerOp LedgerResponse := do
  let response ← applyPayload blake3 backend entry.payload
  let lastApplied ← ofExcept ((cbor.logId.encode entry.logId).mapError LedgerError.codec)
  saveRaftMeta .lastAppliedLogId (some lastApplied)
  pure response

def applyEntries : List Entry → LedgerOp (List LedgerResponse)
  | [] => pure []
  | entry::rest => do
      let response ← applyEntry blake3 backend cbor entry
      let responses ← applyEntries rest
      pure (response::responses)

def saveLastMembership : Option Bytes → LedgerOp Unit
  | some bytes => saveRaftMeta .lastMembership (some bytes)
  | none => pure ()

def applyRaftEntries (entries : List Entry) (lastMembership : Option Bytes) :
    LedgerOp (List LedgerResponse) := do
  let responses ← applyEntries blake3 backend cbor entries
  saveLastMembership lastMembership
  pure responses

end Entries

inductive WriteCmd where
  | applyClaim (command : LedgerCommand)
  | checkpointWalTruncate
  | snapshot (snapshotId : String)
  | restoreSnapshot (path : String)
  | insertSyntheticClaim (subTreeId : UInt8) (leafIndex blockIdx : UInt64)
  | saveRaftMeta (key : MetaKey) (value : Option Bytes)
  | appendRaftLogs (rows : List RaftLogRow)
  | deleteRaftLogsSince (logIdx : UInt64)
  | purgeRaftLogsUpto (logIdx : UInt64) (lastPurged : Bytes)
  | applyRaftEntries (entries : List Entry) (lastMembership : Option Bytes)
  deriving DecidableEq, Repr

inductive Reply where
  | done (result : Except LedgerError Unit)
  | path (result : Except LedgerError String)
  | responses (result : Except LedgerError (List LedgerResponse))

/-- Run an operation and wrap its result as the reply of a command. -/
def replyWith {A : Type} (wrap : Except LedgerError A → Reply) (op : LedgerOp A) (s : Ledger) :
    Reply × Ledger :=
  (wrap (op.run s).1,(op.run s).2)

/-- One turn of the writer's loop. -/
def runWriter (blake3 : Bytes → Hash) (backend : ProofBackend) (cbor : Cbor) :
    WriteCmd → Ledger → Reply × Ledger
  | .applyClaim command => replyWith .done (applyClaimTx blake3 backend command)
  | .checkpointWalTruncate => replyWith .done checkpointWalTruncate
  | .snapshot snapshotId => replyWith .path (snapshot snapshotId)
  | .restoreSnapshot path => replyWith .done (restoreSnapshot path)
  | .insertSyntheticClaim subTreeId leafIndex blockIdx =>
      replyWith .done (insertSyntheticClaim blake3 subTreeId leafIndex blockIdx)
  | .saveRaftMeta key value => replyWith .done (saveRaftMeta key value)
  | .appendRaftLogs rows => replyWith .done (appendRaftLogs rows)
  | .deleteRaftLogsSince logIdx => replyWith .done (deleteRaftLogsSince logIdx)
  | .purgeRaftLogsUpto logIdx lastPurged => replyWith .done (purgeRaftLogsUpto logIdx lastPurged)
  | .applyRaftEntries entries lastMembership =>
      replyWith .responses (applyRaftEntries blake3 backend cbor entries lastMembership)

end OmegaHarness.LedgerWriter
