import OmegaHarness.WriterFrames

/-!
# The storage interface of the consensus library

The calls which openraft makes on a node's storage. Each serialises its
arguments, hands a command to the writer and translates the errors; reads go to
the reader pool. Building a snapshot reads the applied state, lets the writer
vacuum the database into a file and returns the file; installing one writes the
file beside the database and lets the writer restore it.

Serialisation has a size limit which is checked when writing and when reading.
-/
namespace OmegaHarness.RaftStorage
open DomainHashes ClaimTypes ClaimVerifier FaultyTransactions KeyedTables LedgerStore RaftTypes
open ClaimApplication LedgerWriter WriterFrames

inductive ErrorVerb where
  | read
  | write
  deriving DecidableEq, Repr

/-- An I/O error of the store, which is the only subject named. -/
structure StorageError where
  verb : ErrorVerb
  message : String
  deriving DecidableEq, Repr

def stoRead (message : String) : StorageError := ⟨.read,message⟩

def stoWrite (message : String) : StorageError := ⟨.write,message⟩

abbrev StorageOp := Op Db Outside String StorageError

/-- Errors of the writer come back as write errors. -/
def throughWriter {A : Type} (op : LedgerOp A) : StorageOp A :=
  mapFailure (fun e => stoWrite e.display) op

def maxStoragePayloadBytes : ℕ := 64*1024*1024

def payloadTooLarge (size : ℕ) : String :=
  s!"storage payload too large: {size} > {maxStoragePayloadBytes}"

section Serialisation
variable {A : Type} (codec : Codec A)

def encode (value : A) : Except StorageError Bytes :=
  match codec.encode value with
  | .error message => .error (stoWrite message)
  | .ok bytes =>
      if bytes.length > maxStoragePayloadBytes then .error (stoWrite (payloadTooLarge bytes.length))
      else .ok bytes

def decode (bytes : Bytes) : Except StorageError A :=
  if bytes.length > maxStoragePayloadBytes then .error (stoRead (payloadTooLarge bytes.length))
  else (codec.decode bytes).mapError stoRead

variable {codec}

theorem encode_ok {value : A} {bytes : Bytes} :
    encode codec value = .ok bytes ↔
      codec.encode value = .ok bytes ∧ bytes.length ≤ maxStoragePayloadBytes := by
  rw [encode]
  cases codec.encode value with
  | error message => simp
  | ok written =>
      dsimp only
      split
      · next hlarge =>
          simp only [reduceCtorEq,Except.ok.injEq,false_iff,not_and,not_le]
          intro heq
          rw [← heq]
          exact hlarge
      · next hsmall =>
          simp only [Except.ok.injEq,iff_self_and]
          intro heq
          rw [← heq]
          exact not_lt.mp hsmall

/-- What passes the limit on the way in passes it on the way out. -/
theorem decode_encode (hround : codec.RoundTrips) {value : A} {bytes : Bytes}
    (h : encode codec value = .ok bytes) : decode codec bytes = .ok value := by
  have hspec := encode_ok.mp h
  rw [decode,if_neg (not_lt.mpr hspec.2),hround value bytes hspec.1]
  rfl

/-- Take a connection from the pool, read one row and decode it. -/
def readMeta (codec : Codec A) (key : MetaKey) : StorageOp (Option A) := do
  mark stoRead
  let value ← statement stoRead fun db => .ok (db.raftMeta.lookup key,db)
  match value with
  | none => pure none
  | some bytes => ofExcept ((decode codec bytes).map some)

/-- What a row of `raft_meta` reads as. -/
def metaValue (codec : Codec A) (key : MetaKey) (db : Db) : Except StorageError (Option A) :=
  match db.raftMeta.lookup key with
  | none => .ok none
  | some bytes => (decode codec bytes).map some

theorem readMeta_calm (key : MetaKey) (db : Db) (outside : Outside) :
    (readMeta codec key).run (calmAt db outside) = (metaValue codec key db,calmAt db outside) := by
  rw [metaValue,readMeta,bind_run,mark_run]
  simp only [calmAt_faults,calmAt_next,bind_run,statement_run,calmAt_db]
  cases db.raftMeta.lookup key <;> rfl

theorem steady_readMeta (key : MetaKey) : Steady (readMeta codec key) := by
  refine steady_bind (steady_statement _) fun _ => steady_bind (steady_statement _) ?_
  intro value
  cases value with
  | none => exact steady_pure none
  | some bytes => exact steady_ofExcept _

theorem keeps_readMeta {I : Db → Prop} (key : MetaKey) : Keeps I (readMeta codec key) := by
  have hread {B : Type} (f : Db → B) :
      Keeps I (statement stoRead fun db => .ok (f db,db) : StorageOp B) := by
    apply keeps_statement
    intro db b db' h hrun
    cases hrun
    exact h
  refine keeps_bind (hread fun _ => ()) fun _ => keeps_bind (hread _) ?_
  intro value
  cases value with
  | none => exact keeps_pure none
  | some bytes => exact keeps_ofExcept _

end Serialisation

section Calls
variable (blake3 : Bytes → Hash) (backend : ProofBackend) (cbor : Cbor)

def saveVote (vote : Vote) : StorageOp Unit := do
  let value ← ofExcept (encode cbor.vote vote)
  throughWriter (saveRaftMeta .vote (some value))

def readVote : StorageOp (Option Vote) := readMeta cbor.vote .vote

def encodeCommitted : Option LogId → Except StorageError (Option Bytes)
  | none => .ok none
  | some logId => (encode cbor.logId logId).map some

def saveCommitted (committed : Option LogId) : StorageOp Unit := do
  let value ← ofExcept (encodeCommitted cbor committed)
  throughWriter (saveRaftMeta .committed value)

def readCommitted : StorageOp (Option LogId) := readMeta cbor.logId .committed

def encodeRow (entry : Entry) : Except StorageError RaftLogRow :=
  (encode cbor.entry entry).map fun payload =>
    ⟨entry.logId.index,entry.logId.leaderId.term,payload⟩

def appendToLog (entries : List Entry) : StorageOp Unit := do
  let rows ← ofExcept (entries.mapM (encodeRow cbor))
  throughWriter (appendRaftLogs rows)

def deleteConflictLogsSince (logId : LogId) : StorageOp Unit :=
  throughWriter (deleteRaftLogsSince logId.index)

def purgeLogsUpto (logId : LogId) : StorageOp Unit := do
  let lastPurged ← ofExcept (encode cbor.logId logId)
  throughWriter (purgeRaftLogsUpto logId.index lastPurged)

/-- The membership of a node which has applied none. -/
def defaultMembership : StoredMembership := ⟨none,⟨[],[]⟩⟩

def lastAppliedState : StorageOp (Option LogId × StoredMembership) := do
  let lastApplied ← readMeta cbor.logId .lastAppliedLogId
  let membership ← readMeta cbor.storedMembership .lastMembership
  pure (lastApplied,membership.getD defaultMembership)

/-- The last membership of a batch; every one of them is serialised on the way. -/
def latestMembership (found : Option Bytes) : List Entry → Except StorageError (Option Bytes)
  | [] => .ok found
  | entry::rest =>
      match entry.payload with
      | .membership membership =>
          match encode cbor.storedMembership ⟨some entry.logId,membership⟩ with
          | .error e => .error e
          | .ok bytes => latestMembership (some bytes) rest
      | _ => latestMembership found rest

def applyToStateMachine (entries : List Entry) : StorageOp (List LedgerResponse) := do
  let lastMembership ← ofExcept (latestMembership cbor none entries)
  throughWriter (applyRaftEntries blake3 backend cbor entries lastMembership)

/-- A snapshot as it travels between nodes: its metadata and the file's contents. -/
structure Snapshot where
  metadata : SnapshotMeta
  contents : FileContents
  deriving DecidableEq

def snapshotIdOf : Option LogId → String
  | some logId => s!"{logId.leaderId.term}-{logId.index}"
  | none => "empty"

def readFile (path : String) : StorageOp FileContents := external stoRead fun _ outside =>
  match outside.files.lookup path with
  | some contents => .ok (contents,outside)
  | none => .error (stoRead "No such file or directory (os error 2)")

theorem readFile_calm {path : String} {contents : FileContents} {outside : Outside} (db : Db)
    (h : outside.files.lookup path = some contents) :
    (readFile path).run (calmAt db outside) = (.ok contents,calmAt db outside) := by
  apply external_calm
  rw [h]

def writeFile (path : String) (contents : FileContents) : StorageOp Unit :=
  external stoWrite fun _ outside =>
    .ok ((),{ outside with files := outside.files.insert path contents })

theorem writeFile_ok {path : String} {contents : FileContents} {s t : Ledger} {a : Unit}
    (h : (writeFile path contents).run s = (.ok a,t)) :
    t.world.files.lookup path = some contents := by
  rcases (external_ok.mp h).2 with ⟨outside,hinsert,rfl⟩
  cases hinsert
  exact Finmap.lookup_insert _

def saveSnapshotMeta (metadata : SnapshotMeta) : StorageOp Unit := do
  let value ← ofExcept (encode cbor.snapshotMeta metadata)
  throughWriter (saveRaftMeta .snapshotMeta (some value))

def buildSnapshot : StorageOp Snapshot := do
  let state ← lastAppliedState cbor
  let metadata := ⟨state.1,state.2,snapshotIdOf state.1⟩
  let path ← throughWriter (snapshot metadata.snapshotId)
  let contents ← readFile path
  saveSnapshotMeta cbor metadata
  pure ⟨metadata,contents⟩

def installSnapshot (metadata : SnapshotMeta) (contents : FileContents) : StorageOp Unit := do
  writeFile (snapshotFile metadata.snapshotId) contents
  throughWriter (restoreSnapshot (snapshotFile metadata.snapshotId))
  saveSnapshotMeta cbor metadata

end Calls

section Frames
variable {I : Db → Prop} (blake3 : Bytes → Hash) (backend : ProofBackend) (cbor : Cbor)

theorem keeps_throughWriter {A : Type} {op : LedgerOp A} (hop : Keeps I op) :
    Keeps I (throughWriter op) := keeps_mapFailure hop

theorem keeps_saveCommitted (hI : IgnoresMeta .committed I) (committed : Option LogId) :
    Keeps I (saveCommitted cbor committed) :=
  keeps_bind (keeps_ofExcept _) fun _ => keeps_throughWriter (keeps_saveRaftMeta hI _)

theorem keeps_appendToLog (hI : IgnoresLog I) (entries : List Entry) :
    Keeps I (appendToLog cbor entries) :=
  keeps_bind (keeps_ofExcept _) fun _ => keeps_throughWriter (keeps_appendRaftLogs hI _)

theorem keeps_purgeLogsUpto (hlog : IgnoresLog I) (hmeta : IgnoresMeta .lastPurgedLogId I)
    (logId : LogId) : Keeps I (purgeLogsUpto cbor logId) :=
  keeps_bind (keeps_ofExcept _) fun _ => keeps_throughWriter (keeps_purgeRaftLogsUpto hlog hmeta _ _)

theorem keeps_applyToStateMachine (hclaims : IgnoresClaims I)
    (happlied : IgnoresMeta .lastAppliedLogId I) (hmembership : IgnoresMeta .lastMembership I)
    (entries : List Entry) : Keeps I (applyToStateMachine blake3 backend cbor entries) :=
  keeps_bind (keeps_ofExcept _) fun _ =>
    keeps_throughWriter (keeps_applyRaftEntries blake3 backend cbor hclaims happlied hmembership _ _)

theorem keeps_lastAppliedState : Keeps I (lastAppliedState cbor) :=
  keeps_bind (keeps_readMeta _) fun _ => keeps_bind (keeps_readMeta _) fun _ => keeps_pure _

theorem keeps_saveSnapshotMeta (hI : IgnoresMeta .snapshotMeta I) (metadata : SnapshotMeta) :
    Keeps I (saveSnapshotMeta cbor metadata) :=
  keeps_bind (keeps_ofExcept _) fun _ => keeps_throughWriter (keeps_saveRaftMeta hI _)

theorem keeps_buildSnapshot (hI : IgnoresMeta .snapshotMeta I) : Keeps I (buildSnapshot cbor) := by
  refine keeps_bind (keeps_lastAppliedState cbor) ?_
  intro state
  refine keeps_bind (keeps_throughWriter (keeps_snapshot _)) ?_
  intro path
  refine keeps_bind (keeps_external _) ?_
  intro contents
  exact keeps_bind (keeps_saveSnapshotMeta cbor hI _) fun _ => keeps_pure _

/-- What holds of the node and of the database behind the image holds after the
image is installed, and also when the installation stops half-way. -/
theorem installSnapshot_keeps (hI : IgnoresMeta .snapshotMeta I) {s : Ledger} {db : Db} (hs : I s.db)
    (hdb : I db) (metadata : SnapshotMeta) :
    I ((installSnapshot cbor metadata (.database (imageOf db))).run s).2.db := by
  have hfile : Keeps I (writeFile (snapshotFile metadata.snapshotId) (.database (imageOf db))) :=
    keeps_external _
  rw [installSnapshot,bind_run]
  cases hwrite : (writeFile (snapshotFile metadata.snapshotId) (.database (imageOf db))).run s with
  | mk r t =>
    have hkept := hfile s hs
    rw [hwrite] at hkept
    cases r with
    | error e => exact hkept
    | ok a =>
        apply keeps_after fun _ => keeps_saveSnapshotMeta cbor hI metadata
        rcases restoreSnapshot_db (writeFile_ok hwrite) with hsame | hrestored
        · exact hsame.symm ▸ hkept
        · exact hrestored.symm ▸ hdb

end Frames

section Results
variable {cbor : Cbor}

theorem saveVote_ok {vote : Vote} {s t : Ledger} {a : Unit}
    (h : (saveVote cbor vote).run s = (.ok a,t)) :
    ∃ bytes, encode cbor.vote vote = .ok bytes ∧ t.db.raftMeta.lookup .vote = some bytes := by
  rw [saveVote,ofExcept_bind_ok] at h
  rcases h with ⟨bytes,hencode,hsave⟩
  have hcalm := steady_execute _ s a t (mapFailure_ok.mp hsave)
  rcases execute_calm.mp hcalm with ⟨db,hinsert,hdb⟩
  cases hinsert
  have hmeta := congrArg (fun u : Ledger => u.db.raftMeta.lookup .vote) hdb
  exact ⟨bytes,hencode,hmeta.trans (Finmap.lookup_insert _)⟩

theorem saveVote_calm {vote : Vote} {bytes : Bytes} (h : encode cbor.vote vote = .ok bytes) (db : Db)
    (outside : Outside) :
    (saveVote cbor vote).run (calmAt db outside) =
      (.ok (),calmAt { db with raftMeta := db.raftMeta.insert .vote bytes } outside) :=
  ofExcept_bind_ok.mpr ⟨bytes,h,mapFailure_ok.mpr (execute_calm.mpr ⟨_,rfl,rfl⟩)⟩

/-- A vote which was not saved changes nothing. -/
theorem atomic_saveVote (vote : Vote) : Atomic (saveVote cbor vote) :=
  atomic_ofExcept_bind fun _ => atomic_mapFailure (atomic_execute _)

theorem saveSnapshotMeta_calm {metadata : SnapshotMeta} {bytes : Bytes}
    (h : encode cbor.snapshotMeta metadata = .ok bytes) (db : Db) (outside : Outside) :
    (saveSnapshotMeta cbor metadata).run (calmAt db outside) =
      (.ok (),calmAt { db with raftMeta := db.raftMeta.insert .snapshotMeta bytes } outside) :=
  ofExcept_bind_ok.mpr ⟨bytes,h,mapFailure_ok.mpr (execute_calm.mpr ⟨_,rfl,rfl⟩)⟩

theorem lastAppliedState_calm {db : Db} {lastApplied : Option LogId}
    {membership : Option StoredMembership}
    (hlog : metaValue cbor.logId .lastAppliedLogId db = .ok lastApplied)
    (hmembership : metaValue cbor.storedMembership .lastMembership db = .ok membership)
    (outside : Outside) :
    (lastAppliedState cbor).run (calmAt db outside) =
      (.ok (lastApplied,membership.getD defaultMembership),calmAt db outside) := by
  have hfirst := @readMeta_calm _ cbor.logId .lastAppliedLogId db outside
  have hsecond := @readMeta_calm _ cbor.storedMembership .lastMembership db outside
  rw [hlog] at hfirst
  rw [hmembership] at hsecond
  exact bind_ok.mpr ⟨_,_,hfirst,bind_ok.mpr ⟨_,_,hsecond,rfl⟩⟩

/-- Without faults the snapshot carries the applied state it was named after. -/
theorem buildSnapshot_calm {db : Db} {outside : Outside} {lastApplied : Option LogId}
    {membership : StoredMembership} {bytes : Bytes}
    (hstate : (lastAppliedState cbor).run (calmAt db outside) =
      (.ok (lastApplied,membership),calmAt db outside))
    (hmeta : encode cbor.snapshotMeta ⟨lastApplied,membership,snapshotIdOf lastApplied⟩ = .ok bytes) :
    (buildSnapshot cbor).run (calmAt db outside) =
      (.ok ⟨⟨lastApplied,membership,snapshotIdOf lastApplied⟩,.database (imageOf db)⟩,
        calmAt { db with raftMeta := db.raftMeta.insert .snapshotMeta bytes } { outside with
          files := outside.files.insert (snapshotFile (snapshotIdOf lastApplied))
            (.database (imageOf db)) }) := by
  have hsnapshot := snapshot_calm (snapshotIdOf lastApplied) db outside
  have hread := readFile_calm db (snapshot_ok hsnapshot).2
  exact bind_ok.mpr ⟨_,_,hstate,bind_ok.mpr ⟨_,_,mapFailure_ok.mpr hsnapshot,
    bind_ok.mpr ⟨_,_,hread,bind_ok.mpr ⟨_,_,saveSnapshotMeta_calm hmeta db _,rfl⟩⟩⟩⟩

/-- The image of a snapshot holds all five tables of the node which built it. -/
theorem buildSnapshot_contents {s t : Ledger} {built : Snapshot}
    (h : (buildSnapshot cbor).run s = (.ok built,t)) :
    built.contents = .database (imageOf s.db) := by
  rcases bind_ok.mp h with ⟨state,u,hstate,hrest⟩
  have hkept : u.db = s.db := by
    have hkeeps := @keeps_lastAppliedState (fun db => db = s.db) cbor s rfl
    rw [hstate] at hkeeps
    exact hkeeps
  rcases bind_ok.mp hrest with ⟨path,v,hsnapshot,hrest⟩
  have hfile := (snapshot_ok (mapFailure_ok.mp hsnapshot)).2
  rcases bind_ok.mp hrest with ⟨contents,w,hread,hrest⟩
  rcases bind_ok.mp hrest with ⟨_,_,_,hbuilt⟩
  rcases (external_ok.mp hread).2 with ⟨outside,hcontents,-⟩
  rw [hfile] at hcontents
  cases hcontents
  cases hbuilt
  rw [hkept]

/-- Without faults an installation makes the tables the image's, but for the
metadata of the snapshot, and uses the file up. -/
theorem installSnapshot_calm {metadata : SnapshotMeta} {bytes : Bytes}
    (h : encode cbor.snapshotMeta metadata = .ok bytes) (db restored : Db)
    (files : Table String FileContents) :
    (installSnapshot cbor metadata (.database (imageOf restored))).run (calmAt db ⟨files,false⟩) =
      (.ok (),calmAt { restored with raftMeta := restored.raftMeta.insert .snapshotMeta bytes }
        ⟨files.erase (snapshotFile metadata.snapshotId),false⟩) := by
  have hwrite : (writeFile (snapshotFile metadata.snapshotId) (.database (imageOf restored))).run
      (calmAt db ⟨files,false⟩) = (.ok (),calmAt db ⟨files.insert (snapshotFile metadata.snapshotId)
        (.database (imageOf restored)),false⟩) := external_calm rfl
  have hrestore := restoreSnapshot_calm (writeFile_ok hwrite) db
  rw [calmAt_world,erase_insert] at hrestore
  exact bind_ok.mpr ⟨_,_,hwrite,bind_ok.mpr ⟨_,_,mapFailure_ok.mpr hrestore,
    saveSnapshotMeta_calm h restored _⟩⟩

end Results

end OmegaHarness.RaftStorage
