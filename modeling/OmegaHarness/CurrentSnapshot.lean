import OmegaHarness.EntryCommits
import OmegaHarness.VoteSurvival

/-!
# The current snapshot of a node

The current snapshot is found through two places: the metadata row of the database
and the file which it names. Building a snapshot writes both. Installing one writes
the row as well, but restoring the tables has used the file up before, so that a node
which installed a snapshot last has a row without a file.
-/
namespace OmegaHarness.CurrentSnapshot
open DomainHashes ClaimTypes ClaimVerifier FaultyTransactions FaultStreams KeyedTables
open LedgerStore RaftTypes ClaimApplication LedgerWriter WriterFrames ClaimStatements RaftStorage
open EntryCommits Blake3Compression EnvelopeCodec VoteSurvival

def getCurrentSnapshot (cbor : Cbor) : StorageOp (Option Snapshot) := do
  let metadata ← readMeta cbor.snapshotMeta .snapshotMeta
  match metadata with
  | none => pure none
  | some metadata => do
      let contents ← readFile (snapshotFile metadata.snapshotId)
      pure (some ⟨metadata,contents⟩)

/-- The most recent of the two snapshot operations, with what it was given or made. -/
inductive Latest where
  | none
  | built (snapshot : Snapshot)
  | installed (snapshot : Snapshot)

def Latest.snapshot : Latest → Option Snapshot
  | .none => Option.none
  | .built snapshot => some snapshot
  | .installed snapshot => some snapshot

section Runs
variable (blake3 : Bytes → Hash) (backend : ProofBackend) (cbor : Cbor)

/-- The databases and files of a node on which nothing fails but what its arguments
make fail, with the most recent successful snapshot operation. -/
inductive SnapshotRun : Db → Outside → Latest → Prop
  | opened (files : Table String FileContents) : SnapshotRun emptyDb ⟨files,false⟩ .none
  | voted {db : Db} {outside : Outside} {latest : Latest} (h : SnapshotRun db outside latest)
      (vote : Vote) :
      SnapshotRun ((saveVote cbor vote).run (calmAt db outside)).2.db
        ((saveVote cbor vote).run (calmAt db outside)).2.world latest
  | called {db : Db} {outside : Outside} {latest : Latest} (h : SnapshotRun db outside latest)
      {call : StorageCall} (hcall : call ≠ .buildSnapshot) :
      SnapshotRun (runCall blake3 backend cbor call (calmAt db outside)).db
        (runCall blake3 backend cbor call (calmAt db outside)).world latest
  | built {db : Db} {outside : Outside} {latest : Latest} {snapshot : Snapshot} {t : Ledger}
      (h : SnapshotRun db outside latest)
      (hrun : (buildSnapshot cbor).run (calmAt db outside) = (.ok snapshot,t)) :
      SnapshotRun t.db t.world (.built snapshot)
  | installed {db : Db} {outside : Outside} {latest : Latest} {metadata : SnapshotMeta}
      {contents : FileContents} {t : Ledger} (h : SnapshotRun db outside latest)
      (hrun : (installSnapshot cbor metadata contents).run (calmAt db outside) = (.ok (),t)) :
      SnapshotRun t.db t.world (.installed ⟨metadata,contents⟩)

/-- The row and the file which the most recent operation left. -/
def Holds (outside : Outside) (latest : Latest) (db : Db) : Prop :=
  match latest with
  | .none => db.raftMeta.lookup .snapshotMeta = Option.none
  | .built snapshot =>
      ∃ bytes, encode cbor.snapshotMeta snapshot.metadata = .ok bytes ∧
        db.raftMeta.lookup .snapshotMeta = some bytes ∧
        outside.files.lookup (snapshotFile snapshot.metadata.snapshotId) = some snapshot.contents
  | .installed snapshot =>
      ∃ bytes, encode cbor.snapshotMeta snapshot.metadata = .ok bytes ∧
        db.raftMeta.lookup .snapshotMeta = some bytes ∧
        outside.files.lookup (snapshotFile snapshot.metadata.snapshotId) = Option.none

variable {cbor}

theorem holds_of_row {outside : Outside} {latest : Latest} {db db' : Db}
    (hrow : db'.raftMeta.lookup .snapshotMeta = db.raftMeta.lookup .snapshotMeta)
    (h : Holds cbor outside latest db) : Holds cbor outside latest db' := by
  cases latest with
  | none => exact hrow.trans h
  | built snapshot =>
      rcases h with ⟨bytes,hencode,hstored,hfile⟩
      exact ⟨bytes,hencode,hrow.trans hstored,hfile⟩
  | installed snapshot =>
      rcases h with ⟨bytes,hencode,hstored,hfile⟩
      exact ⟨bytes,hencode,hrow.trans hstored,hfile⟩

theorem snapshotMeta_not_written {call : StorageCall} (h : call ≠ .buildSnapshot) :
    .snapshotMeta ∉ writtenKeys call := by
  cases call with
  | buildSnapshot => exact (h rfl).elim
  | _ => simp [writtenKeys]

/-- The other calls leave the row of the current snapshot alone. -/
theorem holds_runCall {outside : Outside} {latest : Latest} {s : Ledger}
    (h : Holds cbor outside latest s.db) {call : StorageCall} (hcall : call ≠ .buildSnapshot) :
    Holds cbor outside latest (runCall blake3 backend cbor call s).db := by
  have hlog : IgnoresLog (Holds cbor outside latest) := fun _ _ h => holds_of_row rfl h
  have hclaims : IgnoresClaims (Holds cbor outside latest) := fun _ _ _ h => holds_of_row rfl h
  apply keeps_runCall blake3 backend hlog hclaims _ h
  intro key hkey db table hothers hdb
  have hne : .snapshotMeta ≠ key := by
    intro heq
    exact snapshotMeta_not_written hcall (heq ▸ hkey)
  exact holds_of_row (hothers .snapshotMeta hne) hdb

theorem draws_appendRows (rows : List RaftLogRow) : Draws (appendRows rows) := by
  induction rows with
  | nil => exact draws_pure ()
  | cons row rest ih =>
      exact draws_bind (draws_ofExcept _) fun _ => draws_bind (draws_ofExcept _) fun _ =>
        draws_bind (draws_execute _) fun _ => ih

/-- They do not touch the files either. -/
theorem runCall_world {call : StorageCall} (hcall : call ≠ .buildSnapshot) (s : Ledger) :
    (runCall blake3 backend cbor call s).world = s.world := by
  cases call with
  | saveCommitted committed =>
      have hdraws : Draws (saveCommitted cbor committed) :=
        draws_bind (draws_ofExcept _) fun _ => draws_execute _
      exact (hdraws s).1
  | appendToLog entries =>
      have hdraws : Draws (appendToLog cbor entries) :=
        draws_bind (draws_ofExcept _) fun _ => draws_transaction (draws_appendRows _)
      exact (hdraws s).1
  | deleteConflictLogsSince logId =>
      have hdraws : Draws (deleteRaftLogsSince logId.index) :=
        draws_bind (draws_ofExcept _) fun _ => draws_execute _
      exact (hdraws s).1
  | purgeLogsUpto logId =>
      have hdraws : Draws (purgeLogsUpto cbor logId) :=
        draws_bind (draws_ofExcept _) fun _ => draws_transaction
          (draws_bind (draws_ofExcept _) fun _ => draws_bind (draws_execute _) fun _ =>
            draws_execute _)
      exact (hdraws s).1
  | applyToStateMachine entries =>
      have hdraws : Draws (applyToStateMachine blake3 backend cbor entries) :=
        draws_bind (draws_ofExcept _) fun _ => (commits_applyRaftEntries blake3 backend cbor _ _).draws
      exact (hdraws s).1
  | buildSnapshot => exact (hcall rfl).elim

theorem readFile_ok {path : String} {contents : FileContents} {s t : Ledger}
    (h : (readFile path).run s = (.ok contents,t)) :
    s.world.files.lookup path = some contents ∧ t.world = s.world := by
  rcases (external_ok.mp h).2 with ⟨outside,hlookup,rfl⟩
  cases hfile : s.world.files.lookup path with
  | none => simp [hfile] at hlookup
  | some found =>
      rw [hfile] at hlookup
      cases hlookup
      exact ⟨rfl,rfl⟩

theorem removeFile_ok {path : String} {s t : Ledger} {a : Unit}
    (h : (removeFile path).run s = (.ok a,t)) : t.world.files.lookup path = none := by
  rcases (external_ok.mp h).2 with ⟨outside,hremove,rfl⟩
  split at hremove
  · cases hremove
    exact Finmap.lookup_eq_none.mpr Finmap.notMem_erase_self
  · cases hremove

theorem saveSnapshotMeta_ok {metadata : SnapshotMeta} {s t : Ledger} {a : Unit}
    (h : (saveSnapshotMeta cbor metadata).run s = (.ok a,t)) :
    t.world = s.world ∧ ∃ bytes, encode cbor.snapshotMeta metadata = .ok bytes ∧
      t.db.raftMeta.lookup .snapshotMeta = some bytes := by
  have hdraws : Draws (saveSnapshotMeta cbor metadata) :=
    draws_bind (draws_ofExcept _) fun _ => draws_execute _
  have hworld := (hdraws s).1
  rw [h] at hworld
  rcases ofExcept_bind_ok.mp h with ⟨bytes,hencode,hsave⟩
  have hdb := saveRaftMeta_ok (mapFailure_ok.mp hsave)
  refine ⟨hworld,bytes,hencode,?_⟩
  rw [hdb]
  exact Finmap.lookup_insert _

/-- A built snapshot is in the row and in the file. -/
theorem holds_built {snapshot : Snapshot} {s t : Ledger}
    (h : (buildSnapshot cbor).run s = (.ok snapshot,t)) :
    Holds cbor t.world (.built snapshot) t.db := by
  rcases bind_ok.mp h with ⟨state,u,-,hrest⟩
  rcases bind_ok.mp hrest with ⟨path,v,hsnapshot,hrest⟩
  rcases bind_ok.mp hrest with ⟨contents,w,hread,hrest⟩
  rcases bind_ok.mp hrest with ⟨_,x,hsave,hpure⟩
  cases hpure
  have hpath : path = snapshotFile (snapshotIdOf state.1) := by
    rcases bind_ok.mp (mapFailure_ok.mp hsnapshot) with ⟨_,_,-,hvacuum⟩
    rcases bind_ok.mp hvacuum with ⟨_,_,-,hname⟩
    cases hname
    rfl
  rcases readFile_ok hread with ⟨hcontents,hseen⟩
  rcases saveSnapshotMeta_ok hsave with ⟨hworld,bytes,hencode,hrow⟩
  refine ⟨bytes,hencode,hrow,?_⟩
  rw [hworld,hseen,← hcontents,hpath]

/-- An installed snapshot is in the row, and its file is gone. -/
theorem holds_installed {metadata : SnapshotMeta} {contents : FileContents} {s t : Ledger}
    (h : (installSnapshot cbor metadata contents).run s = (.ok (),t)) :
    Holds cbor t.world (.installed ⟨metadata,contents⟩) t.db := by
  rcases bind_ok.mp h with ⟨_,u,-,hrest⟩
  rcases bind_ok.mp hrest with ⟨_,v,hrestore,hsave⟩
  rcases saveSnapshotMeta_ok hsave with ⟨hworld,bytes,hencode,hrow⟩
  refine ⟨bytes,hencode,hrow,?_⟩
  rcases bind_ok.mp (mapFailure_ok.mp hrestore) with ⟨_,_,-,hrest⟩
  rcases bind_ok.mp hrest with ⟨_,_,-,hrest⟩
  rcases bind_ok.mp hrest with ⟨_,_,-,hremove⟩
  rw [hworld]
  exact removeFile_ok hremove

theorem getCurrentSnapshot_of_none {db : Db} (h : db.raftMeta.lookup .snapshotMeta = none)
    (outside : Outside) :
    (getCurrentSnapshot cbor).run (calmAt db outside) = (.ok none,calmAt db outside) := by
  rw [getCurrentSnapshot,bind_run,readMeta_calm,metaValue,h]
  rfl

theorem getCurrentSnapshot_of_row (hround : cbor.snapshotMeta.RoundTrips) {db : Db}
    {metadata : SnapshotMeta} {bytes : Bytes}
    (hencode : encode cbor.snapshotMeta metadata = .ok bytes)
    (hrow : db.raftMeta.lookup .snapshotMeta = some bytes) (outside : Outside) :
    (getCurrentSnapshot cbor).run (calmAt db outside) =
      match outside.files.lookup (snapshotFile metadata.snapshotId) with
      | some contents => (.ok (some ⟨metadata,contents⟩),calmAt db outside)
      | none => (.error (stoRead "No such file or directory (os error 2)"),calmAt db outside) := by
  rw [getCurrentSnapshot,bind_run,readMeta_calm,metaValue,hrow]
  dsimp only
  rw [decode_encode hround hencode]
  simp only [Except.map,bind_run,readFile,external_run,calmAt_faults,calmAt_world]
  cases outside.files.lookup (snapshotFile metadata.snapshotId) with
  | none => rfl
  | some contents => rfl

theorem holds_run {db : Db} {outside : Outside} {latest : Latest}
    (h : SnapshotRun blake3 backend cbor db outside latest) : Holds cbor outside latest db := by
  induction h with
  | opened files => exact Finmap.lookup_empty _
  | @voted db outside latest _ vote ih =>
      have hdraws : Draws (saveVote cbor vote) :=
        draws_bind (draws_ofExcept _) fun _ => draws_execute _
      have hmeta : IgnoresMeta .vote (Holds cbor outside latest) :=
        fun _ _ hothers hdb => holds_of_row (hothers .snapshotMeta (by decide)) hdb
      have hsave : Keeps (Holds cbor outside latest) (saveVote cbor vote) :=
        keeps_bind (keeps_ofExcept _) fun _ => keeps_throughWriter (keeps_saveRaftMeta hmeta _)
      rw [(hdraws (calmAt db outside)).1]
      exact hsave (calmAt db outside) ih
  | called _ hcall ih =>
      rw [runCall_world blake3 backend hcall]
      exact holds_runCall blake3 backend ih hcall
  | built _ hrun _ => exact holds_built hrun
  | installed _ hrun _ => exact holds_installed hrun

/-- In every state of a node the current snapshot reads as the most recent of the two
operations made it, exactly when that was not an installation. -/
theorem current_snapshot_readable_iff (hround : cbor.snapshotMeta.RoundTrips) {db : Db}
    {outside : Outside} {latest : Latest} (h : SnapshotRun blake3 backend cbor db outside latest) :
    ((getCurrentSnapshot cbor).run (calmAt db outside)).1 = .ok latest.snapshot ↔
      ∀ snapshot, latest ≠ .installed snapshot := by
  have hholds := holds_run blake3 backend h
  cases latest with
  | none =>
      rw [getCurrentSnapshot_of_none hholds]
      exact iff_of_true rfl nofun
  | built snapshot =>
      rcases hholds with ⟨bytes,hencode,hrow,hfile⟩
      rw [getCurrentSnapshot_of_row hround hencode hrow,hfile]
      exact iff_of_true rfl nofun
  | installed snapshot =>
      rcases hholds with ⟨bytes,hencode,hrow,hfile⟩
      rw [getCurrentSnapshot_of_row hround hencode hrow,hfile]
      exact iff_of_false nofun fun hnot => hnot snapshot rfl

end Runs

theorem emptyMeta_roundTrips : voteCbor.snapshotMeta.RoundTrips := listedCodec_roundTrips (by
  intro r hr r' hr' _
  rw [List.mem_singleton.mp hr,List.mem_singleton.mp hr'])

/-- A fresh node which installs the image of another fresh node cannot read it back. -/
theorem installed_snapshot_unreadable :
    ∃ (cbor : Cbor) (db : Db) (outside : Outside) (snapshot : Snapshot) (e : StorageError),
      cbor.snapshotMeta.RoundTrips ∧
      SnapshotRun singleChunkHash (listedBackend []) cbor db outside (.installed snapshot) ∧
      ((getCurrentSnapshot cbor).run (calmAt db outside)).1 = .error e := by
  have hinstall := installSnapshot_calm encode_emptyMeta emptyDb emptyDb ∅
  have hrow : (putMeta .snapshotMeta emptyMetaBytes emptyDb).raftMeta.lookup .snapshotMeta =
      some emptyMetaBytes := Finmap.lookup_insert _
  have hfile : ((∅ : Table String FileContents).erase (snapshotFile emptyMeta.snapshotId)).lookup
      (snapshotFile emptyMeta.snapshotId) = none :=
    Finmap.lookup_eq_none.mpr Finmap.notMem_erase_self
  have hread := getCurrentSnapshot_of_row emptyMeta_roundTrips encode_emptyMeta hrow
    ⟨(∅ : Table String FileContents).erase (snapshotFile emptyMeta.snapshotId),false⟩
  rw [hfile] at hread
  exact ⟨voteCbor,_,_,⟨emptyMeta,.database (imageOf emptyDb)⟩,_,emptyMeta_roundTrips,
    SnapshotRun.installed (SnapshotRun.opened ∅) hinstall,congrArg Prod.fst hread⟩

/-- A snapshot which the node built itself is read back. -/
theorem built_snapshot_readable :
    ∃ (db : Db) (outside : Outside) (snapshot : Snapshot),
      SnapshotRun singleChunkHash (listedBackend []) voteCbor db outside (.built snapshot) ∧
      ((getCurrentSnapshot voteCbor).run (calmAt db outside)).1 = .ok (some snapshot) := by
  have hstate : (lastAppliedState voteCbor).run (calmAt emptyDb ⟨∅,false⟩) =
      (.ok (none,defaultMembership),calmAt emptyDb ⟨∅,false⟩) :=
    @lastAppliedState_calm voteCbor emptyDb none none rfl rfl ⟨∅,false⟩
  have hrun : SnapshotRun singleChunkHash (listedBackend []) voteCbor _ _ (.built _) :=
    SnapshotRun.built (SnapshotRun.opened ∅) (buildSnapshot_calm hstate encode_emptyMeta)
  exact ⟨_,_,_,hrun,(current_snapshot_readable_iff _ _ emptyMeta_roundTrips hrun).mpr nofun⟩

end OmegaHarness.CurrentSnapshot
