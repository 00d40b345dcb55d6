import OmegaHarness.LedgerWriter

/-!
# What the writer's commands leave alone

Each command touches some of the tables. A property of the database which does
not read those survives the command, whether it succeeds, is rejected, or is
interrupted by a fault at any of its statements.
-/
namespace OmegaHarness.WriterFrames
open DomainHashes ClaimTypes ClaimVerifier FaultyTransactions KeyedTables LedgerStore RaftTypes
open ClaimApplication LedgerWriter

def IgnoresLog (I : Db → Prop) : Prop := ∀ db log, I db → I { db with raftLog := log }

/-- A property which does not read the consensus value under one key. -/
def IgnoresMeta (key : MetaKey) (I : Db → Prop) : Prop :=
  ∀ db table, (∀ other, other ≠ key → Finmap.lookup other table = db.raftMeta.lookup other) →
    I db → I { db with raftMeta := table }

/-- A property which does not read the rows that claims add. -/
def IgnoresClaims (I : Db → Prop) : Prop :=
  ∀ db nullifiers utxos, I db → I { db with nullifiers := nullifiers, starstreamUtxos := utxos }

/-- A property which reads the two ledger tables only. -/
def LedgerOnly (I : Db → Prop) : Prop :=
  ∀ db db', db'.nullifiers = db.nullifiers → db'.starstreamUtxos = db.starstreamUtxos → I db → I db'

variable {I : Db → Prop}

theorem LedgerOnly.ignoresLog (hI : LedgerOnly I) : IgnoresLog I := fun db _ => hI db _ rfl rfl

theorem LedgerOnly.ignoresMeta (hI : LedgerOnly I) (key : MetaKey) : IgnoresMeta key I :=
  fun db _ _ => hI db _ rfl rfl

theorem keeps_checkpointWalTruncate : Keeps I checkpointWalTruncate := by
  unfold checkpointWalTruncate sql
  apply keeps_statement
  intro db a db' h hrun
  cases hrun
  exact h

theorem keeps_saveRaftMeta {key : MetaKey} (hI : IgnoresMeta key I) (value : Option Bytes) :
    Keeps I (saveRaftMeta key value) := by
  apply keeps_execute
  intro db db' h hrun
  cases hrun
  apply hI db _ _ h
  intro other hother
  cases value with
  | none => exact Finmap.lookup_erase_ne hother
  | some bytes => exact Finmap.lookup_insert_of_ne _ hother

theorem keeps_appendRaftLogs (hI : IgnoresLog I) (rows : List RaftLogRow) :
    Keeps I (appendRaftLogs rows) := by
  apply keeps_transaction
  induction rows with
  | nil => exact keeps_pure ()
  | cons row rest ih =>
      rw [appendRows]
      refine keeps_bind (keeps_ofExcept _) ?_
      intro logIdx
      refine keeps_bind (keeps_ofExcept _) ?_
      intro term
      refine keeps_bind (keeps_execute ?_) fun _ => ih
      intro db db' h hrun
      cases hrun
      exact hI db _ h

theorem keeps_deleteRaftLogsSince (hI : IgnoresLog I) (logIdx : UInt64) :
    Keeps I (deleteRaftLogsSince logIdx) := by
  unfold deleteRaftLogsSince
  refine keeps_bind (keeps_ofExcept _) ?_
  intro bound
  apply keeps_execute
  intro db db' h hrun
  cases hrun
  exact hI db _ h

theorem keeps_purgeRaftLogsUpto (hlog : IgnoresLog I) (hmeta : IgnoresMeta .lastPurgedLogId I)
    (logIdx : UInt64) (lastPurged : Bytes) : Keeps I (purgeRaftLogsUpto logIdx lastPurged) := by
  apply keeps_transaction
  refine keeps_bind (keeps_ofExcept _) ?_
  intro bound
  refine keeps_bind (keeps_execute ?_) fun _ => keeps_saveRaftMeta hmeta _
  intro db db' h hrun
  cases hrun
  exact hlog db _ h

theorem keeps_removeIfPresent (path : String) : Keeps I (removeIfPresent path) := by
  refine keeps_bind keeps_peek ?_
  intro seen
  split
  · exact keeps_external _
  · exact keeps_pure ()

theorem keeps_snapshot (snapshotId : String) : Keeps I (snapshot snapshotId) :=
  keeps_bind (keeps_removeIfPresent _) fun _ => keeps_bind (keeps_external _) fun _ => keeps_pure _

/-- A snapshot file holds the tables of the moment it was taken. -/
theorem snapshot_ok {snapshotId path : String} {s t : Ledger}
    (h : (snapshot snapshotId).run s = (.ok path,t)) :
    t.db = s.db ∧ t.world.files.lookup path = some (.database (imageOf s.db)) := by
  rcases bind_ok.mp h with ⟨_,u,hremove,hrest⟩
  have hkept : u.db = s.db := by
    have hkeeps := @keeps_removeIfPresent (fun db => db = s.db) (snapshotFile snapshotId) s rfl
    rw [hremove] at hkeeps
    exact hkeeps
  rcases bind_ok.mp hrest with ⟨_,v,hvacuum,hpath⟩
  rcases (external_ok.mp hvacuum).2 with ⟨outside,hwrite,rfl⟩
  cases hpath
  split at hwrite
  · cases hwrite
  · cases hwrite
    exact ⟨hkept,hkept ▸ Finmap.lookup_insert _⟩

theorem removeIfPresent_calm (path : String) (db : Db) (outside : Outside) :
    (removeIfPresent path).run (calmAt db outside) =
      (.ok (),calmAt db { outside with files := outside.files.erase path }) := by
  rw [removeIfPresent,bind_run,peek_run]
  dsimp only
  rw [calmAt_world]
  by_cases hpresent : path ∈ outside.files
  · rw [if_pos hpresent]
    exact external_calm (if_pos hpresent)
  · rw [if_neg hpresent,erase_absent hpresent]
    rfl

/-- Without faults a snapshot replaces any older file of its name. -/
theorem snapshot_calm (snapshotId : String) (db : Db) (outside : Outside) :
    (snapshot snapshotId).run (calmAt db outside) = (.ok (snapshotFile snapshotId),
      calmAt db { outside with
        files := outside.files.insert (snapshotFile snapshotId) (.database (imageOf db)) }) := by
  have hvacuum : (vacuumInto (snapshotFile snapshotId)).run
      (calmAt db { outside with files := outside.files.erase (snapshotFile snapshotId) }) =
      (.ok (),calmAt db { outside with
        files := outside.files.insert (snapshotFile snapshotId) (.database (imageOf db)) }) := by
    rw [← insert_erase]
    exact external_calm (if_neg Finmap.notMem_erase_self)
  exact bind_ok.mpr ⟨_,_,removeIfPresent_calm _ db outside,bind_ok.mpr ⟨_,_,hvacuum,rfl⟩⟩

section Entries
variable (blake3 : Bytes → Hash) (backend : ProofBackend) (cbor : Cbor)

theorem keeps_applyClaimTx (hI : IgnoresClaims I) (command : LedgerCommand) :
    Keeps I (applyClaimTx blake3 backend command) := by
  intro s h
  cases hrun : (applyClaimTx blake3 backend command).run s with
  | mk r t =>
    cases r with
    | error e => exact (atomic_applyClaimTx blake3 backend command s e t hrun).symm ▸ h
    | ok a => exact (applyClaimTx_ok blake3 hrun).2.symm ▸ hI s.db _ _ h

theorem keeps_applyPayload (hI : IgnoresClaims I) (payload : EntryPayload) :
    Keeps I (applyPayload blake3 backend payload) := by
  cases payload with
  | blank => exact keeps_pure _
  | membership m => exact keeps_pure _
  | normal command =>
      refine keeps_bind (keeps_attempt (keeps_applyClaimTx blake3 backend hI command)) ?_
      intro result
      cases result <;> exact keeps_pure _

theorem keeps_applyEntries (hclaims : IgnoresClaims I) (hmeta : IgnoresMeta .lastAppliedLogId I)
    (entries : List Entry) : Keeps I (applyEntries blake3 backend cbor entries) := by
  induction entries with
  | nil => exact keeps_pure []
  | cons entry rest ih =>
      refine keeps_bind ?_ fun _ => keeps_bind ih fun _ => keeps_pure _
      refine keeps_bind (keeps_applyPayload blake3 backend hclaims entry.payload) ?_
      intro response
      refine keeps_bind (keeps_ofExcept _) ?_
      intro lastApplied
      exact keeps_bind (keeps_saveRaftMeta hmeta _) fun _ => keeps_pure _

theorem keeps_saveLastMembership (hI : IgnoresMeta .lastMembership I) (lastMembership : Option Bytes) :
    Keeps I (saveLastMembership lastMembership) := by
  cases lastMembership with
  | none => exact keeps_pure ()
  | some bytes =>
      rw [saveLastMembership]
      exact keeps_saveRaftMeta hI _

theorem keeps_applyRaftEntries (hclaims : IgnoresClaims I) (happlied : IgnoresMeta .lastAppliedLogId I)
    (hmembership : IgnoresMeta .lastMembership I) (entries : List Entry)
    (lastMembership : Option Bytes) :
    Keeps I (applyRaftEntries blake3 backend cbor entries lastMembership) :=
  keeps_bind (keeps_applyEntries blake3 backend cbor hclaims happlied entries) fun _ =>
    keeps_bind (keeps_saveLastMembership hmembership _) fun _ => keeps_pure _

end Entries

end OmegaHarness.WriterFrames
