import OmegaHarness.AbsorbingLogs
import OmegaHarness.CurrentSnapshot
import OmegaHarness.ReplayClasses
import OmegaHarness.SnapshotInterleaving

/-!
# Runs of a cluster

The nodes of a cluster apply one committed log, which only grows; that they agree on it
is the business of the consensus library. A node is handed the entries behind the log id
which the library takes for the last applied one: what the database said when the node
started, then the last entry of each batch, or what the metadata of an installed snapshot
states. A builder reads its metadata and writes its image at different times, with batches
in between, so an image may be ahead of its metadata. The node which installs it is then
handed entries whose rows it has already.

Nodes stop at any time, and any statement may fail. A failing write of a marker fails the
batch, which stops the node. A failing statement of a claim does not: the claim is answered
with a rejection, and the marker moves past an entry whose rows are missing. Such an entry is
lost on this node. A run may be limited to batches which lose none; a node which only fails
by going down loses none.

One snapshot is built or installed on a node at a time: an installation ends a build which is
under way.
-/
namespace OmegaHarness.ClusterRuns
open DomainHashes ClaimTypes ClaimVerifier FaultyTransactions FaultStreams CommitPrefixes KeyedTables
open LedgerStore RaftTypes ClaimApplication LedgerWriter LedgerHistory WriterFrames ClaimStatements
open RaftStorage EntryCommits ReplicaAgreement CrashRecovery VoteSurvival AbsorbingLogs
open ReplayClasses (Claimed)
open SnapshotInterleaving (Phase)

/-- Every claim row of the first database is one of the second. -/
structure Contained (a b : Db) : Prop where
  nullifiers : ∀ key row, a.nullifiers.lookup key = some row → b.nullifiers.lookup key = some row
  utxos : ∀ id row, a.starstreamUtxos.lookup id = some row → b.starstreamUtxos.lookup id = some row

namespace Contained
variable {blake3 : Bytes → Hash} {backend : ProofBackend} {a b c : Db}

theorem refl (db : Db) : Contained db db := ⟨fun _ _ h => h,fun _ _ h => h⟩

theorem trans (h : Contained a b) (h' : Contained b c) : Contained a c where
  nullifiers key row hrow := h'.nullifiers key row (h.nullifiers key row hrow)
  utxos id row hrow := h'.utxos id row (h.utxos id row hrow)

theorem of_sameClaims (h : SameClaims a b) : Contained a b where
  nullifiers key row hrow := by rw [← h.nullifiers,hrow]
  utxos id row hrow := by rw [← h.utxos,hrow]

theorem mem_nullifiers (h : Contained a b) {key : ℤ × ℤ} (hkey : key ∈ a.nullifiers) :
    key ∈ b.nullifiers := by
  rcases Finmap.mem_iff.mp hkey with ⟨row,hrow⟩
  exact Finmap.mem_of_lookup_eq_some (h.nullifiers key row hrow)

/-- A claim which more rows do not stop is not stopped by fewer. -/
theorem acceptable (h : Contained a b) {command : LedgerCommand}
    (hok : Acceptable blake3 backend command b) : Acceptable blake3 backend command a := by
  have hspec := acceptable_iff.mp hok
  apply acceptable_iff.mpr
  refine ⟨hspec.1,hspec.2.1.of_subset fun _ hkey => h.mem_nullifiers hkey,hspec.2.2.of_subset ?_⟩
  intro id hid
  rcases Finmap.mem_iff.mp hid with ⟨row,hrow⟩
  exact Finmap.mem_of_lookup_eq_some (h.utxos id row hrow)

theorem applied {command : LedgerCommand} (hok : Acceptable blake3 backend command a) :
    Contained a (applied blake3 command a) := by
  have hrows := rowsAdded_of_acceptable blake3 hok
  constructor
  · intro key row hrow
    rw [hrows.nullifiers]
    exact lookup_addAll_kept hrows.nullifiersFree hrow
  · intro id row hrow
    rw [hrows.utxos]
    exact lookup_addAll_kept hrows.utxosFree hrow

theorem settle (payload : EntryPayload) (db : Db) :
    Contained db (settle blake3 backend payload db) := by
  cases payload with
  | blank => exact refl db
  | membership m => exact refl db
  | normal command =>
      by_cases hok : Acceptable blake3 backend command db
      · rw [settle_accepts hok]
        exact applied hok
      · rw [settle_rejects hok]
        exact refl db

end Contained

section Ledger
variable (blake3 : Bytes → Hash) (backend : ProofBackend)

/-- The claims of a log: its entries, applied to an empty ledger without a failure. -/
def ledgerOf (entries : List Entry) : Db :=
  replay (fun e : Entry => settle blake3 backend e.payload) entries emptyDb

/-- A claim whose rows are there is rejected, so an entry is absorbed where it was applied. -/
theorem settle_absorbing :
    Absorbing (fun e : Entry => settle blake3 backend e.payload) Contained where
  refl := Contained.refl
  trans := Contained.trans
  grows e db := Contained.settle e.payload db
  absorbs e a b hcontained := by
    apply settle_unchanged
    intro command hpayload hok
    by_contra hsome
    have hfirst : Acceptable blake3 backend command a :=
      ((Contained.settle e.payload a).trans hcontained).acceptable hok
    rw [hpayload,settle_accepts hfirst] at hcontained
    rcases List.exists_mem_of_ne_nil _ hsome with ⟨p,hp⟩
    have hkey : nullifierKey p ∈ (applied blake3 command a).nullifiers := by
      rw [(rowsAdded_of_acceptable blake3 hfirst).nullifiers]
      exact mem_addAll.mpr (Or.inr (List.mem_map_of_mem (List.mem_map_of_mem hp)))
    exact (hok.unclaimed blake3 p hp).2 (hcontained.mem_nullifiers hkey)

end Ledger

/-- A node: its database, the files beside it, the log id which the consensus library takes
for the last applied one (if the node is up), and its snapshot builder. -/
structure Node where
  db : Db
  outside : Outside
  lastApplied : Option (Option LogId)
  phase : Phase

def Node.session (node : Node) (faults : ℕ → Option String) : Ledger :=
  ⟨node.db,node.outside,faults⟩

def Node.after (node : Node) (t : Ledger) : Node := { node with db := t.db, outside := t.world }

/-- The committed log, the nodes, the snapshots which were handed to the network, and the
answers which any node has given to the entries it applied. -/
structure Cluster (N : Type) where
  committed : List Entry
  nodes : N → Node
  offered : List Snapshot
  answered : List (Entry × LedgerResponse)

def Cluster.initial (N : Type) : Cluster N :=
  ⟨[],fun _ => ⟨emptyDb,⟨∅,false⟩,none,.ready⟩,[],[]⟩

/-- The entries behind a log id. -/
def behind (committed : List Entry) : Option LogId → List Entry
  | none => committed
  | some id => committed.filter fun e => id.index < e.logId.index

/-- A log id which is read back as it was written. -/
def StorableId (cbor : Cbor) (id : LogId) : Prop :=
  ∃ bytes, cbor.logId.encode id = .ok bytes ∧ decode cbor.logId bytes = .ok id

/-- The log id behind a batch. -/
def batchEnd (lastApplied : Option LogId) (entries : List Entry) : Option LogId :=
  match entries.getLast? with
  | some e => some e.logId
  | none => lastApplied

section Steps
variable {N : Type} [DecidableEq N] (blake3 : Bytes → Hash) (backend : ProofBackend) (cbor : Cbor)

def Cluster.put (σ : Cluster N) (n : N) (node : Node) : Cluster N :=
  { σ with nodes := Function.update σ.nodes n node }

theorem Cluster.put_self (σ : Cluster N) (n : N) (node : Node) : (σ.put n node).nodes n = node := by
  simp [Cluster.put]

theorem Cluster.put_of_ne (σ : Cluster N) {m n : N} (h : m ≠ n) (node : Node) :
    (σ.put n node).nodes m = σ.nodes m := by
  simp [Cluster.put,h]

/-- What a node does on its own. The reads of a builder go past the writer. -/
inductive Local (offered : List Snapshot) : Node → Node → Prop
  | stop (node : Node) : Local offered node { node with lastApplied := none, phase := .ready }
  | start {node : Node} {lastApplied : Option LogId}
      (hread : metaValue cbor.logId .lastAppliedLogId node.db = .ok lastApplied) :
      Local offered node { node with
        outside := { node.outside with attached := false }
        lastApplied := some lastApplied
        phase := .ready }
  | saveVote (node : Node) (vote : Vote) (faults : ℕ → Option String) :
      Local offered node (node.after ((saveVote cbor vote).run (node.session faults)).2)
  | saveCommitted (node : Node) (committed : Option LogId) (faults : ℕ → Option String) :
      Local offered node (node.after ((saveCommitted cbor committed).run (node.session faults)).2)
  | appendToLog (node : Node) (entries : List Entry) (faults : ℕ → Option String) :
      Local offered node (node.after ((appendToLog cbor entries).run (node.session faults)).2)
  | deleteConflictLogsSince (node : Node) (logId : LogId) (faults : ℕ → Option String) :
      Local offered node (node.after ((deleteConflictLogsSince logId).run (node.session faults)).2)
  | purgeLogsUpto (node : Node) (logId : LogId) (faults : ℕ → Option String) :
      Local offered node (node.after ((purgeLogsUpto cbor logId).run (node.session faults)).2)
  | abandon (node : Node) : Local offered node { node with phase := .ready }
  | readApplied {node : Node} {lastApplied : Option LogId} (hphase : node.phase = .ready)
      (hread : metaValue cbor.logId .lastAppliedLogId node.db = .ok lastApplied) :
      Local offered node { node with phase := .readApplied lastApplied }
  | readMembership {node : Node} {lastApplied : Option LogId} {membership : Option StoredMembership}
      (hphase : node.phase = .readApplied lastApplied)
      (hread : metaValue cbor.storedMembership .lastMembership node.db = .ok membership) :
      Local offered node { node with
        phase := .queued ⟨lastApplied,membership.getD defaultMembership,snapshotIdOf lastApplied⟩ }
  | image {node : Node} {metadata : SnapshotMeta} {faults : ℕ → Option String}
      {result : Except StorageError String} {t : Ledger} (hphase : node.phase = .queued metadata)
      (hrun : (throughWriter (snapshot metadata.snapshotId)).run (node.session faults) =
        (result,t)) :
      Local offered node { node.after t with phase :=
        match result with
        | .ok _ => .imaged metadata
        | .error _ => .ready }
  | readFile {node : Node} {metadata : SnapshotMeta} {contents : FileContents}
      (hphase : node.phase = .imaged metadata)
      (hread : node.outside.files.lookup (snapshotFile metadata.snapshotId) = some contents) :
      Local offered node { node with phase := .loaded ⟨metadata,contents⟩ }
  | writeMeta {node : Node} {built : Snapshot} {faults : ℕ → Option String}
      {result : Except StorageError Unit} {t : Ledger} (hphase : node.phase = .loaded built)
      (hrun : (saveSnapshotMeta cbor built.metadata).run (node.session faults) = (result,t)) :
      Local offered node { node.after t with phase :=
        match result with
        | .ok _ => .returned built
        | .error _ => .ready }
  | install {node : Node} {built : Snapshot} {faults : ℕ → Option String}
      {result : Except StorageError Unit} {t : Ledger} (hup : node.lastApplied ≠ none)
      (hoffered : built ∈ offered)
      (hrun : (installSnapshot cbor built.metadata built.contents).run (node.session faults) =
        (result,t)) :
      Local offered node { node.after t with
        lastApplied := match result with
          | .ok _ => some built.metadata.lastLogId
          | .error _ => none
        phase := .ready }

/-- A claim which a failing statement stopped, although its marker was written. -/
def Lost (entry : Entry) (s : Ledger) : Prop :=
  Interrupted blake3 backend entry.payload s ∧
    ∃ response t, (applyEntry blake3 backend cbor entry).run s = (.ok response,t)

def LosesNone : List Entry → Ledger → Prop
  | [],_ => True
  | entry::rest,s => ¬Lost blake3 backend cbor entry s ∧
      ∀ response t, (applyEntry blake3 backend cbor entry).run s = (.ok response,t) → LosesNone rest t

/-- The node behind a batch, which an error of the batch stops. -/
def Node.applied (node : Node) (lastApplied : Option LogId) (entries : List Entry)
    (outcome : Except StorageError (List LedgerResponse) × Ledger) : Node :=
  match outcome.1 with
  | .ok _ => { node.after outcome.2 with lastApplied := some (batchEnd lastApplied entries) }
  | .error _ => { node.after outcome.2 with lastApplied := none, phase := .ready }

def answers (entries : List Entry) (result : Except StorageError (List LedgerResponse)) :
    List (Entry × LedgerResponse) :=
  match result with
  | .ok responses => entries.zip responses
  | .error _ => []

/-- The steps of a cluster. The first parameter limits the batches: which entries may be applied in
which session. -/
inductive Step (admits : List Entry → Ledger → Prop) : Cluster N → Cluster N → Prop
  | commit {σ : Cluster N} {entry : Entry}
      (hahead : ∀ e ∈ σ.committed, e.logId.index < entry.logId.index)
      (hid : StorableId cbor entry.logId) :
      Step admits σ { σ with committed := σ.committed++[entry] }
  | act {σ : Cluster N} {n : N} {node : Node} (h : Local cbor σ.offered (σ.nodes n) node) :
      Step admits σ (σ.put n node)
  | offer {σ : Cluster N} {n : N} {built : Snapshot} (hphase : (σ.nodes n).phase = .returned built) :
      Step admits σ { σ.put n { σ.nodes n with phase := .ready } with offered := built::σ.offered }
  | apply {σ : Cluster N} {n : N} {lastApplied : Option LogId} {entries : List Entry}
      {faults : ℕ → Option String}
      {outcome : Except StorageError (List LedgerResponse) × Ledger}
      (hup : (σ.nodes n).lastApplied = some lastApplied)
      (hnext : entries <+: behind σ.committed lastApplied)
      (hadmits : admits entries ((σ.nodes n).session faults))
      (hrun : (applyToStateMachine blake3 backend cbor entries).run ((σ.nodes n).session faults) =
        outcome) :
      Step admits σ { σ.put n ((σ.nodes n).applied lastApplied entries outcome) with
        answered := σ.answered++answers entries outcome.1 }

inductive Reachable (admits : List Entry → Ledger → Prop) : Cluster N → Prop
  | initial : Reachable admits (Cluster.initial N)
  | step {σ τ : Cluster N} (before : Reachable admits σ)
      (next : Step blake3 backend cbor admits σ τ) : Reachable admits τ

/-- The states of the runs in which no batch loses a claim. -/
abbrev Lossless (σ : Cluster N) : Prop :=
  Reachable blake3 backend cbor (LosesNone blake3 backend cbor) σ

end Steps

section Positions
variable (blake3 : Bytes → Hash) (backend : ProofBackend) (cbor : Cbor)

/-- The log id is that of an entry among these, or there is none. -/
def Reached (done : List Entry) : Option LogId → Prop
  | none => True
  | some id => ∃ e ∈ done, e.logId = id

/-- The tables are those of these entries, and the marker is not ahead of them. -/
structure Holds (done : List Entry) (db : Db) : Prop where
  claims : SameClaims db (ledgerOf blake3 backend done)
  marker : ∃ id, metaValue cbor.logId .lastAppliedLogId db = .ok id ∧ Reached done id

/-- What an answer says about the log: an accepted claim is one which the log accepts at its
place, a replayed one names a leaf which the log has claimed, and a claim rejected for its
proof or its shape is accepted nowhere. That the writer is closed is never an answer. -/
structure AnswerSound (committed before : List Entry) (command : LedgerCommand)
    (response : LedgerResponse) : Prop where
  form : response = .ofAccepted ∨ ∃ e, response = .rejected e ∧ rejectClass e ≠ .writerClosed
  accepted : response.accepted = true →
    Acceptable blake3 backend command (ledgerOf blake3 backend before)
  replay : response.reject = some .replay → Claimed command (ledgerOf blake3 backend committed)
  refused : response.reject = some .verify ∨ response.reject = some .invalidClaim →
    ∀ db, ¬Acceptable blake3 backend command db

def Answered (committed : List Entry) (answer : Entry × LedgerResponse) : Prop :=
  ∃ before, before++[answer.1] <+: committed ∧ ∀ command, answer.1.payload = .normal command →
    AnswerSound blake3 backend committed before command answer.2

end Positions

section Growth
variable {blake3 : Bytes → Hash} {backend : ProofBackend} {cbor : Cbor}
  {committed committed' done done' : List Entry} {db db' : Db}

theorem ledgerOf_contained (h : done <+: done') :
    Contained (ledgerOf blake3 backend done) (ledgerOf blake3 backend done') :=
  (settle_absorbing blake3 backend).replay_mono h emptyDb

/-- What an accepted entry at the end of a log adds. -/
theorem ledgerOf_accepts {before : List Entry} {entry : Entry} {command : LedgerCommand}
    (hpayload : entry.payload = .normal command)
    (hok : Acceptable blake3 backend command (ledgerOf blake3 backend before)) :
    ledgerOf blake3 backend (before++[entry]) =
      applied blake3 command (ledgerOf blake3 backend before) := by
  rw [← settle_accepts hok,← hpayload]
  exact replay_concat _ before entry emptyDb

theorem Reached.mono {id : Option LogId} (h : Reached done id) (hextends : done <+: done') :
    Reached done' id := by
  cases id with
  | none => trivial
  | some id =>
      rcases h with ⟨e,he,hid⟩
      exact ⟨e,hextends.subset he,hid⟩

theorem claimed_mono {command : LedgerCommand} (h : Claimed command db) (hcontained : Contained db db') :
    Claimed command db' := by
  rcases h with ⟨p,hp,hkey⟩
  exact ⟨p,hp,hcontained.mem_nullifiers hkey⟩

theorem Answered.mono {answer : Entry × LedgerResponse} (h : Answered blake3 backend committed answer)
    (hextends : committed <+: committed') : Answered blake3 backend committed' answer := by
  rcases h with ⟨before,hbefore,hanswer⟩
  refine ⟨before,hbefore.trans hextends,?_⟩
  intro command hpayload
  have hsound := hanswer command hpayload
  exact { hsound with
    replay := fun hreplay => claimed_mono (hsound.replay hreplay) (ledgerOf_contained hextends) }

end Growth

section Tables
variable {blake3 : Bytes → Hash} {backend : ProofBackend} {cbor : Cbor}
  {committed done start : List Entry} {db db' : Db} {entry : Entry}

theorem Holds.congr (h : Holds blake3 backend cbor done db) (hsame : SameLedger db' db) :
    Holds blake3 backend cbor done db' where
  claims := ⟨hsame.nullifiers.trans h.claims.nullifiers,hsame.utxos.trans h.claims.utxos⟩
  marker := by
    rw [metaValue_congr hsame.lastApplied]
    exact h.marker

theorem Holds.ignoresLog : IgnoresLog (Holds blake3 backend cbor done) :=
  fun _ _ h => h.congr ⟨⟨rfl,rfl⟩,rfl⟩

theorem Holds.ignoresMeta {key : MetaKey} (hkey : .lastAppliedLogId ≠ key) :
    IgnoresMeta key (Holds blake3 backend cbor done) :=
  fun _ _ hothers h => h.congr ⟨⟨rfl,rfl⟩,hothers .lastAppliedLogId hkey⟩

theorem holds_empty : Holds blake3 backend cbor [] emptyDb := ⟨⟨rfl,rfl⟩,none,rfl,trivial⟩

/-- The rows of the next entry: new ones, or those which are there already. -/
theorem Holds.settle (h : Holds blake3 backend cbor done db) (hnext : start++[entry] <+: committed)
    (hdone : done <+: committed) (hpassed : start <+: done) :
    ∃ done', done <+: done' ∧ done' <+: committed ∧ start++[entry] <+: done' ∧
      Holds blake3 backend cbor done' (settle blake3 backend entry.payload db) := by
  rcases (settle_absorbing blake3 backend).resume hnext hdone hpassed emptyDb with
    ⟨done',hgrown,hinside,hreached,hledger⟩
  refine ⟨done',hgrown,hinside,hreached,?_,?_⟩
  · have hclaims := @settle_sameClaims blake3 backend _ _ h.claims entry.payload
    rw [ledgerOf] at hclaims
    rw [hledger] at hclaims
    exact hclaims
  · rcases h.marker with ⟨id,hid,hmarked⟩
    refine ⟨id,?_,hmarked.mono hgrown⟩
    rw [metaValue,settle_raftMeta]
    exact hid

theorem Holds.mark {bytes : Bytes} (h : Holds blake3 backend cbor done db) (hmem : entry ∈ done)
    (hdecode : decode cbor.logId bytes = .ok entry.logId) :
    Holds blake3 backend cbor done (putMeta .lastAppliedLogId bytes db) where
  claims := ⟨h.claims.nullifiers,h.claims.utxos⟩
  marker := by
    refine ⟨some entry.logId,?_,entry,hmem,rfl⟩
    rw [metaValue,putMeta,Finmap.lookup_insert]
    dsimp only
    rw [hdecode]
    rfl

/-- A whole entry: its rows, then its marker. -/
theorem Holds.settle_mark {bytes : Bytes} (h : Holds blake3 backend cbor done db)
    (hnext : start++[entry] <+: committed) (hdone : done <+: committed) (hpassed : start <+: done)
    (hdecode : decode cbor.logId bytes = .ok entry.logId) :
    ∃ done', done <+: done' ∧ done' <+: committed ∧ start++[entry] <+: done' ∧
      Holds blake3 backend cbor done' (putMeta .lastAppliedLogId bytes
        (ClaimStatements.settle blake3 backend entry.payload db)) := by
  rcases h.settle hnext hdone hpassed with ⟨done',hgrown,hinside,hreached,hholds⟩
  exact ⟨done',hgrown,hinside,hreached,hholds.mark (hreached.subset (by simp)) hdecode⟩

end Tables

end OmegaHarness.ClusterRuns
