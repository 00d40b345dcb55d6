import OmegaHarness.EnvelopeCodec
import OmegaHarness.RaftStorage

/-!
# The vote of a node across snapshot installations

A node answers `read_vote` with the vote it last saved. The vote is a row of
`raft_meta`, and installing a snapshot replaces that whole table by the table of
the node which built the image. So the saved vote survives exactly as long as
every installed image carries the row that is already there; an image built
under an older vote puts the older vote back.
-/
namespace OmegaHarness.VoteSurvival
open DomainHashes ClaimTypes ClaimVerifier Blake3Compression FaultyTransactions KeyedTables
open LedgerStore RaftTypes ClaimApplication LedgerWriter WriterFrames EnvelopeCodec RaftStorage

def voteRow (db : Db) : Option Bytes := db.raftMeta.lookup .vote

/-- The vote row of an image, if the file is a database with that table and row. -/
def imageVoteRow : FileContents → Option Bytes
  | .database image => image.raftMeta.bind fun table => table.lookup .vote
  | .other _ => none

theorem imageVoteRow_imageOf (db : Db) : imageVoteRow (.database (imageOf db)) = voteRow db := rfl

/-- The calls a node makes beside saving a vote and installing a snapshot. -/
inductive StorageCall where
  | saveCommitted (committed : Option LogId)
  | appendToLog (entries : List Entry)
  | deleteConflictLogsSince (logId : LogId)
  | purgeLogsUpto (logId : LogId)
  | applyToStateMachine (entries : List Entry)
  | buildSnapshot
  deriving DecidableEq, Repr

section Nodes
variable (blake3 : Bytes → Hash) (backend : ProofBackend) (cbor : Cbor)

/-- The session after a call, whatever the call returned. -/
def runCall : StorageCall → Ledger → Ledger
  | .saveCommitted committed,s => ((saveCommitted cbor committed).run s).2
  | .appendToLog entries,s => ((appendToLog cbor entries).run s).2
  | .deleteConflictLogsSince logId,s => ((deleteConflictLogsSince logId).run s).2
  | .purgeLogsUpto logId,s => ((purgeLogsUpto cbor logId).run s).2
  | .applyToStateMachine entries,s => ((applyToStateMachine blake3 backend cbor entries).run s).2
  | .buildSnapshot,s => ((buildSnapshot cbor).run s).2

/-- The states of a node, each with the vote last saved on it. Files and faults
may change at any time. An installed image was built by some node, and `allowed`
says which images this node installs in which state. -/
inductive NodeRun : (Db → FileContents → Prop) → Ledger → Option Vote → Prop
  | opened {allowed : Db → FileContents → Prop} (outside : Outside) (faults : ℕ → Option String) :
      NodeRun allowed ⟨emptyDb,outside,faults⟩ none
  | surroundings {allowed : Db → FileContents → Prop} {s : Ledger} {last : Option Vote}
      (outside : Outside) (faults : ℕ → Option String) (h : NodeRun allowed s last) :
      NodeRun allowed ⟨s.db,outside,faults⟩ last
  | saved {allowed : Db → FileContents → Prop} {s t : Ledger} {last : Option Vote} {vote : Vote}
      (h : NodeRun allowed s last) (hsave : (saveVote cbor vote).run s = (.ok (),t)) :
      NodeRun allowed t (some vote)
  | unsaved {allowed : Db → FileContents → Prop} {s t : Ledger} {last : Option Vote} {vote : Vote}
      {e : StorageError} (h : NodeRun allowed s last)
      (hsave : (saveVote cbor vote).run s = (.error e,t)) : NodeRun allowed t last
  | called {allowed : Db → FileContents → Prop} {s : Ledger} {last : Option Vote}
      (h : NodeRun allowed s last) (call : StorageCall) :
      NodeRun allowed (runCall blake3 backend cbor call s) last
  | installed {allowed : Db → FileContents → Prop} {s other t : Ledger} {last otherLast : Option Vote}
      {built : Snapshot} (h : NodeRun allowed s last)
      (hother : NodeRun (fun _ _ => True) other otherLast)
      (hbuilt : (buildSnapshot cbor).run other = (.ok built,t)) (hallowed : allowed s.db built.contents)
      (metadata : SnapshotMeta) :
      NodeRun allowed ((installSnapshot cbor metadata built.contents).run s).2 last

variable {cbor}

/-- The row holds the vote, or is missing if there is none. -/
def HoldsVote (cbor : Cbor) (last : Option Vote) (db : Db) : Prop :=
  match last with
  | none => voteRow db = none
  | some vote => ∃ bytes, encode cbor.vote vote = .ok bytes ∧ voteRow db = some bytes

theorem holdsVote_of_row {last : Option Vote} {db db' : Db} (hrow : voteRow db' = voteRow db)
    (h : HoldsVote cbor last db) : HoldsVote cbor last db' := by
  cases last with
  | none => exact hrow.trans h
  | some vote =>
      rcases h with ⟨bytes,hencode,hstored⟩
      exact ⟨bytes,hencode,hrow.trans hstored⟩

theorem holdsVote_ignoresLog (last : Option Vote) : IgnoresLog (HoldsVote cbor last) :=
  fun _ _ h => holdsVote_of_row rfl h

theorem holdsVote_ignoresClaims (last : Option Vote) : IgnoresClaims (HoldsVote cbor last) :=
  fun _ _ _ h => holdsVote_of_row rfl h

theorem holdsVote_ignoresMeta (last : Option Vote) {key : MetaKey} (hkey : .vote ≠ key) :
    IgnoresMeta key (HoldsVote cbor last) :=
  fun _ _ hothers h => holdsVote_of_row (hothers .vote hkey) h

/-- The consensus values which a call writes. -/
def writtenKeys : StorageCall → List MetaKey
  | .saveCommitted _ => [.committed]
  | .appendToLog _ => []
  | .deleteConflictLogsSince _ => []
  | .purgeLogsUpto _ => [.lastPurgedLogId]
  | .applyToStateMachine _ => [.lastAppliedLogId,.lastMembership]
  | .buildSnapshot => [.snapshotMeta]

/-- A call keeps what reads neither the log nor the claims nor the values it writes. -/
theorem keeps_runCall {I : Db → Prop} (hlog : IgnoresLog I) (hclaims : IgnoresClaims I)
    {call : StorageCall} (hmeta : ∀ key ∈ writtenKeys call, IgnoresMeta key I) {s : Ledger}
    (h : I s.db) : I (runCall blake3 backend cbor call s).db := by
  cases call with
  | saveCommitted committed =>
      exact keeps_saveCommitted cbor (hmeta _ List.mem_cons_self) committed s h
  | appendToLog entries => exact keeps_appendToLog cbor hlog entries s h
  | deleteConflictLogsSince logId =>
      exact keeps_throughWriter (keeps_deleteRaftLogsSince hlog logId.index) s h
  | purgeLogsUpto logId =>
      exact keeps_purgeLogsUpto cbor hlog (hmeta _ List.mem_cons_self) logId s h
  | applyToStateMachine entries =>
      exact keeps_applyToStateMachine blake3 backend cbor hclaims (hmeta _ List.mem_cons_self)
        (hmeta _ (List.mem_cons_of_mem _ List.mem_cons_self)) entries s h
  | buildSnapshot => exact keeps_buildSnapshot cbor (hmeta _ List.mem_cons_self) s h

theorem vote_not_written (call : StorageCall) : .vote ∉ writtenKeys call := by
  cases call <;> simp [writtenKeys]

/-- One call other than a save and an installation keeps the vote. -/
theorem holdsVote_runCall {last : Option Vote} {s : Ledger} (h : HoldsVote cbor last s.db)
    (call : StorageCall) : HoldsVote cbor last (runCall blake3 backend cbor call s).db := by
  apply keeps_runCall blake3 backend (holdsVote_ignoresLog last) (holdsVote_ignoresClaims last) _ h
  intro key hkey
  apply holdsVote_ignoresMeta last
  intro heq
  exact vote_not_written call (heq ▸ hkey)

/-- An image with the row already stored. -/
def SameVoteRow (db : Db) (contents : FileContents) : Prop := imageVoteRow contents = voteRow db

theorem holdsVote_nodeRun {s : Ledger} {last : Option Vote}
    (h : NodeRun blake3 backend cbor SameVoteRow s last) : HoldsVote cbor last s.db := by
  generalize hallowed : SameVoteRow = allowed at h
  induction h with
  | opened outside faults => exact Finmap.lookup_empty _
  | surroundings outside faults _ ih => exact ih hallowed
  | saved _ hsave _ => exact saveVote_ok hsave
  | unsaved _ hsave ih => exact (atomic_saveVote _ _ _ _ hsave).symm ▸ ih hallowed
  | called _ call ih => exact holdsVote_runCall blake3 backend (ih hallowed) call
  | installed _ _ hbuilt hsame metadata ih _ =>
      have hnode := ih hallowed
      have hcontents := buildSnapshot_contents hbuilt
      rw [← hallowed,SameVoteRow,hcontents,imageVoteRow_imageOf] at hsame
      rw [hcontents]
      exact installSnapshot_keeps cbor (holdsVote_ignoresMeta _ (by decide)) hnode
        (holdsVote_of_row hsame hnode) metadata

/-- Without faults an installation puts the image's row in place of the node's,
so a different row in the image is a lost vote. -/
theorem installSnapshot_voteRow {metadata : SnapshotMeta} {bytes : Bytes}
    (h : encode cbor.snapshotMeta metadata = .ok bytes) (db restored : Db)
    (files : Table String FileContents) :
    voteRow ((installSnapshot cbor metadata (.database (imageOf restored))).run
      (calmAt db ⟨files,false⟩)).2.db = voteRow restored := by
  rw [installSnapshot_calm h]
  exact Finmap.lookup_insert_of_ne _ (by decide)

theorem readVote_of_holds (hround : cbor.vote.RoundTrips) {last : Option Vote} {db : Db}
    (h : HoldsVote cbor last db) (outside : Outside) :
    (readVote cbor).run (calmAt db outside) = (.ok last,calmAt db outside) := by
  rw [readVote,readMeta_calm,metaValue]
  cases last with
  | none =>
      have hrow : db.raftMeta.lookup .vote = none := h
      rw [hrow]
  | some vote =>
      rcases h with ⟨bytes,hencode,hvote⟩
      have hrow : db.raftMeta.lookup .vote = some bytes := hvote
      simp only [hrow,decode_encode hround hencode,Except.map]

/-- In every run of a node which installs only images with the vote row it
already holds, the vote last saved is the vote read, and whatever a read under
faults returns is that vote. -/
theorem vote_survives_same_row_installs (hround : cbor.vote.RoundTrips) {s : Ledger}
    {last : Option Vote} (h : NodeRun blake3 backend cbor SameVoteRow s last) :
    (readVote cbor).run (calmAt s.db s.world) = (.ok last,calmAt s.db s.world) ∧
      ∀ vote t, (readVote cbor).run s = (.ok vote,t) → vote = last := by
  have hcalm := readVote_of_holds hround (holdsVote_nodeRun blake3 backend h) s.world
  refine ⟨hcalm,?_⟩
  intro vote t hread
  have hsteady := steady_readMeta _ s vote t hread
  rw [readVote] at hcalm
  rw [hcalm] at hsteady
  exact (Except.ok.inj (congrArg Prod.fst hsteady)).symm

end Nodes

/-- Node 1 as the leader of term 1. -/
def oldVote : Vote := ⟨⟨1,1⟩,true⟩

/-- A vote for node 2 in term 2. -/
def newVote : Vote := ⟨⟨2,2⟩,false⟩

/-- The metadata of a snapshot taken before anything was applied. -/
def emptyMeta : SnapshotMeta := ⟨none,defaultMembership,"empty"⟩

def emptyMetaBytes : Bytes :=
  [0xa3,0x6b,0x6c,0x61,0x73,0x74,0x5f,0x6c,0x6f,0x67,0x5f,0x69,0x64,0xf6,
    0x6f,0x6c,0x61,0x73,0x74,0x5f,0x6d,0x65,0x6d,0x62,0x65,0x72,0x73,0x68,0x69,0x70,
    0xa2,0x66,0x6c,0x6f,0x67,0x5f,0x69,0x64,0xf6,
    0x6a,0x6d,0x65,0x6d,0x62,0x65,0x72,0x73,0x68,0x69,0x70,
    0xa2,0x67,0x63,0x6f,0x6e,0x66,0x69,0x67,0x73,0x80,0x65,0x6e,0x6f,0x64,0x65,0x73,0xa0,
    0x6b,0x73,0x6e,0x61,0x70,0x73,0x68,0x6f,0x74,0x5f,0x69,0x64,0x65,0x65,0x6d,0x70,0x74,0x79]

def voteCbor : Cbor where
  vote := listedCodec [(oldVote,voteBytes 1 1 0xf5),(newVote,voteBytes 2 2 0xf4)]
  logId := listedCodec []
  storedMembership := listedCodec []
  snapshotMeta := listedCodec [(emptyMeta,emptyMetaBytes)]
  entry := listedCodec []

theorem voteCbor_roundTrips : voteCbor.vote.RoundTrips := listedCodec_roundTrips (by decide)

theorem encode_oldVote : encode voteCbor.vote oldVote = .ok (voteBytes 1 1 0xf5) :=
  encode_ok.mpr ⟨rfl,by decide⟩

theorem encode_newVote : encode voteCbor.vote newVote = .ok (voteBytes 2 2 0xf4) :=
  encode_ok.mpr ⟨rfl,by decide⟩

theorem encode_emptyMeta : encode voteCbor.snapshotMeta emptyMeta = .ok emptyMetaBytes :=
  encode_ok.mpr ⟨rfl,by decide⟩

/-- A fresh database with nothing but a vote in it. -/
def votedDb (bytes : Bytes) : Db := { emptyDb with raftMeta := emptyDb.raftMeta.insert .vote bytes }

theorem votedDb_run {allowed : Db → FileContents → Prop} {vote : Vote} {bytes : Bytes}
    (h : encode voteCbor.vote vote = .ok bytes) :
    NodeRun singleChunkHash (listedBackend []) voteCbor allowed (calmAt (votedDb bytes) ⟨∅,false⟩)
      (some vote) :=
  .saved (.opened ⟨∅,false⟩ fun _ => none) (saveVote_calm h emptyDb ⟨∅,false⟩)

/-- The image which node 1 builds in term 1. -/
theorem oldImage_built :
    ∃ t, (buildSnapshot voteCbor).run (calmAt (votedDb (voteBytes 1 1 0xf5)) ⟨∅,false⟩) =
      (.ok ⟨emptyMeta,.database (imageOf (votedDb (voteBytes 1 1 0xf5)))⟩,t) := by
  have hother {key : MetaKey} (hkey : key ≠ .vote) :
      (votedDb (voteBytes 1 1 0xf5)).raftMeta.lookup key = none :=
    (Finmap.lookup_insert_of_ne _ hkey).trans (Finmap.lookup_empty _)
  have hlog : metaValue voteCbor.logId .lastAppliedLogId (votedDb (voteBytes 1 1 0xf5)) =
      .ok none := by
    rw [metaValue,hother (by decide)]
  have hmembership : metaValue voteCbor.storedMembership .lastMembership
      (votedDb (voteBytes 1 1 0xf5)) = .ok none := by
    rw [metaValue,hother (by decide)]
  exact ⟨_,buildSnapshot_calm (lastAppliedState_calm hlog hmembership _) encode_emptyMeta⟩

def oldImage : FileContents := .database (imageOf (votedDb (voteBytes 1 1 0xf5)))

/-- A node with the given vote row after it has installed that image. -/
def installedOn (bytes : Bytes) : Ledger :=
  ((installSnapshot voteCbor emptyMeta oldImage).run (calmAt (votedDb bytes) ⟨∅,false⟩)).2

theorem installedOn_run {allowed : Db → FileContents → Prop} {vote : Vote} {bytes : Bytes}
    (h : encode voteCbor.vote vote = .ok bytes) (hallowed : allowed (votedDb bytes) oldImage) :
    NodeRun singleChunkHash (listedBackend []) voteCbor allowed (installedOn bytes) (some vote) := by
  rcases oldImage_built with ⟨t,hbuilt⟩
  exact .installed (votedDb_run h) (votedDb_run encode_oldVote) hbuilt hallowed emptyMeta

theorem installedOn_voteRow (bytes : Bytes) :
    voteRow (installedOn bytes).db = some (voteBytes 1 1 0xf5) := by
  rw [installedOn,oldImage,installSnapshot_voteRow encode_emptyMeta]
  exact Finmap.lookup_insert _

/-- The node which voted in term 2 installs the image of term 1 and then reads
the vote of term 1. -/
theorem installed_image_restores_old_vote :
    ∃ (cbor : Cbor) (s : Ledger) (last : Vote), cbor.vote.RoundTrips ∧
      NodeRun singleChunkHash (listedBackend []) cbor (fun _ _ => True) s (some last) ∧
      (readVote cbor).run (calmAt s.db s.world) = (.ok (some oldVote),calmAt s.db s.world) ∧
      oldVote ≠ last := by
  refine ⟨voteCbor,installedOn (voteBytes 2 2 0xf4),newVote,voteCbor_roundTrips,
    installedOn_run encode_newVote trivial,?_,by decide⟩
  apply readVote_of_holds voteCbor_roundTrips
  exact ⟨_,encode_oldVote,installedOn_voteRow _⟩

/-- A second node which saved the same vote keeps it through the installation. -/
theorem same_vote_installed :
    (readVote voteCbor).run
        (calmAt (installedOn (voteBytes 1 1 0xf5)).db (installedOn (voteBytes 1 1 0xf5)).world) =
      (.ok (some oldVote),
        calmAt (installedOn (voteBytes 1 1 0xf5)).db (installedOn (voteBytes 1 1 0xf5)).world) :=
  (vote_survives_same_row_installs _ _ voteCbor_roundTrips (installedOn_run encode_oldVote rfl)).1

end OmegaHarness.VoteSurvival
