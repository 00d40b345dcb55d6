import OmegaHarness.MembershipRecovery
import OmegaHarness.VoteSurvival

/-!
# Building a snapshot while entries are applied

The builder reads the applied state through the reader pool, past the queue of the
writer, and then queues the command which writes the image. The writer may run any
number of batches in between, and the reads may fall between two commits of a batch;
only the commands of the queue exclude each other. The metadata describes the image
if no marker is written between the first read and the image and no membership
between the second read and the image.
-/
namespace OmegaHarness.SnapshotInterleaving
open DomainHashes ClaimTypes ClaimVerifier FaultyTransactions FaultStreams CommitPrefixes KeyedTables
open LedgerStore RaftTypes ClaimApplication LedgerWriter WriterFrames ClaimStatements RaftStorage
open EntryCommits CrashRecovery MembershipRecovery Blake3Compression MintedValues SubmittedCommitments VoteSurvival

/-- How far the builder has come. -/
inductive Phase where
  | ready
  | readApplied (lastApplied : Option LogId)
  | queued (metadata : SnapshotMeta)
  | imaged (metadata : SnapshotMeta)
  | loaded (built : Snapshot)
  | returned (built : Snapshot)
  deriving DecidableEq

/-- The database, the files beside it, the commits which the running command of the
writer has still to make, and the builder. -/
structure BuildState where
  db : Db
  files : Table String FileContents
  running : List Commit
  phase : Phase

inductive Event where
  | receive (entries : List Entry) (lastMembership : Option Bytes)
  | commit
  | readLastApplied
  | readMembership
  | image
  | readFile
  | writeMeta

section Builder
variable (blake3 : Bytes → Hash) (backend : ProofBackend) (cbor : Cbor)

/-- One step of the writer or of the builder, if it is enabled and succeeds. -/
def step : Event → BuildState → Option BuildState
  | .receive entries lastMembership,s =>
      match s.running with
      | [] => some { s with running := batchCommits entries lastMembership }
      | _::_ => none
  | .commit,s =>
      match s.running with
      | [] => none
      | c::rest => some { s with db := perform blake3 backend cbor c s.db,running := rest }
  | .readLastApplied,s =>
      match s.phase,metaValue cbor.logId .lastAppliedLogId s.db with
      | .ready,.ok lastApplied => some { s with phase := .readApplied lastApplied }
      | _,_ => none
  | .readMembership,s =>
      match s.phase,metaValue cbor.storedMembership .lastMembership s.db with
      | .readApplied lastApplied,.ok membership =>
          some { s with
            phase := .queued ⟨lastApplied,membership.getD defaultMembership,snapshotIdOf lastApplied⟩ }
      | _,_ => none
  | .image,s =>
      match s.phase,s.running with
      | .queued metadata,[] =>
          some { s with
            files := s.files.insert (snapshotFile metadata.snapshotId) (.database (imageOf s.db))
            phase := .imaged metadata }
      | _,_ => none
  | .readFile,s =>
      match s.phase with
      | .imaged metadata =>
          (s.files.lookup (snapshotFile metadata.snapshotId)).map fun contents =>
            { s with phase := .loaded ⟨metadata,contents⟩ }
      | _ => none
  | .writeMeta,s =>
      match s.phase,s.running with
      | .loaded built,[] =>
          match encode cbor.snapshotMeta built.metadata with
          | .ok bytes => some { s with db := putMeta .snapshotMeta bytes s.db,phase := .returned built }
          | .error _ => none
      | _,_ => none

def runEvents : List Event → BuildState → Option BuildState
  | [],s => some s
  | e::rest,s => (step blake3 backend cbor e s).bind (runEvents rest)

/-- A commit which the metadata read so far would not show. -/
def Disturbs : Phase → Commit → Prop
  | .readApplied _,.mark _ => True
  | .queued _,.mark _ => True
  | .queued _,.membership _ => True
  | _,_ => False

/-- The next event is not a commit behind the builder's back. -/
def Undisturbed (e : Event) (s : BuildState) : Prop :=
  e = .commit → ∀ c ∈ s.running.head?, ¬Disturbs s.phase c

/-- No event of the run disturbs the builder. -/
def UndisturbedRun : List Event → BuildState → Prop
  | [],_ => True
  | e::rest,s => Undisturbed e s ∧ ∀ t, step blake3 backend cbor e s = some t → UndisturbedRun rest t

end Builder

section Descriptions
variable (cbor : Cbor)

/-- The applied state of a database. -/
def StateIs (db : Db) (lastApplied : Option LogId) (membership : StoredMembership) : Prop :=
  metaValue cbor.logId .lastAppliedLogId db = .ok lastApplied ∧
    ∃ stored, metaValue cbor.storedMembership .lastMembership db = .ok stored ∧
      stored.getD defaultMembership = membership

/-- The image holds the applied state which the metadata states. -/
def Describes (built : Snapshot) : Prop :=
  ∃ source, built.contents = .database (imageOf source) ∧
    StateIs cbor source built.metadata.lastLogId built.metadata.lastMembership

/-- What the builder relies on in each phase. -/
def Inv (s : BuildState) : Prop :=
  match s.phase with
  | .ready => True
  | .readApplied lastApplied => metaValue cbor.logId .lastAppliedLogId s.db = .ok lastApplied
  | .queued metadata => StateIs cbor s.db metadata.lastLogId metadata.lastMembership
  | .imaged metadata =>
      ∃ contents, s.files.lookup (snapshotFile metadata.snapshotId) = some contents ∧
        Describes cbor ⟨metadata,contents⟩
  | .loaded built => Describes cbor built
  | .returned built =>
      Describes cbor built ∧ ∃ bytes, encode cbor.snapshotMeta built.metadata = .ok bytes

end Descriptions

section Steps
variable {blake3 : Bytes → Hash} {backend : ProofBackend} {cbor : Cbor} {s t : BuildState}

/-- A commit which does not disturb the builder keeps what it has read. -/
theorem inv_commit {c : Commit} {rest : List Commit} (h : Inv cbor s) (hquiet : ¬Disturbs s.phase c) :
    Inv cbor { s with db := perform blake3 backend cbor c s.db,running := rest } := by
  rcases s with ⟨db,files,running,phase⟩
  cases phase with
  | ready => trivial
  | imaged metadata => exact h
  | loaded built => exact h
  | returned built => exact h
  | readApplied lastApplied =>
      refine (metaValue_congr ?_).trans h
      cases c with
      | claim payload => rw [perform,settle_raftMeta]
      | mark logId => exact (hquiet trivial).elim
      | membership bytes => exact Finmap.lookup_insert_of_ne _ (by decide)
  | queued metadata =>
      cases c with
      | mark logId => exact (hquiet trivial).elim
      | membership bytes => exact (hquiet trivial).elim
      | claim payload =>
          have hmeta : (perform blake3 backend cbor (.claim payload) db).raftMeta = db.raftMeta :=
            settle_raftMeta payload db
          rcases h with ⟨hlast,stored,hstored,hmembership⟩
          refine ⟨(metaValue_congr ?_).trans hlast,stored,(metaValue_congr ?_).trans hstored,hmembership⟩
          · rw [hmeta]
          · rw [hmeta]

theorem inv_step {e : Event} (h : Inv cbor s) (hquiet : Undisturbed e s)
    (hstep : step blake3 backend cbor e s = some t) : Inv cbor t := by
  rcases s with ⟨db,files,running,phase⟩
  cases e with
  | receive entries lastMembership =>
      cases running with
      | nil =>
          cases hstep
          exact h
      | cons c rest => cases hstep
  | commit =>
      cases running with
      | nil => cases hstep
      | cons c rest =>
          cases hstep
          exact inv_commit h (hquiet rfl c rfl)
  | readLastApplied =>
      simp only [step] at hstep
      split at hstep
      · next lastApplied _ hread =>
          cases hstep
          exact hread
      · cases hstep
  | readMembership =>
      simp only [step] at hstep
      split at hstep
      · next lastApplied stored hread =>
          cases hstep
          exact ⟨h,stored,hread,rfl⟩
      · cases hstep
  | image =>
      simp only [step] at hstep
      split at hstep
      · next metadata =>
          cases hstep
          exact ⟨_,Finmap.lookup_insert _,db,rfl,h⟩
      · cases hstep
  | readFile =>
      simp only [step] at hstep
      split at hstep
      · next metadata =>
          rcases h with ⟨contents,hlookup,hdescribes⟩
          rw [hlookup] at hstep
          cases hstep
          exact hdescribes
      · cases hstep
  | writeMeta =>
      simp only [step] at hstep
      split at hstep
      · next built =>
          cases hencode : encode cbor.snapshotMeta built.metadata with
          | error e => simp [hencode] at hstep
          | ok bytes =>
              rw [hencode] at hstep
              cases hstep
              exact ⟨h,bytes,hencode⟩
      · cases hstep

theorem inv_run {events : List Event} (h : Inv cbor s)
    (hquiet : UndisturbedRun blake3 backend cbor events s)
    (hrun : runEvents blake3 backend cbor events s = some t) : Inv cbor t := by
  induction events generalizing s with
  | nil =>
      cases hrun
      exact h
  | cons e rest ih =>
      rcases Option.bind_eq_some_iff.mp hrun with ⟨u,hstep,hrest⟩
      exact ih (inv_step h hquiet.1 hstep) (hquiet.2 u hstep) hrest

theorem undisturbedRun_cons {e : Event} {rest : List Event} (hquiet : Undisturbed e s)
    (hstep : step blake3 backend cbor e s = some t)
    (hrest : UndisturbedRun blake3 backend cbor rest t) :
    UndisturbedRun blake3 backend cbor (e::rest) s := by
  refine ⟨hquiet,?_⟩
  intro u hu
  rw [hstep] at hu
  cases hu
  exact hrest

/-- The row which an installation adds is none of the two which are read. -/
theorem StateIs.putSnapshotMeta {db : Db} {lastApplied : Option LogId} {membership : StoredMembership}
    (h : StateIs cbor db lastApplied membership) (bytes : Bytes) :
    StateIs cbor (putMeta .snapshotMeta bytes db) lastApplied membership := by
  rcases h with ⟨hlast,stored,hstored,hmembership⟩
  refine ⟨(metaValue_congr ?_).trans hlast,stored,(metaValue_congr ?_).trans hstored,hmembership⟩
  · exact Finmap.lookup_insert_of_ne _ (by decide)
  · exact Finmap.lookup_insert_of_ne _ (by decide)

theorem StateIs.read {db : Db} {lastApplied : Option LogId} {membership : StoredMembership}
    (h : StateIs cbor db lastApplied membership) (outside : Outside) :
    (lastAppliedState cbor).run (calmAt db outside) =
      (.ok (lastApplied,membership),calmAt db outside) := by
  rcases h with ⟨hlast,stored,hstored,rfl⟩
  exact lastAppliedState_calm hlast hstored outside

/-- A node which installs the snapshot reads the applied state of the metadata. -/
theorem Describes.installed {built : Snapshot} {bytes : Bytes} (h : Describes cbor built)
    (hencode : encode cbor.snapshotMeta built.metadata = .ok bytes) (db : Db)
    (files : Table String FileContents) :
    ∃ installed, (installSnapshot cbor built.metadata built.contents).run (calmAt db ⟨files,false⟩) =
        (.ok (),installed) ∧
      (lastAppliedState cbor).run installed =
        (.ok (built.metadata.lastLogId,built.metadata.lastMembership),installed) := by
  rcases h with ⟨source,hcontents,hstate⟩
  rw [hcontents]
  exact ⟨_,installSnapshot_calm hencode db source files,(hstate.putSnapshotMeta bytes).read _⟩

/-- The five steps of the builder without anything in between are the call as a whole. -/
theorem build_alone {db : Db} {files : Table String FileContents} {lastApplied : Option LogId}
    {stored : Option StoredMembership} {bytes : Bytes}
    (hlast : metaValue cbor.logId .lastAppliedLogId db = .ok lastApplied)
    (hstored : metaValue cbor.storedMembership .lastMembership db = .ok stored)
    (hencode : encode cbor.snapshotMeta
      ⟨lastApplied,stored.getD defaultMembership,snapshotIdOf lastApplied⟩ = .ok bytes)
    (attached : Bool) :
    ∃ built t, runEvents blake3 backend cbor
        [.readLastApplied,.readMembership,.image,.readFile,.writeMeta] ⟨db,files,[],.ready⟩ = some t ∧
      t.phase = .returned built ∧
      (buildSnapshot cbor).run (calmAt db ⟨files,attached⟩) =
        (.ok built,calmAt t.db ⟨t.files,attached⟩) := by
  have hstate := lastAppliedState_calm hlast hstored ⟨files,attached⟩
  refine ⟨⟨⟨lastApplied,stored.getD defaultMembership,snapshotIdOf lastApplied⟩,
      .database (imageOf db)⟩,
    ⟨putMeta .snapshotMeta bytes db,files.insert (snapshotFile (snapshotIdOf lastApplied))
      (.database (imageOf db)),[],_⟩,?_,rfl,buildSnapshot_calm hstate hencode⟩
  simp only [runEvents,step,hlast,hstored,hencode,Option.bind_some,Finmap.lookup_insert,Option.map_some]

/-- In every interleaving in which no commit disturbs the builder, the returned image
holds the applied state of the metadata, and so does every node which installs it. -/
theorem undisturbed_snapshot_describes_image {events : List Event} {built : Snapshot}
    (hready : s.phase = .ready) (hquiet : UndisturbedRun blake3 backend cbor events s)
    (hrun : runEvents blake3 backend cbor events s = some t) (hreturned : t.phase = .returned built) :
    Describes cbor built ∧ ∀ db files, ∃ installed,
      (installSnapshot cbor built.metadata built.contents).run (calmAt db ⟨files,false⟩) =
        (.ok (),installed) ∧
      (lastAppliedState cbor).run installed =
        (.ok (built.metadata.lastLogId,built.metadata.lastMembership),installed) := by
  have hstart : Inv cbor s := by
    rw [Inv,hready]
    trivial
  have hinv := inv_run hstart hquiet hrun
  rw [Inv,hreturned] at hinv
  rcases hinv with ⟨hdescribes,bytes,hencode⟩
  exact ⟨hdescribes,fun db files => hdescribes.installed hencode db files⟩

end Steps

def buildCbor : Cbor := { voteCbor with logId := mixedCbor.logId }

/-- An entry without a command is applied behind the two reads of the builder. -/
def lateEvents : List Event :=
  [.readLastApplied,.readMembership,.receive [⟨mixedLogId 1,.blank⟩] none,.commit,.commit,.image,
    .readFile,.writeMeta]

theorem lateEvents_run :
    runEvents singleChunkHash firstBackend buildCbor lateEvents ⟨emptyDb,∅,[],.ready⟩ =
      some ⟨putMeta .snapshotMeta emptyMetaBytes markedDb,
        (∅ : Table String FileContents).insert (snapshotFile "empty") (.database (imageOf markedDb)),[],
        .returned ⟨emptyMeta,.database (imageOf markedDb)⟩⟩ := rfl

theorem markedDb_state : StateIs buildCbor markedDb (some (mixedLogId 1)) defaultMembership :=
  ⟨rfl,none,rfl,rfl⟩

/-- The metadata says that nothing was applied and the image holds the first entry. -/
theorem late_entry_not_described :
    ∃ (cbor : Cbor) (events : List Event) (s t : BuildState) (built : Snapshot)
      (installed : Ledger) (state : Option LogId × StoredMembership),
      s.phase = .ready ∧ runEvents singleChunkHash firstBackend cbor events s = some t ∧
      t.phase = .returned built ∧ ¬Describes cbor built ∧
      (installSnapshot cbor built.metadata built.contents).run (calmAt emptyDb ⟨∅,false⟩) =
        (.ok (),installed) ∧
      (lastAppliedState cbor).run installed = (.ok state,installed) ∧
      state.1 ≠ built.metadata.lastLogId := by
  have hencode : encode buildCbor.snapshotMeta emptyMeta = .ok emptyMetaBytes := encode_emptyMeta
  refine ⟨buildCbor,lateEvents,_,_,⟨emptyMeta,.database (imageOf markedDb)⟩,_,_,rfl,lateEvents_run,
    rfl,?_,installSnapshot_calm hencode emptyDb markedDb ∅,
    (markedDb_state.putSnapshotMeta emptyMetaBytes).read _,Option.some_ne_none _⟩
  intro hdescribes
  rcases hdescribes with ⟨source,hcontents,hlast,-⟩
  rw [← imageOf_inj (FileContents.database.inj hcontents),markedDb_state.1] at hlast
  cases hlast

/-- The same entry is applied behind the image. -/
def afterEvents : List Event :=
  [.readLastApplied,.readMembership,.image,.receive [⟨mixedLogId 1,.blank⟩] none,.commit,.readFile,
    .commit,.writeMeta]

theorem afterEvents_undisturbed :
    UndisturbedRun singleChunkHash firstBackend buildCbor afterEvents ⟨emptyDb,∅,[],.ready⟩ := by
  have hother {e : Event} {s : BuildState} (he : e ≠ .commit) : Undisturbed e s :=
    fun hcommit => (he hcommit).elim
  have himaged {c : Commit} : ¬Disturbs (.imaged emptyMeta) c := id
  have hloaded {c : Commit} {built : Snapshot} : ¬Disturbs (.loaded built) c := id
  rw [afterEvents]
  refine undisturbedRun_cons (hother nofun) rfl ?_
  refine undisturbedRun_cons (hother nofun) rfl ?_
  refine undisturbedRun_cons (hother nofun) rfl ?_
  refine undisturbedRun_cons (hother nofun) rfl ?_
  refine undisturbedRun_cons (fun _ _ _ => himaged) rfl ?_
  refine undisturbedRun_cons (hother nofun) rfl ?_
  refine undisturbedRun_cons (fun _ _ _ => hloaded) rfl ?_
  refine undisturbedRun_cons (hother nofun) rfl ?_
  trivial

/-- Behind the image the writer may go on. -/
theorem later_entry_described :
    ∃ (t : BuildState) (built : Snapshot),
      runEvents singleChunkHash firstBackend buildCbor afterEvents ⟨emptyDb,∅,[],.ready⟩ = some t ∧
      t.phase = .returned built ∧ Describes buildCbor built := by
  have hrun : runEvents singleChunkHash firstBackend buildCbor afterEvents ⟨emptyDb,∅,[],.ready⟩ =
      some ⟨putMeta .snapshotMeta emptyMetaBytes markedDb,
        (∅ : Table String FileContents).insert (snapshotFile "empty") (.database (imageOf emptyDb)),[],
        .returned ⟨emptyMeta,.database (imageOf emptyDb)⟩⟩ := rfl
  exact ⟨_,_,hrun,rfl,
    (undisturbed_snapshot_describes_image rfl afterEvents_undisturbed hrun rfl).1⟩

end OmegaHarness.SnapshotInterleaving
