import OmegaHarness.FaultyFiles
import OmegaHarness.SnapshotReceiver

/-!
# The receiver on a disk which fails

The three handlers once more, with each of their system calls. An error of a call ends the
handler, except that a missing file counts as removed. A chunk which fails leaves its
session open and the counters as they were. A final frame has closed the session whatever
happens, and a crash ends the process. When every call works the handlers are those of the
receiver.
-/
namespace OmegaHarness.FaultyReceiver
open DomainHashes FileTree FaultyFiles SnapshotReceiver

def io {A : Type} (op : Sys IoError A) : Sys SnapshotReceiveError A := mapError .io op

def removeIfExistsCalls (path : Path) : Sys IoError Unit := do
  let _ ← tolerate .notFound (unlink path)
  pure ()

/-- A path without a parent is not synced. -/
def syncParentDirCalls (path : Path) : Sys IoError Unit :=
  if path.isEmpty then pure ()
  else do
    let found ← tolerate .notFound (openExisting path.dropLast)
    if found then syncAll else pure ()

/-- An acknowledgement and the session after it. -/
abbrev Handler := Sys SnapshotReceiveError (SnapshotAck × Option ActiveSnapshot)

section Handlers
variable (sha3 : Bytes → Hash)

def receiveInitCalls (s : State) (init : SnapshotInit) : Handler :=
  match s.active with
  | some _ => fail (.protocol .activeSnapshot)
  | none => do
      let path := stagedPath sha3 s.stagingDir init.snapshotId
      io (mkdirs s.stagingDir)
      io (removeIfExistsCalls path)
      io (openNew path)
      io syncAll
      pure (.accepted init.snapshotId 0,some ⟨init,0,0,path⟩)

def receiveChunkCalls (s : State) (chunk : SnapshotChunk) : Handler :=
  match s.active with
  | none => fail (.protocol .noActiveSnapshot)
  | some active => match checkChunk active chunk with
    | .error e => fail (.protocol e)
    | .ok newTotal => do
        io (write active.stagedPath chunk.payload)
        io syncAll
        let next := active.nextChunkIdx+1
        pure (.accepted active.init.snapshotId next,
          some { active with bytesReceived := newTotal, nextChunkIdx := next })

/-- Remove the staging file and fail with the error which ended the session. -/
def endSessionCalls (path : Path) (e : SnapshotProtocolError) : Handler := do
  io (removeIfExistsCalls path)
  fail (.protocol e)

def installCalls (installedPath : Path) (active : ActiveSnapshot) : Handler := do
  io (removeIfExistsCalls installedPath)
  io (rename active.stagedPath installedPath)
  io (syncParentDirCalls installedPath)
  pure (.complete active.init.snapshotId installedPath,none)

def receiveFinalizeCalls (s : State) (finalize : SnapshotFinalize) : Handler :=
  match s.active with
  | none => fail (.protocol .noActiveSnapshot)
  | some active => match checkFinalize active finalize with
    | .error e => endSessionCalls active.stagedPath e
    | .ok () => do
        io syncAll
        let bytes ← io (readToEnd active.stagedPath)
        if sha3 (absorb [] bytes) ≠ finalize.sha3OfFull then
          endSessionCalls active.stagedPath .hashMismatch
        else installCalls s.installedPath active

def receiveCalls (s : State) : SnapshotFrame → Handler
  | .init frame => receiveInitCalls sha3 s frame
  | .chunk frame => receiveChunkCalls s frame
  | .finalize frame => receiveFinalizeCalls sha3 s frame

/-- The session which a failed frame leaves. -/
def sessionLeft (s : State) : SnapshotFrame → Option ActiveSnapshot
  | .init _ => s.active
  | .chunk _ => s.active
  | .finalize _ => none

inductive Reply where
  | answered (answer : Answer SnapshotAck)
  | crashed
  deriving DecidableEq, Repr

/-- One frame, with the renames which took place. -/
structure Attempt where
  reply : Reply
  state : State
  moves : List (Path × Path)

/-- What the calls of a frame come to. -/
def conclude (s : State) (frame : SnapshotFrame) :
    Result SnapshotReceiveError (SnapshotAck × Option ActiveSnapshot) × Disk → Attempt
  | (.done (ack,active),d) =>
      ⟨.answered (.ok ack),{ s with active := active, files := d.files },d.moves⟩
  | (.failed e,d) =>
      ⟨.answered (.error e),{ s with active := sessionLeft s frame, files := d.files },d.moves⟩
  | (.crashed,d) => ⟨.crashed,{ s with active := none, files := d.files },d.moves⟩

def attempt (s : State) (frame : SnapshotFrame) (fates : ℕ → Fate) : Attempt :=
  conclude s frame ((receiveCalls sha3 s frame).run ⟨s.files,fates,[]⟩)

/-- Frame after frame, each with its own fates. -/
def attempts (s : State) : List (SnapshotFrame × (ℕ → Fate)) → List Reply × State
  | [] => ([],s)
  | (frame,fates)::rest =>
      let now := attempt sha3 s frame fates
      (now.reply::(attempts now.state rest).1,(attempts now.state rest).2)

def calmly (frame : SnapshotFrame) : SnapshotFrame × (ℕ → Fate) := (frame,fun _ => .works)

end Handlers

section Calm
variable {sha3 : Bytes → Hash} {s : State} {files : Files} {moves : List (Path × Path)}

theorem removeIfExistsCalls_calm (path : Path) :
    (removeIfExistsCalls path).run (calm files moves) = match removeIfExists files path with
      | .ok after => (.done (),calm after moves)
      | .error e => (.failed e,calm files moves) := by
  rw [removeIfExistsCalls,bind_run,tolerate,unlink,removeIfExists]
  dsimp only
  rw [atomic_calm]
  cases removeFile files path with
  | ok after => rfl
  | error e => cases e <;> rfl

/-- The attempt which a frame amounts to when no fault meets it. -/
def undisturbed (outcome : Answer SnapshotAck × State) (moves : List (Path × Path)) : Attempt :=
  ⟨.answered outcome.1,outcome.2,moves⟩

theorem init_undisturbed (init : SnapshotInit) :
    attempt sha3 s (.init init) (fun _ => .works) = undisturbed (receive sha3 s (.init init)) [] := by
  change conclude s (.init init) ((receiveInitCalls sha3 s init).run (calm s.files [])) =
    undisturbed (receiveInit sha3 s init) []
  obtain ⟨stagingDir,installedPath,active,files⟩ := s
  cases active with
  | some active => rfl
  | none =>
      unfold receiveInitCalls receiveInit
      dsimp only
      rw [bind_run,io,mapError_run,mkdirs_calm]
      cases createDirAll files stagingDir with
      | error e => rfl
      | ok created =>
          dsimp only
          rw [bind_run,io,mapError_run,removeIfExistsCalls_calm]
          cases removeIfExists created (stagedPath sha3 stagingDir init.snapshotId) with
          | error e => rfl
          | ok removed =>
              dsimp only
              rw [bind_run,io,mapError_run,openNew,atomic_calm]
              cases createNew removed (stagedPath sha3 stagingDir init.snapshotId) with
              | error e => rfl
              | ok opened => rfl

theorem chunk_undisturbed (chunk : SnapshotChunk) :
    attempt sha3 s (.chunk chunk) (fun _ => .works) = undisturbed (receive sha3 s (.chunk chunk)) [] := by
  change conclude s (.chunk chunk) ((receiveChunkCalls s chunk).run (calm s.files [])) =
    undisturbed (receiveChunk s chunk) []
  obtain ⟨stagingDir,installedPath,active,files⟩ := s
  cases active with
  | none => rfl
  | some active =>
      unfold receiveChunkCalls receiveChunk
      dsimp only
      cases checkChunk active chunk with
      | error e => rfl
      | ok newTotal =>
          dsimp only
          rw [bind_run,io,mapError_run,write_calm]
          cases writeAll files active.stagedPath chunk.payload with
          | mk answer written => cases answer <;> rfl

theorem endSession_undisturbed (path : Path) (e : SnapshotProtocolError) (frame : SnapshotFinalize)
    (hidle : s.active = none) :
    conclude s (.finalize frame) ((endSessionCalls path e).run (calm s.files [])) =
      undisturbed (endSession s path e) [] := by
  obtain ⟨stagingDir,installedPath,active,files⟩ := s
  cases hidle
  unfold endSessionCalls endSession
  dsimp only
  rw [bind_run,io,mapError_run,removeIfExistsCalls_calm]
  cases removeIfExists files path <;> rfl

/-- The directory of an installed snapshot is there to be synced. -/
theorem syncParentDirCalls_calm {path : Path} (hpath : path ≠ [])
    (hparent : files path.dropLast = some .dir) :
    (syncParentDirCalls path).run (calm files moves) = (.done (),calm files moves) := by
  rw [syncParentDirCalls,if_neg (by simpa using hpath),bind_run,tolerate]
  dsimp only
  rw [openExisting,look_calm,hparent]
  rfl

theorem install_undisturbed (active : ActiveSnapshot) (frame : SnapshotFinalize)
    (hidle : s.active = none) :
    ∃ moves, conclude s (.finalize frame)
        ((installCalls s.installedPath active).run (calm s.files [])) =
      undisturbed (install s active) moves := by
  obtain ⟨stagingDir,installedPath,_,files⟩ := s
  cases hidle
  unfold installCalls install
  dsimp only
  rw [bind_run,io,mapError_run,removeIfExistsCalls_calm]
  cases hremoved : removeIfExists files installedPath with
  | error e => exact ⟨[],rfl⟩
  | ok removed =>
      dsimp only
      rw [bind_run,io,mapError_run,rename_calm]
      cases hrenamed : renameFile removed active.stagedPath installedPath with
      | error e => exact ⟨[],rfl⟩
      | ok renamed =>
          have habsent : removed installedPath = none := by
            rw [removeIfExists_ok hremoved,set_same]
          obtain ⟨hpath,hparent⟩ := renameFile_parent hrenamed habsent
          dsimp only
          rw [bind_run,io,mapError_run,syncParentDirCalls_calm hpath hparent]
          exact ⟨_,rfl⟩

theorem finalize_undisturbed (finalize : SnapshotFinalize) :
    ∃ moves, attempt sha3 s (.finalize finalize) (fun _ => .works) =
      undisturbed (receive sha3 s (.finalize finalize)) moves := by
  change ∃ moves, conclude s (.finalize finalize)
      ((receiveFinalizeCalls sha3 s finalize).run (calm s.files [])) =
    undisturbed (receiveFinalize sha3 s finalize) moves
  obtain ⟨stagingDir,installedPath,active,files⟩ := s
  cases active with
  | none => exact ⟨[],rfl⟩
  | some active =>
      unfold receiveFinalizeCalls receiveFinalize
      dsimp only
      cases checkFinalize active finalize with
      | error e =>
          exact ⟨[],@endSession_undisturbed ⟨stagingDir,installedPath,none,files⟩ active.stagedPath e
            finalize rfl⟩
      | ok _ =>
          dsimp only
          rw [bind_run,io,mapError_run,syncAll,look_calm]
          dsimp only
          rw [bind_run,io,mapError_run,readToEnd,look_calm,sha3File]
          cases readFile files active.stagedPath with
          | error e => exact ⟨[],rfl⟩
          | ok bytes =>
              dsimp only [Except.map]
              split
              · exact ⟨[],@endSession_undisturbed ⟨stagingDir,installedPath,none,files⟩
                  active.stagedPath .hashMismatch finalize rfl⟩
              · exact @install_undisturbed ⟨stagingDir,installedPath,none,files⟩ active finalize rfl

/-- When every call works, a frame is received as by the receiver on a file tree. -/
theorem attempt_undisturbed (frame : SnapshotFrame) :
    ∃ moves, attempt sha3 s frame (fun _ => .works) = undisturbed (receive sha3 s frame) moves := by
  cases frame with
  | init frame => exact ⟨[],init_undisturbed frame⟩
  | chunk frame => exact ⟨[],chunk_undisturbed frame⟩
  | finalize frame => exact finalize_undisturbed frame

theorem attempts_append (s : State) (before rest : List (SnapshotFrame × (ℕ → Fate))) :
    attempts sha3 s (before++rest) =
      ((attempts sha3 s before).1++(attempts sha3 (attempts sha3 s before).2 rest).1,
        (attempts sha3 (attempts sha3 s before).2 rest).2) := by
  induction before generalizing s with
  | nil => rfl
  | cons now before ih => simp only [List.cons_append,attempts,ih]

/-- Frames which no fault meets lead where the run on a file tree leads. -/
theorem attempts_calmly (s : State) (frames : List SnapshotFrame) :
    (attempts sha3 s (frames.map calmly)).2 = (run sha3 s (frames.map .frame)).2 := by
  induction frames generalizing s with
  | nil => rfl
  | cons frame rest ih =>
      obtain ⟨moves,hcalm⟩ := @attempt_undisturbed sha3 s frame
      simp only [List.map_cons,calmly,attempts,run,step,hcalm,undisturbed]
      exact ih _

/-- An answered error leaves the files of the last call and the session of the frame. -/
theorem conclude_error {frame : SnapshotFrame} {e : SnapshotReceiveError}
    {result : Result SnapshotReceiveError (SnapshotAck × Option ActiveSnapshot) × Disk}
    (h : (conclude s frame result).reply = .answered (.error e)) :
    (conclude s frame result).state =
      { s with active := sessionLeft s frame, files := result.2.files } := by
  obtain ⟨result,d⟩ := result
  cases result with
  | done pair => cases h
  | failed e' => rfl
  | crashed => cases h

end Calm

end OmegaHarness.FaultyReceiver
