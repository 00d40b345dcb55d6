import OmegaHarness.DomainHashes
import OmegaHarness.FileTree

/-!
# The receiver of snapshot transfers

A transfer is an initial frame, numbered chunks and a final frame. The receiver appends
each chunk to a staging file, and at the end it hashes that file and moves it over the
installed snapshot. A session is what the acknowledgements of a run say about it: the
initial frame and the payloads acknowledged since. The staging file and the counters of
the receiver follow the session through every frame, in any order and with any contents,
and through every abort.
-/
namespace OmegaHarness.SnapshotReceiver
open FixedWidthBytes DomainHashes FileTree

def maxSnapshotChunkBytes : ℕ := 1024*1024

structure SnapshotInit where
  snapshotId : String
  totalChunks : UInt64
  totalBytes : UInt64
  sha3OfFull : Hash
  deriving DecidableEq, Repr

structure SnapshotChunk where
  snapshotId : String
  chunkIdx : UInt64
  payload : Bytes
  deriving DecidableEq, Repr

structure SnapshotFinalize where
  snapshotId : String
  sha3OfFull : Hash
  deriving DecidableEq, Repr

inductive SnapshotFrame where
  | init (frame : SnapshotInit)
  | chunk (frame : SnapshotChunk)
  | finalize (frame : SnapshotFinalize)
  deriving DecidableEq, Repr

inductive SnapshotAck where
  | accepted (snapshotId : String) (nextChunkIdx : UInt64)
  | complete (snapshotId : String) (installedPath : Path)
  deriving DecidableEq, Repr

inductive SnapshotProtocolError where
  | activeSnapshot
  | noActiveSnapshot
  | snapshotIdMismatch (expected actual : String)
  | outOfOrderChunk (expected actual : UInt64)
  | unexpectedChunk (totalChunks actual : UInt64)
  | chunkTooLarge (actual max : ℕ)
  | bytesExceedTotal (actual expected : UInt64)
  | finalizeBeforeAllChunks (expected actual : UInt64)
  | byteCountMismatch (expected actual : UInt64)
  | hashMismatch
  deriving DecidableEq, Repr

def SnapshotProtocolError.display : SnapshotProtocolError → String
  | activeSnapshot => "snapshot session already active"
  | noActiveSnapshot => "no active snapshot session"
  | snapshotIdMismatch expected actual =>
      s!"snapshot id mismatch: expected {expected}, got {actual}"
  | outOfOrderChunk expected actual =>
      s!"out-of-order snapshot chunk: expected {expected}, got {actual}"
  | unexpectedChunk totalChunks actual =>
      s!"unexpected snapshot chunk after declared total: total {totalChunks}, got {actual}"
  | chunkTooLarge actual max => s!"snapshot chunk too large: {actual} > {max}"
  | bytesExceedTotal actual expected =>
      s!"snapshot bytes exceed declared total: {actual} > {expected}"
  | finalizeBeforeAllChunks expected actual =>
      s!"snapshot finalized before all chunks: expected {expected}, got {actual}"
  | byteCountMismatch expected actual =>
      s!"snapshot byte count mismatch: expected {expected}, got {actual}"
  | hashMismatch => "snapshot sha3 digest mismatch"

inductive SnapshotReceiveError where
  | protocol (e : SnapshotProtocolError)
  | io (e : IoError)
  deriving DecidableEq, Repr

/-- The open file is known by its path: only the receiver renames or removes it. -/
structure ActiveSnapshot where
  init : SnapshotInit
  nextChunkIdx : UInt64
  bytesReceived : UInt64
  stagedPath : Path
  deriving DecidableEq, Repr

/-- The receiver and the files it works on. -/
structure State where
  stagingDir : Path
  installedPath : Path
  active : Option ActiveSnapshot
  files : Files

/-- What a frame or an abort is answered with. -/
abbrev Answer (A : Type) := Except SnapshotReceiveError A

def removeIfExists (files : Files) (path : Path) : Except IoError Files :=
  match removeFile files path with
  | .ok files => .ok files
  | .error .notFound => .ok files
  | .error e => .error e

/-- The reading loop of `sha3_256_file`: buffers of 8192 bytes until a read is empty. -/
def absorb (absorbed : Bytes) : Bytes → Bytes
  | [] => absorbed
  | b::rest => absorb (absorbed++(b::rest).take 8192) ((b::rest).drop 8192)
termination_by rest => rest.length
decreasing_by
  rw [List.length_drop,List.length_cons]
  omega

section Protocol
variable (sha3 : Bytes → Hash)

def sha3File (files : Files) (path : Path) : Except IoError Hash :=
  (readFile files path).map fun bytes => sha3 (absorb [] bytes)

def stagedName (snapshotId : String) : String :=
  "snapshot-"++hexEncode ((sha3 snapshotId.toUTF8.toList).toList.take 8)++".part"

def stagedPath (stagingDir : Path) (snapshotId : String) : Path :=
  stagingDir++[stagedName sha3 snapshotId]

def receiveInit (s : State) (init : SnapshotInit) : Answer SnapshotAck × State :=
  match s.active with
  | some _ => (.error (.protocol .activeSnapshot),s)
  | none => match createDirAll s.files s.stagingDir with
    | .error e => (.error (.io e),s)
    | .ok files =>
        let path := stagedPath sha3 s.stagingDir init.snapshotId
        match removeIfExists files path with
        | .error e => (.error (.io e),{ s with files := files })
        | .ok files => match createNew files path with
          | .error e => (.error (.io e),{ s with files := files })
          | .ok files =>
              (.ok (.accepted init.snapshotId 0),
                { s with active := some ⟨init,0,0,path⟩, files := files })

/-- The checks of a chunk in their order, and the new count of bytes. -/
def checkChunk (active : ActiveSnapshot) (chunk : SnapshotChunk) :
    Except SnapshotProtocolError UInt64 :=
  let newTotal := active.bytesReceived+UInt64.ofNat chunk.payload.length
  if chunk.snapshotId ≠ active.init.snapshotId then
    .error (.snapshotIdMismatch active.init.snapshotId chunk.snapshotId)
  else if chunk.chunkIdx ≠ active.nextChunkIdx then
    .error (.outOfOrderChunk active.nextChunkIdx chunk.chunkIdx)
  else if active.nextChunkIdx ≥ active.init.totalChunks then
    .error (.unexpectedChunk active.init.totalChunks chunk.chunkIdx)
  else if chunk.payload.length > maxSnapshotChunkBytes then
    .error (.chunkTooLarge chunk.payload.length maxSnapshotChunkBytes)
  else if newTotal > active.init.totalBytes then
    .error (.bytesExceedTotal newTotal active.init.totalBytes)
  else .ok newTotal

def receiveChunk (s : State) (chunk : SnapshotChunk) : Answer SnapshotAck × State :=
  match s.active with
  | none => (.error (.protocol .noActiveSnapshot),s)
  | some active => match checkChunk active chunk with
    | .error e => (.error (.protocol e),s)
    | .ok newTotal => match writeAll s.files active.stagedPath chunk.payload with
      | (.error e,files) => (.error (.io e),{ s with files := files })
      | (.ok (),files) =>
          let next := active.nextChunkIdx+1
          (.ok (.accepted active.init.snapshotId next),
            { s with
              active := some { active with bytesReceived := newTotal, nextChunkIdx := next }
              files := files })

/-- The checks of a final frame before the staging file is hashed. -/
def checkFinalize (active : ActiveSnapshot) (finalize : SnapshotFinalize) :
    Except SnapshotProtocolError Unit :=
  if finalize.snapshotId ≠ active.init.snapshotId then
    .error (.snapshotIdMismatch active.init.snapshotId finalize.snapshotId)
  else if active.nextChunkIdx ≠ active.init.totalChunks then
    .error (.finalizeBeforeAllChunks active.init.totalChunks active.nextChunkIdx)
  else if active.bytesReceived ≠ active.init.totalBytes then
    .error (.byteCountMismatch active.init.totalBytes active.bytesReceived)
  else if finalize.sha3OfFull ≠ active.init.sha3OfFull then .error .hashMismatch
  else .ok ()

/-- Remove the staging file and answer with the error which ended the session. -/
def endSession (s : State) (path : Path) (e : SnapshotProtocolError) : Answer SnapshotAck × State :=
  match removeIfExists s.files path with
  | .error io => (.error (.io io),s)
  | .ok files => (.error (.protocol e),{ s with files := files })

/-- Move the staging file over the installed snapshot. -/
def install (s : State) (active : ActiveSnapshot) : Answer SnapshotAck × State :=
  match removeIfExists s.files s.installedPath with
  | .error e => (.error (.io e),s)
  | .ok files => match renameFile files active.stagedPath s.installedPath with
    | .error e => (.error (.io e),{ s with files := files })
    | .ok files => (.ok (.complete active.init.snapshotId s.installedPath),{ s with files := files })

/-- Whatever the outcome, the session is over: it is taken out of the receiver first. -/
def receiveFinalize (s : State) (finalize : SnapshotFinalize) : Answer SnapshotAck × State :=
  match s.active with
  | none => (.error (.protocol .noActiveSnapshot),s)
  | some active =>
      let idle := { s with active := none }
      match checkFinalize active finalize with
      | .error e => endSession idle active.stagedPath e
      | .ok () => match sha3File sha3 idle.files active.stagedPath with
        | .error e => (.error (.io e),idle)
        | .ok digest =>
            if digest ≠ finalize.sha3OfFull then endSession idle active.stagedPath .hashMismatch
            else install idle active

def receive (s : State) : SnapshotFrame → Answer SnapshotAck × State
  | .init frame => receiveInit sha3 s frame
  | .chunk frame => receiveChunk s frame
  | .finalize frame => receiveFinalize sha3 s frame

def abortOnLeaderChange (s : State) : Answer Bool × State :=
  match s.active with
  | none => (.ok false,s)
  | some active =>
      let idle := { s with active := none }
      match removeIfExists s.files active.stagedPath with
      | .error e => (.error (.io e),idle)
      | .ok files => (.ok true,{ idle with files := files })

inductive Event where
  | frame (f : SnapshotFrame)
  | leaderChange
  deriving DecidableEq, Repr

inductive Outcome where
  | answered (answer : Answer SnapshotAck)
  | aborted (answer : Answer Bool)
  deriving DecidableEq, Repr

def step (s : State) : Event → Outcome × State
  | .frame f => (.answered (receive sha3 s f).1,(receive sha3 s f).2)
  | .leaderChange => (.aborted (abortOnLeaderChange s).1,(abortOnLeaderChange s).2)

/-- A run with the outcome of each event. -/
def run (s : State) : List Event → List (Event × Outcome) × State
  | [] => ([],s)
  | e::rest =>
      let next := step sha3 s e
      ((e,next.1)::(run next.2 rest).1,(run next.2 rest).2)

end Protocol

/-- A file operation failed. -/
def Outcome.IsIo : Outcome → Prop
  | .answered (.error (.io _)) => True
  | .aborted (.error (.io _)) => True
  | .answered (.error (.protocol _)) => False
  | .aborted (.error (.protocol _)) => False
  | .answered (.ok _) => False
  | .aborted (.ok _) => False

/-- An acknowledged initial frame and the payloads acknowledged since. -/
structure Session where
  init : SnapshotInit
  payloads : List Bytes

/-- What one outcome says about the session. -/
def track (session : Option Session) : Event × Outcome → Option Session
  | (.frame (.init frame),.answered (.ok _)) => some ⟨frame,[]⟩
  | (.frame (.chunk frame),.answered (.ok _)) =>
      session.map fun current => ⟨current.init,current.payloads++[frame.payload]⟩
  | (.frame (.finalize _),_) => none
  | (.leaderChange,_) => none
  | (.frame (.init _),_) => session
  | (.frame (.chunk _),_) => session

def sessionAfter (history : List (Event × Outcome)) : Option Session := history.foldl track none

section Invariant
variable (sha3 : Bytes → Hash)

/-- The staging file and the counters agree with the session. -/
structure Staged (s : State) (active : ActiveSnapshot) (session : Session) : Prop where
  init : active.init = session.init
  path : active.stagedPath = stagedPath sha3 s.stagingDir session.init.snapshotId
  staged : content s.files active.stagedPath = some session.payloads.flatten
  count : active.nextChunkIdx.toNat = session.payloads.length
  received : active.bytesReceived.toNat = session.payloads.flatten.length
  small : ∀ payload ∈ session.payloads, payload.length ≤ maxSnapshotChunkBytes
  fits : session.payloads.flatten.length ≤ maxFileBytes

inductive Tracks (s : State) : Option Session → Prop where
  | idle (h : s.active = none) : Tracks s none
  | busy {active : ActiveSnapshot} {session : Session} (h : s.active = some active)
      (staged : Staged sha3 s active session) : Tracks s (some session)

/-- The installed snapshot is the session's, complete and with the announced digest. -/
structure Completes (session : Session) (snapshotId : String) (installed : Option Bytes) : Prop where
  id : snapshotId = session.init.snapshotId
  installed : installed = some session.payloads.flatten
  chunks : session.payloads.length = session.init.totalChunks.toNat
  small : ∀ payload ∈ session.payloads, payload.length ≤ maxSnapshotChunkBytes
  bytes : session.payloads.flatten.length = session.init.totalBytes.toNat
  digest : sha3 session.payloads.flatten = session.init.sha3OfFull

/-- Only a completed transfer changes the installed snapshot, and it installs the session. -/
def StepSafe (session : Option Session) (target : Path) (files files' : Files) : Outcome → Prop
  | .answered (.ok (.complete snapshotId path)) =>
      path = target ∧
        ∃ current, session = some current ∧
          Completes sha3 current snapshotId (content files' target)
  | .answered (.ok (.accepted _ _)) => content files' target = content files target
  | .answered (.error _) => content files' target = content files target
  | .aborted _ => content files' target = content files target

end Invariant

section Functions
variable {sha3 : Bytes → Hash} {files files' : Files} {path : Path}

theorem absorb_eq (absorbed rest : Bytes) : absorb absorbed rest = absorbed++rest := by
  fun_induction absorb absorbed rest with
  | case1 absorbed => rw [List.append_nil]
  | case2 absorbed b rest ih => rw [ih,List.append_assoc,List.take_append_drop]

theorem sha3File_ok {digest : Hash} (h : sha3File sha3 files path = .ok digest) {bytes : Bytes}
    (hbytes : content files path = some bytes) : digest = sha3 bytes := by
  rw [sha3File,readFile_content.mpr hbytes] at h
  cases h
  dsimp only
  rw [absorb_eq,List.nil_append]

/-- Removing a path leaves it absent, also when it was absent before. -/
theorem removeIfExists_ok (h : removeIfExists files path = .ok files') :
    files' = set files path none := by
  unfold removeIfExists at h
  split at h
  · rename_i removed hremoved
    cases h
    exact removeFile_ok hremoved
  · rename_i hmissing
    cases h
    have habsent : files path = none := by
      unfold removeFile at hmissing
      split at hmissing
      · cases hmissing
      · cases hmissing
      · assumption
    exact (set_self habsent).symm
  · cases h

theorem checkChunk_ok {active : ActiveSnapshot} {chunk : SnapshotChunk} {newTotal : UInt64}
    (h : checkChunk active chunk = .ok newTotal) :
    chunk.snapshotId = active.init.snapshotId ∧ chunk.chunkIdx = active.nextChunkIdx ∧
      active.nextChunkIdx < active.init.totalChunks ∧
      chunk.payload.length ≤ maxSnapshotChunkBytes ∧
      newTotal = active.bytesReceived+UInt64.ofNat chunk.payload.length ∧
      newTotal ≤ active.init.totalBytes := by
  unfold checkChunk at h
  dsimp only at h
  split at h
  · cases h
  split at h
  · cases h
  split at h
  · cases h
  split at h
  · cases h
  split at h
  · cases h
  rename_i hid hindex hcount hsize htotal
  cases h
  exact ⟨not_not.mp hid,not_not.mp hindex,UInt64.not_le.mp hcount,not_lt.mp hsize,rfl,
    UInt64.not_lt.mp htotal⟩

theorem checkFinalize_ok {active : ActiveSnapshot} {finalize : SnapshotFinalize} {u : Unit}
    (h : checkFinalize active finalize = .ok u) :
    finalize.snapshotId = active.init.snapshotId ∧ active.nextChunkIdx = active.init.totalChunks ∧
      active.bytesReceived = active.init.totalBytes ∧
      finalize.sha3OfFull = active.init.sha3OfFull := by
  unfold checkFinalize at h
  split at h
  · cases h
  split at h
  · cases h
  split at h
  · cases h
  split at h
  · cases h
  rename_i hid hcount hbytes hdigest
  exact ⟨not_not.mp hid,not_not.mp hcount,not_not.mp hbytes,not_not.mp hdigest⟩

end Functions

section Steps
variable {sha3 : Bytes → Hash} {s : State}

/-- A file operation failed, or the frame was refused and nothing happened, or an empty
staging file was created. -/
theorem receiveInit_cases (init : SnapshotInit) :
    (∃ e, (receiveInit sha3 s init).1 = .error (.io e)) ∨
      (∃ e, (receiveInit sha3 s init).1 = .error (.protocol e) ∧ (receiveInit sha3 s init).2 = s) ∨
      (∃ files, receiveInit sha3 s init = (.ok (.accepted init.snapshotId 0),
          { s with
            active := some ⟨init,0,0,stagedPath sha3 s.stagingDir init.snapshotId⟩
            files := files }) ∧
        content files (stagedPath sha3 s.stagingDir init.snapshotId) = some [] ∧
        ∀ p, p ≠ stagedPath sha3 s.stagingDir init.snapshotId →
          content files p = content s.files p) := by
  unfold receiveInit
  split
  · exact Or.inr (Or.inl ⟨_,rfl,rfl⟩)
  split
  · exact Or.inl ⟨_,rfl⟩
  rename_i created hcreated
  dsimp only
  split
  · exact Or.inl ⟨_,rfl⟩
  rename_i removed hremoved
  split
  · exact Or.inl ⟨_,rfl⟩
  rename_i opened hopened
  refine Or.inr (Or.inr ⟨opened,rfl,?_,?_⟩)
  · rw [createNew_ok hopened]
    exact content_set_file []
  · intro p hp
    rw [createNew_ok hopened,content_set_ne _ hp,removeIfExists_ok hremoved,content_set_ne _ hp]
    exact content_createDirAll hcreated

theorem receiveChunk_cases (chunk : SnapshotChunk) :
    (∃ e, (receiveChunk s chunk).1 = .error (.io e)) ∨
      (∃ e, (receiveChunk s chunk).1 = .error (.protocol e) ∧ (receiveChunk s chunk).2 = s) ∨
      (∃ active newTotal files, s.active = some active ∧ checkChunk active chunk = .ok newTotal ∧
        writeAll s.files active.stagedPath chunk.payload = (.ok (),files) ∧
        receiveChunk s chunk = (.ok (.accepted active.init.snapshotId (active.nextChunkIdx+1)),
          { s with
            active := some { active with
              bytesReceived := newTotal, nextChunkIdx := active.nextChunkIdx+1 }
            files := files })) := by
  unfold receiveChunk
  split
  · exact Or.inr (Or.inl ⟨_,rfl,rfl⟩)
  rename_i active hactive
  split
  · exact Or.inr (Or.inl ⟨_,rfl,rfl⟩)
  rename_i newTotal hchecked
  split
  · exact Or.inl ⟨_,rfl⟩
  rename_i files hwritten
  exact Or.inr (Or.inr ⟨active,newTotal,files,hactive,hchecked,hwritten,rfl⟩)

/-- A session which is ended loses its staging file and nothing else. -/
theorem endSession_cases (path : Path) (e : SnapshotProtocolError) :
    (∃ io, (endSession s path e).1 = .error (.io io)) ∨
      endSession s path e = (.error (.protocol e),{ s with files := set s.files path none }) := by
  unfold endSession
  split
  · exact Or.inl ⟨_,rfl⟩
  rename_i files hremoved
  rw [removeIfExists_ok hremoved]
  exact Or.inr rfl

theorem install_cases (active : ActiveSnapshot) :
    (∃ e, (install s active).1 = .error (.io e)) ∨
      ∃ files, renameFile (set s.files s.installedPath none) active.stagedPath s.installedPath =
          .ok files ∧
        install s active =
          (.ok (.complete active.init.snapshotId s.installedPath),{ s with files := files }) := by
  unfold install
  split
  · exact Or.inl ⟨_,rfl⟩
  rename_i removed hremoved
  split
  · exact Or.inl ⟨_,rfl⟩
  rename_i files hrenamed
  rw [removeIfExists_ok hremoved] at hrenamed
  exact Or.inr ⟨files,hrenamed,rfl⟩

theorem receiveFinalize_cases (finalize : SnapshotFinalize) :
    (∃ e, (receiveFinalize sha3 s finalize).1 = .error (.io e)) ∨
      (s.active = none ∧ receiveFinalize sha3 s finalize = (.error (.protocol .noActiveSnapshot),s)) ∨
      (∃ active e, s.active = some active ∧
        receiveFinalize sha3 s finalize = (.error (.protocol e),
          { s with active := none, files := set s.files active.stagedPath none })) ∨
      (∃ active files, s.active = some active ∧ checkFinalize active finalize = .ok () ∧
        sha3File sha3 s.files active.stagedPath = .ok finalize.sha3OfFull ∧
        renameFile (set s.files s.installedPath none) active.stagedPath s.installedPath = .ok files ∧
        receiveFinalize sha3 s finalize =
          (.ok (.complete active.init.snapshotId s.installedPath),
            { s with active := none, files := files })) := by
  unfold receiveFinalize
  split
  · rename_i hidle
    exact Or.inr (Or.inl ⟨hidle,rfl⟩)
  rename_i active hactive
  dsimp only
  split
  · rename_i e hrefused
    rcases @endSession_cases { s with active := none } active.stagedPath e with hio | hended
    · exact Or.inl hio
    · exact Or.inr (Or.inr (Or.inl ⟨active,e,hactive,hended⟩))
  rename_i hchecked
  split
  · exact Or.inl ⟨_,rfl⟩
  rename_i digest hdigest
  split
  · rcases @endSession_cases { s with active := none } active.stagedPath .hashMismatch with hio | hended
    · exact Or.inl hio
    · exact Or.inr (Or.inr (Or.inl ⟨active,_,hactive,hended⟩))
  rename_i hsame
  rw [not_not.mp hsame] at hdigest
  rcases @install_cases { s with active := none } active with hio | ⟨files,hrenamed,hinstalled⟩
  · exact Or.inl hio
  · exact Or.inr (Or.inr (Or.inr ⟨active,files,hactive,hchecked,hdigest,hrenamed,hinstalled⟩))

theorem abortOnLeaderChange_cases :
    (∃ e, (abortOnLeaderChange s).1 = .error (.io e)) ∨
      (s.active = none ∧ abortOnLeaderChange s = (.ok false,s)) ∨
      (∃ active, s.active = some active ∧ abortOnLeaderChange s =
        (.ok true,{ s with active := none, files := set s.files active.stagedPath none })) := by
  unfold abortOnLeaderChange
  split
  · rename_i hidle
    exact Or.inr (Or.inl ⟨hidle,rfl⟩)
  rename_i active hactive
  dsimp only
  split
  · exact Or.inl ⟨_,rfl⟩
  rename_i files hremoved
  rw [removeIfExists_ok hremoved]
  exact Or.inr (Or.inr ⟨active,hactive,rfl⟩)

end Steps

section Runs
variable {sha3 : Bytes → Hash} {s : State} {session : Option Session}

/-- What a step without a failed file operation keeps. -/
structure Kept (sha3 : Bytes → Hash) (session : Option Session) (s : State) (e : Event) (o : Outcome)
    (s' : State) : Prop where
  tracks : Tracks sha3 s' (track session (e,o))
  staging : s'.stagingDir = s.stagingDir
  target : s'.installedPath = s.installedPath
  safe : StepSafe sha3 session s.installedPath s.files s'.files o

theorem Tracks.staged (h : Tracks sha3 s session) {active : ActiveSnapshot}
    (hactive : s.active = some active) : ∃ current, session = some current ∧ Staged sha3 s active current := by
  cases h with
  | idle hidle => cases hidle.symm.trans hactive
  | busy hbusy hstaged =>
      cases hbusy.symm.trans hactive
      exact ⟨_,rfl,hstaged⟩

/-- The staging file is not the installed snapshot. -/
theorem Staged.elsewhere {active : ActiveSnapshot} {current : Session}
    (h : Staged sha3 s active current)
    (hpath : ∀ id, s.installedPath ≠ stagedPath sha3 s.stagingDir id) :
    s.installedPath ≠ active.stagedPath := by
  rw [h.path]
  exact hpath _

theorem init_kept (hpath : ∀ id, s.installedPath ≠ stagedPath sha3 s.stagingDir id)
    (h : Tracks sha3 s session) (init : SnapshotInit)
    (hio : ¬(Outcome.answered (receiveInit sha3 s init).1).IsIo) :
    Kept sha3 session s (.frame (.init init)) (.answered (receiveInit sha3 s init).1)
      (receiveInit sha3 s init).2 := by
  rcases @receiveInit_cases sha3 s init with ⟨e,he⟩ | ⟨e,he,hsame⟩ | ⟨files,hr,hnew,hothers⟩
  · rw [he] at hio
    exact (hio trivial).elim
  · rw [he,hsame]
    exact ⟨h,rfl,rfl,rfl⟩
  · rw [hr]
    refine ⟨?_,rfl,rfl,hothers _ (hpath init.snapshotId)⟩
    apply Tracks.busy rfl
    exact ⟨rfl,rfl,hnew,rfl,rfl,fun _ h => (List.not_mem_nil h).elim,Nat.zero_le _⟩

/-- The count of bytes stays far below the range of `u64`, as no file is that long. -/
theorem newTotal_toNat {received : UInt64} {old payload : Bytes}
    (hreceived : received.toNat = old.length) (hsize : payload.length ≤ maxSnapshotChunkBytes)
    (hfits : old.length ≤ maxFileBytes) :
    (received+UInt64.ofNat payload.length).toNat = (old++payload).length := by
  unfold maxSnapshotChunkBytes at hsize
  unfold maxFileBytes at hfits
  rw [UInt64.toNat_add,UInt64.toNat_ofNat',hreceived,List.length_append]
  omega

theorem chunk_staged {active : ActiveSnapshot} {current : Session} (h : Staged sha3 s active current)
    {chunk : SnapshotChunk} {newTotal : UInt64} (hchecked : checkChunk active chunk = .ok newTotal)
    {files : Files} (hwritten : writeAll s.files active.stagedPath chunk.payload = (.ok (),files)) :
    Staged sha3
      { s with
        active := some { active with
          bytesReceived := newTotal, nextChunkIdx := active.nextChunkIdx+1 }
        files := files }
      { active with bytesReceived := newTotal, nextChunkIdx := active.nextChunkIdx+1 }
      ⟨current.init,current.payloads++[chunk.payload]⟩ := by
  obtain ⟨-,-,hcount,hsize,rfl,-⟩ := checkChunk_ok hchecked
  obtain ⟨hroom,rfl⟩ := writeAll_ok (file_of_content h.staged) hwritten
  have hflat : (current.payloads++[chunk.payload]).flatten = current.payloads.flatten++chunk.payload := by
    rw [List.flatten_append,List.flatten_singleton]
  refine ⟨h.init,h.path,?_,?_,?_,?_,?_⟩
  · dsimp only
    rw [hflat]
    exact content_set_file _
  · have hlt := UInt64.lt_iff_toNat_lt.mp hcount
    have hbound := active.init.totalChunks.toNat_lt
    dsimp only
    rw [UInt64.toNat_add,List.length_append,List.length_singleton,← h.count]
    change (active.nextChunkIdx.toNat+1) % 2^64 = _
    omega
  · dsimp only
    rw [hflat]
    exact newTotal_toNat h.received hsize h.fits
  · intro payload hmem
    rcases List.mem_append.mp hmem with hold | hnew
    · exact h.small payload hold
    · rw [List.mem_singleton.mp hnew]
      exact hsize
  · dsimp only
    rw [hflat,List.length_append]
    exact hroom

theorem chunk_kept (hpath : ∀ id, s.installedPath ≠ stagedPath sha3 s.stagingDir id)
    (h : Tracks sha3 s session) (chunk : SnapshotChunk)
    (hio : ¬(Outcome.answered (receiveChunk s chunk).1).IsIo) :
    Kept sha3 session s (.frame (.chunk chunk)) (.answered (receiveChunk s chunk).1)
      (receiveChunk s chunk).2 := by
  rcases @receiveChunk_cases s chunk with
    ⟨e,he⟩ | ⟨e,he,hsame⟩ | ⟨active,newTotal,files,hactive,hchecked,hwritten,hr⟩
  · rw [he] at hio
    exact (hio trivial).elim
  · rw [he,hsame]
    exact ⟨h,rfl,rfl,rfl⟩
  · rw [hr]
    obtain ⟨current,rfl,hstaged⟩ := h.staged hactive
    refine ⟨Tracks.busy rfl (chunk_staged hstaged hchecked hwritten),rfl,rfl,?_⟩
    obtain ⟨-,rfl⟩ := writeAll_ok (file_of_content hstaged.staged) hwritten
    exact content_set_ne _ (hstaged.elsewhere hpath)

/-- A session which ends without an installation leaves the receiver idle. -/
theorem ended_kept {active : ActiveSnapshot} {current : Session}
    (hpath : ∀ id, s.installedPath ≠ stagedPath sha3 s.stagingDir id)
    (h : Staged sha3 s active current) :
    Tracks sha3 { s with active := none, files := set s.files active.stagedPath none } none ∧
      content (set s.files active.stagedPath none) s.installedPath = content s.files s.installedPath :=
  ⟨Tracks.idle rfl,content_set_ne _ (h.elsewhere hpath)⟩

theorem install_completes {active : ActiveSnapshot} {current : Session}
    (hpath : ∀ id, s.installedPath ≠ stagedPath sha3 s.stagingDir id)
    (h : Staged sha3 s active current) {finalize : SnapshotFinalize}
    (hchecked : checkFinalize active finalize = .ok ())
    (hdigest : sha3File sha3 s.files active.stagedPath = .ok finalize.sha3OfFull) {files : Files}
    (hrenamed : renameFile (set s.files s.installedPath none) active.stagedPath s.installedPath =
      .ok files) :
    Completes sha3 current active.init.snapshotId (content files s.installedPath) := by
  obtain ⟨-,hcount,hbytes,hannounced⟩ := checkFinalize_ok hchecked
  have hne := h.elsewhere hpath
  have hsource : set s.files s.installedPath none active.stagedPath =
      some (.file current.payloads.flatten) := by
    rw [set_ne _ hne.symm]
    exact file_of_content h.staged
  refine ⟨by rw [h.init],?_,?_,h.small,?_,?_⟩
  · rw [renameFile_ok hrenamed hsource hne.symm]
    exact content_set_file _
  · rw [← h.count,hcount,h.init]
  · rw [← h.received,hbytes,h.init]
  · rw [← sha3File_ok hdigest h.staged,hannounced,h.init]

theorem finalize_kept (hpath : ∀ id, s.installedPath ≠ stagedPath sha3 s.stagingDir id)
    (h : Tracks sha3 s session) (finalize : SnapshotFinalize)
    (hio : ¬(Outcome.answered (receiveFinalize sha3 s finalize).1).IsIo) :
    Kept sha3 session s (.frame (.finalize finalize))
      (.answered (receiveFinalize sha3 s finalize).1) (receiveFinalize sha3 s finalize).2 := by
  rcases @receiveFinalize_cases sha3 s finalize with
    ⟨e,he⟩ | ⟨hidle,hr⟩ | ⟨active,e,hactive,hr⟩ | ⟨active,files,hactive,hchecked,hdigest,hrenamed,hr⟩
  · rw [he] at hio
    exact (hio trivial).elim
  · rw [hr]
    exact ⟨Tracks.idle hidle,rfl,rfl,rfl⟩
  · rw [hr]
    obtain ⟨current,rfl,hstaged⟩ := h.staged hactive
    obtain ⟨htracks,hsame⟩ := ended_kept hpath hstaged
    exact ⟨htracks,rfl,rfl,hsame⟩
  · rw [hr]
    obtain ⟨current,rfl,hstaged⟩ := h.staged hactive
    exact ⟨Tracks.idle rfl,rfl,rfl,rfl,_,rfl,install_completes hpath hstaged hchecked hdigest hrenamed⟩

theorem abort_kept (hpath : ∀ id, s.installedPath ≠ stagedPath sha3 s.stagingDir id)
    (h : Tracks sha3 s session) (hio : ¬(Outcome.aborted (abortOnLeaderChange s).1).IsIo) :
    Kept sha3 session s .leaderChange (.aborted (abortOnLeaderChange s).1)
      (abortOnLeaderChange s).2 := by
  rcases @abortOnLeaderChange_cases s with ⟨e,he⟩ | ⟨hidle,hr⟩ | ⟨active,hactive,hr⟩
  · rw [he] at hio
    exact (hio trivial).elim
  · rw [hr]
    exact ⟨Tracks.idle hidle,rfl,rfl,rfl⟩
  · rw [hr]
    obtain ⟨current,rfl,hstaged⟩ := h.staged hactive
    obtain ⟨htracks,hsame⟩ := ended_kept hpath hstaged
    exact ⟨htracks,rfl,rfl,hsame⟩

theorem step_kept (hpath : ∀ id, s.installedPath ≠ stagedPath sha3 s.stagingDir id)
    (h : Tracks sha3 s session) (e : Event) (hio : ¬(step sha3 s e).1.IsIo) :
    Kept sha3 session s e (step sha3 s e).1 (step sha3 s e).2 := by
  cases e with
  | frame f =>
      cases f with
      | init frame => exact init_kept hpath h frame hio
      | chunk frame => exact chunk_kept hpath h frame hio
      | finalize frame => exact finalize_kept hpath h frame hio
  | leaderChange => exact abort_kept hpath h hio

theorem run_append (s : State) (before after : List Event) :
    run sha3 s (before++after) =
      ((run sha3 s before).1++(run sha3 (run sha3 s before).2 after).1,
        (run sha3 (run sha3 s before).2 after).2) := by
  induction before generalizing s with
  | nil => rfl
  | cons e rest ih => simp only [List.cons_append,run,ih]

/-- A run without failed file operations follows its session. -/
theorem run_tracks (hpath : ∀ id, s.installedPath ≠ stagedPath sha3 s.stagingDir id)
    (h : Tracks sha3 s session) (events : List Event)
    (hio : ∀ x ∈ (run sha3 s events).1, ¬x.2.IsIo) :
    Tracks sha3 (run sha3 s events).2 ((run sha3 s events).1.foldl track session) ∧
      (run sha3 s events).2.stagingDir = s.stagingDir ∧
      (run sha3 s events).2.installedPath = s.installedPath := by
  induction events generalizing s session with
  | nil => exact ⟨h,rfl,rfl⟩
  | cons e rest ih =>
      dsimp only [run] at hio ⊢
      have hkept := step_kept hpath h e (hio _ List.mem_cons_self)
      have hpath' : ∀ id, (step sha3 s e).2.installedPath ≠
          stagedPath sha3 (step sha3 s e).2.stagingDir id := by
        rw [hkept.target,hkept.staging]
        exact hpath
      obtain ⟨htracks,hstaging,htarget⟩ :=
        ih hpath' hkept.tracks fun x hx => hio x (List.mem_cons_of_mem _ hx)
      exact ⟨htracks,hstaging.trans hkept.staging,htarget.trans hkept.target⟩

/-- Every run of frames and aborts from an idle receiver: a completed transfer installs
the payloads acknowledged since its initial frame, as many and as long as announced and
with the announced digest, and no other step changes the installed snapshot. -/
theorem transfers_safe (hidle : s.active = none)
    (hpath : ∀ id, s.installedPath ≠ stagedPath sha3 s.stagingDir id) (before : List Event) (e : Event)
    (hio : ∀ x ∈ (run sha3 s (before++[e])).1, ¬x.2.IsIo) :
    StepSafe sha3 (sessionAfter (run sha3 s before).1) s.installedPath (run sha3 s before).2.files
      (step sha3 (run sha3 s before).2 e).2.files (step sha3 (run sha3 s before).2 e).1 := by
  rw [run_append] at hio
  obtain ⟨htracks,hstaging,htarget⟩ := run_tracks hpath (Tracks.idle hidle) before
    fun x hx => hio x (List.mem_append_left _ hx)
  have hpath' : ∀ id, (run sha3 s before).2.installedPath ≠
      stagedPath sha3 (run sha3 s before).2.stagingDir id := by
    rw [hstaging,htarget]
    exact hpath
  have hlast := hio (e,(step sha3 (run sha3 s before).2 e).1)
    (List.mem_append_right _ List.mem_cons_self)
  have hsafe := (step_kept hpath' htracks e hlast).safe
  rw [htarget] at hsafe
  exact hsafe

end Runs

section Sample

/-- SHA3-256 of the id `s1`; of the bytes 1, 2, 3 otherwise. -/
def sampleDigest (bytes : Bytes) : Hash :=
  if bytes = [0x73,0x31] then
    #v[0xcf,0x5c,0x27,0xcb,0x36,0x07,0x6b,0xf9,0xa5,0x98,0x01,0x54,0xdc,0x8b,0x6e,0x60,
      0x4d,0x4d,0xdb,0x37,0x63,0x03,0xe4,0xa2,0xc4,0xd3,0xe3,0x00,0xa8,0xee,0x44,0x80]
  else
    #v[0xfd,0x17,0x80,0xa6,0xfc,0x9e,0xe0,0xda,0xb2,0x6c,0xeb,0x4b,0x39,0x41,0xab,0x03,
      0xe6,0x6c,0xcd,0x97,0x0d,0x1d,0xb9,0x16,0x12,0xc6,0x6d,0xf4,0x51,0x5b,0x0a,0x0a]

def sampleFiles : Files := fun path => if path = [] ∨ path = ["data"] then some .dir else none

def sampleReceiver : State := ⟨["data","staging"],["data","installed"],none,sampleFiles⟩

/-- A transfer of three bytes in one chunk, up to its final frame. -/
def sampleEvents : List Event :=
  [.frame (.init ⟨"s1",1,3,sampleDigest [1,2,3]⟩),.frame (.chunk ⟨"s1",0,[1,2,3]⟩)]

def sampleFinalize : Event := .frame (.finalize ⟨"s1",sampleDigest [1,2,3]⟩)

theorem sample_transfer_safe :
    (step sampleDigest (run sampleDigest sampleReceiver sampleEvents).2 sampleFinalize).1 =
        .answered (.ok (.complete "s1" ["data","installed"])) ∧
      StepSafe sampleDigest (sessionAfter (run sampleDigest sampleReceiver sampleEvents).1)
        sampleReceiver.installedPath (run sampleDigest sampleReceiver sampleEvents).2.files
        (step sampleDigest (run sampleDigest sampleReceiver sampleEvents).2 sampleFinalize).2.files
        (step sampleDigest (run sampleDigest sampleReceiver sampleEvents).2 sampleFinalize).1 := by
  have hpath : ∀ id, sampleReceiver.installedPath ≠
      stagedPath sampleDigest sampleReceiver.stagingDir id := by
    intro id heq
    have hlength := congrArg List.length heq
    simp [sampleReceiver,stagedPath] at hlength
  have houtcomes : (run sampleDigest sampleReceiver (sampleEvents++[sampleFinalize])).1.map Prod.snd =
      [.answered (.ok (.accepted "s1" 0)),.answered (.ok (.accepted "s1" 1)),
        .answered (.ok (.complete "s1" ["data","installed"]))] := by
    decide +kernel
  refine ⟨by decide +kernel,transfers_safe rfl hpath sampleEvents sampleFinalize ?_⟩
  intro x hx
  have hmem := List.mem_map_of_mem (f := Prod.snd) hx
  rw [houtcomes] at hmem
  simp only [List.mem_cons,List.not_mem_nil,or_false] at hmem
  obtain h | h | h := hmem <;> rw [h] <;> exact id

end Sample

end OmegaHarness.SnapshotReceiver
