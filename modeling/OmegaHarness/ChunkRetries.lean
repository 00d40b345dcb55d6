import OmegaHarness.FaultyReceiver
import OmegaHarness.SnapshotTransfer

/-!
# A chunk which is sent again

A chunk whose write or flush fails leaves the session open and its counters as they were,
so the same chunk is accepted when it comes again. But the bytes which were written before
the failure are still in the staging file, and the second write goes behind them. From then
on the file is longer than the receiver counts, the other chunks keep it so, and at the end
the file cannot be the announced buffer. The retry succeeds only when the failed write had
left nothing.
-/
namespace OmegaHarness.ChunkRetries
open DomainHashes FileTree FaultyFiles SnapshotReceiver SnapshotTransfer FaultyReceiver

section Failure
variable {sha3 : Bytes → Hash} {s : State} {active : ActiveSnapshot}

/-- The part of the payload which the write got through is in the staging file. -/
theorem failed_chunk {chunk : SnapshotChunk} {newTotal : UInt64} {old : Bytes} {fates : ℕ → Fate}
    {e : SnapshotReceiveError} (hactive : s.active = some active)
    (hchecked : checkChunk active chunk = .ok newTotal)
    (hold : content s.files active.stagedPath = some old)
    (hroom : old.length+chunk.payload.length ≤ maxFileBytes)
    (hfailed : (attempt sha3 s (.chunk chunk) fates).reply = .answered (.error e)) :
    (attempt sha3 s (.chunk chunk) fates).state =
      staging s active (old++(fates 0).portion chunk.payload) := by
  have hstate := conclude_error hfailed
  have hfiles : ((receiveCalls sha3 s (.chunk chunk)).run ⟨s.files,fates,[]⟩).2.files =
      (writeAll s.files active.stagedPath ((fates 0).portion chunk.payload)).2 := by
    rw [receiveCalls,receiveChunkCalls,hactive]
    dsimp only
    rw [hchecked]
    dsimp only
    refine (keeps_after (fun _ => ?_) _).trans ?_
    · exact keeps_bind (keeps_mapError (keeps_files_look _)) fun _ => keeps_pure _
    · rw [io,mapError_disk]
      rfl
  have hlength : old.length+((fates 0).portion chunk.payload).length ≤ maxFileBytes :=
    (Nat.add_le_add_left (Fate.portion_length_le _ _) _).trans hroom
  rw [writeAll_file (file_of_content hold) hlength] at hfiles
  rw [attempt,hstate,hfiles,staging,sessionLeft,hactive]

end Failure

section Ahead
variable {sha3 : Bytes → Hash} {s : State} {init : SnapshotInit} {path : Path}

/-- The staging file holds more bytes than the session has counted. -/
def Ahead (s : State) (init : SnapshotInit) (path : Path) : Prop :=
  ∃ active staged, s.active = some active ∧ active.init = init ∧ active.stagedPath = path ∧
    content s.files path = some staged ∧ active.bytesReceived.toNat < staged.length

/-- A chunk adds as much to the file as to the count, or more. -/
theorem chunk_ahead (h : Ahead s init path) (chunk : SnapshotChunk) :
    Ahead (receiveChunk s chunk).2 init path := by
  obtain ⟨active,staged,hactive,hinit,rfl,hstaged,hahead⟩ := h
  rw [receiveChunk,hactive]
  dsimp only
  split
  · exact ⟨active,staged,hactive,hinit,rfl,hstaged,hahead⟩
  rename_i newTotal hchecked
  obtain ⟨more,hmore,hall⟩ := writeAll_extends (file_of_content hstaged) chunk.payload
  split
  · rename_i e files hwritten
    rw [hwritten] at hmore
    refine ⟨active,staged++more,rfl,hinit,rfl,hmore,?_⟩
    rw [List.length_append]
    omega
  · rename_i files hwritten
    rw [hwritten] at hmore hall
    rw [hall rfl] at hmore
    obtain ⟨-,-,-,-,rfl,-⟩ := checkChunk_ok hchecked
    refine ⟨_,staged++chunk.payload,rfl,hinit,rfl,hmore,?_⟩
    dsimp only
    rw [UInt64.toNat_add,UInt64.toNat_ofNat',List.length_append]
    omega

theorem chunks_ahead (h : Ahead s init path) (snapshotId : String) (start : ℕ) (chunks : List Bytes) :
    Ahead (run sha3 s ((chunkFrames snapshotId start chunks).map .frame)).2 init path := by
  induction chunks generalizing s start with
  | nil => exact h
  | cons payload rest ih =>
      rw [chunkFrames,List.map_cons,run_frame (.chunk _) rfl]
      exact ih (chunk_ahead h _) (start+1)

theorem receiveChunk_installedPath (s : State) (chunk : SnapshotChunk) :
    (receiveChunk s chunk).2.installedPath = s.installedPath := by
  unfold receiveChunk
  split
  · rfl
  split
  · rfl
  split
  · rfl
  · rfl

theorem chunks_installedPath (s : State) (snapshotId : String) (start : ℕ) (chunks : List Bytes) :
    (run sha3 s ((chunkFrames snapshotId start chunks).map .frame)).2.installedPath =
      s.installedPath := by
  induction chunks generalizing s start with
  | nil => rfl
  | cons payload rest ih =>
      rw [chunkFrames,List.map_cons,run_frame (.chunk _) rfl]
      exact (ih _ _).trans (receiveChunk_installedPath s _)

/-- What is installed from such a file is longer than announced. -/
theorem ahead_installs_more (h : Ahead s init path) (hne : s.installedPath ≠ path)
    {finalize : SnapshotFinalize} {snapshotId : String} {target : Path} {installed : Bytes}
    (hcomplete : (receive sha3 s (.finalize finalize)).1 = .ok (.complete snapshotId target))
    (hinstalled : content (receive sha3 s (.finalize finalize)).2.files s.installedPath =
      some installed) : init.totalBytes.toNat < installed.length := by
  obtain ⟨active,staged,hactive,rfl,rfl,hstaged,hahead⟩ := h
  change (receiveFinalize sha3 s finalize).1 = _ at hcomplete
  change content (receiveFinalize sha3 s finalize).2.files _ = _ at hinstalled
  obtain ⟨e,he⟩ | ⟨-,hr⟩ | ⟨_,e,-,hr⟩ | ⟨active',files,hactive',hchecked,-,hrenamed,hr⟩ :=
    @receiveFinalize_cases sha3 s finalize
  · rw [he] at hcomplete
    cases hcomplete
  · rw [hr] at hcomplete
    cases hcomplete
  · rw [hr] at hcomplete
    cases hcomplete
  · cases hactive.symm.trans hactive'
    obtain ⟨-,-,hbytes,-⟩ := checkFinalize_ok hchecked
    have hsource : set s.files s.installedPath none active.stagedPath = some (.file staged) := by
      rw [set_ne _ hne.symm]
      exact file_of_content hstaged
    rw [hr] at hinstalled
    dsimp only at hinstalled
    rw [renameFile_ok hrenamed hsource hne.symm,content_set_file] at hinstalled
    cases hinstalled
    rw [← hbytes]
    exact hahead

end Ahead

section Retry
variable {sha3 : Bytes → Hash} {s : State}

/-- The first chunks of a session which no fault meets. -/
theorem session_begun {init : SnapshotInit} {files : Files} {before : List Bytes}
    (hidle : s.active = none) (hready : Ready sha3 s init.snapshotId files)
    (hsmall : ∀ payload ∈ before, payload.length ≤ maxSnapshotChunkBytes)
    (hcount : before.length ≤ init.totalChunks.toNat)
    (htotal : before.flatten.length ≤ init.totalBytes.toNat)
    (hroom : init.totalBytes.toNat ≤ maxFileBytes) :
    ∃ active, active.stagedPath = stagedPath sha3 s.stagingDir init.snapshotId ∧
      (run sha3 s ((.init init::chunkFrames init.snapshotId 0 before).map .frame)).2 =
        staging { s with files := files } active before.flatten ∧
      Staged sha3 (staging { s with files := files } active before.flatten) active ⟨init,before⟩ := by
  obtain ⟨first,hplace,hopened,hstaged⟩ := receiveInit_ready hidle hready
  obtain ⟨active,hpath,-,hrun,hfinal⟩ := chunks_received rfl hstaged hsmall
    (by rw [List.length_nil,Nat.zero_add]; exact hcount)
    (by rw [List.flatten_nil,List.length_nil,Nat.zero_add]; exact htotal) hroom
  rw [List.nil_append,staging_staging _ _ _ hpath] at hrun hfinal
  refine ⟨active,hpath.trans hplace,?_,hfinal⟩
  rw [List.map_cons,run_frame (.init init) hopened]
  exact hrun

/-- The last reply and the state at the end are those of the last frame. -/
theorem attempts_last (s : State) (frames : List SnapshotFrame) (last : SnapshotFrame) :
    (attempts sha3 s ((frames++[last]).map calmly)).1.getLast? =
        some (.answered (receive sha3 (run sha3 s (frames.map .frame)).2 last).1) ∧
      (attempts sha3 s ((frames++[last]).map calmly)).2 =
        (receive sha3 (run sha3 s (frames.map .frame)).2 last).2 := by
  obtain ⟨moves,hcalm⟩ := @attempt_undisturbed sha3 (run sha3 s (frames.map .frame)).2 last
  rw [List.map_append,attempts_append,attempts_calmly,List.map_singleton,calmly,attempts,attempts,
    hcalm]
  exact ⟨List.getLast?_concat,rfl⟩

/-- The buffer is cut into chunks, those before the failure are received, and after the
failure come the failed chunk again, the others and the final frame. -/
def retried (sha3 : Bytes → Hash) (snapshotId : String) (bytes : Bytes) (before : List Bytes)
    (payload : Bytes) (after : List Bytes) (fates : ℕ → Fate) : List (SnapshotFrame × (ℕ → Fate)) :=
  (.init (announced sha3 snapshotId bytes)::chunkFrames snapshotId 0 before).map calmly++
    (.chunk ⟨snapshotId,UInt64.ofNat before.length,payload⟩,fates)::
      (chunkFrames snapshotId before.length (payload::after)++
        [SnapshotFrame.finalize ⟨snapshotId,sha3 bytes⟩]).map calmly

/-- The receiver at the failed chunk and what the chunk came to. -/
def failure (sha3 : Bytes → Hash) (s : State) (snapshotId : String) (bytes : Bytes)
    (before : List Bytes) (payload : Bytes) (fates : ℕ → Fate) : Attempt :=
  attempt sha3 (attempts sha3 s
      ((.init (announced sha3 snapshotId bytes)::chunkFrames snapshotId 0 before).map calmly)).2
    (.chunk ⟨snapshotId,UInt64.ofNat before.length,payload⟩) fates

/-- The last frame is answered with `Complete` and the buffer is installed. -/
def Installs (sha3 : Bytes → Hash) (s : State) (sent : List (SnapshotFrame × (ℕ → Fate)))
    (snapshotId : String) (bytes : Bytes) : Prop :=
  (attempts sha3 s sent).1.getLast? = some (.answered (.ok (.complete snapshotId s.installedPath))) ∧
    content (attempts sha3 s sent).2.files s.installedPath = some bytes

section Cut
variable {snapshotId : String} {files : Files} {bytes : Bytes} {before after : List Bytes}
  {payload : Bytes} {fates : ℕ → Fate}

theorem retried_end (sha3 : Bytes → Hash) (s : State) (snapshotId : String) (bytes : Bytes)
    (before : List Bytes) (payload : Bytes) (after : List Bytes) (fates : ℕ → Fate) {staged : State}
    (hstaged : (run sha3 (failure sha3 s snapshotId bytes before payload fates).state
      ((chunkFrames snapshotId before.length (payload::after)).map .frame)).2 = staged) :
    (attempts sha3 s (retried sha3 snapshotId bytes before payload after fates)).1.getLast? =
        some (.answered (receive sha3 staged (.finalize ⟨snapshotId,sha3 bytes⟩)).1) ∧
      (attempts sha3 s (retried sha3 snapshotId bytes before payload after fates)).2 =
        (receive sha3 staged (.finalize ⟨snapshotId,sha3 bytes⟩)).2 := by
  obtain ⟨hreply,hstate⟩ := @attempts_last sha3
    (failure sha3 s snapshotId bytes before payload fates).state
    (chunkFrames snapshotId before.length (payload::after)) (.finalize ⟨snapshotId,sha3 bytes⟩)
  rw [hstaged] at hreply hstate
  rw [retried,attempts_append,attempts]
  refine ⟨?_,hstate⟩
  change ((attempts sha3 s _).1++(_::(attempts sha3
    (failure sha3 s snapshotId bytes before payload fates).state _).1)).getLast? = _
  rw [List.getLast?_append,List.getLast?_cons,hreply]
  rfl

/-- The failed chunk has left its session open, and its part of the payload in the file. -/
theorem failure_state {e : SnapshotReceiveError} (hidle : s.active = none)
    (hready : Ready sha3 s snapshotId files) (hlength : bytes.length < 2^63)
    (hcut : snapshotChunks bytes = before++payload::after)
    (hfailed : (failure sha3 s snapshotId bytes before payload fates).reply = .answered (.error e)) :
    ∃ active, active.stagedPath = stagedPath sha3 s.stagingDir snapshotId ∧
      Staged sha3 (staging { s with files := files } active before.flatten) active
        ⟨announced sha3 snapshotId bytes,before⟩ ∧
      (failure sha3 s snapshotId bytes before payload fates).state =
        staging { s with files := files } active (before.flatten++(fates 0).portion payload) := by
  obtain ⟨hcount,htotal,hroom⟩ := announced_totals sha3 snapshotId hlength
  have hsmall := snapshotChunks_small bytes
  rw [hcut] at hcount htotal hsmall
  rw [List.length_append,List.length_cons] at hcount
  rw [List.flatten_append,List.flatten_cons,List.length_append,List.length_append] at htotal
  obtain ⟨active,hplace,hrun,hstaged⟩ := @session_begun sha3 s (announced sha3 snapshotId bytes) files
    before hidle hready (fun p hp => hsmall p (List.mem_append_left _ hp)) (by omega) (by omega) hroom
  have hchecked := checkChunk_accepts hstaged (by omega)
    (hsmall payload (List.mem_append_right _ List.mem_cons_self)) (by omega)
  rw [announced_id] at hplace hrun hchecked
  have hbegun := (attempts_calmly s _).trans hrun
  refine ⟨active,hplace,hstaged,?_⟩
  unfold failure at hfailed ⊢
  rw [hbegun] at hfailed ⊢
  rw [failed_chunk rfl hchecked hstaged.staged (by dsimp only; omega) hfailed,
    staging_staging _ _ _ rfl]

/-- With nothing left of the failed chunk, the session goes on as if it had not been sent. -/
theorem installs_from_before {active : ActiveSnapshot} (hready : Ready sha3 s snapshotId files)
    (hne : s.installedPath ≠ stagedPath sha3 s.stagingDir snapshotId) (hlength : bytes.length < 2^63)
    (hcut : snapshotChunks bytes = before++payload::after)
    (hplace : active.stagedPath = stagedPath sha3 s.stagingDir snapshotId)
    (hstaged : Staged sha3 (staging { s with files := files } active before.flatten) active
      ⟨announced sha3 snapshotId bytes,before⟩)
    (hstate : (failure sha3 s snapshotId bytes before payload fates).state =
      staging { s with files := files } active before.flatten) :
    Installs sha3 s (retried sha3 snapshotId bytes before payload after fates) snapshotId bytes := by
  obtain ⟨hcount,htotal,hroom⟩ := announced_totals sha3 snapshotId hlength
  have hsmall := snapshotChunks_small bytes
  have hflat := snapshotChunks_flatten bytes
  rw [hcut] at hcount htotal hsmall hflat
  obtain ⟨last,hpath,-,hrun,hfinal⟩ := chunks_received rfl hstaged
    (fun p hp => hsmall p (List.mem_append_right _ hp))
    (by rw [hcount,List.length_append]) (by rw [htotal,List.flatten_append,List.length_append]) hroom
  rw [staging_staging _ _ _ hpath] at hrun hfinal
  rw [announced_id,← hstate] at hrun
  obtain ⟨s',hinstalled,hcontent,-⟩ := @staging_installs sha3 s (announced sha3 snapshotId bytes) files
    (before++payload::after) last hready hne (hpath.trans hplace) hfinal hcount htotal
    (congrArg sha3 hflat.symm)
  obtain ⟨hreply,hend⟩ := retried_end sha3 s snapshotId bytes before payload after fates hrun
  have hfinalized : receive sha3 (staging { s with files := files } last (before++payload::after).flatten)
      (.finalize ⟨snapshotId,sha3 bytes⟩) = (.ok (.complete snapshotId s.installedPath),s') := hinstalled
  rw [hfinalized] at hreply hend
  rw [hflat] at hcontent
  refine ⟨hreply,?_⟩
  rw [hend]
  exact hcontent

/-- With something left, the file stays ahead of the count and the buffer is not installed. -/
theorem not_installs_ahead (hne : s.installedPath ≠ stagedPath sha3 s.stagingDir snapshotId)
    (hlength : bytes.length < 2^63)
    (htarget : (failure sha3 s snapshotId bytes before payload fates).state.installedPath =
      s.installedPath)
    (hahead : Ahead (failure sha3 s snapshotId bytes before payload fates).state
      (announced sha3 snapshotId bytes) (stagedPath sha3 s.stagingDir snapshotId)) :
    ¬Installs sha3 s (retried sha3 snapshotId bytes before payload after fates) snapshotId bytes := by
  intro hinstalls
  obtain ⟨hreply,hend⟩ := retried_end sha3 s snapshotId bytes before payload after fates rfl
  have hlater := @chunks_ahead sha3 _ _ _ hahead snapshotId before.length (payload::after)
  have hpath := (@chunks_installedPath sha3 _ snapshotId before.length (payload::after)).trans htarget
  rw [Installs,hreply,hend] at hinstalls
  obtain ⟨hcomplete,hcontent⟩ := hinstalls
  have hanswer := Reply.answered.inj (Option.some.inj hcomplete)
  rw [← hpath] at hcontent
  have hmore := ahead_installs_more hlater (by rw [hpath]; exact hne) hanswer hcontent
  obtain ⟨-,htotal,-⟩ := announced_totals sha3 snapshotId hlength
  rw [htotal,snapshotChunks_flatten] at hmore
  exact lt_irrefl _ hmore

/-- A chunk which failed with an I/O error and is sent again: the transfer ends with the
buffer installed, and the staging file was that of the acknowledged chunks, exactly when
nothing of the payload had been written. -/
theorem retry_installs_iff {e : IoError} (hidle : s.active = none)
    (hready : Ready sha3 s snapshotId files)
    (hne : s.installedPath ≠ stagedPath sha3 s.stagingDir snapshotId) (hlength : bytes.length < 2^63)
    (hcut : snapshotChunks bytes = before++payload::after)
    (hfailed : (failure sha3 s snapshotId bytes before payload fates).reply =
      .answered (.error (.io e))) :
    (Installs sha3 s (retried sha3 snapshotId bytes before payload after fates) snapshotId bytes ↔
      (fates 0).portion payload = []) ∧
    (content (failure sha3 s snapshotId bytes before payload fates).state.files
        (stagedPath sha3 s.stagingDir snapshotId) = some before.flatten ↔
      (fates 0).portion payload = []) := by
  obtain ⟨active,hplace,hstaged,hstate⟩ := failure_state hidle hready hlength hcut hfailed
  have hfile : content (failure sha3 s snapshotId bytes before payload fates).state.files
      (stagedPath sha3 s.stagingDir snapshotId) =
        some (before.flatten++(fates 0).portion payload) := by
    rw [hstate,← hplace]
    exact content_set_file _
  constructor
  · constructor
    · intro hinstalls
      by_contra hleft
      refine not_installs_ahead hne hlength (by rw [hstate]; rfl) ?_ hinstalls
      refine ⟨active,_,by rw [hstate]; rfl,hstaged.init,hplace,hfile,?_⟩
      rw [hstaged.received,List.length_append]
      exact Nat.lt_add_of_pos_right (List.length_pos_iff.mpr hleft)
    · intro hnothing
      rw [hnothing,List.append_nil] at hstate
      exact installs_from_before hready hne hlength hcut hplace hstaged hstate
  · rw [hfile,Option.some.injEq,List.append_right_eq_self]

end Cut

end Retry

section Sample

/-- The write of the only chunk fails, with so many bytes in the file. -/
def writeFails (done : ℕ) : ℕ → Fate
  | 0 => .fails .fileTooLarge done
  | _+1 => .works

theorem sample_cut : snapshotChunks [1,2,3] = []++[1,2,3]::[] := by decide +kernel

theorem sample_retry :
    (failure sampleDigest sampleReceiver "s1" [1,2,3] [] [1,2,3] (writeFails 0)).reply =
        .answered (.error (.io .fileTooLarge)) ∧
      Installs sampleDigest sampleReceiver
        (retried sampleDigest "s1" [1,2,3] [] [1,2,3] [] (writeFails 0)) "s1" [1,2,3] := by
  have hfailed : (failure sampleDigest sampleReceiver "s1" [1,2,3] [] [1,2,3] (writeFails 0)).reply =
      .answered (.error (.io .fileTooLarge)) := by
    decide +kernel
  have hretry := retry_installs_iff rfl sample_ready (by decide +kernel) (by decide) sample_cut hfailed
  exact ⟨hfailed,hretry.1.mpr rfl⟩

/-- A digest which tells the sample apart from every other buffer. -/
def strictDigest (bytes : Bytes) : Hash :=
  if bytes = [1,2,3] then sampleDigest bytes else Vector.replicate 32 0

/-- Two bytes of the failed write stay in front of the chunk, and the transfer is rejected
although every chunk was acknowledged. -/
theorem retry_appends :
    (attempts strictDigest sampleReceiver
        (retried strictDigest "s1" [1,2,3] [] [1,2,3] [] (writeFails 2))).1 =
      [.answered (.ok (.accepted "s1" 0)),.answered (.error (.io .fileTooLarge)),
        .answered (.ok (.accepted "s1" 1)),.answered (.error (.protocol .hashMismatch))] ∧
      content (attempts strictDigest sampleReceiver
        (retried strictDigest "s1" [1,2,3] [] [1,2,3] [] (writeFails 2))).2.files
          ["data","installed"] = none := by
  constructor <;> decide +kernel

end Sample

end OmegaHarness.ChunkRetries
