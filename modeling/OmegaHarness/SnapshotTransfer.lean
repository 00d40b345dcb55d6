import OmegaHarness.SnapshotReceiver

/-!
# A whole snapshot transfer

The sender cuts a buffer into chunks of one mebibyte and announces their number, the
length and the digest of the buffer. The number is computed by a division and the chunks
by repeated cuts, and the receiver counts both again. Fed in order to an idle receiver,
the frames are acknowledged one by one and the buffer is installed, unless the installed
path is the staging file itself: then the receiver removes what it is about to move.
-/
namespace OmegaHarness.SnapshotTransfer
open DomainHashes FileTree SnapshotReceiver

/-- `bytes.chunks(MAX_SNAPSHOT_CHUNK_BYTES)`. -/
def snapshotChunks : Bytes → List Bytes
  | [] => []
  | b::rest =>
      (b::rest).take maxSnapshotChunkBytes::snapshotChunks ((b::rest).drop maxSnapshotChunkBytes)
termination_by bytes => bytes.length
decreasing_by
  rw [List.length_drop,List.length_cons,maxSnapshotChunkBytes]
  omega

/-- `usize::div_ceil`. -/
def divCeil (n d : ℕ) : ℕ := if n % d > 0 then n/d+1 else n/d

/-- The loop over the enumerated chunks. -/
def chunkFrames (snapshotId : String) : ℕ → List Bytes → List SnapshotFrame
  | _,[] => []
  | chunkIdx,payload::rest =>
      .chunk ⟨snapshotId,UInt64.ofNat chunkIdx,payload⟩::chunkFrames snapshotId (chunkIdx+1) rest

def chunkSnapshotBytes (sha3 : Bytes → Hash) (snapshotId : String) (bytes : Bytes) :
    List SnapshotFrame :=
  let digest := sha3 bytes
  let totalChunks := if bytes.isEmpty then 0
    else UInt64.ofNat (divCeil bytes.length maxSnapshotChunkBytes)
  .init ⟨snapshotId,totalChunks,UInt64.ofNat bytes.length,digest⟩::
    (chunkFrames snapshotId 0 (snapshotChunks bytes)++[.finalize ⟨snapshotId,digest⟩])

section Chunks

theorem snapshotChunks_flatten (bytes : Bytes) : (snapshotChunks bytes).flatten = bytes := by
  fun_induction snapshotChunks bytes with
  | case1 => rfl
  | case2 b rest ih => rw [List.flatten_cons,ih,List.take_append_drop]

theorem snapshotChunks_small (bytes : Bytes) :
    ∀ payload ∈ snapshotChunks bytes, payload.length ≤ maxSnapshotChunkBytes := by
  fun_induction snapshotChunks bytes with
  | case1 => nofun
  | case2 b rest ih =>
      intro payload hmem
      rcases List.mem_cons.mp hmem with rfl | hlater
      · exact List.length_take_le _ _
      · exact ih payload hlater

/-- Cutting once more is one more in the division. -/
theorem divCeil_cut {n : ℕ} (hpos : 0 < n) :
    divCeil n maxSnapshotChunkBytes =
      divCeil (n-maxSnapshotChunkBytes) maxSnapshotChunkBytes+1 := by
  unfold divCeil maxSnapshotChunkBytes
  split <;> split <;> omega

theorem snapshotChunks_length (bytes : Bytes) :
    (snapshotChunks bytes).length = divCeil bytes.length maxSnapshotChunkBytes := by
  fun_induction snapshotChunks bytes with
  | case1 => rfl
  | case2 b rest ih =>
      rw [List.length_cons,ih,List.length_drop]
      exact (divCeil_cut (Nat.succ_pos _)).symm

/-- The announced number of chunks, with its case for the empty buffer, is the real one. -/
theorem totalChunks_eq (bytes : Bytes) :
    (if bytes.isEmpty then 0 else UInt64.ofNat (divCeil bytes.length maxSnapshotChunkBytes)) =
      UInt64.ofNat (snapshotChunks bytes).length := by
  rw [snapshotChunks_length]
  cases bytes with
  | nil => rfl
  | cons b rest => rfl

/-- There are no more chunks than bytes. -/
theorem snapshotChunks_length_le (bytes : Bytes) : (snapshotChunks bytes).length ≤ bytes.length := by
  fun_induction snapshotChunks bytes with
  | case1 => exact le_rfl
  | case2 b rest ih =>
      have hcut : ((b::rest).drop maxSnapshotChunkBytes).length ≤ rest.length := by
        rw [List.length_drop,List.length_cons,maxSnapshotChunkBytes]
        omega
      exact Nat.succ_le_succ (ih.trans hcut)

end Chunks

section Transfer
variable {sha3 : Bytes → Hash} {s : State}

def accepted (snapshotId : String) (count : ℕ) : Outcome :=
  .answered (.ok (.accepted snapshotId (UInt64.ofNat count)))

/-- What the transfer needs of the file tree: the staging directory can be created, the
installed path lies in a directory, and neither file is a directory. -/
structure Ready (sha3 : Bytes → Hash) (s : State) (snapshotId : String) (files : Files) : Prop where
  root : s.files [] = some .dir
  created : createDirAll s.files s.stagingDir = .ok files
  staged : files (stagedPath sha3 s.stagingDir snapshotId) ≠ some .dir
  target : files s.installedPath ≠ some .dir
  parent : DirTo files s.installedPath.dropLast

theorem removeIfExists_below {files : Files} {path : Path} (h : files path ≠ some .dir)
    (hparent : DirTo files path.dropLast) : removeIfExists files path = .ok (set files path none) := by
  unfold removeIfExists removeFile
  cases hnode : files path with
  | none =>
      dsimp only
      rw [missing_below hparent]
      dsimp only
      rw [set_self hnode]
  | some node =>
      cases node with
      | dir => exact (h hnode).elim
      | file bytes => rfl

/-- The receiver with one session and the bytes in its staging file. -/
def staging (s : State) (active : ActiveSnapshot) (bytes : Bytes) : State :=
  { s with active := some active, files := set s.files active.stagedPath (some (.file bytes)) }

theorem receiveInit_ready {init : SnapshotInit} {files : Files} (hidle : s.active = none)
    (h : Ready sha3 s init.snapshotId files) :
    ∃ first, first.stagedPath = stagedPath sha3 s.stagingDir init.snapshotId ∧
      receiveInit sha3 s init =
        (.ok (.accepted init.snapshotId 0),staging { s with files := files } first []) ∧
      Staged sha3 (staging { s with files := files } first []) first ⟨init,[]⟩ := by
  have hdir : DirTo files (stagedPath sha3 s.stagingDir init.snapshotId).dropLast := by
    rw [stagedPath,List.dropLast_concat]
    exact createDirAll_dirTo h.created h.root
  have hremoved := removeIfExists_below h.staged hdir
  have hopened := createNew_absent (set_same none) (hdir.set h.staged none).self
  rw [set_set] at hopened
  refine ⟨⟨init,0,0,stagedPath sha3 s.stagingDir init.snapshotId⟩,rfl,?_,
    ⟨rfl,rfl,content_set_file [],rfl,rfl,fun _ h => (List.not_mem_nil h).elim,Nat.zero_le _⟩⟩
  rw [receiveInit,hidle]
  dsimp only
  rw [h.created]
  dsimp only
  rw [hremoved]
  dsimp only
  rw [hopened]
  rfl

theorem staging_staging (s : State) {active next : ActiveSnapshot} (bytes more : Bytes)
    (h : next.stagedPath = active.stagedPath) :
    staging (staging s active bytes) next more = staging s next more := by
  unfold staging
  dsimp only
  rw [h,set_set]

theorem staging_self {active : ActiveSnapshot} {bytes : Bytes} (hactive : s.active = some active)
    (h : content s.files active.stagedPath = some bytes) : staging s active bytes = s := by
  unfold staging
  rw [set_self (file_of_content h),← hactive]

/-- A chunk in its turn and within the announced totals passes the checks. -/
theorem checkChunk_accepts {active : ActiveSnapshot} {init : SnapshotInit} {payloads : List Bytes}
    (h : Staged sha3 s active ⟨init,payloads⟩) {payload : Bytes}
    (hcount : payloads.length < init.totalChunks.toNat)
    (hsize : payload.length ≤ maxSnapshotChunkBytes)
    (htotal : payloads.flatten.length+payload.length ≤ init.totalBytes.toNat) :
    checkChunk active ⟨init.snapshotId,UInt64.ofNat payloads.length,payload⟩ =
      .ok (active.bytesReceived+UInt64.ofNat payload.length) := by
  have hinit : active.init = init := h.init
  have hindex : active.nextChunkIdx = UInt64.ofNat payloads.length := by
    rw [← h.count,UInt64.ofNat_toNat]
  have hunder : ¬active.nextChunkIdx ≥ active.init.totalChunks := by
    rw [hinit,ge_iff_le,UInt64.le_iff_toNat_le,h.count]
    exact not_le.mpr hcount
  have hbelow : ¬active.bytesReceived+UInt64.ofNat payload.length > active.init.totalBytes := by
    rw [hinit,gt_iff_lt,UInt64.lt_iff_toNat_lt,newTotal_toNat h.received hsize h.fits,
      List.length_append]
    exact not_lt.mpr htotal
  unfold checkChunk
  dsimp only
  rw [if_neg (not_not.mpr (by rw [hinit])),if_neg (not_not.mpr hindex.symm),if_neg hunder,
    if_neg (not_lt.mpr hsize),if_neg hbelow]

/-- Such a chunk is acknowledged. -/
theorem receiveChunk_accepts {active : ActiveSnapshot} {init : SnapshotInit} {payloads : List Bytes}
    (hactive : s.active = some active) (h : Staged sha3 s active ⟨init,payloads⟩) {payload : Bytes}
    (hcount : payloads.length < init.totalChunks.toNat)
    (hsize : payload.length ≤ maxSnapshotChunkBytes)
    (htotal : payloads.flatten.length+payload.length ≤ init.totalBytes.toNat)
    (hroom : init.totalBytes.toNat ≤ maxFileBytes) :
    ∃ next, next.stagedPath = active.stagedPath ∧
      receiveChunk s ⟨init.snapshotId,UInt64.ofNat payloads.length,payload⟩ =
        (.ok (.accepted init.snapshotId (UInt64.ofNat (payloads.length+1))),
          staging s next (payloads.flatten++payload)) ∧
      Staged sha3 (staging s next (payloads.flatten++payload)) next ⟨init,payloads++[payload]⟩ := by
  have hchecked := checkChunk_accepts h hcount hsize htotal
  have hwritten := writeAll_file (file_of_content h.staged) (htotal.trans hroom)
  refine ⟨{ active with
    bytesReceived := active.bytesReceived+UInt64.ofNat payload.length
    nextChunkIdx := active.nextChunkIdx+1 },rfl,?_,chunk_staged h hchecked hwritten⟩
  have hinit : active.init = init := h.init
  have hnext : active.nextChunkIdx+1 = UInt64.ofNat (payloads.length+1) := by
    have hindex : active.nextChunkIdx = UInt64.ofNat payloads.length := by
      rw [← h.count,UInt64.ofNat_toNat]
    rw [hindex,UInt64.ofNat_add]
    rfl
  rw [receiveChunk,hactive]
  dsimp only
  rw [hchecked]
  dsimp only
  rw [hwritten]
  dsimp only
  rw [hinit,hnext]
  rfl

/-- One answered frame in front of a run. -/
theorem run_frame (frame : SnapshotFrame) {answer : Answer SnapshotAck} {next : State}
    (h : receive sha3 s frame = (answer,next)) (events : List Event) :
    run sha3 s (.frame frame::events) =
      ((.frame frame,.answered answer)::(run sha3 next events).1,(run sha3 next events).2) := by
  rw [run,step,h]

/-- The acknowledged counts, the first one apart. -/
theorem accepted_range (snapshotId : String) (start n : ℕ) :
    (List.range (n+1)).map (fun k => accepted snapshotId (start+k)) =
      accepted snapshotId start::
        (List.range n).map (fun k => accepted snapshotId (start+1+k)) := by
  rw [List.range_succ_eq_map,List.map_cons,List.map_map]
  congr 1
  apply List.map_congr_left
  intro k _
  rw [Function.comp_apply,Nat.succ_eq_add_one,Nat.add_assoc,Nat.add_comm k]

/-- Chunks within the announced totals, after those already received, by induction on them:
each is acknowledged with the count so far, and the staging file grows to their
concatenation. -/
theorem chunks_received {init : SnapshotInit} {chunks : List Bytes} {active : ActiveSnapshot}
    {payloads : List Bytes} (hactive : s.active = some active)
    (h : Staged sha3 s active ⟨init,payloads⟩)
    (hsmall : ∀ payload ∈ chunks, payload.length ≤ maxSnapshotChunkBytes)
    (hcount : payloads.length+chunks.length ≤ init.totalChunks.toNat)
    (htotal : payloads.flatten.length+chunks.flatten.length ≤ init.totalBytes.toNat)
    (hroom : init.totalBytes.toNat ≤ maxFileBytes) :
    ∃ last, last.stagedPath = active.stagedPath ∧
      (run sha3 s ((chunkFrames init.snapshotId payloads.length chunks).map .frame)).1.map Prod.snd =
        (List.range chunks.length).map (fun k => accepted init.snapshotId (payloads.length+1+k)) ∧
      (run sha3 s ((chunkFrames init.snapshotId payloads.length chunks).map .frame)).2 =
        staging s last (payloads++chunks).flatten ∧
      Staged sha3 (staging s last (payloads++chunks).flatten) last ⟨init,payloads++chunks⟩ := by
  induction chunks generalizing s active payloads with
  | nil =>
      have hsame := staging_self hactive h.staged
      rw [List.append_nil]
      exact ⟨active,rfl,rfl,hsame.symm,hsame.symm ▸ h⟩
  | cons payload rest ih =>
      rw [List.length_cons] at hcount
      rw [List.flatten_cons,List.length_append] at htotal
      obtain ⟨next,hpath,hreceived,hstaged⟩ := receiveChunk_accepts hactive h
        (by omega) (hsmall payload List.mem_cons_self) (by omega) hroom
      have hflat : (payloads++[payload]).flatten = payloads.flatten++payload := by
        rw [List.flatten_append,List.flatten_singleton]
      have hlength : (payloads++[payload]).length = payloads.length+1 := by
        rw [List.length_append,List.length_singleton]
      obtain ⟨last,hlast,hacks,hrun,hfinal⟩ := ih rfl hstaged
        (fun p hp => hsmall p (List.mem_cons_of_mem _ hp)) (by rw [hlength]; omega)
        (by rw [hflat,List.length_append]; omega)
      have hsplit : payloads++payload::rest = (payloads++[payload])++rest := by
        rw [List.append_assoc]
        rfl
      rw [hlength] at hacks hrun
      rw [staging_staging s _ _ hlast] at hrun hfinal
      refine ⟨last,hlast.trans hpath,?_,?_,?_⟩
      · rw [chunkFrames,List.map_cons,run_frame (.chunk _) hreceived,List.map_cons,hacks,
          List.length_cons,accepted_range]
        rfl
      · rw [chunkFrames,List.map_cons,run_frame (.chunk _) hreceived,hrun,hsplit]
      · rw [hsplit]
        exact hfinal

theorem receiveFinalize_installs {active : ActiveSnapshot} {init : SnapshotInit}
    {payloads : List Bytes} (hactive : s.active = some active)
    (h : Staged sha3 s active ⟨init,payloads⟩) (hcount : init.totalChunks.toNat = payloads.length)
    (htotal : init.totalBytes.toNat = payloads.flatten.length)
    (hdigest : init.sha3OfFull = sha3 payloads.flatten) (hne : s.installedPath ≠ active.stagedPath)
    (htarget : s.files s.installedPath ≠ some .dir) (hparent : DirTo s.files s.installedPath.dropLast) :
    receiveFinalize sha3 s ⟨init.snapshotId,init.sha3OfFull⟩ =
      (.ok (.complete init.snapshotId s.installedPath),
        { s with
          active := none
          files := set (set (set s.files s.installedPath none) active.stagedPath none) s.installedPath
            (some (.file payloads.flatten)) }) := by
  have hinit : active.init = init := h.init
  have hchecked : checkFinalize active ⟨init.snapshotId,init.sha3OfFull⟩ = .ok () := by
    have hchunks : active.nextChunkIdx = active.init.totalChunks := by
      rw [hinit,← UInt64.toNat_inj,h.count,hcount]
    have hbytes : active.bytesReceived = active.init.totalBytes := by
      rw [hinit,← UInt64.toNat_inj,h.received,htotal]
    unfold checkFinalize
    rw [if_neg (not_not.mpr (by rw [hinit])),if_neg (not_not.mpr hchunks),
      if_neg (not_not.mpr hbytes),if_neg (not_not.mpr (by rw [hinit]))]
  have hhashed : sha3File sha3 s.files active.stagedPath = .ok init.sha3OfFull := by
    rw [sha3File,readFile_content.mpr h.staged,hdigest]
    exact congrArg (fun bytes => Except.ok (sha3 bytes)) (absorb_eq [] _)
  have hremoved := removeIfExists_below htarget hparent
  have hsource : set s.files s.installedPath none active.stagedPath =
      some (.file payloads.flatten) := by
    rw [set_ne _ hne.symm]
    exact file_of_content h.staged
  have hrenamed := renameFile_absent hsource hne.symm (set_same none) (hparent.set htarget none).self
  rw [receiveFinalize,hactive]
  dsimp only
  rw [hchecked]
  dsimp only
  rw [hhashed]
  dsimp only
  rw [if_neg (not_not.mpr rfl),install]
  dsimp only
  rw [hremoved]
  dsimp only
  rw [hrenamed,hinit]

/-- A receiver whose staging file holds all announced bytes installs them. -/
theorem staging_installs {init : SnapshotInit} {files : Files} {chunks : List Bytes}
    {last : ActiveSnapshot} (hready : Ready sha3 s init.snapshotId files)
    (hne : s.installedPath ≠ stagedPath sha3 s.stagingDir init.snapshotId)
    (hplace : last.stagedPath = stagedPath sha3 s.stagingDir init.snapshotId)
    (h : Staged sha3 (staging { s with files := files } last chunks.flatten) last ⟨init,chunks⟩)
    (hcount : init.totalChunks.toNat = chunks.length)
    (htotal : init.totalBytes.toNat = chunks.flatten.length)
    (hdigest : init.sha3OfFull = sha3 chunks.flatten) :
    ∃ s', receive sha3 (staging { s with files := files } last chunks.flatten)
        (.finalize ⟨init.snapshotId,init.sha3OfFull⟩) =
        (.ok (.complete init.snapshotId s.installedPath),s') ∧
      content s'.files s.installedPath = some chunks.flatten ∧ s'.active = none := by
  have hne' : s.installedPath ≠ last.stagedPath := by
    rw [hplace]
    exact hne
  have hnode : files last.stagedPath ≠ some .dir := by
    rw [hplace]
    exact hready.staged
  have htarget : set files last.stagedPath (some (.file chunks.flatten)) s.installedPath ≠
      some .dir := by
    rw [set_ne _ hne']
    exact hready.target
  have hinstalled := receiveFinalize_installs rfl h hcount htotal hdigest hne' htarget
    (hready.parent.set hnode _)
  exact ⟨_,hinstalled,content_set_file _,rfl⟩

/-- The three parts of a session announced with the totals of its chunks: the initial
frame opens it, the chunks are staged, and the final frame installs them. -/
theorem session_parts {init : SnapshotInit} {files : Files} {chunks : List Bytes}
    (hidle : s.active = none) (hready : Ready sha3 s init.snapshotId files)
    (hne : s.installedPath ≠ stagedPath sha3 s.stagingDir init.snapshotId)
    (hsmall : ∀ payload ∈ chunks, payload.length ≤ maxSnapshotChunkBytes)
    (hcount : init.totalChunks.toNat = chunks.length)
    (htotal : init.totalBytes.toNat = chunks.flatten.length)
    (hroom : init.totalBytes.toNat ≤ maxFileBytes)
    (hdigest : init.sha3OfFull = sha3 chunks.flatten) :
    ∃ opened first staged s',
      receive sha3 s (.init init) = (.ok (.accepted init.snapshotId 0),opened) ∧
      opened.active = some first ∧ Staged sha3 opened first ⟨init,[]⟩ ∧
      (run sha3 opened ((chunkFrames init.snapshotId 0 chunks).map .frame)).1.map Prod.snd =
        (List.range chunks.length).map (fun k => accepted init.snapshotId (0+1+k)) ∧
      (run sha3 opened ((chunkFrames init.snapshotId 0 chunks).map .frame)).2 = staged ∧
      receive sha3 staged (.finalize ⟨init.snapshotId,init.sha3OfFull⟩) =
        (.ok (.complete init.snapshotId s.installedPath),s') ∧
      content s'.files s.installedPath = some chunks.flatten ∧ s'.active = none := by
  obtain ⟨first,hplace,hopened,hstaged⟩ := receiveInit_ready hidle hready
  obtain ⟨last,hpath,hacks,hrun,hfinal⟩ := chunks_received rfl hstaged hsmall
    (by rw [hcount,List.length_nil,Nat.zero_add])
    (by rw [htotal,List.flatten_nil,List.length_nil,Nat.zero_add]) hroom
  rw [List.nil_append,staging_staging _ _ _ hpath] at hrun hfinal
  rw [List.length_nil] at hacks hrun
  obtain ⟨s',hinstalled,hcontent,hended⟩ :=
    staging_installs hready hne (hpath.trans hplace) hfinal hcount htotal hdigest
  exact ⟨_,first,_,s',hopened,rfl,hstaged,hacks,hrun,hinstalled,hcontent,hended⟩

/-- Such a session runs to its end. -/
theorem session_completes {init : SnapshotInit} {files : Files} {chunks : List Bytes}
    (hidle : s.active = none) (hready : Ready sha3 s init.snapshotId files)
    (hne : s.installedPath ≠ stagedPath sha3 s.stagingDir init.snapshotId)
    (hsmall : ∀ payload ∈ chunks, payload.length ≤ maxSnapshotChunkBytes)
    (hcount : init.totalChunks.toNat = chunks.length)
    (htotal : init.totalBytes.toNat = chunks.flatten.length)
    (hroom : init.totalBytes.toNat ≤ maxFileBytes)
    (hdigest : init.sha3OfFull = sha3 chunks.flatten) :
    ∃ s',
      (run sha3 s ((.init init::(chunkFrames init.snapshotId 0 chunks++
          [.finalize ⟨init.snapshotId,init.sha3OfFull⟩])).map .frame)).1.map Prod.snd =
        (List.range (chunks.length+1)).map (accepted init.snapshotId)++
          [.answered (.ok (.complete init.snapshotId s.installedPath))] ∧
      (run sha3 s ((.init init::(chunkFrames init.snapshotId 0 chunks++
        [.finalize ⟨init.snapshotId,init.sha3OfFull⟩])).map .frame)).2 = s' ∧
      content s'.files s.installedPath = some chunks.flatten ∧ s'.active = none := by
  obtain ⟨opened,_,staged,s',hopened,-,-,hacks,hrun,hinstalled,hcontent,hactive⟩ :=
    session_parts hidle hready hne hsmall hcount htotal hroom hdigest
  rw [List.map_cons,run_frame _ hopened,List.map_append,run_append,hrun,List.map_singleton,
    run_frame _ hinstalled]
  refine ⟨s',?_,rfl,hcontent,hactive⟩
  have hcounts := accepted_range init.snapshotId 0 chunks.length
  simp only [Nat.zero_add] at hcounts hacks
  rw [List.map_cons,List.map_append,hacks,hcounts]
  rfl

/-- What the sender announces. -/
def announced (sha3 : Bytes → Hash) (snapshotId : String) (bytes : Bytes) : SnapshotInit where
  snapshotId := snapshotId
  totalChunks := UInt64.ofNat (snapshotChunks bytes).length
  totalBytes := UInt64.ofNat bytes.length
  sha3OfFull := sha3 bytes

theorem announced_id (sha3 : Bytes → Hash) (snapshotId : String) (bytes : Bytes) :
    (announced sha3 snapshotId bytes).snapshotId = snapshotId := rfl

theorem chunkSnapshotBytes_eq (sha3 : Bytes → Hash) (snapshotId : String) (bytes : Bytes) :
    chunkSnapshotBytes sha3 snapshotId bytes =
      .init (announced sha3 snapshotId bytes)::
        (chunkFrames snapshotId 0 (snapshotChunks bytes)++[.finalize ⟨snapshotId,sha3 bytes⟩]) := by
  unfold chunkSnapshotBytes
  dsimp only
  rw [totalChunks_eq]
  rfl

/-- The announced totals are exact, since neither number reaches `2^64`. -/
theorem announced_totals (sha3 : Bytes → Hash) (snapshotId : String) {bytes : Bytes}
    (hlength : bytes.length < 2^63) :
    (announced sha3 snapshotId bytes).totalChunks.toNat = (snapshotChunks bytes).length ∧
      (announced sha3 snapshotId bytes).totalBytes.toNat = (snapshotChunks bytes).flatten.length ∧
      (announced sha3 snapshotId bytes).totalBytes.toNat ≤ maxFileBytes := by
  have hexact : ∀ n, n ≤ bytes.length → (UInt64.ofNat n).toNat = n := by
    intro n hn
    rw [UInt64.toNat_ofNat']
    omega
  have hbytes := hexact bytes.length le_rfl
  refine ⟨hexact _ (snapshotChunks_length_le bytes),?_,?_⟩
  · rw [snapshotChunks_flatten]
    exact hbytes
  · rw [announced,hbytes,maxFileBytes]
    omega

/-- For every id and every buffer the frames of the sender, fed to an idle receiver whose
installed path is not the staging file, are acknowledged with the number of chunks so far,
and the buffer ends up installed. -/
theorem transfer_round_trip {snapshotId : String} {files : Files} (hidle : s.active = none)
    (hready : Ready sha3 s snapshotId files)
    (hne : s.installedPath ≠ stagedPath sha3 s.stagingDir snapshotId) (bytes : Bytes)
    (hlength : bytes.length < 2^63) :
    ∃ s',
      (run sha3 s ((chunkSnapshotBytes sha3 snapshotId bytes).map .frame)).1.map Prod.snd =
        (List.range ((snapshotChunks bytes).length+1)).map (accepted snapshotId)++
          [.answered (.ok (.complete snapshotId s.installedPath))] ∧
      (run sha3 s ((chunkSnapshotBytes sha3 snapshotId bytes).map .frame)).2 = s' ∧
      content s'.files s.installedPath = some bytes ∧ s'.active = none := by
  obtain ⟨hcount,htotal,hroom⟩ := announced_totals sha3 snapshotId hlength
  have hflat := snapshotChunks_flatten bytes
  have hsession := @session_completes sha3 s (announced sha3 snapshotId bytes) files
    (snapshotChunks bytes) hidle hready hne (snapshotChunks_small bytes) hcount htotal hroom
    (congrArg sha3 hflat.symm)
  rw [hflat] at hsession
  rw [chunkSnapshotBytes_eq]
  exact hsession

end Transfer

section Sample

/-- The sample receiver and its directories once the staging directory exists. -/
theorem sample_ready :
    Ready sampleDigest sampleReceiver "s1" (set sampleFiles ["data","staging"] (some .dir)) := by
  refine ⟨rfl,rfl,by decide +kernel,by decide,?_⟩
  intro p hp
  have hcases : p = [] ∨ p = ["data"] := by
    have hmem := (List.mem_inits p ["data"]).mpr hp
    simpa using hmem
  rcases hcases with rfl | rfl <;> rfl

theorem sample_round_trip :
    ∃ s',
      (run sampleDigest sampleReceiver
          ((chunkSnapshotBytes sampleDigest "s1" [1,2,3]).map .frame)).1.map Prod.snd =
        (List.range ((snapshotChunks [1,2,3]).length+1)).map (accepted "s1")++
          [.answered (.ok (.complete "s1" ["data","installed"]))] ∧
      (run sampleDigest sampleReceiver
        ((chunkSnapshotBytes sampleDigest "s1" [1,2,3]).map .frame)).2 = s' ∧
      content s'.files ["data","installed"] = some [1,2,3] ∧ s'.active = none :=
  transfer_round_trip rfl sample_ready (by decide +kernel) [1,2,3] (by decide)

/-- A receiver which installs to the staging file of the id. -/
def selfReceiver : State := ⟨["data"],stagedPath sampleDigest ["data"] "s1",none,sampleFiles⟩

/-- The last frame removes the staging file as the old snapshot and cannot move it. -/
theorem self_installation_fails :
    (run sampleDigest selfReceiver
        ((chunkSnapshotBytes sampleDigest "s1" [1,2,3]).map .frame)).1.map Prod.snd =
      [accepted "s1" 0,accepted "s1" 1,.answered (.error (.io .notFound))] := by
  decide +kernel

end Sample

end OmegaHarness.SnapshotTransfer
