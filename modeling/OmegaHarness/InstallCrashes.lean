import OmegaHarness.FaultyReceiver

/-!
# The installed snapshot under faults

A final frame removes the installed snapshot before it moves the new one into its place. If
the rename then fails, or the process ends between the two calls, neither snapshot is
installed. A frame of any kind loses the old snapshot in exactly such cases: the removal took
place and the rename did not, or the staging file is the installed path itself and the frame
removed, emptied or extended it.
-/
namespace OmegaHarness.InstallCrashes
open DomainHashes FileTree FaultyFiles SnapshotReceiver FaultyReceiver

/-- The frame was answered with `Complete`, or the rename took place, or the old snapshot is
still installed. -/
def Preserves (sha3 : Bytes → Hash) (s : State) (frame : SnapshotFrame) (fates : ℕ → Fate)
    (old : Bytes) : Prop :=
  (∃ snapshotId path, (attempt sha3 s frame fates).reply =
      .answered (.ok (.complete snapshotId path))) ∨
    (attempt sha3 s frame fates).moves ≠ [] ∨
    content (attempt sha3 s frame fates).state.files s.installedPath = some old

/-- The frames and faults which lose the installed snapshot. The removal before a rename
is the last case. In the others the staging file is the installed path. -/
inductive Loses (sha3 : Bytes → Hash) (s : State) (fates : ℕ → Fate) (old : Bytes) :
    SnapshotFrame → Prop where
  | reopened {init : SnapshotInit} {files : Files} (hidle : s.active = none)
      (hpath : stagedPath sha3 s.stagingDir init.snapshotId = s.installedPath)
      (hcreated : createDirAll s.files s.stagingDir = .ok files) (hmade : fates 0 = .works)
      (hremoved : (fates 1).effective)
      (hlost : ¬(old = [] ∧ (fates 1).passes .notFound ∧ (fates 2).effective ∧
        (createNew (set files s.installedPath none) s.installedPath).isOk)) :
      Loses sha3 s fates old (.init init)
  | extended {chunk : SnapshotChunk} {active : ActiveSnapshot} {newTotal : UInt64}
      (hactive : s.active = some active) (hpath : active.stagedPath = s.installedPath)
      (hchecked : checkChunk active chunk = .ok newTotal)
      (hwritten : ((fates 0).portion chunk.payload).take (maxFileBytes-old.length) ≠ []) :
      Loses sha3 s fates old (.chunk chunk)
  | refused {finalize : SnapshotFinalize} {active : ActiveSnapshot} {e : SnapshotProtocolError}
      (hactive : s.active = some active) (hpath : active.stagedPath = s.installedPath)
      (hchecked : checkFinalize active finalize = .error e) (hremoved : (fates 0).effective) :
      Loses sha3 s fates old (.finalize finalize)
  | mismatched {finalize : SnapshotFinalize} {active : ActiveSnapshot} {staged : Bytes}
      (hactive : s.active = some active) (hpath : active.stagedPath = s.installedPath)
      (hchecked : checkFinalize active finalize = .ok ()) (hsynced : fates 0 = .works)
      (hread : fates 1 = .works) (hstaged : content s.files active.stagedPath = some staged)
      (hdigest : sha3 staged ≠ finalize.sha3OfFull) (hremoved : (fates 2).effective) :
      Loses sha3 s fates old (.finalize finalize)
  | uninstalled {finalize : SnapshotFinalize} {active : ActiveSnapshot} {staged : Bytes}
      (hactive : s.active = some active)
      (hchecked : checkFinalize active finalize = .ok ()) (hsynced : fates 0 = .works)
      (hread : fates 1 = .works) (hstaged : content s.files active.stagedPath = some staged)
      (hdigest : sha3 staged = finalize.sha3OfFull) (hremoved : (fates 2).effective)
      (hlost : ¬((fates 2).passes .notFound ∧ (fates 3).effective ∧
        (renameFile (set s.files s.installedPath none) active.stagedPath s.installedPath).isOk)) :
      Loses sha3 s fates old (.finalize finalize)

section Outcome
variable {sha3 : Bytes → Hash} {s : State} {frame : SnapshotFrame}

theorem conclude_disk
    (result : Result SnapshotReceiveError (SnapshotAck × Option ActiveSnapshot) × Disk) :
    (conclude s frame result).state.files = result.2.files ∧
      (conclude s frame result).moves = result.2.moves := by
  obtain ⟨result,d⟩ := result
  cases result with
  | done pair => exact ⟨rfl,rfl⟩
  | failed e => exact ⟨rfl,rfl⟩
  | crashed => exact ⟨rfl,rfl⟩

theorem conclude_complete {snapshotId : String} {path : Path}
    {result : Result SnapshotReceiveError (SnapshotAck × Option ActiveSnapshot) × Disk}
    (h : (conclude s frame result).reply = .answered (.ok (.complete snapshotId path))) :
    ∃ active, result.1 = .done (.complete snapshotId path,active) := by
  obtain ⟨result,d⟩ := result
  cases result with
  | done pair =>
      obtain ⟨ack,active⟩ := pair
      cases h
      exact ⟨active,rfl⟩
  | failed e => cases h
  | crashed => cases h

end Outcome

section Calls
variable {B : Type} {obs : Disk → B}

theorem keeps_removeIfExistsCalls {path : Path} (h : Keeps obs (unlink path)) :
    Keeps obs (io (removeIfExistsCalls path)) :=
  keeps_mapError (keeps_bind (keeps_tolerate h) fun _ => keeps_pure _)

theorem keeps_syncParentDirCalls {path : Path} (hopen : Keeps obs (openExisting path.dropLast))
    (hsync : Keeps obs syncAll) : Keeps obs (io (syncParentDirCalls path)) := by
  apply keeps_mapError
  unfold syncParentDirCalls
  split
  · exact keeps_pure _
  · refine keeps_bind (keeps_tolerate hopen) fun found => ?_
    cases found with
    | false => exact keeps_pure _
    | true => exact hsync

/-- The disk after the removal of a file, as far as its fate lets it. -/
def removal (d : Disk) (path : Path) : Disk :=
  d.next (if (d.fates 0).effective then set d.files path none else d.files)

theorem removal_run {d : Disk} {path : Path} {old : Bytes} (h : content d.files path = some old) :
    (removeIfExistsCalls path).run d =
      if (d.fates 0).passes .notFound then (.done (),removal d path)
      else ((d.fates 0).answer (.error .notFound),removal d path) := by
  have hremoved : removeFile d.files path = .ok (set d.files path none) := by
    rw [removeFile,file_of_content h]
  exact @tolerate_atomic_bind _ (fun files => removeFile files path) d _ hremoved _ _

/-- What comes after the removal of a file happens if the fate of the removal lets it. -/
theorem removal_bind {A : Type} {d : Disk} {path : Path} {old : Bytes}
    (h : content d.files path = some old) (k : Sys SnapshotReceiveError A) :
    ((io (removeIfExistsCalls path) >>= fun _ => k).run d).2 =
      if (d.fates 0).passes .notFound then (k.run (removal d path)).2 else removal d path := by
  rw [bind_run,io,mapError_run,removal_run h]
  cases d.fates 0 with
  | works => rfl
  | fails e done =>
      by_cases he : e = .notFound
      · simp [Fate.passes,he]
      · simp [Fate.passes,he,Fate.answer]
  | crashes done => rfl

theorem seen_removal {d : Disk} {path : Path} {old : Bytes} (h : content d.files path = some old) :
    seen path (removal d path) = if (d.fates 0).effective then none else some old := by
  rw [seen,removal,Disk.next_files]
  split
  · rw [content,set_same]
  · exact h

/-- A session which ends takes the file at its staging path with it. -/
theorem seen_endSessionCalls {d : Disk} {path : Path} {old : Bytes}
    (h : content d.files path = some old) (e : SnapshotProtocolError) :
    seen path ((endSessionCalls path e).run d).2 =
      if (d.fates 0).effective then none else some old := by
  rw [endSessionCalls,removal_bind h,fail,ite_self,seen_removal h]

end Calls

section Install
variable {d : Disk} {target : Path} {old : Bytes} {active : ActiveSnapshot}

/-- Behind the rename nothing changes any more. -/
theorem installCalls_disk {B : Type} {obs : Disk → B}
    (hlook : ∀ (A : Type) (natural : Files → Except IoError A), Keeps obs (look natural))
    (h : content d.files target = some old) :
    obs ((installCalls target active).run d).2 =
      obs (if (d.fates 0).passes .notFound then
        ((rename active.stagedPath target).run (removal d target)).2 else removal d target) := by
  rw [installCalls,removal_bind h]
  split
  · refine (keeps_after (fun _ => ?_) _).trans ?_
    · exact keeps_bind (keeps_syncParentDirCalls (hlook _ _) (hlook _ _)) fun _ => keeps_pure _
    · rw [io,mapError_disk]
  · rfl

/-- With the old snapshot removed, only a rename which takes place is left. -/
theorem rename_after_removal (hremoved : (d.fates 0).effective = true) (hmoves : d.moves = []) :
    ((rename active.stagedPath target).run (removal d target)).2.moves ≠ [] ∨
        seen target ((rename active.stagedPath target).run (removal d target)).2 = some old ↔
      (d.fates 1).effective ∧
        (renameFile (set d.files target none) active.stagedPath target).isOk := by
  have hfiles : (removal d target).files = set d.files target none := if_pos hremoved
  have hgone : content (set d.files target none) target = none := by rw [content,set_same]
  cases hrenamed : renameFile (set d.files target none) active.stagedPath target with
  | ok after =>
      rw [← hfiles] at hrenamed
      obtain ⟨hafter,hrecord⟩ := rename_ok_disk hrenamed
      rw [hrecord,seen,hafter,hfiles,removal,Disk.next_fates,Disk.next_moves,hmoves]
      by_cases hmoved : (d.fates 1).effective = true
      · simp [hmoved,Except.isOk,Except.toBool]
      · simp [hmoved,hgone]
  | error e =>
      rw [← hfiles] at hrenamed
      obtain ⟨hafter,hrecord⟩ := rename_error_disk hrenamed
      rw [hrecord,seen,hafter,hfiles,hgone,removal,Disk.next_moves,hmoves]
      simp [Except.isOk,Except.toBool]

/-- With the old snapshot in place, a rename replaces it or leaves it. -/
theorem rename_without_removal (hkept : ¬(d.fates 0).effective = true)
    (h : content d.files target = some old) :
    ((rename active.stagedPath target).run (removal d target)).2.moves ≠ [] ∨
      seen target ((rename active.stagedPath target).run (removal d target)).2 = some old := by
  have hfiles : (removal d target).files = d.files := if_neg hkept
  cases hrenamed : renameFile (removal d target).files active.stagedPath target with
  | ok after =>
      obtain ⟨hafter,hrecord⟩ := rename_ok_disk hrenamed
      rw [hrecord,seen,hafter,hfiles]
      by_cases hmoved : ((removal d target).fates 0).effective = true
      · exact Or.inl (by simp [hmoved])
      · exact Or.inr (by simpa [hmoved] using h)
  | error e =>
      rw [seen,(rename_error_disk hrenamed).1,hfiles]
      exact Or.inr h

/-- The installation loses the old snapshot when its removal takes place and the rename
does not. -/
theorem installCalls_keeps_iff (h : content d.files target = some old) (hmoves : d.moves = []) :
    ((installCalls target active).run d).2.moves ≠ [] ∨
        seen target ((installCalls target active).run d).2 = some old ↔
      ¬((d.fates 0).effective ∧ ¬((d.fates 0).passes .notFound ∧ (d.fates 1).effective ∧
        (renameFile (set d.files target none) active.stagedPath target).isOk)) := by
  rw [installCalls_disk (fun _ => keeps_moves_look) h,
    installCalls_disk (fun _ => keeps_seen_look) h]
  by_cases hpasses : (d.fates 0).passes .notFound = true
  · rw [if_pos hpasses]
    by_cases hremoved : (d.fates 0).effective = true
    · rw [rename_after_removal hremoved hmoves]
      simp [hpasses,hremoved]
    · exact iff_of_true (rename_without_removal hremoved h) fun hlost => hremoved hlost.1
  · rw [if_neg hpasses,seen_removal h,removal,Disk.next_moves,hmoves]
    by_cases hremoved : (d.fates 0).effective = true
    · simp [hpasses,hremoved]
    · simp [hremoved]

end Install

section Reopen
variable {d : Disk} {path : Path} {old : Bytes}

theorem seen_openNew (d : Disk) (path : Path) :
    seen path ((openNew path).run d).2 =
      if (d.fates 0).effective ∧ (createNew d.files path).isOk then some [] else content d.files path := by
  rw [openNew,atomic,call_run,seen,Disk.next_files,settled]
  by_cases heffective : (d.fates 0).effective = true
  · cases hcreated : createNew d.files path with
    | ok after =>
        rw [createNew_ok hcreated,if_pos heffective,if_pos ⟨heffective,rfl⟩]
        exact content_set_file []
    | error e => simp [Except.isOk,Except.toBool]
  · simp [heffective]

/-- A file which is removed and created again is lost, unless it was empty and the second
call came that far. -/
theorem reopen_keeps_iff {A : Type} {k : Sys SnapshotReceiveError A} (hk : Keeps (seen path) k)
    (h : content d.files path = some old) :
    seen path ((io (removeIfExistsCalls path) >>= fun _ => io (openNew path) >>= fun _ => k).run d).2 =
        some old ↔
      ¬((d.fates 0).effective ∧ ¬(old = [] ∧ (d.fates 0).passes .notFound ∧ (d.fates 1).effective ∧
        (createNew (set d.files path none) path).isOk)) := by
  rw [removal_bind h]
  by_cases hpasses : (d.fates 0).passes .notFound = true
  · rw [if_pos hpasses,keeps_after fun _ => hk,io,mapError_disk,seen_openNew]
    by_cases hremoved : (d.fates 0).effective = true
    · have hfiles : (removal d path).files = set d.files path none := if_pos hremoved
      have hgone : content (set d.files path none) path = none := by rw [content,set_same]
      rw [hfiles,hgone,removal,Disk.next_fates]
      by_cases hcreated : (d.fates 1).effective = true ∧ (createNew (set d.files path none) path).isOk
      · rw [if_pos hcreated]
        simp [hpasses,hremoved,hcreated,eq_comm]
      · rw [if_neg hcreated]
        refine iff_of_false (Option.some_ne_none old).symm fun hkept => ?_
        exact hkept ⟨hremoved,fun hall => hcreated hall.2.2⟩
    · have hfiles : (removal d path).files = d.files := if_neg hremoved
      have hexists : createNew d.files path = .error .alreadyExists := by
        rw [createNew,file_of_content h]
      rw [hfiles,hexists,if_neg fun hboth => Bool.false_ne_true hboth.2]
      exact iff_of_true h fun hlost => hremoved hlost.1
  · rw [if_neg hpasses,seen_removal h]
    by_cases hremoved : (d.fates 0).effective = true
    · simp [hpasses,hremoved]
    · simp [hremoved]

end Reopen

section Frames
variable {sha3 : Bytes → Hash} {s : State} {fates : ℕ → Fate} {old : Bytes}

/-- What is left of the property once `Complete` is known to mean a rename. -/
def Kept (target : Path) (old : Bytes) (d : Disk) : Prop := d.moves ≠ [] ∨ seen target d = some old

theorem keeps_moves_receiveInitCalls (init : SnapshotInit) :
    Keeps Disk.moves (receiveInitCalls sha3 s init) := by
  unfold receiveInitCalls
  split
  · exact keeps_fail _
  · refine keeps_bind (keeps_mapError (keeps_moves_mkdirs _)) fun _ => ?_
    refine keeps_bind (keeps_removeIfExistsCalls (keeps_moves_unlink _)) fun _ => ?_
    refine keeps_bind (keeps_mapError (keeps_moves_openNew _)) fun _ => ?_
    exact keeps_bind (keeps_mapError (keeps_moves_look _)) fun _ => keeps_pure _

theorem keeps_moves_receiveChunkCalls (chunk : SnapshotChunk) :
    Keeps Disk.moves (receiveChunkCalls s chunk) := by
  unfold receiveChunkCalls
  split
  · exact keeps_fail _
  split
  · exact keeps_fail _
  refine keeps_bind (keeps_mapError (keeps_moves_write _ _)) fun _ => ?_
  exact keeps_bind (keeps_mapError (keeps_moves_look _)) fun _ => keeps_pure _

theorem keeps_moves_endSessionCalls (path : Path) (e : SnapshotProtocolError) :
    Keeps Disk.moves (endSessionCalls path e) :=
  keeps_bind (keeps_removeIfExistsCalls (keeps_moves_unlink _)) fun _ => keeps_fail _

/-- Without a rename the old snapshot is kept where it can be seen. -/
theorem kept_iff_seen {A : Type} {op : Sys SnapshotReceiveError A} {target : Path}
    (hop : Keeps Disk.moves op) (files : Files) :
    Kept target old (op.run ⟨files,fates,[]⟩).2 ↔
      seen target (op.run ⟨files,fates,[]⟩).2 = some old :=
  or_iff_right (not_not.mpr (hop _))

theorem io_done {A : Type} {op : Sys IoError A} {d d' : Disk} {a : A} :
    (io op).run d = (.done a,d') ↔ op.run d = (.done a,d') :=
  mapError_done

/-- An initial frame whose staging file is somewhere else does not touch the snapshot. -/
theorem init_spares {init : SnapshotInit}
    (hne : s.installedPath ≠ stagedPath sha3 s.stagingDir init.snapshotId) :
    Keeps (seen s.installedPath) (receiveInitCalls sha3 s init) := by
  unfold receiveInitCalls
  split
  · exact keeps_fail _
  · refine keeps_bind (keeps_mapError (keeps_seen_mkdirs _)) fun _ => ?_
    refine keeps_bind (keeps_removeIfExistsCalls (keeps_seen_unlink hne)) fun _ => ?_
    refine keeps_bind (keeps_mapError (keeps_seen_openNew hne)) fun _ => ?_
    exact keeps_bind (keeps_mapError (keeps_seen_look _)) fun _ => keeps_pure _

/-- Without the staging directory the handler stops before it removes anything. -/
theorem init_stops {init : SnapshotInit} (h : content s.files s.installedPath = some old)
    (hstops : ¬(fates 0 = .works ∧ ∃ files, createDirAll s.files s.stagingDir = .ok files)) :
    seen s.installedPath ((receiveInitCalls sha3 s init).run ⟨s.files,fates,[]⟩).2 = some old := by
  unfold receiveInitCalls
  split
  · exact h
  · rw [bind_stopped]
    · rw [io,mapError_disk]
      exact (keeps_seen_mkdirs s.stagingDir ⟨s.files,fates,[]⟩).trans h
    · intro u hdone
      exact hstops (mkdirs_done (io_done.mp (Prod.ext hdone rfl)))

/-- With it, the installed path is removed and created again. -/
theorem init_reopens {init : SnapshotInit} {files : Files}
    (h : content s.files s.installedPath = some old) (hidle : s.active = none)
    (hpath : stagedPath sha3 s.stagingDir init.snapshotId = s.installedPath)
    (hworks : fates 0 = .works) (hcreated : createDirAll s.files s.stagingDir = .ok files) :
    seen s.installedPath ((receiveInitCalls sha3 s init).run ⟨s.files,fates,[]⟩).2 = some old ↔
      ¬((fates 1).effective ∧ ¬(old = [] ∧ (fates 1).passes .notFound ∧ (fates 2).effective ∧
        (createNew (set files s.installedPath none) s.installedPath).isOk)) := by
  have hmade : (io (mkdirs s.stagingDir)).run ⟨s.files,fates,[]⟩ =
      (.done (),Disk.next ⟨s.files,fates,[]⟩ files) :=
    io_done.mpr (mkdirs_works hworks hcreated)
  have hthere : content files s.installedPath = some old := (content_createDirAll hcreated).trans h
  rw [receiveInitCalls,hidle]
  dsimp only
  rw [hpath,bind_run,hmade]
  exact reopen_keeps_iff (keeps_bind (keeps_mapError (keeps_seen_look _)) fun _ => keeps_pure _) hthere

theorem init_kept_iff (h : content s.files s.installedPath = some old) (init : SnapshotInit) :
    Kept s.installedPath old ((receiveInitCalls sha3 s init).run ⟨s.files,fates,[]⟩).2 ↔
      ¬Loses sha3 s fates old (.init init) := by
  rw [kept_iff_seen (keeps_moves_receiveInitCalls init)]
  by_cases hmade : s.active = none ∧ stagedPath sha3 s.stagingDir init.snapshotId = s.installedPath ∧
      fates 0 = .works ∧ ∃ files, createDirAll s.files s.stagingDir = .ok files
  · obtain ⟨hidle,hpath,hworks,files,hcreated⟩ := hmade
    rw [init_reopens h hidle hpath hworks hcreated]
    apply not_congr
    constructor
    · intro hlost
      exact .reopened hidle hpath hcreated hworks hlost.1 hlost.2
    · intro hloses
      cases hloses with
      | reopened _ _ hcreated' _ hremoved hlost =>
          cases hcreated.symm.trans hcreated'
          exact ⟨hremoved,hlost⟩
  · have hkept : ¬Loses sha3 s fates old (.init init) := by
      intro hloses
      cases hloses with
      | reopened hidle hpath hcreated hworks => exact hmade ⟨hidle,hpath,hworks,_,hcreated⟩
    refine iff_of_true ?_ hkept
    by_cases hidle : s.active = none
    · by_cases hpath : stagedPath sha3 s.stagingDir init.snapshotId = s.installedPath
      · exact init_stops h fun hgoes => hmade ⟨hidle,hpath,hgoes⟩
      · exact (init_spares (Ne.symm hpath) _).trans h
    · obtain ⟨active,hactive⟩ := Option.ne_none_iff_exists'.mp hidle
      rw [receiveInitCalls,hactive]
      exact h

/-- What a write leaves in a file, whatever its fate. -/
theorem seen_write {d : Disk} {path : Path} (h : content d.files path = some old) (bytes : Bytes) :
    seen path ((write path bytes).run d).2 =
      some (old++((d.fates 0).portion bytes).take (maxFileBytes-old.length)) := by
  rw [write,call_run,seen,Disk.next_files,writeAll,file_of_content h]
  dsimp only
  split
  · rename_i hfits
    rw [content_set_file,List.take_of_length_le (by omega)]
  · exact content_set_file _

/-- A chunk which is refused, or whose staging file is somewhere else, does not touch the
snapshot. -/
theorem chunk_spares {chunk : SnapshotChunk}
    (hne : ∀ active newTotal, s.active = some active → checkChunk active chunk = .ok newTotal →
      s.installedPath ≠ active.stagedPath) :
    Keeps (seen s.installedPath) (receiveChunkCalls s chunk) := by
  unfold receiveChunkCalls
  split
  · exact keeps_fail _
  rename_i active hactive
  split
  · exact keeps_fail _
  rename_i newTotal hchecked
  refine keeps_bind (keeps_mapError (keeps_seen_write (hne active newTotal hactive hchecked) _)) fun _ => ?_
  exact keeps_bind (keeps_mapError (keeps_seen_look _)) fun _ => keeps_pure _

theorem chunk_extends {chunk : SnapshotChunk} {active : ActiveSnapshot} {newTotal : UInt64}
    (h : content s.files s.installedPath = some old) (hactive : s.active = some active)
    (hpath : active.stagedPath = s.installedPath) (hchecked : checkChunk active chunk = .ok newTotal) :
    seen s.installedPath ((receiveChunkCalls s chunk).run ⟨s.files,fates,[]⟩).2 =
      some (old++((fates 0).portion chunk.payload).take (maxFileBytes-old.length)) := by
  rw [receiveChunkCalls,hactive]
  dsimp only
  rw [hchecked]
  dsimp only
  rw [hpath]
  refine (keeps_after (fun _ => ?_) _).trans ?_
  · exact keeps_bind (keeps_mapError (keeps_seen_look _)) fun _ => keeps_pure _
  · rw [io,mapError_disk]
    exact @seen_write old ⟨s.files,fates,[]⟩ s.installedPath h chunk.payload

theorem chunk_kept_iff (h : content s.files s.installedPath = some old) (chunk : SnapshotChunk) :
    Kept s.installedPath old ((receiveChunkCalls s chunk).run ⟨s.files,fates,[]⟩).2 ↔
      ¬Loses sha3 s fates old (.chunk chunk) := by
  rw [kept_iff_seen (keeps_moves_receiveChunkCalls chunk)]
  by_cases hwrites : ∃ active newTotal, s.active = some active ∧
      active.stagedPath = s.installedPath ∧ checkChunk active chunk = .ok newTotal
  · obtain ⟨active,newTotal,hactive,hpath,hchecked⟩ := hwrites
    rw [chunk_extends h hactive hpath hchecked,Option.some.injEq,List.append_right_eq_self]
    constructor
    · intro hnothing hloses
      cases hloses with
      | extended _ _ _ hwritten => exact hwritten hnothing
    · intro hkept
      by_contra hwritten
      exact hkept (.extended hactive hpath hchecked hwritten)
  · have hkept : ¬Loses sha3 s fates old (.chunk chunk) := by
      intro hloses
      cases hloses with
      | extended hactive hpath hchecked => exact hwrites ⟨_,_,hactive,hpath,hchecked⟩
    have hspared : Keeps (seen s.installedPath) (receiveChunkCalls s chunk) := by
      apply chunk_spares
      intro active newTotal hactive hchecked hsame
      exact hwrites ⟨active,newTotal,hactive,hsame.symm,hchecked⟩
    exact iff_of_true ((hspared _).trans h) hkept

/-- A session which ends loses the snapshot if its staging file is the installed path. -/
theorem endSession_kept_iff {d : Disk} {path target : Path} (h : content d.files target = some old)
    (hmoves : d.moves = []) (e : SnapshotProtocolError) :
    Kept target old ((endSessionCalls path e).run d).2 ↔
      ¬(path = target ∧ (d.fates 0).effective) := by
  have hstill : ((endSessionCalls path e).run d).2.moves = [] :=
    (keeps_moves_endSessionCalls path e d).trans hmoves
  rw [Kept,hstill]
  by_cases hpath : path = target
  · rw [hpath,seen_endSessionCalls h]
    by_cases hremoved : (d.fates 0).effective = true
    · simp [hremoved]
    · simp [hremoved]
  · have hspared : Keeps (seen target) (endSessionCalls path e) :=
      keeps_bind (keeps_removeIfExistsCalls (keeps_seen_unlink (Ne.symm hpath))) fun _ => keeps_fail _
    exact iff_of_true (Or.inr ((hspared d).trans h)) fun hlost => hpath hlost.1

/-- The staging file was synced and read. -/
theorem finalize_continues {finalize : SnapshotFinalize} {active : ActiveSnapshot} {staged : Bytes}
    (hactive : s.active = some active) (hchecked : checkFinalize active finalize = .ok ())
    (hsynced : fates 0 = .works) (hread : fates 1 = .works)
    (hstaged : content s.files active.stagedPath = some staged) :
    ((receiveFinalizeCalls sha3 s finalize).run ⟨s.files,fates,[]⟩).2 =
      ((if sha3 staged ≠ finalize.sha3OfFull then endSessionCalls active.stagedPath .hashMismatch
        else installCalls s.installedPath active).run ⟨s.files,fun n => fates (n+2),[]⟩).2 := by
  rw [receiveFinalizeCalls,hactive]
  dsimp only
  rw [hchecked]
  dsimp only
  rw [io,syncAll_bind,if_pos hsynced,io,readToEnd_bind hstaged,Disk.next_fates,if_pos hread,absorb_eq]
  rfl

/-- The staging file was not synced or could not be read. -/
theorem finalize_stops {finalize : SnapshotFinalize} {active : ActiveSnapshot}
    (hactive : s.active = some active) (hchecked : checkFinalize active finalize = .ok ())
    (hstops : ¬(fates 0 = .works ∧ fates 1 = .works ∧
      ∃ staged, content s.files active.stagedPath = some staged)) :
    ((receiveFinalizeCalls sha3 s finalize).run ⟨s.files,fates,[]⟩).2.files = s.files := by
  rw [receiveFinalizeCalls,hactive]
  dsimp only
  rw [hchecked]
  dsimp only
  rw [io,syncAll_bind]
  by_cases hsynced : fates 0 = .works
  · rw [if_pos hsynced,io]
    cases hstaged : content s.files active.stagedPath with
    | none =>
        rw [readToEnd_bind_none hstaged]
        rfl
    | some staged =>
        have hread : ¬fates 1 = .works := fun hread => hstops ⟨hsynced,hread,staged,hstaged⟩
        rw [readToEnd_bind hstaged,Disk.next_fates,if_neg hread]
        rfl
  · rw [if_neg hsynced]
    rfl

section Loses
variable {finalize : SnapshotFinalize} {active : ActiveSnapshot} {staged : Bytes}

theorem loses_refused {e : SnapshotProtocolError} (hactive : s.active = some active)
    (hchecked : checkFinalize active finalize = .error e) :
    Loses sha3 s fates old (.finalize finalize) ↔
      active.stagedPath = s.installedPath ∧ (fates 0).effective := by
  constructor
  · intro hloses
    cases hloses with
    | refused hbusy hpath _ hremoved =>
        cases hactive.symm.trans hbusy
        exact ⟨hpath,hremoved⟩
    | mismatched hbusy _ hpassed =>
        cases hactive.symm.trans hbusy
        cases hchecked.symm.trans hpassed
    | uninstalled hbusy hpassed =>
        cases hactive.symm.trans hbusy
        cases hchecked.symm.trans hpassed
  · intro hlost
    exact .refused hactive hlost.1 hchecked hlost.2

/-- Past the checks nothing is lost before the staging file is read. -/
theorem loses_read (hactive : s.active = some active)
    (hchecked : checkFinalize active finalize = .ok ())
    (hloses : Loses sha3 s fates old (.finalize finalize)) :
    fates 0 = .works ∧ fates 1 = .works ∧
      ∃ staged, content s.files active.stagedPath = some staged := by
  cases hloses with
  | refused hbusy _ hrefused =>
      cases hactive.symm.trans hbusy
      cases hchecked.symm.trans hrefused
  | mismatched hbusy _ _ hsynced hread hstaged =>
      cases hactive.symm.trans hbusy
      exact ⟨hsynced,hread,_,hstaged⟩
  | uninstalled hbusy _ hsynced hread hstaged =>
      cases hactive.symm.trans hbusy
      exact ⟨hsynced,hread,_,hstaged⟩

theorem loses_mismatched (hactive : s.active = some active)
    (hchecked : checkFinalize active finalize = .ok ()) (hsynced : fates 0 = .works)
    (hread : fates 1 = .works) (hstaged : content s.files active.stagedPath = some staged)
    (hdigest : sha3 staged ≠ finalize.sha3OfFull) :
    Loses sha3 s fates old (.finalize finalize) ↔
      active.stagedPath = s.installedPath ∧ (fates 2).effective := by
  constructor
  · intro hloses
    cases hloses with
    | refused hbusy _ hrefused =>
        cases hactive.symm.trans hbusy
        cases hchecked.symm.trans hrefused
    | mismatched hbusy hpath _ _ _ _ _ hremoved =>
        cases hactive.symm.trans hbusy
        exact ⟨hpath,hremoved⟩
    | uninstalled hbusy _ _ _ hsame hmatches =>
        cases hactive.symm.trans hbusy
        cases hstaged.symm.trans hsame
        exact (hdigest hmatches).elim
  · intro hlost
    exact .mismatched hactive hlost.1 hchecked hsynced hread hstaged hdigest hlost.2

theorem loses_uninstalled (hactive : s.active = some active)
    (hchecked : checkFinalize active finalize = .ok ()) (hsynced : fates 0 = .works)
    (hread : fates 1 = .works) (hstaged : content s.files active.stagedPath = some staged)
    (hdigest : sha3 staged = finalize.sha3OfFull) :
    Loses sha3 s fates old (.finalize finalize) ↔
      (fates 2).effective ∧ ¬((fates 2).passes .notFound ∧ (fates 3).effective ∧
        (renameFile (set s.files s.installedPath none) active.stagedPath s.installedPath).isOk) := by
  constructor
  · intro hloses
    cases hloses with
    | refused hbusy _ hrefused =>
        cases hactive.symm.trans hbusy
        cases hchecked.symm.trans hrefused
    | mismatched hbusy _ _ _ _ hsame hdiffers =>
        cases hactive.symm.trans hbusy
        cases hstaged.symm.trans hsame
        exact (hdiffers hdigest).elim
    | uninstalled hbusy _ _ _ _ _ hremoved hlost =>
        cases hactive.symm.trans hbusy
        exact ⟨hremoved,hlost⟩
  · intro hlost
    exact .uninstalled hactive hchecked hsynced hread hstaged hdigest hlost.1 hlost.2

end Loses

theorem finalize_kept_iff (h : content s.files s.installedPath = some old)
    (finalize : SnapshotFinalize) :
    Kept s.installedPath old ((receiveFinalizeCalls sha3 s finalize).run ⟨s.files,fates,[]⟩).2 ↔
      ¬Loses sha3 s fates old (.finalize finalize) := by
  cases hactive : s.active with
  | none =>
      have hkept : ¬Loses sha3 s fates old (.finalize finalize) := by
        intro hloses
        cases hloses with
        | refused hbusy => cases hactive.symm.trans hbusy
        | mismatched hbusy => cases hactive.symm.trans hbusy
        | uninstalled hbusy => cases hactive.symm.trans hbusy
      refine iff_of_true (Or.inr ?_) hkept
      rw [receiveFinalizeCalls,hactive]
      exact h
  | some active =>
      cases hchecked : checkFinalize active finalize with
      | error e =>
          rw [loses_refused hactive hchecked,receiveFinalizeCalls,hactive]
          dsimp only
          rw [hchecked]
          exact endSession_kept_iff h rfl e
      | ok u =>
          by_cases hgoes : fates 0 = .works ∧ fates 1 = .works ∧
              ∃ staged, content s.files active.stagedPath = some staged
          · obtain ⟨hsynced,hread,staged,hstaged⟩ := hgoes
            rw [finalize_continues hactive hchecked hsynced hread hstaged]
            by_cases hdigest : sha3 staged = finalize.sha3OfFull
            · rw [if_neg (not_not.mpr hdigest),
                loses_uninstalled hactive hchecked hsynced hread hstaged hdigest]
              exact installCalls_keeps_iff h rfl
            · rw [if_pos hdigest,loses_mismatched hactive hchecked hsynced hread hstaged hdigest]
              exact endSession_kept_iff h rfl _
          · refine iff_of_true (Or.inr ?_) fun hloses => hgoes (loses_read hactive hchecked hloses)
            rw [seen,finalize_stops hactive hchecked hgoes]
            exact h

end Frames

section Complete
variable {sha3 : Bytes → Hash} {s : State} {d d' : Disk} {snapshotId : String} {path : Path}
  {left : Option ActiveSnapshot}

theorem init_not_complete (init : SnapshotInit) :
    (receiveInitCalls sha3 s init).run d ≠ (.done (.complete snapshotId path,left),d') := by
  intro hrun
  unfold receiveInitCalls at hrun
  split at hrun
  · cases hrun
  · obtain ⟨_,_,-,hrun⟩ := bind_done.mp hrun
    obtain ⟨_,_,-,hrun⟩ := bind_done.mp hrun
    obtain ⟨_,_,-,hrun⟩ := bind_done.mp hrun
    obtain ⟨_,_,-,hrun⟩ := bind_done.mp hrun
    cases hrun

theorem chunk_not_complete (chunk : SnapshotChunk) :
    (receiveChunkCalls s chunk).run d ≠ (.done (.complete snapshotId path,left),d') := by
  intro hrun
  unfold receiveChunkCalls at hrun
  split at hrun
  · cases hrun
  split at hrun
  · cases hrun
  · obtain ⟨_,_,-,hrun⟩ := bind_done.mp hrun
    obtain ⟨_,_,-,hrun⟩ := bind_done.mp hrun
    cases hrun

theorem endSession_not_done {result : SnapshotAck × Option ActiveSnapshot}
    (e : SnapshotProtocolError) : (endSessionCalls path e).run d ≠ (.done result,d') := by
  intro hrun
  obtain ⟨_,_,-,hrun⟩ := bind_done.mp hrun
  cases hrun

/-- An installation which came to its end has renamed the staging file. -/
theorem install_done_moved {active : ActiveSnapshot} {result : SnapshotAck × Option ActiveSnapshot}
    (hrun : (installCalls path active).run d = (.done result,d')) : d'.moves ≠ [] := by
  obtain ⟨_,d₁,-,hrun⟩ := bind_done.mp hrun
  obtain ⟨_,d₂,hrenamed,hrun⟩ := bind_done.mp hrun
  have hmoves := rename_done (io_done.mp hrenamed)
  have hlater : Keeps Disk.moves (io (syncParentDirCalls path) >>= fun _ =>
      (pure (.complete active.init.snapshotId path,none) : Handler)) :=
    keeps_bind (keeps_syncParentDirCalls (keeps_moves_look _) (keeps_moves_look _)) fun _ => keeps_pure _
  have hsame := hlater d₂
  rw [hrun,hmoves] at hsame
  rw [hsame]
  exact List.cons_ne_nil _ _

theorem finalize_done_moved (finalize : SnapshotFinalize)
    {result : SnapshotAck × Option ActiveSnapshot}
    (hrun : (receiveFinalizeCalls sha3 s finalize).run d = (.done result,d')) : d'.moves ≠ [] := by
  unfold receiveFinalizeCalls at hrun
  split at hrun
  · cases hrun
  split at hrun
  · exact (endSession_not_done _ hrun).elim
  · obtain ⟨_,_,-,hrun⟩ := bind_done.mp hrun
    obtain ⟨bytes,_,-,hrun⟩ := bind_done.mp hrun
    split at hrun
    · exact (endSession_not_done _ hrun).elim
    · exact install_done_moved hrun

theorem complete_moved {frame : SnapshotFrame} {fates : ℕ → Fate}
    (h : (attempt sha3 s frame fates).reply = .answered (.ok (.complete snapshotId path))) :
    (attempt sha3 s frame fates).moves ≠ [] := by
  obtain ⟨left,hdone⟩ := conclude_complete h
  rw [attempt,(conclude_disk _).2]
  cases frame with
  | init frame => exact (init_not_complete frame (Prod.ext hdone rfl)).elim
  | chunk frame => exact (chunk_not_complete frame (Prod.ext hdone rfl)).elim
  | finalize frame => exact finalize_done_moved frame (Prod.ext hdone rfl)

/-- For every state with an installed snapshot, every frame and every pattern of failures
and crashes: the frame completes, or renames, or keeps the installed snapshot, exactly when
it does not run into one of the cases which lose it. -/
theorem installed_preserved_iff {old : Bytes} (h : content s.files s.installedPath = some old)
    (frame : SnapshotFrame) (fates : ℕ → Fate) :
    Preserves sha3 s frame fates old ↔ ¬Loses sha3 s fates old frame := by
  have hkept : Preserves sha3 s frame fates old ↔
      Kept s.installedPath old ((receiveCalls sha3 s frame).run ⟨s.files,fates,[]⟩).2 := by
    unfold Preserves Kept
    rw [attempt,(conclude_disk _).1,(conclude_disk _).2]
    refine or_iff_right_of_imp fun hcomplete => Or.inl ?_
    obtain ⟨snapshotId,path,hreply⟩ := hcomplete
    have hmoved := complete_moved hreply
    rw [attempt,(conclude_disk _).2] at hmoved
    exact hmoved
  rw [hkept]
  cases frame with
  | init frame => exact init_kept_iff h frame
  | chunk frame => exact chunk_kept_iff h frame
  | finalize frame => exact finalize_kept_iff h frame

end Complete

section Sample

/-- The sample receiver with an old snapshot, once a new one is staged. -/
def stagedReceiver : State :=
  (run sampleDigest
    { sampleReceiver with files := set sampleFiles ["data","installed"] (some (.file [7])) }
    sampleEvents).2

def lastFrame : SnapshotFrame := .finalize ⟨"s1",sampleDigest [1,2,3]⟩

/-- The process ends before the first call of the last frame. -/
theorem early_crash_preserves :
    content stagedReceiver.files stagedReceiver.installedPath = some [7] ∧
      Preserves sampleDigest stagedReceiver lastFrame (fun _ => .crashes 0) [7] := by
  have hold : content stagedReceiver.files stagedReceiver.installedPath = some [7] := by
    decide +kernel
  refine ⟨hold,(installed_preserved_iff hold lastFrame _).mpr ?_⟩
  intro hloses
  cases hloses with
  | refused _ _ _ hremoved => cases hremoved
  | mismatched _ _ _ hsynced => cases hsynced
  | uninstalled _ _ hsynced => cases hsynced

/-- The rename of the last frame fails. -/
def renameFails : ℕ → Fate
  | 3 => .fails .notFound 0
  | _ => .works

/-- The frame is answered with an error, nothing was renamed, and no snapshot is installed. -/
theorem failed_rename_loses :
    content stagedReceiver.files stagedReceiver.installedPath = some [7] ∧
      (attempt sampleDigest stagedReceiver lastFrame renameFails).reply =
        .answered (.error (.io .notFound)) ∧
      (attempt sampleDigest stagedReceiver lastFrame renameFails).moves = [] ∧
      content (attempt sampleDigest stagedReceiver lastFrame renameFails).state.files
        stagedReceiver.installedPath = none := by
  refine ⟨?_,?_,?_,?_⟩ <;> decide +kernel

end Sample

end OmegaHarness.InstallCrashes
