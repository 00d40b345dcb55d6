import OmegaHarness.SnapshotTransfer

/-!
# Frames of other transfers

While a session is open the receiver refuses every further initial frame and every chunk
with another id, and forgets them. A final frame is different: it takes the session out of
the receiver before it is looked at, and with another id it ends the session and removes
the staging file. So a transfer survives any number of foreign initial frames and chunks,
and no foreign final frame.
-/
namespace OmegaHarness.ForeignFrames
open DomainHashes FileTree SnapshotReceiver SnapshotTransfer

def frameId : SnapshotFrame → String
  | .init frame => frame.snapshotId
  | .chunk frame => frame.snapshotId
  | .finalize frame => frame.snapshotId

def carries (snapshotId : String) (frame : SnapshotFrame) : Bool := frameId frame = snapshotId

def IsFinalize : SnapshotFrame → Prop
  | .init _ => False
  | .chunk _ => False
  | .finalize _ => True

section Steps
variable {sha3 : Bytes → Hash} {s : State} {active : ActiveSnapshot}

/-- A foreign frame which is not final has no effect. -/
theorem foreign_refused {frame : SnapshotFrame} (hactive : s.active = some active)
    (hid : frameId frame ≠ active.init.snapshotId) (hfinal : ¬IsFinalize frame) :
    ∃ e, receive sha3 s frame = (.error (.protocol e),s) := by
  cases frame with
  | init frame =>
      refine ⟨.activeSnapshot,?_⟩
      change receiveInit sha3 s frame = _
      rw [receiveInit,hactive]
  | chunk frame =>
      refine ⟨.snapshotIdMismatch active.init.snapshotId frame.snapshotId,?_⟩
      change receiveChunk s frame = _
      have hother : frame.snapshotId ≠ active.init.snapshotId := hid
      rw [receiveChunk,hactive]
      dsimp only
      rw [checkChunk,if_pos hother]
  | finalize frame => exact (hfinal trivial).elim

/-- A foreign final frame ends the session, with whatever the removal of its staging file
comes to. -/
theorem foreign_finalize {frame : SnapshotFrame} (hactive : s.active = some active)
    (hid : frameId frame ≠ active.init.snapshotId) (hfinal : IsFinalize frame) :
    receive sha3 s frame =
      endSession { s with active := none } active.stagedPath
        (.snapshotIdMismatch active.init.snapshotId (frameId frame)) := by
  cases frame with
  | init frame => exact hfinal.elim
  | chunk frame => exact hfinal.elim
  | finalize frame =>
      have hother : frame.snapshotId ≠ active.init.snapshotId := hid
      change receiveFinalize sha3 s frame = _
      rw [receiveFinalize,hactive]
      dsimp only
      rw [checkFinalize,if_pos hother]
      rfl

theorem endSession_idle (hidle : s.active = none) (path : Path) (e : SnapshotProtocolError) :
    (endSession s path e).2.active = none := by
  unfold endSession
  split
  · exact hidle
  · exact hidle

theorem endSession_staged {path : Path} {staged : Bytes} (h : content s.files path = some staged)
    (e : SnapshotProtocolError) :
    endSession s path e = (.error (.protocol e),{ s with files := set s.files path none }) := by
  rw [endSession,removeIfExists,removeFile,file_of_content h]

/-- Whatever becomes of a chunk, the session stays open. -/
theorem receiveChunk_active (hactive : s.active = some active) (chunk : SnapshotChunk) :
    ∃ next, (receiveChunk s chunk).2.active = some next ∧ next.init = active.init := by
  rw [receiveChunk,hactive]
  dsimp only
  split
  · exact ⟨active,hactive,rfl⟩
  · split
    · exact ⟨active,rfl,rfl⟩
    · exact ⟨_,rfl,rfl⟩

end Steps

section Runs
variable {sha3 : Bytes → Hash} {s : State}

theorem chunkFrames_chunks {snapshotId : String} {start : ℕ} {chunks : List Bytes}
    {frame : SnapshotFrame} (h : frame ∈ chunkFrames snapshotId start chunks) :
    ∃ chunk, frame = .chunk chunk := by
  induction chunks generalizing start with
  | nil => cases h
  | cons payload rest ih =>
      obtain rfl | hlater := List.mem_cons.mp h
      · exact ⟨_,rfl⟩
      · exact ih hlater

/-- The frames between the first and the last one of a transfer, with frames of other
transfers among them: those of the transfer itself are its chunks, and no other is final. -/
structure Among (snapshotId : String) (own frames : List SnapshotFrame) : Prop where
  own : frames.filter (carries snapshotId) = own
  foreign : ∀ frame ∈ frames, frameId frame ≠ snapshotId → ¬IsFinalize frame

/-- The receiver is where its own frames have brought it, by induction on all frames. -/
theorem run_among {snapshotId : String} {active : ActiveSnapshot} {frames : List SnapshotFrame}
    (hactive : s.active = some active) (hid : active.init.snapshotId = snapshotId)
    (hchunks : ∀ frame ∈ frames, frameId frame = snapshotId → ∃ chunk, frame = .chunk chunk)
    (hforeign : ∀ frame ∈ frames, frameId frame ≠ snapshotId → ¬IsFinalize frame) :
    (run sha3 s (frames.map .frame)).2 =
      (run sha3 s ((frames.filter (carries snapshotId)).map .frame)).2 := by
  induction frames generalizing s active with
  | nil => rfl
  | cons frame rest ih =>
      obtain ⟨hown,hownRest⟩ := List.forall_mem_cons.mp hchunks
      obtain ⟨hother,hotherRest⟩ := List.forall_mem_cons.mp hforeign
      rw [List.map_cons]
      by_cases hsame : frameId frame = snapshotId
      · obtain ⟨chunk,rfl⟩ := hown hsame
        obtain ⟨next,hnext,hinit⟩ := receiveChunk_active hactive chunk
        have hcarries : carries snapshotId (.chunk chunk) = true := decide_eq_true hsame
        rw [List.filter_cons_of_pos hcarries,List.map_cons,
          run_frame (.chunk chunk) rfl,run_frame (.chunk chunk) rfl]
        exact ih hnext (by rw [hinit,hid]) hownRest hotherRest
      · have hne : frameId frame ≠ active.init.snapshotId := by
          rw [hid]
          exact hsame
        obtain ⟨e,hrefused⟩ := @foreign_refused sha3 s active frame hactive hne (hother hsame)
        have hcarries : ¬carries snapshotId frame = true := by
          rw [carries,decide_eq_true_eq]
          exact hsame
        rw [List.filter_cons_of_neg hcarries,run_frame frame hrefused]
        exact ih hactive hid hownRest hotherRest

/-- Foreign frames and an open session: initial frames and chunks are refused without
effect, a final frame ends the session. A transfer with any foreign initial frames and
chunks between its first and its last frame ends with the buffer installed. -/
theorem transfer_among_foreign_frames {snapshotId : String} {files : Files} {bytes : Bytes}
    {frames : List SnapshotFrame} (hidle : s.active = none) (hready : Ready sha3 s snapshotId files)
    (hne : s.installedPath ≠ stagedPath sha3 s.stagingDir snapshotId) (hlength : bytes.length < 2^63)
    (hframes : Among snapshotId (chunkFrames snapshotId 0 (snapshotChunks bytes)) frames) :
    (∃ before s',
      run sha3 s ((.init (announced sha3 snapshotId bytes)::
          (frames++[.finalize ⟨snapshotId,sha3 bytes⟩])).map .frame) =
        (before++[(.frame (.finalize ⟨snapshotId,sha3 bytes⟩),
          .answered (.ok (.complete snapshotId s.installedPath)))],s') ∧
      content s'.files s.installedPath = some bytes) ∧
    ∀ (t : State) (active : ActiveSnapshot) (frame : SnapshotFrame), t.active = some active →
      frameId frame ≠ active.init.snapshotId →
        (¬IsFinalize frame → ∃ e, receive sha3 t frame = (.error (.protocol e),t)) ∧
        (IsFinalize frame → (receive sha3 t frame).2.active = none ∧
          ∀ staged, content t.files active.stagedPath = some staged →
            receive sha3 t frame =
              (.error (.protocol (.snapshotIdMismatch active.init.snapshotId (frameId frame))),
                { t with active := none, files := set t.files active.stagedPath none })) := by
  constructor
  · obtain ⟨hcount,htotal,hroom⟩ := announced_totals sha3 snapshotId hlength
    have hflat := snapshotChunks_flatten bytes
    obtain ⟨opened,first,staged,s',hopened,hactive,hfirst,-,hrun,hinstalled,hcontent,-⟩ :=
      @session_parts sha3 s (announced sha3 snapshotId bytes) files (snapshotChunks bytes) hidle hready
        hne (snapshotChunks_small bytes) hcount htotal hroom (congrArg sha3 hflat.symm)
    have hchunks : ∀ frame ∈ frames, frameId frame = snapshotId → ∃ chunk, frame = .chunk chunk := by
      intro frame hmem hid
      have hcarries : carries snapshotId frame = true := decide_eq_true hid
      have hfiltered := List.mem_filter.mpr ⟨hmem,hcarries⟩
      rw [hframes.own] at hfiltered
      exact chunkFrames_chunks hfiltered
    have hid : first.init.snapshotId = snapshotId := by
      rw [hfirst.init]
      rfl
    have hamong := @run_among sha3 opened snapshotId first frames hactive hid hchunks hframes.foreign
    rw [hframes.own] at hamong
    have hstaged := hamong.trans hrun
    rw [hflat] at hcontent
    rw [List.map_cons,run_frame _ hopened,List.map_append,run_append,hstaged,List.map_singleton,
      run_frame (.finalize ⟨snapshotId,sha3 bytes⟩) hinstalled]
    exact ⟨_::_,s',rfl,hcontent⟩
  · intro t active frame hactive hid
    refine ⟨foreign_refused hactive hid,fun hfinal => ?_⟩
    rw [foreign_finalize hactive hid hfinal]
    refine ⟨endSession_idle rfl _ _,fun staged hstaged => ?_⟩
    exact @endSession_staged { t with active := none } active.stagedPath staged hstaged _

end Runs

section Sample

/-- The chunk of the sample transfer between a chunk and an initial frame of another one. -/
def amongFrames : List SnapshotFrame :=
  [.chunk ⟨"s2",0,[9]⟩,.chunk ⟨"s1",0,[1,2,3]⟩,.init ⟨"s2",1,1,sampleDigest [9]⟩]

theorem sample_among :
    Among "s1" (chunkFrames "s1" 0 (snapshotChunks [1,2,3])) amongFrames := by
  have hcut : snapshotChunks [1,2,3] = [[1,2,3]] := by decide +kernel
  refine ⟨by rw [hcut]; rfl,?_⟩
  intro frame hmem _
  cases frame with
  | init frame => exact not_false
  | chunk frame => exact not_false
  | finalize frame => simp [amongFrames] at hmem

theorem sample_among_foreign_frames :
    (∃ before s',
      run sampleDigest sampleReceiver ((.init (announced sampleDigest "s1" [1,2,3])::
          (amongFrames++[.finalize ⟨"s1",sampleDigest [1,2,3]⟩])).map .frame) =
        (before++[(.frame (.finalize ⟨"s1",sampleDigest [1,2,3]⟩),
          .answered (.ok (.complete "s1" ["data","installed"])))],s') ∧
      content s'.files ["data","installed"] = some [1,2,3]) :=
  (transfer_among_foreign_frames rfl sample_ready (by decide +kernel) (by decide) sample_among).1

/-- A final frame of another transfer ends this one: its own last frame finds no session. -/
theorem foreign_finalize_disturbs :
    (run sampleDigest sampleReceiver ([.init ⟨"s1",1,3,sampleDigest [1,2,3]⟩,
        .chunk ⟨"s1",0,[1,2,3]⟩,.finalize ⟨"s2",sampleDigest [9]⟩,
        .finalize ⟨"s1",sampleDigest [1,2,3]⟩].map .frame)).1.map Prod.snd =
      [accepted "s1" 0,accepted "s1" 1,.answered (.error (.protocol (.snapshotIdMismatch "s1" "s2"))),
        .answered (.error (.protocol .noActiveSnapshot))] := by
  decide +kernel

end Sample

end OmegaHarness.ForeignFrames
