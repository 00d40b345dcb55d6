import OmegaHarness.ClusterRuns

/-!
# What a node keeps while it runs

A node's tables are at some position, and the log ids which it remembers, in memory, in its
marker and in the metadata of a snapshot under way, are ones which the position has reached.
Nothing that a node does on its own breaks this, whatever the positions are: it only leaves
its position by installing a snapshot, which takes it to the position of the image.
-/
namespace OmegaHarness.ClusterRuns
open FaultyTransactions FaultStreams KeyedTables LedgerStore RaftTypes LedgerWriter WriterFrames
open ClaimStatements RaftStorage EntryCommits
open SnapshotInterleaving (Phase)

/-- The tables of a restored image are the image's. -/
theorem restoreSnapshot_ok {path : String} {s t : Ledger} {restored : Db} {a : Unit}
    (hfile : s.world.files.lookup path = some (.database (imageOf restored)))
    (h : (restoreSnapshot path).run s = (.ok a,t)) : t.db = restored := by
  rcases bind_ok.mp h with ⟨image,u,hattach,hrest⟩
  rcases bind_ok.mp hrest with ⟨_,v,hcopy,hrest⟩
  rcases bind_ok.mp hrest with ⟨_,w,hdetach,hremove⟩
  have himage : image = imageOf restored := by
    rcases (external_ok.mp hattach).2 with ⟨outside,hopen,-⟩
    rw [hfile] at hopen
    split at hopen
    · cases hopen
    · cases hopen
      rfl
  rcases (transaction_ok.mp hcopy).2 with ⟨x,hbody,-,hnext⟩
  rcases (external_ok.mp hdetach).2 with ⟨_,-,hdetached⟩
  rcases (external_ok.mp hremove).2 with ⟨_,-,hremoved⟩
  rw [hremoved,hdetached,hnext]
  exact imageOf_inj ((copyTables_ok hbody).symm.trans himage)

/-- An installed snapshot: the tables are the image's, apart from the row with its metadata. -/
theorem installSnapshot_ok {cbor : Cbor} {metadata : SnapshotMeta} {s t : Ledger} {restored : Db}
    {a : Unit} (h : (installSnapshot cbor metadata (.database (imageOf restored))).run s = (.ok a,t)) :
    ∃ bytes, t.db = putMeta .snapshotMeta bytes restored := by
  rcases bind_ok.mp h with ⟨_,u,hwrite,hrest⟩
  rcases bind_ok.mp hrest with ⟨_,v,hrestore,hsave⟩
  rcases ofExcept_bind_ok.mp hsave with ⟨bytes,-,hsave⟩
  refine ⟨bytes,?_⟩
  rw [saveRaftMeta_ok (mapFailure_ok.mp hsave),
    restoreSnapshot_ok (writeFile_ok hwrite) (mapFailure_ok.mp hrestore)]

theorem snapshot_path {snapshotId path : String} {s t : Ledger}
    (h : (snapshot snapshotId).run s = (.ok path,t)) : path = snapshotFile snapshotId := by
  rcases bind_ok.mp h with ⟨_,_,-,hrest⟩
  rcases bind_ok.mp hrest with ⟨_,_,-,hname⟩
  cases hname
  rfl

/-- What is known of a node by its position: what its tables are like and which log ids they have
reached. Only the claims and the marker of a database count. -/
structure Tracking (cbor : Cbor) (P : Type) where
  Fits : P → Db → Prop
  Has : P → Option LogId → Prop
  ignoresLog : ∀ p, IgnoresLog (Fits p)
  ignoresMeta : ∀ p key, .lastAppliedLogId ≠ key → IgnoresMeta key (Fits p)
  marker : ∀ p db id, Fits p db → metaValue cbor.logId .lastAppliedLogId db = .ok id → Has p id

namespace Tracking
variable {cbor : Cbor} {P : Type} (t : Tracking cbor P)

/-- The image of the snapshot has reached what the metadata states. -/
def Good (built : Snapshot) : Prop :=
  ∃ p db, built.contents = .database (imageOf db) ∧ t.Fits p db ∧ t.Has p built.metadata.lastLogId

/-- What a builder relies on in each phase. -/
def Prepared (p : P) (files : Table String FileContents) : Phase → Prop
  | .ready => True
  | .readApplied lastApplied => t.Has p lastApplied
  | .queued metadata => t.Has p metadata.lastLogId
  | .imaged metadata => ∀ contents, files.lookup (snapshotFile metadata.snapshotId) = some contents →
      t.Good ⟨metadata,contents⟩
  | .loaded built => t.Good built
  | .returned built => t.Good built ∧ ∃ bytes, encode cbor.snapshotMeta built.metadata = .ok bytes

structure Standing (p : P) (node : Node) : Prop where
  fits : t.Fits p node.db
  lastApplied : ∀ id, node.lastApplied = some id → t.Has p id
  prepared : t.Prepared p node.outside.files node.phase

/-- Every node has a position, and every offered snapshot takes a node to one. -/
structure Tracked {N : Type} (σ : Cluster N) : Prop where
  nodes : ∀ n, ∃ p, t.Standing p (σ.nodes n)
  offered : ∀ built ∈ σ.offered, t.Good built ∧
    ∃ bytes, encode cbor.snapshotMeta built.metadata = .ok bytes

variable {t} {p : P} {node : Node}

/-- A call which leaves the files, the claims and the marker alone. -/
theorem Standing.call {A : Type} {op : StorageOp A} (h : t.Standing p node) (hdraws : Draws op)
    (hkeeps : Keeps (t.Fits p) op) (faults : ℕ → Option String) :
    t.Standing p (node.after (op.run (node.session faults)).2) where
  fits := hkeeps (node.session faults) h.fits
  lastApplied := h.lastApplied
  prepared := by
    have hworld := (hdraws (node.session faults)).1
    rw [Node.after,hworld]
    exact h.prepared

theorem Standing.ready (h : t.Standing p node) : t.Standing p { node with phase := .ready } :=
  { h with prepared := trivial }

theorem Standing.image {metadata : SnapshotMeta} {faults : ℕ → Option String}
    {result : Except StorageError String} {u : Ledger} (h : t.Standing p node)
    (hphase : node.phase = .queued metadata)
    (hrun : (throughWriter (snapshot metadata.snapshotId)).run (node.session faults) = (result,u)) :
    t.Standing p { node.after u with phase :=
      match result with
      | .ok _ => .imaged metadata
      | .error _ => .ready } := by
  have hfits : t.Fits p u.db := by
    have hkeeps : Keeps (t.Fits p) (throughWriter (snapshot metadata.snapshotId)) :=
      keeps_throughWriter (keeps_snapshot _)
    have hkept := hkeeps (node.session faults) h.fits
    rw [hrun] at hkept
    exact hkept
  refine ⟨hfits,h.lastApplied,?_⟩
  cases result with
  | error e => trivial
  | ok path =>
      have hsnapshot := mapFailure_ok.mp hrun
      have hfile := (snapshot_ok hsnapshot).2
      rw [snapshot_path hsnapshot] at hfile
      intro contents hcontents
      have hcontents := hfile.symm.trans hcontents
      cases hcontents
      have hreached := h.prepared
      rw [hphase] at hreached
      exact ⟨p,node.db,rfl,h.fits,hreached⟩

theorem Standing.install {built : Snapshot} {faults : ℕ → Option String}
    {result : Except StorageError Unit} {u : Ledger} (h : t.Standing p node) (hgood : t.Good built)
    (hrun : (installSnapshot cbor built.metadata built.contents).run (node.session faults) =
      (result,u)) :
    ∃ q, t.Standing q { node.after u with
      lastApplied := match result with
        | .ok _ => some built.metadata.lastLogId
        | .error _ => none
      phase := .ready } := by
  rcases hgood with ⟨q,restored,hcontents,hfits,hreached⟩
  rw [hcontents] at hrun
  cases result with
  | ok a =>
      rcases installSnapshot_ok hrun with ⟨bytes,hdb⟩
      refine ⟨q,?_,?_,trivial⟩
      · dsimp only [Node.after]
        rw [hdb]
        exact t.ignoresMeta q .snapshotMeta (by decide) restored _
          (fun _ hother => Finmap.lookup_insert_of_ne _ hother) hfits
      · intro id hid
        cases hid
        exact hreached
  | error e =>
      -- The installation stopped before or behind the exchange of the tables.
      have hignores : IgnoresMeta .snapshotMeta fun db => ∃ q, t.Fits q db := by
        intro db table hothers hfound
        rcases hfound with ⟨q,hq⟩
        exact ⟨q,t.ignoresMeta q .snapshotMeta (by decide) db table hothers hq⟩
      have hsomewhere := @installSnapshot_keeps _ cbor hignores (node.session faults) restored
        ⟨p,h.fits⟩ ⟨q,hfits⟩ built.metadata
      rw [hrun] at hsomewhere
      rcases hsomewhere with ⟨found,hfound⟩
      refine ⟨found,hfound,?_,trivial⟩
      intro id hid
      cases hid

/-- Whatever a node does on its own, it is at some position afterwards. -/
theorem Standing.step {offered : List Snapshot} {node' : Node}
    (hoffered : ∀ built ∈ offered, t.Good built) (h : t.Standing p node)
    (hstep : Local cbor offered node node') : ∃ q, t.Standing q node' := by
  have hmeta (key : MetaKey) (hkey : .lastAppliedLogId ≠ key) : IgnoresMeta key (t.Fits p) :=
    t.ignoresMeta p key hkey
  cases hstep with
  | stop =>
      refine ⟨p,h.fits,?_,trivial⟩
      intro id hid
      cases hid
  | start hread =>
      refine ⟨p,h.fits,?_,trivial⟩
      intro id hid
      cases hid
      exact t.marker p _ _ h.fits hread
  | saveVote vote faults =>
      exact ⟨p,h.call (draws_bind (draws_ofExcept _) fun _ => draws_execute _)
        (keeps_bind (keeps_ofExcept _) fun _ => keeps_throughWriter
          (keeps_saveRaftMeta (hmeta _ (by decide)) _)) faults⟩
  | saveCommitted logId faults =>
      exact ⟨p,h.call (draws_bind (draws_ofExcept _) fun _ => draws_execute _)
        (keeps_saveCommitted cbor (hmeta _ (by decide)) logId) faults⟩
  | appendToLog entries faults =>
      have hdraws : Draws (appendToLog cbor entries) :=
        draws_bind (draws_ofExcept _) fun _ =>
          draws_transaction (CurrentSnapshot.draws_appendRows _)
      exact ⟨p,h.call hdraws (keeps_appendToLog cbor (t.ignoresLog p) entries) faults⟩
  | deleteConflictLogsSince logId faults =>
      have hdraws : Draws (deleteRaftLogsSince logId.index) :=
        draws_bind (draws_ofExcept _) fun _ => draws_execute _
      exact ⟨p,h.call hdraws
        (keeps_throughWriter (keeps_deleteRaftLogsSince (t.ignoresLog p) logId.index)) faults⟩
  | purgeLogsUpto logId faults =>
      have hdraws : Draws (purgeLogsUpto cbor logId) :=
        draws_bind (draws_ofExcept _) fun _ => draws_transaction
          (draws_bind (draws_ofExcept _) fun _ => draws_bind (draws_execute _) fun _ =>
            draws_execute _)
      exact ⟨p,h.call hdraws
        (keeps_purgeLogsUpto cbor (t.ignoresLog p) (hmeta _ (by decide)) logId) faults⟩
  | abandon => exact ⟨p,h.ready⟩
  | readApplied hphase hread => exact ⟨p,{ h with prepared := t.marker p _ _ h.fits hread }⟩
  | readMembership hphase hread =>
      have hreached := h.prepared
      rw [hphase] at hreached
      exact ⟨p,{ h with prepared := hreached }⟩
  | image hphase hrun => exact ⟨p,h.image hphase hrun⟩
  | readFile hphase hread =>
      have hfile := h.prepared
      rw [hphase] at hfile
      exact ⟨p,{ h with prepared := hfile _ hread }⟩
  | @writeMeta built faults result u hphase hrun =>
      have hdraws : Draws (saveSnapshotMeta cbor built.metadata) :=
        draws_bind (draws_ofExcept _) fun _ => draws_execute _
      have hcall := h.call hdraws
        (keeps_saveSnapshotMeta cbor (hmeta _ (by decide)) built.metadata) faults
      rw [hrun] at hcall
      have hgood := h.prepared
      rw [hphase] at hgood
      cases result with
      | error e => exact ⟨p,hcall.ready⟩
      | ok a =>
          rcases (CurrentSnapshot.saveSnapshotMeta_ok hrun).2 with ⟨bytes,hencode,-⟩
          exact ⟨p,{ hcall with prepared := ⟨hgood,bytes,hencode⟩ }⟩
  | install hup hbuilt hrun => exact h.install (hoffered _ hbuilt) hrun

/-- More may be known of the same positions. -/
theorem Good.imp {t' : Tracking cbor P} (hfits : ∀ p db, t.Fits p db → t'.Fits p db)
    (hhas : ∀ p id, t.Has p id → t'.Has p id) {built : Snapshot} (h : t.Good built) :
    t'.Good built := by
  rcases h with ⟨q,db,hcontents,hdb,hid⟩
  exact ⟨q,db,hcontents,hfits q db hdb,hhas q _ hid⟩

theorem Standing.imp {t' : Tracking cbor P} (hfits : ∀ p db, t.Fits p db → t'.Fits p db)
    (hhas : ∀ p id, t.Has p id → t'.Has p id) (h : t.Standing p node) : t'.Standing p node where
  fits := hfits p _ h.fits
  lastApplied id hid := hhas p id (h.lastApplied id hid)
  prepared := by
    have hprepared := h.prepared
    cases hphase : node.phase with
    | ready => trivial
    | readApplied lastApplied =>
        rw [hphase] at hprepared
        exact hhas p _ hprepared
    | queued metadata =>
        rw [hphase] at hprepared
        exact hhas p _ hprepared
    | imaged metadata =>
        rw [hphase] at hprepared
        exact fun contents hfile => (hprepared contents hfile).imp hfits hhas
    | loaded built =>
        rw [hphase] at hprepared
        exact Good.imp hfits hhas hprepared
    | returned built =>
        rw [hphase] at hprepared
        exact ⟨hprepared.1.imp hfits hhas,hprepared.2⟩

/-- A batch moves a node on: to a position which has reached what the old one had. -/
theorem Prepared.moved {q : P} (hhas : ∀ id, t.Has p id → t.Has q id)
    {files : Table String FileContents} {phase : Phase} (h : t.Prepared p files phase) :
    t.Prepared q files phase := by
  cases phase with
  | readApplied lastApplied => exact hhas _ h
  | queued metadata => exact hhas _ h
  | _ => exact h

section Clusters
variable {N : Type} {σ : Cluster N}

theorem tracked_initial (h : t.Fits p emptyDb) : t.Tracked (Cluster.initial N) where
  nodes _ := by
    refine ⟨p,h,?_,trivial⟩
    intro id hid
    cases hid
  offered _ hbuilt := (List.not_mem_nil hbuilt).elim

variable [DecidableEq N]

theorem Tracked.put (h : t.Tracked σ) {n : N} (hnode : ∃ p, t.Standing p node) :
    t.Tracked (σ.put n node) where
  nodes := (Function.forall_update_iff σ.nodes (p := fun _ node => ∃ p, t.Standing p node)).mpr
    ⟨hnode,fun m _ => h.nodes m⟩
  offered := h.offered

theorem Tracked.act (h : t.Tracked σ) {n : N} (hlocal : Local cbor σ.offered (σ.nodes n) node) :
    t.Tracked (σ.put n node) := by
  rcases h.nodes n with ⟨p,hstanding⟩
  exact h.put (hstanding.step (fun built hbuilt => (h.offered built hbuilt).1) hlocal)

theorem Tracked.offer (h : t.Tracked σ) {n : N} {built : Snapshot}
    (hphase : (σ.nodes n).phase = .returned built) :
    t.Tracked { σ.put n { σ.nodes n with phase := .ready } with offered := built::σ.offered } := by
  rcases h.nodes n with ⟨p,hstanding⟩
  have hgood := hstanding.prepared
  rw [hphase] at hgood
  exact ⟨(h.put ⟨p,hstanding.ready⟩).nodes,List.forall_mem_cons.mpr ⟨hgood,h.offered⟩⟩

end Clusters

end Tracking

end OmegaHarness.ClusterRuns
