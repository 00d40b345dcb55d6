import OmegaHarness.ClaimStatements
import OmegaHarness.RaftStorage

/-!
# Restores which fail

A restore attaches the snapshot file, copies the five tables in a transaction,
detaches the file and removes it. An error leaves the way by `?` at the point where
it happens: behind the attachment nothing detaches the file any more, and behind the
commit the tables are already replaced. So a failure is harmless only when the file
was never attached, or when nothing but the removal failed and the tables were the
same.
-/
namespace OmegaHarness.RestoreFailure
open DomainHashes FaultyTransactions FaultStreams KeyedTables LedgerStore LedgerWriter
open ClaimStatements

/-- An error leaves the tables as they were, and whatever well-formed snapshot file is
put there next is restored. -/
def Harmless (path : String) (s : Ledger) : Prop :=
  ∀ e t, (restoreSnapshot path).run s = (.error e,t) → t.db = s.db ∧
    ∀ (next : String) (files : Table String FileContents) (restored : Db),
      files.lookup next = some (.database (imageOf restored)) →
        ∃ u, (restoreSnapshot next).run (calmAt t.db ⟨files,t.world.attached⟩) = (.ok (),u) ∧
          u.db = restored

/-- The connection holds no attachment and either the file is not attached now (it has two
bytes at least and is no database, or the statement fails), or it is complete and at most its
removal fails, in that case with the tables it holds. -/
def HarmlessWhen (path : String) (s : Ledger) : Prop :=
  s.world.attached = false ∧
    (s.faults 0 ≠ none ∨
      (∃ bytes, s.world.files.lookup path = some (.other bytes) ∧ 1 < bytes.length) ∨
      ∃ restored, s.world.files.lookup path = some (.database (imageOf restored)) ∧
        (∀ k < 14, s.faults k = none) ∧ (s.faults 14 = none ∨ restored = s.db))

section Outcomes
variable {path : String} {s t : Ledger}

theorem harmless_of_ok {a : Unit} (h : (restoreSnapshot path).run s = (.ok a,t)) :
    Harmless path s := by
  intro e u hrun
  rw [h] at hrun
  cases hrun

/-- A connection which is still attached refuses every restore. -/
theorem restoreSnapshot_attached (next : String) (db : Db) (files : Table String FileContents) :
    (restoreSnapshot next).run (calmAt db ⟨files,true⟩) =
      (.error (sqliteFault "database snapshot_db is already in use"),calmAt db ⟨files,true⟩) := rfl

/-- After an error all that matters is the tables and the attachment. -/
theorem harmless_of_error {e : LedgerError} (h : (restoreSnapshot path).run s = (.error e,t)) :
    Harmless path s ↔ t.db = s.db ∧ t.world.attached = false := by
  constructor
  · intro hharmless
    have hspec := hharmless e t h
    refine ⟨hspec.1,?_⟩
    cases hattached : t.world.attached with
    | false => rfl
    | true =>
        have hfile : ((∅ : Table String FileContents).insert path
            (.database (imageOf emptyDb))).lookup path = some (.database (imageOf emptyDb)) :=
          Finmap.lookup_insert _
        rcases hspec.2 path _ emptyDb hfile with ⟨u,hrun,-⟩
        rw [hattached,restoreSnapshot_attached] at hrun
        cases hrun
  · intro hafter e' u hrun
    rw [h] at hrun
    cases hrun
    refine ⟨hafter.1,?_⟩
    intro next files restored hfile
    rw [hafter.2]
    exact ⟨_,restoreSnapshot_calm hfile t.db,rfl⟩

end Outcomes

theorem draws_copyTable {K V : Type} (name : String) (source : Option (Table K V))
    (put : Db → Table K V → Db) : Draws (copyTable name source put) :=
  draws_bind (draws_execute _) fun _ => draws_execute _

theorem draws_copyTables (image : Image) : Draws (copyTables image) :=
  draws_bind (draws_copyTable _ _ _) fun _ => draws_bind (draws_copyTable _ _ _) fun _ =>
    draws_bind (draws_copyTable _ _ _) fun _ => draws_bind (draws_copyTable _ _ _) fun _ =>
      draws_copyTable _ _ _

/-- A table of the image takes two statements. -/
theorem copyTable_takes {K V : Type} (name : String) (table : Table K V) (put : Db → Table K V → Db)
    (db : Db) (outside : Outside) :
    Takes (copyTable name (some table) put) db outside 2 () (put (put db ∅) table) outside := by
  have hdelete := @execute_takes (fun db => .ok (put db ∅)) db _ rfl outside
  have hinsert := @execute_takes (fun db => .ok (put db table)) (put db ∅) _ rfl outside
  exact takes_bind (f := fun _ => execute fun db => .ok (put db table)) hdelete hinsert

theorem copyTables_takes (db restored : Db) (outside : Outside) :
    Takes (copyTables (imageOf restored)) db outside (2+(2+(2+(2+2)))) () restored outside := by
  apply takes_bind (copyTable_takes _ _ _ db outside)
  apply takes_bind (copyTable_takes _ _ _ _ outside)
  apply takes_bind (copyTable_takes _ _ _ _ outside)
  apply takes_bind (copyTable_takes _ _ _ _ outside)
  exact copyTable_takes _ _ _ _ outside

section Cases
variable {path : String} {s u v : Ledger} {image : Image} {e : LedgerError}

/-- A file which is not attached leaves nothing behind. -/
theorem harmless_unattached (h : (attachSnapshot path).run s = (.error e,s.next)) :
    Harmless path s ↔ s.world.attached = false := by
  have hrun : (restoreSnapshot path).run s = (.error e,s.next) := by
    rw [restoreSnapshot,bind_run,h]
  rw [harmless_of_error hrun]
  exact and_iff_right rfl

theorem attachSnapshot_error (h : (attachSnapshot path).run s = (.error e,u)) :
    u = s.next ∧ (s.world.attached = true ∨ s.faults 0 ≠ none ∨
      ∃ bytes, s.world.files.lookup path = some (.other bytes) ∧ 1 < bytes.length) := by
  rw [attachSnapshot,external_run] at h
  cases hfault : s.faults 0 with
  | some x =>
      simp only [hfault] at h
      cases h
      exact ⟨rfl,Or.inr (Or.inl (Option.some_ne_none x))⟩
  | none =>
      simp only [hfault] at h
      cases hattached : s.world.attached with
      | true =>
          simp only [hattached,if_true] at h
          cases h
          exact ⟨rfl,Or.inl rfl⟩
      | false =>
          cases hfile : s.world.files.lookup path with
          | none => simp [hattached,hfile] at h
          | some contents =>
              cases hopened : openedImage contents with
              | some image => simp [hattached,hfile,hopened] at h
              | none =>
                  simp only [hattached,hfile,hopened,Bool.false_eq_true,if_false] at h
                  cases h
                  rcases openedImage_none.mp hopened with ⟨bytes,rfl,hlong⟩
                  exact ⟨rfl,Or.inr (Or.inr ⟨bytes,rfl,hlong⟩)⟩

/-- What was opened: a file which SQLite takes for a database, or a new and empty one. -/
theorem attachSnapshot_ok (h : (attachSnapshot path).run s = (.ok image,u)) :
    s.faults 0 = none ∧ s.world.attached = false ∧ u.world.attached = true ∧
      ((∃ contents, s.world.files.lookup path = some contents ∧
          openedImage contents = some image ∧
          u = ⟨s.db,{ s.world with attached := true },later s.faults 1⟩) ∨
        s.world.files.lookup path = none ∧ image = blankImage) := by
  rcases external_ok.mp h with ⟨hfault,outside,hopen,rfl⟩
  cases hattached : s.world.attached with
  | true => simp [hattached] at hopen
  | false =>
      rw [hattached,if_neg Bool.false_ne_true] at hopen
      cases hfile : s.world.files.lookup path with
      | none =>
          rw [hfile] at hopen
          cases hopen
          exact ⟨hfault,rfl,rfl,Or.inr ⟨rfl,rfl⟩⟩
      | some contents =>
          rw [hfile] at hopen
          dsimp only at hopen
          cases hopened : openedImage contents with
          | some found =>
              rw [hopened] at hopen
              cases hopen
              exact ⟨hfault,rfl,rfl,Or.inl ⟨contents,rfl,hopened,rfl⟩⟩
          | none =>
              rw [hopened] at hopen
              cases hopen

theorem draws_copy (image : Image) : Draws (sqlTransaction (copyTables image)) :=
  draws_transaction (draws_copyTables image)

/-- Behind the attachment an error of the copy leaves the file attached. -/
theorem not_harmless_copy (hattach : (attachSnapshot path).run s = (.ok image,u))
    (hcopy : (sqlTransaction (copyTables image)).run u = (.error e,v)) : ¬Harmless path s := by
  have hworld := (draws_copy image u).1
  rw [hcopy] at hworld
  have hrun : (restoreSnapshot path).run s = (.error e,v) := by
    rw [restoreSnapshot,bind_run,hattach]
    dsimp only
    rw [bind_run,hcopy]
  intro hharmless
  have hdetached := ((harmless_of_error hrun).mp hharmless).2
  have hattached := (attachSnapshot_ok hattach).2.2.1
  rw [hworld,hattached] at hdetached
  cases hdetached

/-- Behind the commit the tables are the file's. An error of the detachment leaves the
file attached as well, an error of the removal does not. -/
theorem harmless_copied {restored : Db} (hfile : path ∈ s.world.files)
    (hattach : (attachSnapshot path).run s =
      (.ok image,⟨s.db,{ s.world with attached := true },later s.faults 1⟩))
    (hcopy : (sqlTransaction (copyTables image)).run
      ⟨s.db,{ s.world with attached := true },later s.faults 1⟩ =
        (.ok (),⟨restored,{ s.world with attached := true },later s.faults 13⟩)) :
    Harmless path s ↔ s.faults 13 = none ∧ (s.faults 14 = none ∨ restored = s.db) := by
  have hrun : (restoreSnapshot path).run s = (detachSnapshot >>= fun _ => removeFile path).run
      ⟨restored,{ s.world with attached := true },later s.faults 13⟩ := by
    rw [restoreSnapshot,bind_run,hattach]
    dsimp only
    rw [bind_run,hcopy]
  cases hdetach : s.faults 13 with
  | some x =>
      have herror : (restoreSnapshot path).run s = (.error (sqliteFault x),
          ⟨restored,{ s.world with attached := true },later (later s.faults 13) 1⟩) := by
        rw [hrun,bind_run,detachSnapshot,external_struck ((later_head s.faults 13).trans hdetach)]
        rfl
      rw [harmless_of_error herror]
      apply iff_of_false
      · intro h
        cases h.2
      · intro h
        cases h.1
  | none =>
      have hdetached : detachSnapshot.run
          ⟨restored,{ s.world with attached := true },later s.faults 13⟩ =
            (.ok (),⟨restored,{ s.world with attached := false },later s.faults 14⟩) :=
        external_ok.mpr ⟨(later_head s.faults 13).trans hdetach,_,rfl,
          congrArg _ (later_later s.faults 13 1).symm⟩
      cases hremove : s.faults 14 with
      | some x =>
          have herror : (restoreSnapshot path).run s = (.error (.io x),
              ⟨restored,{ s.world with attached := false },later (later s.faults 14) 1⟩) := by
            rw [hrun,bind_run,hdetached]
            exact external_struck ((later_head s.faults 14).trans hremove)
          rw [harmless_of_error herror]
          simp
      | none =>
          have hok : (restoreSnapshot path).run s = (.ok (),⟨restored,
              ⟨s.world.files.erase path,false⟩,later (later s.faults 14) 1⟩) := by
            rw [hrun]
            exact bind_ok.mpr ⟨_,_,hdetached,
              external_ok.mpr ⟨(later_head s.faults 14).trans hremove,_,if_pos hfile,rfl⟩⟩
          exact iff_of_true (harmless_of_ok hok) ⟨rfl,Or.inl rfl⟩

theorem quiet_split {faults : ℕ → Option String} (hfirst : faults 0 = none) :
    (∀ k < 14, faults k = none) ↔ (∀ k < 12, later faults 1 k = none) ∧ faults 13 = none := by
  constructor
  · intro h
    exact ⟨fun k hk => h (k+1) (by omega),h 13 (by omega)⟩
  · intro h k hk
    rcases Nat.eq_zero_or_pos k with hzero | hpos
    · rw [hzero]
      exact hfirst
    · by_cases hlast : k = 13
      · rw [hlast]
        exact h.2
      · have hinner := h.1 (k-1) (by omega)
        rw [later_sub faults hpos] at hinner
        exact hinner

/-- A file which lacks a table stays attached. -/
theorem not_harmless_incomplete (hattach : (attachSnapshot path).run s = (.ok image,u))
    (h : ∀ restored, image ≠ imageOf restored) : ¬Harmless path s := by
  cases hcopy : (sqlTransaction (copyTables image)).run u with
  | mk r v =>
    cases r with
    | error e => exact not_harmless_copy hattach hcopy
    | ok a =>
        rcases (transaction_ok.mp hcopy).2 with ⟨w,hcopied,-,-⟩
        exact (h w.db (copyTables_ok hcopied)).elim

/-- With a file which is attached, the condition is about that file. -/
theorem harmlessWhen_attached (hfault : s.faults 0 = none) (hdetached : s.world.attached = false)
    (hother : ∀ bytes, s.world.files.lookup path = some (.other bytes) → bytes.length ≤ 1) :
    HarmlessWhen path s ↔
      ∃ restored, s.world.files.lookup path = some (.database (imageOf restored)) ∧
        (∀ k < 14, s.faults k = none) ∧ (s.faults 14 = none ∨ restored = s.db) := by
  constructor
  · intro h
    rcases h.2 with hstruck | ⟨bytes,hbytes,hlong⟩ | hcomplete
    · exact (hstruck hfault).elim
    · exact (Nat.not_lt.mpr (hother bytes hbytes) hlong).elim
    · exact hcomplete
  · intro h
    exact ⟨hdetached,Or.inr (Or.inr h)⟩

/-- A complete file: its copy takes twelve statements. -/
theorem harmless_complete {restored : Db} (hfault : s.faults 0 = none)
    (hfile : s.world.files.lookup path = some (.database (imageOf restored)))
    (hattach : (attachSnapshot path).run s =
      (.ok (imageOf restored),⟨s.db,{ s.world with attached := true },later s.faults 1⟩)) :
    Harmless path s ↔
      (∀ k < 14, s.faults k = none) ∧ (s.faults 14 = none ∨ restored = s.db) := by
  have htakes : Takes (sqlTransaction (copyTables (imageOf restored))) s.db
      { s.world with attached := true } 12 () restored { s.world with attached := true } :=
    takes_transaction (copyTables_takes s.db restored _)
  rw [quiet_split hfault,and_assoc]
  rcases struck_or_quiet (later s.faults 1) 12 with hstruck | hquiet
  · rcases htakes.struck (later s.faults 1) hstruck with ⟨e,v,j,hcopy,-,-⟩
    apply iff_of_false (not_harmless_copy hattach hcopy)
    intro h
    rcases hstruck with ⟨k,hk,hfault⟩
    exact hfault (h.1 k hk)
  · have hcopy := htakes.quiet (later s.faults 1) hquiet
    rw [later_later] at hcopy
    rw [harmless_copied (Finmap.mem_of_lookup_eq_some hfile) hattach hcopy]
    exact (and_iff_right hquiet).symm

/-- A file was opened, as a database or for want of any content. -/
theorem harmless_iff_opened {contents : FileContents} (hfault : s.faults 0 = none)
    (hdetached : s.world.attached = false) (hfile : s.world.files.lookup path = some contents)
    (hopened : openedImage contents = some image)
    (hattach : (attachSnapshot path).run s =
      (.ok image,⟨s.db,{ s.world with attached := true },later s.faults 1⟩)) :
    Harmless path s ↔ HarmlessWhen path s := by
  have hother : ∀ bytes, s.world.files.lookup path = some (.other bytes) → bytes.length ≤ 1 := by
    intro bytes hbytes
    rw [hfile,Option.some.injEq] at hbytes
    by_contra hlong
    have hnone := openedImage_none.mpr ⟨bytes,hbytes,Nat.lt_of_not_le hlong⟩
    rw [hopened] at hnone
    cases hnone
  have hsame : ∀ restored, s.world.files.lookup path = some (.database (imageOf restored)) ↔
      image = imageOf restored := by
    intro restored
    rw [hfile,Option.some.injEq,← openedImage_complete,hopened,Option.some.injEq]
  simp only [harmlessWhen_attached hfault hdetached hother,hsame]
  by_cases hcomplete : ∃ restored, image = imageOf restored
  · rcases hcomplete with ⟨restored,rfl⟩
    rw [harmless_complete hfault ((hsame restored).mpr rfl) hattach]
    constructor
    · intro h
      exact ⟨restored,rfl,h⟩
    · intro h
      rcases h with ⟨other,heq,h⟩
      rw [imageOf_inj heq]
      exact h
  · have hlacks : ∀ restored, image ≠ imageOf restored := fun restored h => hcomplete ⟨restored,h⟩
    apply iff_of_false (not_harmless_incomplete hattach hlacks)
    intro h
    rcases h with ⟨restored,heq,-⟩
    exact hlacks restored heq

/-- The file was missing and an empty database was created in its place. -/
theorem harmless_iff_created (hfault : s.faults 0 = none) (hdetached : s.world.attached = false)
    (hmissing : s.world.files.lookup path = none)
    (hattach : (attachSnapshot path).run s = (.ok blankImage,u)) :
    Harmless path s ↔ HarmlessWhen path s := by
  rw [harmlessWhen_attached hfault hdetached (by simp [hmissing]),hmissing]
  apply iff_of_false (not_harmless_incomplete hattach fun restored h => nomatch h)
  intro h
  rcases h with ⟨restored,hsame,-⟩
  cases hsame

/-- The file was not attached. -/
theorem harmless_iff_unattached (hattach : (attachSnapshot path).run s = (.error e,u)) :
    Harmless path s ↔ HarmlessWhen path s := by
  rcases attachSnapshot_error hattach with ⟨rfl,hreason⟩
  rw [harmless_unattached hattach]
  constructor
  · intro hdetached
    rw [hdetached] at hreason
    rcases hreason with hattached | hfault | hother
    · cases hattached
    · exact ⟨hdetached,Or.inl hfault⟩
    · exact ⟨hdetached,Or.inr (Or.inl hother)⟩
  · intro h
    exact h.1

end Cases

/-- For every ledger, file and pattern of faults: the failure of a restore is harmless
exactly under the condition on the attachment, the file and the faults. -/
theorem failed_restore_harmless_iff (path : String) (s : Ledger) :
    Harmless path s ↔ HarmlessWhen path s := by
  cases hattach : (attachSnapshot path).run s with
  | mk r u =>
    cases r with
    | error e => exact harmless_iff_unattached hattach
    | ok image =>
        rcases attachSnapshot_ok hattach with ⟨hfault,hdetached,-,hopened | hcreated⟩
        · rcases hopened with ⟨contents,hfile,hopened,rfl⟩
          exact harmless_iff_opened hfault hdetached hfile hopened hattach
        · rcases hcreated with ⟨hmissing,rfl⟩
          exact harmless_iff_created hfault hdetached hmissing hattach

/-- After a restore from a missing file no snapshot can be restored any more. -/
theorem missing_file_blocks_restores :
    ∃ (path : String) (s t : Ledger) (e e' : LedgerError) (next : String)
      (files : Table String FileContents) (restored : Db),
      (restoreSnapshot path).run s = (.error e,t) ∧
      files.lookup next = some (.database (imageOf restored)) ∧
      (restoreSnapshot next).run (calmAt t.db ⟨files,t.world.attached⟩) =
        (.error e',calmAt t.db ⟨files,t.world.attached⟩) := by
  have hfirst : (restoreSnapshot (snapshotFile "1-1")).run (calmAt emptyDb ⟨∅,false⟩) =
      (.error (sqliteFault "no such table: snapshot_db.raft_log"),calmAt emptyDb
        ⟨(∅ : Table String FileContents).insert (snapshotFile "1-1") (.other []),true⟩) := rfl
  exact ⟨_,_,_,_,_,snapshotFile "1-1",(∅ : Table String FileContents).insert (snapshotFile "1-1")
    (.database (imageOf emptyDb)),emptyDb,hfirst,Finmap.lookup_insert _,
    restoreSnapshot_attached _ _ _⟩

end OmegaHarness.RestoreFailure
