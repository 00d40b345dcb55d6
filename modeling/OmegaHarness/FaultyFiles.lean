import OmegaHarness.FileTree

/-!
# System calls which fail or never return

A program on a file tree is a sequence of system calls. A stream of fates says what becomes
of each: it works, it fails after a part of its work, or the process ends after a part of
it. A call which works answers what the tree allows. The part of a failed call stays in the
files, and so does everything done before a crash. A fault has one of the errors of the
tree, which is enough for callers that ask no more than whether a file was missing. Renames
are recorded, as a caller may have to know whether one took place.
-/
namespace OmegaHarness.FaultyFiles
open FileTree

variable {E E' A B : Type}

/-- A call which does not work has done some of its work: so many bytes of a write, so many
components of a path of directories. A call with one effect has it unless nothing is done. -/
inductive Fate where
  | works
  | fails (e : IoError) (done : ℕ)
  | crashes (done : ℕ)
  deriving DecidableEq, Repr

inductive Result (E A : Type) where
  | done (a : A)
  | failed (e : E)
  | crashed
  deriving DecidableEq, Repr

namespace Fate

def portion (xs : List A) : Fate → List A
  | works => xs
  | fails _ done => xs.take done
  | crashes done => xs.take done

def effective : Fate → Bool
  | works => true
  | fails _ done => 0 < done
  | crashes done => 0 < done

/-- The caller goes on, as it takes the error for a success. -/
def passes (tolerated : IoError) : Fate → Bool
  | works => true
  | fails e _ => e = tolerated
  | crashes _ => false

def answer (natural : Except IoError A) : Fate → Result IoError A
  | works => match natural with
    | .ok a => .done a
    | .error e => .failed e
  | fails e _ => .failed e
  | crashes _ => .crashed

theorem portion_length_le (xs : List A) (fate : Fate) : (fate.portion xs).length ≤ xs.length := by
  cases fate with
  | works => exact le_rfl
  | fails e done => exact List.length_take_le' _ _
  | crashes done => exact List.length_take_le' _ _

theorem answer_done {natural : Except IoError A} {fate : Fate} {a : A}
    (h : fate.answer natural = .done a) : fate = .works ∧ natural = .ok a := by
  cases fate with
  | works =>
      cases natural with
      | ok b =>
          cases h
          exact ⟨rfl,rfl⟩
      | error e => cases h
  | fails e done => cases h
  | crashes done => cases h

end Fate

structure Disk where
  files : Files
  fates : ℕ → Fate
  moves : List (Path × Path)

/-- The disk after one call has used up its fate. -/
def Disk.next (d : Disk) (files : Files) : Disk :=
  { d with files := files, fates := fun n => d.fates (n+1) }

@[simp] theorem Disk.next_files (d : Disk) (files : Files) : (d.next files).files = files := rfl
@[simp] theorem Disk.next_moves (d : Disk) (files : Files) : (d.next files).moves = d.moves := rfl

@[simp] theorem Disk.next_fates (d : Disk) (files : Files) (n : ℕ) :
    (d.next files).fates n = d.fates (n+1) := rfl

/-- The disk on which every call works. -/
def calm (files : Files) (moves : List (Path × Path)) : Disk := ⟨files,fun _ => .works,moves⟩

structure Sys (E A : Type) where
  run : Disk → Result E A × Disk

instance : Monad (Sys E) where
  pure a := ⟨fun d => (.done a,d)⟩
  bind op f := ⟨fun d =>
    match op.run d with
    | (.done a,d') => (f a).run d'
    | (.failed e,d') => (.failed e,d')
    | (.crashed,d') => (.crashed,d')⟩

def fail (e : E) : Sys E A := ⟨fun d => (.failed e,d)⟩

theorem bind_run (op : Sys E A) (f : A → Sys E B) (d : Disk) :
    (op >>= f).run d = match op.run d with
      | (.done a,d') => (f a).run d'
      | (.failed e,d') => (.failed e,d')
      | (.crashed,d') => (.crashed,d') := rfl

/-- A sequence came to its end exactly when both halves did. -/
theorem bind_done {op : Sys E A} {f : A → Sys E B} {d d' : Disk} {b : B} :
    (op >>= f).run d = (.done b,d') ↔
      ∃ a mid, op.run d = (.done a,mid) ∧ (f a).run mid = (.done b,d') := by
  rw [bind_run]
  cases h : op.run d with
  | mk r mid => cases r <;> simp

/-- A sequence whose first half does not come to its end stops there. -/
theorem bind_stopped {op : Sys E A} {d : Disk} (h : ∀ a, (op.run d).1 ≠ .done a)
    (f : A → Sys E B) : ((op >>= f).run d).2 = (op.run d).2 := by
  rw [bind_run]
  cases hrun : op.run d with
  | mk r mid =>
      cases r with
      | done a => exact (h a (congrArg Prod.fst hrun)).elim
      | failed e => rfl
      | crashed => rfl

/-- The same calls with their errors translated. -/
def mapError (translate : E → E') (op : Sys E A) : Sys E' A := ⟨fun d =>
  match op.run d with
  | (.done a,d') => (.done a,d')
  | (.failed e,d') => (.failed (translate e),d')
  | (.crashed,d') => (.crashed,d')⟩

theorem mapError_run (translate : E → E') (op : Sys E A) (d : Disk) :
    (mapError translate op).run d = match op.run d with
      | (.done a,d') => (.done a,d')
      | (.failed e,d') => (.failed (translate e),d')
      | (.crashed,d') => (.crashed,d') := rfl

theorem mapError_done {translate : E → E'} {op : Sys E A} {d d' : Disk} {a : A} :
    (mapError translate op).run d = (.done a,d') ↔ op.run d = (.done a,d') := by
  rw [mapError_run]
  cases op.run d with
  | mk r mid => cases r <;> simp

/-- Take one error for an answer: whether the call did without it. -/
def tolerate (tolerated : IoError) (op : Sys IoError Unit) : Sys IoError Bool := ⟨fun d =>
  match op.run d with
  | (.done (),d') => (.done true,d')
  | (.failed e,d') => if e = tolerated then (.done false,d') else (.failed e,d')
  | (.crashed,d') => (.crashed,d')⟩

/-- Go on with the error of a call in hand. -/
def caught (op : Sys E A) : Sys E' (Except E A) := ⟨fun d =>
  match op.run d with
  | (.done a,d') => (.done (.ok a),d')
  | (.failed e,d') => (.done (.error e),d')
  | (.crashed,d') => (.crashed,d')⟩

/-- A computation which asks nothing of the system. -/
def ofExcept : Except E A → Sys E A
  | .ok a => pure a
  | .error e => fail e

theorem caught_done {op : Sys E A} {d d' : Disk} {r : Except E A} :
    (caught op : Sys E' (Except E A)).run d = (.done r,d') ↔
      (∃ a, r = .ok a ∧ op.run d = (.done a,d')) ∨ ∃ e, r = .error e ∧ op.run d = (.failed e,d') := by
  rw [caught]
  dsimp only
  cases op.run d with
  | mk answer mid => cases answer <;> simp [eq_comm]

theorem ofExcept_done {x : Except E A} {d d' : Disk} {a : A} :
    (ofExcept x).run d = (.done a,d') ↔ x = .ok a ∧ d' = d := by
  cases x with
  | ok b => simp [ofExcept,pure,eq_comm]
  | error e => simp [ofExcept,fail]

section Calls

/-- One call: its answer when it works, and what any fate makes of the files. -/
def call (natural : Files → Except IoError A) (effect : Fate → Files → Files) : Sys IoError A :=
  ⟨fun d => ((d.fates 0).answer (natural d.files),d.next (effect (d.fates 0) d.files))⟩

theorem call_run (natural : Files → Except IoError A) (effect : Fate → Files → Files) (d : Disk) :
    (call natural effect).run d =
      ((d.fates 0).answer (natural d.files),d.next (effect (d.fates 0) d.files)) := rfl

/-- The files after an operation, unchanged if it is impossible. -/
def settled (op : Files → Except IoError Files) (files : Files) : Files :=
  match op files with
  | .ok after => after
  | .error _ => files

def accomplish (op : Files → Except IoError Files) (files : Files) : Except IoError Unit :=
  (op files).map fun _ => ()

/-- A call with one effect. -/
def atomic (op : Files → Except IoError Files) : Sys IoError Unit :=
  call (accomplish op) fun fate files => if fate.effective then settled op files else files

def unlink (path : Path) : Sys IoError Unit := atomic fun files => removeFile files path

def openNew (path : Path) : Sys IoError Unit := atomic fun files => createNew files path

/-- All components of a path, as one call which can stop at any of them. -/
def mkdirs (path : Path) : Sys IoError Unit :=
  call (accomplish fun files => createDirAll files path) fun fate =>
    settled fun files => createDirAll files (fate.portion path)

def write (path : Path) (bytes : List UInt8) : Sys IoError Unit :=
  call (fun files => (writeAll files path bytes).1) fun fate files =>
    (writeAll files path (fate.portion bytes)).2

/-- A call which only looks. -/
def look (natural : Files → Except IoError A) : Sys IoError A := call natural fun _ files => files

/-- Open a file and read it to its end. -/
def readToEnd (path : Path) : Sys IoError (List UInt8) := look fun files => readFile files path

def openExisting (path : Path) : Sys IoError Unit := look fun files =>
  match files path with
  | some _ => .ok ()
  | none => .error (missing files path)

/-- The files are what a reader sees, so a flush changes none of them. -/
def syncAll : Sys IoError Unit := look fun _ => .ok ()

/-- The renames once this one has met its fate. -/
def recorded (d : Disk) (source target : Path) : List (Path × Path) :=
  if (d.fates 0).effective ∧ (renameFile d.files source target).isOk then (source,target)::d.moves
  else d.moves

def rename (source target : Path) : Sys IoError Unit := ⟨fun d =>
  let after := (atomic fun files => renameFile files source target).run d
  (after.1,{ after.2 with moves := recorded d source target })⟩

theorem recorded_ok {d : Disk} {source target : Path} {after : Files}
    (h : renameFile d.files source target = .ok after) :
    recorded d source target =
      if (d.fates 0).effective then (source,target)::d.moves else d.moves := by
  rw [recorded,h]
  exact if_congr (and_iff_left rfl) rfl rfl

theorem recorded_error {d : Disk} {source target : Path} {e : IoError}
    (h : renameFile d.files source target = .error e) : recorded d source target = d.moves := by
  rw [recorded,h]
  exact if_neg fun hboth => Bool.false_ne_true hboth.2

theorem accomplish_ok {op : Files → Except IoError Files} {files after : Files}
    (h : op files = .ok after) : accomplish op files = .ok () := by
  rw [accomplish,h]
  rfl

theorem settled_ok {op : Files → Except IoError Files} {files after : Files}
    (h : op files = .ok after) : settled op files = after := by
  rw [settled,h]

/-- A call which was answered has worked. -/
theorem call_done {natural : Files → Except IoError A} {effect : Fate → Files → Files} {d d' : Disk}
    {a : A} (h : (call natural effect).run d = (.done a,d')) :
    natural d.files = .ok a ∧ d'.files = effect .works d.files := by
  rw [call_run,Prod.mk.injEq] at h
  obtain ⟨hworks,hnatural⟩ := Fate.answer_done h.1
  refine ⟨hnatural,?_⟩
  rw [← h.2,hworks,Disk.next_files]

theorem atomic_done {op : Files → Except IoError Files} {d d' : Disk}
    (h : (atomic op).run d = (.done (),d')) : op d.files = .ok d'.files := by
  obtain ⟨hnatural,hfiles⟩ := call_done h
  cases hop : op d.files with
  | ok after =>
      rw [hfiles]
      exact congrArg Except.ok (settled_ok hop).symm
  | error e =>
      rw [accomplish,hop] at hnatural
      cases hnatural

/-- A possible operation whose one error is tolerated: the files follow the fate, and the
program goes on if the fate lets it. -/
theorem tolerate_atomic_bind {op : Files → Except IoError Files} {d : Disk} {after : Files}
    (h : op d.files = .ok after) (tolerated : IoError) (k : Sys IoError A) :
    ((tolerate tolerated (atomic op) >>= fun _ => k).run d) =
      if (d.fates 0).passes tolerated then
        k.run (d.next (if (d.fates 0).effective then after else d.files))
      else ((d.fates 0).answer (.error tolerated),
        d.next (if (d.fates 0).effective then after else d.files)) := by
  rw [bind_run,tolerate]
  dsimp only
  rw [atomic,call_run,accomplish_ok h,settled_ok h]
  cases d.fates 0 with
  | works => rfl
  | fails e done =>
      by_cases he : e = tolerated
      · simp [Fate.answer,Fate.passes,he]
      · simp [Fate.answer,Fate.passes,he]
  | crashes done => rfl

/-- Directories are made if the call works and the tree allows it. -/
theorem mkdirs_done {d d' : Disk} {path : Path} (h : (mkdirs path).run d = (.done (),d')) :
    d.fates 0 = .works ∧ ∃ after, createDirAll d.files path = .ok after := by
  have hanswer := congrArg Prod.fst h
  change (d.fates 0).answer (accomplish (fun files => createDirAll files path) d.files) =
    .done () at hanswer
  obtain ⟨hworks,hok⟩ := Fate.answer_done hanswer
  refine ⟨hworks,?_⟩
  cases hcreated : createDirAll d.files path with
  | ok after => exact ⟨after,rfl⟩
  | error e =>
      rw [accomplish,hcreated] at hok
      cases hok

theorem mkdirs_works {d : Disk} {path : Path} {after : Files} (hworks : d.fates 0 = .works)
    (h : createDirAll d.files path = .ok after) : (mkdirs path).run d = (.done (),d.next after) := by
  rw [mkdirs,call_run,hworks,accomplish_ok h,Fate.portion,settled_ok h]
  rfl

theorem mkdirs_made {d d' : Disk} {path : Path} (h : (mkdirs path).run d = (.done (),d')) :
    createDirAll d.files path = .ok d'.files := by
  obtain ⟨hworks,after,hmade⟩ := mkdirs_done h
  rw [mkdirs_works hworks hmade] at h
  cases h
  exact hmade

theorem rename_ok_disk {d : Disk} {source target : Path} {after : Files}
    (h : renameFile d.files source target = .ok after) :
    ((rename source target).run d).2.files = (if (d.fates 0).effective then after else d.files) ∧
      ((rename source target).run d).2.moves =
        if (d.fates 0).effective then (source,target)::d.moves else d.moves := by
  refine ⟨?_,recorded_ok h⟩
  rw [rename]
  dsimp only
  rw [atomic,call_run,settled_ok h,Disk.next_files]

theorem rename_error_disk {d : Disk} {source target : Path} {e : IoError}
    (h : renameFile d.files source target = .error e) :
    ((rename source target).run d).2.files = d.files ∧
      ((rename source target).run d).2.moves = d.moves := by
  refine ⟨?_,recorded_error h⟩
  rw [rename]
  dsimp only
  rw [atomic,call_run,settled,h,Disk.next_files]
  exact ite_self _

/-- A rename which was answered took place. -/
theorem rename_done {d d' : Disk} {source target : Path}
    (h : (rename source target).run d = (.done (),d')) : d'.moves = (source,target)::d.moves := by
  have hanswer := congrArg Prod.fst h
  have hdisk := congrArg Prod.snd h
  change (d.fates 0).answer (accomplish (fun files => renameFile files source target) d.files) =
    .done () at hanswer
  obtain ⟨hworks,hok⟩ := Fate.answer_done hanswer
  cases hrenamed : renameFile d.files source target with
  | ok after =>
      have hmoves := (rename_ok_disk hrenamed).2
      rw [hdisk,hworks] at hmoves
      exact hmoves
  | error e =>
      rw [accomplish,hrenamed] at hok
      cases hok

/-- A call which only looks stops the program or shows it the unchanged files. -/
theorem look_bind {natural : Files → Except IoError A} {d : Disk} {a : A}
    (h : natural d.files = .ok a) (translate : IoError → E) (k : A → Sys E B) :
    ((mapError translate (look natural) >>= k).run d).2 =
      if d.fates 0 = .works then ((k a).run (d.next d.files)).2 else d.next d.files := by
  rw [bind_run,mapError_run,look,call_run,h]
  cases d.fates 0 with
  | works => rfl
  | fails e done => rfl
  | crashes done => rfl

theorem look_error_bind {natural : Files → Except IoError A} {d : Disk} {e : IoError}
    (h : natural d.files = .error e) (translate : IoError → E) (k : A → Sys E B) :
    ((mapError translate (look natural) >>= k).run d).2 = d.next d.files := by
  rw [bind_run,mapError_run,look,call_run,h]
  cases d.fates 0 with
  | works => rfl
  | fails e done => rfl
  | crashes done => rfl

theorem syncAll_bind (d : Disk) (translate : IoError → E) (k : Unit → Sys E B) :
    ((mapError translate syncAll >>= k).run d).2 =
      if d.fates 0 = .works then ((k ()).run (d.next d.files)).2 else d.next d.files :=
  @look_bind E Unit B (fun _ => .ok ()) d () rfl translate k

theorem readToEnd_bind {d : Disk} {path : Path} {bytes : List UInt8}
    (h : content d.files path = some bytes) (translate : IoError → E) (k : List UInt8 → Sys E B) :
    ((mapError translate (readToEnd path) >>= k).run d).2 =
      if d.fates 0 = .works then ((k bytes).run (d.next d.files)).2 else d.next d.files :=
  look_bind (readFile_content.mpr h) translate k

/-- Without a file to read the program stops. -/
theorem readToEnd_bind_none {d : Disk} {path : Path} (h : content d.files path = none)
    (translate : IoError → E) (k : List UInt8 → Sys E B) :
    ((mapError translate (readToEnd path) >>= k).run d).2 = d.next d.files := by
  cases hread : readFile d.files path with
  | ok bytes => cases h.symm.trans (readFile_content.mp hread)
  | error e => exact look_error_bind hread translate k

end Calls

section Calm
variable {files : Files} {moves : List (Path × Path)}

theorem atomic_calm (op : Files → Except IoError Files) :
    (atomic op).run (calm files moves) = match op files with
      | .ok after => (.done (),calm after moves)
      | .error e => (.failed e,calm files moves) := by
  rw [atomic,call_run,calm]
  dsimp only
  rw [accomplish,settled]
  cases op files <;> rfl

theorem mkdirs_calm (path : Path) :
    (mkdirs path).run (calm files moves) = match createDirAll files path with
      | .ok after => (.done (),calm after moves)
      | .error e => (.failed e,calm files moves) :=
  atomic_calm fun files => createDirAll files path

theorem write_calm (path : Path) (bytes : List UInt8) :
    (write path bytes).run (calm files moves) = match writeAll files path bytes with
      | (.ok (),after) => (.done (),calm after moves)
      | (.error e,after) => (.failed e,calm after moves) := by
  rw [write,call_run,calm]
  dsimp only
  rw [Fate.portion]
  cases writeAll files path bytes with
  | mk answer after => cases answer <;> rfl

theorem look_calm (natural : Files → Except IoError A) :
    (look natural).run (calm files moves) = match natural files with
      | .ok a => (.done a,calm files moves)
      | .error e => (.failed e,calm files moves) := by
  rw [look,call_run,calm]
  dsimp only
  cases natural files <;> rfl

theorem rename_calm (source target : Path) :
    (rename source target).run (calm files moves) = match renameFile files source target with
      | .ok after => (.done (),calm after ((source,target)::moves))
      | .error e => (.failed e,calm files moves) := by
  rw [rename]
  dsimp only
  rw [atomic_calm]
  cases h : renameFile files source target with
  | ok after =>
      rw [@recorded_ok (calm files moves) source target after h]
      rfl
  | error e => rw [@recorded_error (calm files moves) source target e h]

end Calm

section Kept
variable {obs : Disk → B}

/-- Whatever the fates, the program does not change what is observed of the disk. -/
def Keeps (obs : Disk → B) (op : Sys E A) : Prop := ∀ d, obs (op.run d).2 = obs d

theorem keeps_pure (a : A) : Keeps obs (pure a : Sys E A) := fun _ => rfl

theorem keeps_fail (e : E) : Keeps obs (fail e : Sys E A) := fun _ => rfl

/-- What follows keeps the observation which the first part has left. -/
theorem keeps_after {C : Type} {op : Sys E A} {f : A → Sys E C} (hf : ∀ a, Keeps obs (f a))
    (d : Disk) : obs ((op >>= f).run d).2 = obs (op.run d).2 := by
  rw [bind_run]
  cases op.run d with
  | mk r mid =>
      cases r with
      | done a => exact hf a mid
      | failed e => rfl
      | crashed => rfl

theorem keeps_bind {C : Type} {op : Sys E A} {f : A → Sys E C} (hop : Keeps obs op)
    (hf : ∀ a, Keeps obs (f a)) : Keeps obs (op >>= f) :=
  fun d => (keeps_after hf d).trans (hop d)

theorem mapError_disk (translate : E → E') (op : Sys E A) (d : Disk) :
    ((mapError translate op).run d).2 = (op.run d).2 := by
  rw [mapError_run]
  cases op.run d with
  | mk r mid => cases r <;> rfl

theorem keeps_mapError {translate : E → E'} {op : Sys E A} (h : Keeps obs op) :
    Keeps obs (mapError translate op) := by
  intro d
  rw [mapError_disk]
  exact h d

theorem keeps_tolerate {tolerated : IoError} {op : Sys IoError Unit} (h : Keeps obs op) :
    Keeps obs (tolerate tolerated op) := by
  intro d
  rw [← h d,tolerate]
  dsimp only
  cases op.run d with
  | mk r mid =>
      cases r with
      | done a => rfl
      | failed e =>
          dsimp only
          split <;> rfl
      | crashed => rfl

/-- The rename apart, no call touches the record of renames. -/
theorem keeps_moves_look (natural : Files → Except IoError A) : Keeps Disk.moves (look natural) :=
  fun _ => rfl

theorem keeps_moves_unlink (path : Path) : Keeps Disk.moves (unlink path) := fun _ => rfl

theorem keeps_moves_openNew (path : Path) : Keeps Disk.moves (openNew path) := fun _ => rfl

theorem keeps_moves_mkdirs (path : Path) : Keeps Disk.moves (mkdirs path) := fun _ => rfl

theorem keeps_moves_write (path : Path) (bytes : List UInt8) : Keeps Disk.moves (write path bytes) :=
  fun _ => rfl

theorem keeps_files_look (natural : Files → Except IoError A) :
    Keeps Disk.files (look natural) := fun _ => rfl

end Kept

section Seen
variable {p path : Path}

/-- What a reader sees at a path. -/
def seen (p : Path) (d : Disk) : Option (List UInt8) := content d.files p

theorem keeps_seen_look (natural : Files → Except IoError A) : Keeps (seen p) (look natural) :=
  fun _ => rfl

theorem content_settled {op : Files → Except IoError Files} {files : Files}
    (h : ∀ after, op files = .ok after → content after p = content files p) :
    content (settled op files) p = content files p := by
  unfold settled
  split
  · rename_i after hafter
    exact h after hafter
  · rfl

theorem keeps_seen_atomic {op : Files → Except IoError Files}
    (h : ∀ files after, op files = .ok after → content after p = content files p) :
    Keeps (seen p) (atomic op) := by
  intro d
  rw [atomic,call_run,seen,Disk.next_files]
  split
  · exact content_settled (h d.files)
  · rfl

theorem keeps_seen_unlink (hne : p ≠ path) : Keeps (seen p) (unlink path) := by
  apply keeps_seen_atomic
  intro files after hafter
  rw [removeFile_ok hafter]
  exact content_set_ne _ hne

theorem keeps_seen_openNew (hne : p ≠ path) : Keeps (seen p) (openNew path) := by
  apply keeps_seen_atomic
  intro files after hafter
  rw [createNew_ok hafter]
  exact content_set_ne _ hne

theorem keeps_seen_mkdirs (path : Path) : Keeps (seen p) (mkdirs path) := by
  intro d
  rw [mkdirs,call_run,seen,Disk.next_files]
  exact content_settled fun after => content_createDirAll

theorem keeps_seen_write (hne : p ≠ path) (bytes : List UInt8) : Keeps (seen p) (write path bytes) := by
  intro d
  exact content_writeAll_ne hne _

end Seen

end OmegaHarness.FaultyFiles
