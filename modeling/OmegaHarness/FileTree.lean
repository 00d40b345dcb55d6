import Mathlib.Tactic

/-!
# A tree of files

A path is the list of its components from the root. It is absent, a directory, or a file
with its bytes. The operations never fail by themselves: an error says that the tree does
not have the shape which the operation needs, or that a file would outgrow the largest
offset. What a caller can observe of a path is its content, and each operation changes the
content of the paths it names and of no others.
-/
namespace OmegaHarness.FileTree

abbrev Path := List String

inductive Node where
  | dir
  | file (bytes : List UInt8)
  deriving DecidableEq, Repr

abbrev Files := Path → Option Node

inductive IoError where
  | notFound
  | alreadyExists
  | notADirectory
  | isADirectory
  | fileTooLarge
  deriving DecidableEq, Repr

/-- The largest offset in a file. -/
def maxFileBytes : ℕ := 2^63-1

/-- The bytes of a file. Absent paths and directories have none. -/
def content (files : Files) (path : Path) : Option (List UInt8) :=
  match files path with
  | some (.file bytes) => some bytes
  | some .dir => none
  | none => none

def set (files : Files) (path : Path) (node : Option Node) : Files :=
  fun p => if p = path then node else files p

/-- The error of a path which does not exist: one of its parents may be a file. -/
def missing (files : Files) (path : Path) : IoError :=
  if path.dropLast.inits.any fun p => (content files p).isSome then .notADirectory else .notFound

/-- Walk down the components and create the directories which are absent. -/
def createDirs (files : Files) : Path → Path → Except IoError Files
  | _,[] => .ok files
  | parent,name::rest =>
      match files (parent++[name]) with
      | some .dir => createDirs files (parent++[name]) rest
      | some (.file _) => .error (if rest.isEmpty then .alreadyExists else .notADirectory)
      | none => createDirs (set files (parent++[name]) (some .dir)) (parent++[name]) rest

def createDirAll (files : Files) (path : Path) : Except IoError Files := createDirs files [] path

def removeFile (files : Files) (path : Path) : Except IoError Files :=
  match files path with
  | some (.file _) => .ok (set files path none)
  | some .dir => .error .isADirectory
  | none => .error (missing files path)

/-- Create an empty file at a path which must be absent. -/
def createNew (files : Files) (path : Path) : Except IoError Files :=
  match files path with
  | some _ => .error .alreadyExists
  | none => match files path.dropLast with
    | some .dir => .ok (set files path (some (.file [])))
    | some (.file _) => .error .notADirectory
    | none => .error (missing files path)

/-- Append to an open file. A write which reaches the largest offset stops there, and what
is written to a file without a name is lost. -/
def writeAll (files : Files) (path : Path) (bytes : List UInt8) : Except IoError Unit × Files :=
  match files path with
  | some (.file old) =>
      if old.length+bytes.length ≤ maxFileBytes then (.ok (),set files path (some (.file (old++bytes))))
      else (.error .fileTooLarge,
        set files path (some (.file (old++bytes.take (maxFileBytes-old.length)))))
  | some .dir => (.ok (),files)
  | none => (.ok (),files)

def readFile (files : Files) (path : Path) : Except IoError (List UInt8) :=
  match files path with
  | some (.file bytes) => .ok bytes
  | some .dir => .error .isADirectory
  | none => .error (missing files path)

/-- Move a file over an absent path or another file. -/
def renameFile (files : Files) (source target : Path) : Except IoError Files :=
  match files source with
  | none => .error (missing files source)
  | some .dir => .error .isADirectory
  | some (.file bytes) =>
      if source = target then .ok files
      else match files target with
        | some .dir => .error .isADirectory
        | some (.file _) => .ok (set (set files source none) target (some (.file bytes)))
        | none => match files target.dropLast with
          | some .dir => .ok (set (set files source none) target (some (.file bytes)))
          | some (.file _) => .error .notADirectory
          | none => .error (missing files target)

section Content
variable {files files' : Files} {path p : Path} {node : Option Node}

@[simp] theorem set_same (node : Option Node) : set files path node path = node := if_pos rfl

theorem set_ne (node : Option Node) (h : p ≠ path) : set files path node p = files p := if_neg h

theorem set_self (h : files path = node) : set files path node = files := by
  funext p
  by_cases hp : p = path
  · rw [hp,set_same,h]
  · rw [set_ne _ hp]

theorem set_set (old new : Option Node) : set (set files path old) path new = set files path new := by
  funext p
  by_cases hp : p = path
  · rw [hp,set_same,set_same]
  · rw [set_ne _ hp,set_ne _ hp,set_ne _ hp]

theorem content_file {bytes : List UInt8} (h : files path = some (.file bytes)) :
    content files path = some bytes := by
  rw [content,h]

theorem content_set_ne (node : Option Node) (h : p ≠ path) :
    content (set files path node) p = content files p := by
  rw [content,content,set_ne node h]

theorem content_set_file (bytes : List UInt8) :
    content (set files path (some (.file bytes))) path = some bytes :=
  content_file (set_same _)

theorem file_of_content {bytes : List UInt8} (h : content files path = some bytes) :
    files path = some (.file bytes) := by
  unfold content at h
  split at h
  · rename_i other hfile
    rw [hfile,Option.some.inj h]
  · cases h
  · cases h

/-- A new directory stands where nothing was, so no content changes. -/
theorem content_createDirs {parent rest : Path} (h : createDirs files parent rest = .ok files') :
    content files' p = content files p := by
  induction rest generalizing files parent with
  | nil =>
      cases h
      rfl
  | cons name rest ih =>
      rw [createDirs] at h
      split at h
      · exact ih h
      · cases h
      · rename_i habsent
        rw [ih h]
        by_cases hp : p = parent++[name]
        · rw [hp,content,content,set_same,habsent]
        · exact content_set_ne _ hp

theorem content_createDirAll (h : createDirAll files path = .ok files') :
    content files' p = content files p :=
  content_createDirs h

/-- The path and all its parents are directories. -/
def DirTo (files : Files) (path : Path) : Prop := ∀ p, p <+: path → files p = some .dir

theorem DirTo.self (h : DirTo files path) : files path = some .dir := h path (List.prefix_refl path)

theorem DirTo.concat {name : String} (h : DirTo files path) (hname : files (path++[name]) = some .dir) :
    DirTo files (path++[name]) := by
  intro p hp
  rcases List.prefix_concat_iff.mp hp with rfl | hparent
  · exact hname
  · exact h p hparent

/-- A path which is no directory can be overwritten below the same directories. -/
theorem DirTo.set {q : Path} (h : DirTo files path) (hq : files q ≠ some .dir) (node : Option Node) :
    DirTo (set files q node) path := by
  intro p hp
  have hne : p ≠ q := by
    rintro rfl
    exact hq (h p hp)
  rw [set_ne _ hne]
  exact h p hp

theorem createDirs_dirTo {parent rest : Path} (h : createDirs files parent rest = .ok files')
    (hparent : DirTo files parent) : DirTo files' (parent++rest) := by
  induction rest generalizing files parent with
  | nil =>
      cases h
      rw [List.append_nil]
      exact hparent
  | cons name rest ih =>
      have hpath : parent++name::rest = (parent++[name])++rest := by
        rw [List.append_assoc]
        rfl
      rw [hpath]
      rw [createDirs] at h
      split at h
      · rename_i hdir
        exact ih h (hparent.concat hdir)
      · cases h
      · rename_i habsent
        have hnew : DirTo (FileTree.set files (parent++[name]) (some .dir)) parent :=
          hparent.set (by rw [habsent]; nofun) _
        exact ih h (hnew.concat (set_same _))

/-- Directories stay where they are. -/
theorem createDirs_dir {parent rest : Path} (h : createDirs files parent rest = .ok files')
    (hdir : files p = some .dir) : files' p = some .dir := by
  induction rest generalizing files parent with
  | nil =>
      cases h
      exact hdir
  | cons name rest ih =>
      rw [createDirs] at h
      split at h
      · exact ih h hdir
      · cases h
      · rename_i habsent
        have hne : p ≠ parent++[name] := by
          rintro rfl
          cases habsent.symm.trans hdir
        exact ih h (by rw [set_ne _ hne,hdir])

theorem createDirAll_dirTo (h : createDirAll files path = .ok files') (hroot : files [] = some .dir) :
    DirTo files' path := by
  have hparent : DirTo files [] := by
    intro p hp
    rw [List.prefix_nil.mp hp]
    exact hroot
  exact createDirs_dirTo h hparent

/-- Below directories the only error of an absent path is that it is absent. -/
theorem missing_below (h : DirTo files path.dropLast) : missing files path = .notFound := by
  unfold missing
  apply if_neg
  rw [List.any_eq_true]
  rintro ⟨p,hp,hfile⟩
  rw [content,h p ((List.mem_inits _ _).mp hp)] at hfile
  cases hfile

theorem removeFile_ok (h : removeFile files path = .ok files') : files' = set files path none := by
  unfold removeFile at h
  split at h
  · cases h
    rfl
  · cases h
  · cases h

theorem createNew_ok (h : createNew files path = .ok files') :
    files' = set files path (some (.file [])) := by
  unfold createNew at h
  split at h
  · cases h
  · split at h
    · cases h
      rfl
    · cases h
    · cases h

theorem createNew_absent (habsent : files path = none) (hparent : files path.dropLast = some .dir) :
    createNew files path = .ok (set files path (some (.file []))) := by
  rw [createNew,habsent]
  dsimp only
  rw [hparent]

theorem writeAll_file {old bytes : List UInt8} (h : files path = some (.file old))
    (hfits : old.length+bytes.length ≤ maxFileBytes) :
    writeAll files path bytes = (.ok (),set files path (some (.file (old++bytes)))) := by
  rw [writeAll,h]
  exact if_pos hfits

/-- A write to a named file which succeeded appended all of its bytes. -/
theorem writeAll_ok {old bytes : List UInt8} (h : files path = some (.file old))
    (hwrite : writeAll files path bytes = (.ok (),files')) :
    old.length+bytes.length ≤ maxFileBytes ∧ files' = set files path (some (.file (old++bytes))) := by
  rw [writeAll,h] at hwrite
  dsimp only at hwrite
  split at hwrite
  · rename_i hfits
    cases hwrite
    exact ⟨hfits,rfl⟩
  · cases hwrite

/-- Whatever a write comes to, what was in the file stays in front. -/
theorem writeAll_extends {old : List UInt8} (h : files path = some (.file old)) (bytes : List UInt8) :
    ∃ more, content (writeAll files path bytes).2 path = some (old++more) ∧
      ((writeAll files path bytes).1 = .ok () → more = bytes) := by
  rw [writeAll,h]
  dsimp only
  split
  · exact ⟨bytes,content_set_file _,fun _ => rfl⟩
  · exact ⟨_,content_set_file _,nofun⟩

theorem content_writeAll_ne (h : p ≠ path) (bytes : List UInt8) :
    content (writeAll files path bytes).2 p = content files p := by
  unfold writeAll
  split
  · split
    · exact content_set_ne _ h
    · exact content_set_ne _ h
  · rfl
  · rfl

theorem readFile_content {bytes : List UInt8} :
    readFile files path = .ok bytes ↔ content files path = some bytes := by
  unfold readFile content
  cases files path with
  | none => exact ⟨nofun,nofun⟩
  | some node =>
      cases node with
      | dir => exact ⟨nofun,nofun⟩
      | file stored => rw [Except.ok.injEq,Option.some.injEq]

theorem renameFile_ok {source target : Path} {bytes : List UInt8}
    (h : renameFile files source target = .ok files') (hsource : files source = some (.file bytes))
    (hne : source ≠ target) : files' = set (set files source none) target (some (.file bytes)) := by
  rw [renameFile,hsource] at h
  dsimp only at h
  rw [if_neg hne] at h
  split at h
  · cases h
  · cases h
    rfl
  · split at h
    · cases h
      rfl
    · cases h
    · cases h

/-- A file which was moved to an absent path is below a directory. -/
theorem renameFile_parent {source target : Path} (h : renameFile files source target = .ok files')
    (habsent : files target = none) : target ≠ [] ∧ files' target.dropLast = some .dir := by
  unfold renameFile at h
  split at h
  · cases h
  · cases h
  rename_i bytes hsource
  have hne : source ≠ target := by
    rintro rfl
    cases habsent.symm.trans hsource
  rw [if_neg hne,habsent] at h
  dsimp only at h
  split at h
  · rename_i hparent
    cases h
    have hdown : target.dropLast ≠ target := by
      intro heq
      rw [heq,habsent] at hparent
      cases hparent
    have hother : target.dropLast ≠ source := by
      intro heq
      rw [heq,hsource] at hparent
      cases hparent
    refine ⟨?_,?_⟩
    · rintro rfl
      exact hdown rfl
    · rw [set_ne _ hdown,set_ne _ hother,hparent]
  · cases h
  · cases h

theorem renameFile_absent {source target : Path} {bytes : List UInt8}
    (hsource : files source = some (.file bytes)) (hne : source ≠ target)
    (htarget : files target = none) (hparent : files target.dropLast = some .dir) :
    renameFile files source target = .ok (set (set files source none) target (some (.file bytes))) := by
  rw [renameFile,hsource]
  dsimp only
  rw [if_neg hne,htarget]
  dsimp only
  rw [hparent]

end Content

end OmegaHarness.FileTree
