import OmegaHarness.CommitCommand
import OmegaHarness.FaultyFiles
import OmegaHarness.NodeConfigs
import OmegaHarness.RaftTypes
import OmegaHarness.TextFiles

/-!
# Starting a node

The first steps of `start`: the configuration is checked, the keypair is read or created,
and the ledger is opened. All of them work on files, and any of their system calls may fail
or be the last one before a crash. The keypair and its encoding belong to the network
library. The database library rewrites the file of the database on opening, and the files
beside it, in a way which is not given here; it takes some names for its own, which are no
paths. Everything later in `start` needs the opened ledger.
-/
namespace OmegaHarness.NodeStart
open FallibleSteps FileTree FaultyFiles SeparatedTexts LedgerStore CommitCommand NodeConfigs
open TextFiles (errorText create create_ok)
open RaftTypes (listedCodec listedCodec_roundTrips)

/-- The stem and the extension of a file name. A dot in front is a part of the stem. -/
def splitName (name : String) : Option (String × String) :=
  match rsplitOnce '.' name.toList with
  | none => none
  | some (stem,ext) => if stem.isEmpty then none else some (String.ofList stem,String.ofList ext)

def fileStem (name : String) : String :=
  match splitName name with
  | none => name
  | some parts => parts.1

/-- The last component, unless it leads to the parent. -/
def fileName (path : Path) : Option String := path.getLast?.filter (· ≠ "..")

def extension (path : Path) : Option String := do
  let name ← fileName path
  let parts ← splitName name
  return parts.2

def withExtension (path : Path) (ext : String) : Path :=
  match fileName path with
  | none => path
  | some name => path.dropLast++[fileStem name++"."++ext]

def identityPath (config : NodeConfig) : Path :=
  match config.identityFile with
  | some path => path
  | none =>
      if (extension config.dataDir).isSome then withExtension config.dataDir "identity.bin"
      else config.dataDir++["identity.bin"]

/-- The encoding of keypairs. -/
structure KeyCodec (K : Type) where
  toProtobuf : K → Except String (List UInt8)
  fromProtobuf : List UInt8 → Except String K

/-- A file is created or emptied, and then written. -/
def replaceFile (path : Path) (bytes : List UInt8) : Sys IoError Unit := do
  atomic fun files => create files path
  write path bytes

inductive SideFile where
  | journal
  | wal
  | shm
  deriving DecidableEq

def SideFile.suffix : SideFile → String
  | .journal => "-journal"
  | .wal => "-wal"
  | .shm => "-shm"

def sideFile (path : Path) (side : SideFile) : Path :=
  match path.getLast? with
  | none => path
  | some name => path.dropLast++[name++side.suffix]

/-- What the database library does with names and files: the file of a URI, none for a
database in memory, and what is in a database's files after it has been opened. -/
structure Sqlite where
  uri : String → Except IoError (Option Path)
  initialized : List UInt8 → (SideFile → Option FileTree.Node) →
    List UInt8 × (SideFile → Option FileTree.Node)

/-- A name which the library takes for a path. -/
def Literal (name : String) : Prop :=
  name ≠ "" ∧ name ≠ ":memory:" ∧ ¬"file:".toList <+: name.toList

instance (name : String) : Decidable (Literal name) := inferInstanceAs (Decidable (_ ∧ _ ∧ _))

def databaseFile (sqlite : Sqlite) (name : String) (path : Path) : Except IoError (Option Path) :=
  if Literal name then .ok (some path)
  else if name = "" ∨ name = ":memory:" then .ok none
  else sqlite.uri name

/-- The file of a database and those beside it. -/
def databaseFiles (sqlite : Sqlite) (name : String) (path : Path) : List Path :=
  match databaseFile sqlite name path with
  | .ok (some file) => file::[.journal,.wal,.shm].map (sideFile file)
  | .ok none => []
  | .error _ => []

def place (files : Files) (path : Path) (after : List UInt8 × (SideFile → Option FileTree.Node)) :
    Files :=
  set (set (set (set files path (some (.file after.1)))
    (sideFile path .journal) (after.2 .journal)) (sideFile path .wal) (after.2 .wal))
    (sideFile path .shm) (after.2 .shm)

def openFile (sqlite : Sqlite) (path : Path) (files : Files) : Except IoError Files :=
  match files path with
  | some .dir => .error .isADirectory
  | some (.file bytes) =>
      .ok (place files path (sqlite.initialized bytes fun side => files (sideFile path side)))
  | none => (createNew files path).map fun created =>
      place created path (sqlite.initialized [] fun side => files (sideFile path side))

def openDatabase (sqlite : Sqlite) (name : String) (path : Path) : Sys IoError Unit := do
  match ← ofExcept (databaseFile sqlite name path) with
  | none => return ()
  | some file => atomic (openFile sqlite file)

def openLedger (sqlite : Sqlite) (name : String) (path : Path) : Sys LedgerError Unit := do
  mapError (fun e => .io (errorText e)) (mkdirs path.dropLast)
  mapError (fun _ => .sqlite (.failure ("unable to open database file: "++name)))
    (openDatabase sqlite name path)

section Start
variable {K : Type} (display : SocketAddr → String) (spelled : Path → String)
  (codec : KeyCodec K) (sqlite : Sqlite) (config : NodeConfig) (fresh : K)

def identityError (step reason : String) : ConsensusError :=
  .identity ("identity_file "++spelled (identityPath config)++" "++step++": "++reason)

def createIdentity : Sys ConsensusError K := do
  let bytes ← ofExcept ((codec.toProtobuf fresh).mapError (identityError spelled config "encode"))
  mapError (fun e => identityError spelled config "parent" (errorText e))
    (mkdirs (identityPath config).dropLast)
  mapError (fun e => identityError spelled config "write" (errorText e))
    (replaceFile (identityPath config) bytes)
  return fresh

def loadOrCreateIdentity : Sys ConsensusError K := do
  match ← caught (readToEnd (identityPath config)) with
  | .ok bytes => ofExcept ((codec.fromProtobuf bytes).mapError (identityError spelled config "decode"))
  | .error .notFound => createIdentity spelled codec config fresh
  | .error e => fail (identityError spelled config "read" (errorText e))

/-- What `start` does up to the opened ledger; a new keypair would be `fresh`. The
configuration has written its paths from the root or from where the node is started. -/
def openNode : Sys ConsensusError K := do
  ofExcept (validateConfig display config)
  let key ← loadOrCreateIdentity spelled codec config fresh
  mapError .storage (openLedger sqlite (spelled config.dataDir) config.dataDir)
  return key

end Start

section Paths

theorem splitName_some {name stem ext : String} (h : splitName name = some (stem,ext)) :
    name = stem++"."++ext ∧ '.' ∉ ext.toList := by
  rw [splitName] at h
  split at h
  · cases h
  · next front rest hsplit =>
      split at h
      · cases h
      · cases h
        obtain ⟨hname,hfree⟩ := rsplitOnce_some.mp hsplit
        refine ⟨?_,by rwa [String.toList_ofList]⟩
        rw [← String.toList_inj,hname]
        simp

theorem splitName_none {name : String} (h : '.' ∉ name.toList) : splitName name = none := by
  rw [splitName,rsplitOnce_none.mpr h]

theorem fileName_concat (path : Path) {name : String} (h : name ≠ "..") :
    fileName (path++[name]) = some name := by
  simp [fileName,h]

theorem extension_concat (path : Path) {name : String} (h : '.' ∉ name.toList) :
    extension (path++[name]) = none := by
  have hname : name ≠ ".." := by
    rintro rfl
    exact h (by decide)
  rw [extension,fileName_concat path hname]
  change ((splitName name).bind fun parts => some parts.2) = none
  rw [splitName_none h]
  rfl

/-- A path with an extension, and the path with another one in its place. -/
theorem extension_isSome {path : Path} (h : (extension path).isSome) :
    ∃ parent stem ext, path = parent++[stem++"."++ext] ∧ '.' ∉ ext.toList ∧
      ∀ new, withExtension path new = parent++[stem++"."++new] := by
  cases path using List.reverseRecOn with
  | nil => cases h
  | append_singleton parent name _ =>
      by_cases hname : name = ".."
      · rw [extension,fileName,List.getLast?_concat,hname] at h
        cases h
      · have hfile := fileName_concat parent hname
        cases hsplit : splitName name with
        | none =>
            rw [extension,hfile] at h
            change ((splitName name).bind fun parts => some parts.2).isSome at h
            rw [hsplit] at h
            cases h
        | some parts =>
            obtain ⟨hparts,hfree⟩ := splitName_some hsplit
            refine ⟨parent,parts.1,parts.2,by rw [hparts],hfree,?_⟩
            intro new
            rw [withExtension,hfile]
            dsimp only
            rw [fileStem,hsplit,List.dropLast_concat]

theorem sideFile_concat (path : Path) (name : String) (side : SideFile) :
    sideFile (path++[name]) side = path++[name++side.suffix] := by
  rw [sideFile,List.getLast?_concat,List.dropLast_concat]

theorem sideFile_length (path : Path) (side : SideFile) :
    (sideFile path side).length = path.length := by
  cases path using List.reverseRecOn with
  | nil => rfl
  | append_singleton path name _ =>
      rw [sideFile_concat,List.length_append,List.length_append]
      rfl

/-- The new extension has a dot of its own, so the name changes. -/
theorem withExtension_ne {path : Path} (h : (extension path).isSome) :
    withExtension path "identity.bin" ≠ path := by
  obtain ⟨parent,stem,ext,hpath,hfree,hnew⟩ := extension_isSome h
  rw [hnew,hpath]
  intro heq
  have hname := List.singleton_inj.mp (List.append_cancel_left heq)
  have hext : "identity.bin".toList = ext.toList := by
    apply @List.append_cancel_left _ (stem++".").toList
    rw [← String.toList_append,← String.toList_append,hname]
  apply hfree
  rw [← hext]
  decide

/-- No side file ends as the file of the keypair does. -/
theorem withExtension_ne_sideFile {path : Path} (h : (extension path).isSome) (side : SideFile) :
    withExtension path "identity.bin" ≠ sideFile path side := by
  obtain ⟨parent,stem,ext,hpath,-,hnew⟩ := extension_isSome h
  rw [hnew,hpath,sideFile_concat]
  intro heq
  have hname := List.singleton_inj.mp (List.append_cancel_left heq)
  have hlast := congrArg (fun text : String => text.toList.getLast?) hname
  simp only [String.toList_append,List.getLast?_append] at hlast
  cases side <;> simp [SideFile.suffix] at hlast

/-- A path from the root is never one of the library's own names. -/
theorem literal_displayPath (path : Path) : Literal (displayPath path) := by
  have hroot : (displayPath path).toList = '/'::(String.intercalate "/" path).toList := by
    rw [displayPath,String.toList_append]
    rfl
  refine ⟨?_,?_,?_⟩
  · intro heq
    rw [heq] at hroot
    cases hroot
  · intro heq
    rw [heq] at hroot
    cases hroot
  · rw [hroot]
    rintro ⟨rest,hrest⟩
    cases hrest

theorem identityPath_default {config : NodeConfig} (h : config.identityFile = none) :
    identityPath config = if (extension config.dataDir).isSome then
      withExtension config.dataDir "identity.bin" else config.dataDir++["identity.bin"] := by
  rw [identityPath,h]

/-- The keypair is not kept in a file of the database, unless it is told to be. -/
theorem identityPath_apart {sqlite : Sqlite} {spelled : Path → String} {config : NodeConfig}
    (hfile : ∀ path, config.identityFile = some path →
      path ∉ databaseFiles sqlite (spelled config.dataDir) config.dataDir)
    (hplain : config.identityFile = none → Literal (spelled config.dataDir)) :
    identityPath config ∉ databaseFiles sqlite (spelled config.dataDir) config.dataDir := by
  cases hidentity : config.identityFile with
  | some path =>
      have hpath : identityPath config = path := by rw [identityPath,hidentity]
      rw [hpath]
      exact hfile path hidentity
  | none =>
      rw [identityPath_default hidentity,databaseFiles,databaseFile,if_pos (hplain hidentity)]
      dsimp only
      rw [List.mem_cons,List.mem_map]
      split
      · next hext =>
          rintro (hmain | ⟨side,-,hside⟩)
          · exact withExtension_ne hext hmain
          · exact withExtension_ne_sideFile hext side hside.symm
      · rintro (hmain | ⟨side,-,hside⟩)
        · have hlength := congrArg List.length hmain
          simp at hlength
        · have hlength := congrArg List.length hside
          simp [sideFile_length] at hlength

end Paths

section Identity
variable {K : Type} {display : SocketAddr → String} {spelled : Path → String} {codec : KeyCodec K}
  {sqlite : Sqlite} {config : NodeConfig} {fresh key : K} {d d' : Disk}

theorem content_place {files : Files} {p path : Path} (hne : p ≠ path)
    (hside : ∀ side, p ≠ sideFile path side)
    (after : List UInt8 × (SideFile → Option FileTree.Node)) :
    content (place files path after) p = content files p := by
  rw [place,content_set_ne _ (hside _),content_set_ne _ (hside _),content_set_ne _ (hside _),
    content_set_ne _ hne]

theorem openFile_keeps {p path : Path} (hne : p ≠ path) (hside : ∀ side, p ≠ sideFile path side) :
    Keeps (seen p) (atomic (openFile sqlite path)) := by
  apply keeps_seen_atomic
  intro files after hafter
  rw [openFile] at hafter
  split at hafter
  · cases hafter
  · cases hafter
    exact content_place hne hside _
  · cases hcreated : createNew files path with
    | error e =>
        rw [hcreated] at hafter
        cases hafter
    | ok created =>
        rw [hcreated] at hafter
        cases hafter
        rw [content_place hne hside,createNew_ok hcreated,content_set_ne _ hne]

theorem openDatabase_keeps {p path : Path} {name : String}
    (hne : p ∉ databaseFiles sqlite name path) : Keeps (seen p) (openDatabase sqlite name path) := by
  rw [databaseFiles] at hne
  rw [openDatabase]
  cases hfile : databaseFile sqlite name path with
  | error e => exact keeps_fail e
  | ok target =>
      rw [hfile] at hne
      cases target with
      | none => exact keeps_pure ()
      | some file =>
          dsimp only at hne
          rw [List.mem_cons,List.mem_map,not_or] at hne
          refine openFile_keeps hne.1 fun side heq => hne.2 ⟨side,?_,heq.symm⟩
          cases side <;> decide

theorem openLedger_keeps {p path : Path} {name : String}
    (hne : p ∉ databaseFiles sqlite name path) : Keeps (seen p) (openLedger sqlite name path) :=
  keeps_bind (keeps_mapError (keeps_seen_mkdirs _))
    fun _ => keeps_mapError (openDatabase_keeps hne)

/-- The later steps do not touch the file of the keypair. -/
theorem openNode_seen
    (hne : identityPath config ∉ databaseFiles sqlite (spelled config.dataDir) config.dataDir)
    (hvalid : validateConfig display config = .ok ()) :
    seen (identityPath config) ((openNode display spelled codec sqlite config fresh).run d).2 =
      seen (identityPath config) ((loadOrCreateIdentity spelled codec config fresh).run d).2 := by
  rw [openNode,hvalid]
  have hafter : ∀ key : K, Keeps (seen (identityPath config)) (do
      mapError ConsensusError.storage (openLedger sqlite (spelled config.dataDir) config.dataDir)
      return key) :=
    fun key => keeps_bind (keeps_mapError (openLedger_keeps hne)) fun _ => keeps_pure key
  exact keeps_after hafter d

theorem openNode_done {key : K}
    (h : (openNode display spelled codec sqlite config fresh).run d = (.done key,d')) :
    validateConfig display config = .ok () ∧ ∃ mid,
      (loadOrCreateIdentity spelled codec config fresh).run d = (.done key,mid) ∧
      (openLedger sqlite (spelled config.dataDir) config.dataDir).run mid = (.done (),d') := by
  obtain ⟨_,start,hchecked,hsteps⟩ := bind_done.mp h
  obtain ⟨hvalid,rfl⟩ := ofExcept_done.mp hchecked
  obtain ⟨found,mid,hload,hsteps⟩ := bind_done.mp hsteps
  obtain ⟨_,after,hopen,hend⟩ := bind_done.mp hsteps
  cases hend
  exact ⟨hvalid,mid,hload,mapError_done.mp hopen⟩

/-- Where there is a keypair, the file is not touched, whatever becomes of the read. -/
theorem loadOrCreateIdentity_present {bytes : List UInt8}
    (hbytes : content d.files (identityPath config) = some bytes)
    (hhonest : ∀ n e done, d.fates n = .fails e done → e ≠ .notFound) :
    ((loadOrCreateIdentity spelled codec config fresh).run d).2.files = d.files ∧
      ∀ key, ((loadOrCreateIdentity spelled codec config fresh).run d).1 = .done key →
        codec.fromProtobuf bytes = .ok key := by
  have hread : readFile d.files (identityPath config) = .ok bytes := readFile_content.mpr hbytes
  rw [loadOrCreateIdentity,bind_run,caught]
  dsimp only
  rw [readToEnd,look,call_run,hread]
  cases hfate : d.fates 0 with
  | works =>
      dsimp only [Fate.answer]
      cases hdecoded : codec.fromProtobuf bytes with
      | ok found =>
          refine ⟨rfl,?_⟩
          intro key hkey
          cases hkey
          rfl
      | error e => exact ⟨rfl,fun _ hkey => by cases hkey⟩
  | fails e done =>
      have he := hhonest 0 e done hfate
      cases e with
      | notFound => exact (he rfl).elim
      | alreadyExists | notADirectory | isADirectory | fileTooLarge =>
          exact ⟨rfl,fun _ hkey => by cases hkey⟩
  | crashes done => exact ⟨rfl,fun _ hkey => by cases hkey⟩

theorem replaceFile_done {path : Path} {bytes : List UInt8}
    (h : (replaceFile path bytes).run d = (.done (),d')) :
    d'.files = set d.files path (some (.file bytes)) := by
  obtain ⟨_,mid,hcreate,hwrite⟩ := bind_done.mp h
  have hcreated := create_ok (atomic_done hcreate)
  have hempty : mid.files path = some (.file []) := by rw [hcreated,set_same]
  obtain ⟨hanswer,hfiles⟩ := call_done hwrite
  have hwritten := (writeAll_ok hempty (Prod.ext hanswer rfl)).2
  calc d'.files = (writeAll mid.files path bytes).2 := hfiles
    _ = set mid.files path (some (.file bytes)) := hwritten
    _ = set d.files path (some (.file bytes)) := by rw [hcreated,set_set]

theorem createIdentity_done (h : (createIdentity spelled codec config fresh).run d = (.done key,d')) :
    key = fresh ∧ ∃ bytes made, codec.toProtobuf fresh = .ok bytes ∧
      createDirAll d.files (identityPath config).dropLast = .ok made ∧
      d'.files = set made (identityPath config) (some (.file bytes)) := by
  obtain ⟨bytes,start,hencoded,hsteps⟩ := bind_done.mp h
  obtain ⟨hbytes,rfl⟩ := ofExcept_done.mp hencoded
  obtain ⟨_,mid,hdirs,hsteps⟩ := bind_done.mp hsteps
  obtain ⟨_,after,hreplaced,hend⟩ := bind_done.mp hsteps
  cases hend
  have hmade : createDirAll start.files (identityPath config).dropLast = .ok mid.files :=
    mkdirs_made (mapError_done.mp hdirs)
  exact ⟨rfl,bytes,mid.files,mapError_ok.mp hbytes,hmade,replaceFile_done (mapError_done.mp hreplaced)⟩

/-- A keypair was read, or a new one was written. -/
theorem loadOrCreateIdentity_done
    (h : (loadOrCreateIdentity spelled codec config fresh).run d = (.done key,d')) :
    (d'.files = d.files ∧ ∃ bytes, content d.files (identityPath config) = some bytes ∧
      codec.fromProtobuf bytes = .ok key) ∨
    ∃ bytes made, codec.toProtobuf key = .ok bytes ∧
      createDirAll d.files (identityPath config).dropLast = .ok made ∧
      d'.files = set made (identityPath config) (some (.file bytes)) := by
  obtain ⟨answer,mid,hread,hsteps⟩ := bind_done.mp h
  rcases caught_done.mp hread with ⟨bytes,rfl,hbytes⟩ | ⟨e,rfl,he⟩
  · obtain ⟨hdecoded,rfl⟩ := ofExcept_done.mp hsteps
    rw [readToEnd,look] at hbytes
    obtain ⟨hcontent,hfiles⟩ := call_done hbytes
    exact Or.inl ⟨hfiles,bytes,readFile_content.mp hcontent,mapError_ok.mp hdecoded⟩
  · have hfiles : mid.files = d.files := congrArg (fun r => r.2.files) he.symm
    cases e with
    | notFound =>
        obtain ⟨rfl,bytes,made,hbytes,hmade,hafter⟩ := createIdentity_done hsteps
        rw [hfiles] at hmade
        exact Or.inr ⟨bytes,made,hbytes,hmade,hafter⟩
    | alreadyExists => cases hsteps
    | notADirectory => cases hsteps
    | isADirectory => cases hsteps
    | fileTooLarge => cases hsteps

end Identity

section Histories
variable {K : Type} {display : SocketAddr → String} {spelled : Path → String} {codec : KeyCodec K}
  {sqlite : Sqlite} {config : NodeConfig} {files : Files} {keys : List K}

/-- Only the answer to a call on an absent file says that the file is absent. -/
def Honest (fates : ℕ → Fate) : Prop := ∀ n e done, fates n = .fails e done → e ≠ .notFound

def obtained {E : Type} : Result E K → List K
  | .done key => [key]
  | .failed _ => []
  | .crashed => []

/-- A node is started again and again, in whatever way each start ends. In between anything
may happen to the files, that of the keypair excepted. The keys are those of the starts
which came as far as the opened ledger. -/
inductive History (display : SocketAddr → String) (spelled : Path → String) (codec : KeyCodec K)
    (sqlite : Sqlite) (config : NodeConfig) : Files → List K → Prop
  | begins (files : Files) : History display spelled codec sqlite config files []
  | others {files files' : Files} {keys : List K}
      (history : History display spelled codec sqlite config files keys)
      (kept : content files' (identityPath config) = content files (identityPath config)) :
      History display spelled codec sqlite config files' keys
  | starts {d : Disk} {keys : List K} (fresh : K)
      (history : History display spelled codec sqlite config d.files keys) (honest : Honest d.fates) :
      History display spelled codec sqlite config
        ((openNode display spelled codec sqlite config fresh).run d).2.files
        (keys++obtained ((openNode display spelled codec sqlite config fresh).run d).1)

/-- The file holds this keypair. -/
def Holds (codec : KeyCodec K) (config : NodeConfig) (files : Files) (key : K) : Prop :=
  ∃ bytes, content files (identityPath config) = some bytes ∧ codec.fromProtobuf bytes = .ok key

/-- A start leaves a keypair which was there, and leaves the one it came up with. -/
theorem openNode_holds {d : Disk} {fresh : K}
    (hcodec : ∀ key bytes, codec.toProtobuf key = .ok bytes → codec.fromProtobuf bytes = .ok key)
    (hne : identityPath config ∉ databaseFiles sqlite (spelled config.dataDir) config.dataDir)
    (hhonest : Honest d.fates) :
    (∀ key, Holds codec config d.files key →
      Holds codec config ((openNode display spelled codec sqlite config fresh).run d).2.files key) ∧
    ∀ key ∈ obtained ((openNode display spelled codec sqlite config fresh).run d).1,
      Holds codec config ((openNode display spelled codec sqlite config fresh).run d).2.files key := by
  cases hvalid : validateConfig display config with
  | error e =>
      have hrun : (openNode display spelled codec sqlite config fresh).run d = (.failed e,d) := by
        rw [openNode,hvalid]
        rfl
      rw [hrun]
      exact ⟨fun _ h => h,fun _ h => by cases h⟩
  | ok _ =>
      have hseen := @openNode_seen K display spelled codec sqlite config fresh d hne hvalid
      constructor
      · rintro key ⟨bytes,hbytes,hkey⟩
        refine ⟨bytes,?_,hkey⟩
        have hfiles := (@loadOrCreateIdentity_present K spelled codec config fresh d bytes hbytes
          hhonest).1
        exact hseen.trans (by rw [seen,hfiles,hbytes])
      · intro key hkey
        cases hrun : (openNode display spelled codec sqlite config fresh).run d with
        | mk answer after =>
            rw [hrun] at hkey hseen
            cases answer with
            | failed e => cases hkey
            | crashed => cases hkey
            | done found =>
                obtain rfl := List.mem_singleton.mp hkey
                obtain ⟨-,mid,hload,-⟩ := openNode_done hrun
                rw [hload] at hseen
                rcases loadOrCreateIdentity_done hload with
                  ⟨hfiles,bytes,hbytes,hdecoded⟩ | ⟨bytes,made,hencoded,-,hfiles⟩
                · refine ⟨bytes,hseen.trans ?_,hdecoded⟩
                  rw [seen,hfiles,hbytes]
                · refine ⟨bytes,hseen.trans ?_,hcodec key bytes hencoded⟩
                  rw [seen,hfiles,content_set_file]

/-- A node comes up with one keypair, ever: the one which its file holds from then on.
Starts which fail, and starts which crash anywhere, do not change it. -/
theorem node_identity_stable
    (hcodec : ∀ key bytes, codec.toProtobuf key = .ok bytes → codec.fromProtobuf bytes = .ok key)
    (hfile : ∀ path, config.identityFile = some path →
      path ∉ databaseFiles sqlite (spelled config.dataDir) config.dataDir)
    (hplain : config.identityFile = none → Literal (spelled config.dataDir))
    (h : History display spelled codec sqlite config files keys) :
    (∀ key ∈ keys, ∃ bytes, content files (identityPath config) = some bytes ∧
      codec.fromProtobuf bytes = .ok key) ∧
    ∀ key ∈ keys, ∀ key' ∈ keys, key = key' := by
  have hholds : ∀ key ∈ keys, Holds codec config files key := by
    induction h with
    | begins files => exact nofun
    | others history kept ih =>
        intro key hkey
        obtain ⟨bytes,hbytes,hdecoded⟩ := ih key hkey
        exact ⟨bytes,kept.trans hbytes,hdecoded⟩
    | starts fresh history honest ih =>
        have hstep := @openNode_holds K display spelled codec sqlite config _ fresh hcodec
          (identityPath_apart hfile hplain) honest
        intro key hkey
        rcases List.mem_append.mp hkey with hold | hnew
        · exact hstep.1 key (ih key hold)
        · exact hstep.2 key hnew
  refine ⟨hholds,?_⟩
  intro key hkey key' hkey'
  obtain ⟨bytes,hbytes,hdecoded⟩ := hholds key hkey
  obtain ⟨bytes',hbytes',hdecoded'⟩ := hholds key' hkey'
  cases hbytes.symm.trans hbytes'
  exact Except.ok.inj (hdecoded.symm.trans hdecoded')

structure Ed25519Keypair where
  secret : List UInt8
  verifying : List UInt8
  deriving DecidableEq

/-- A private key in Protobuf: its type, and in 64 bytes the secret and the public half. -/
def Ed25519Keypair.protobuf (key : Ed25519Keypair) : List UInt8 :=
  [0x08,0x01,0x12,0x40]++key.secret++key.verifying

def firstKey : Ed25519Keypair where
  secret :=
    [0x9d,0x61,0xb1,0x9d,0xef,0xfd,0x5a,0x60,0xba,0x84,0x4a,0xf4,0x92,0xec,0x2c,0xc4,
      0x44,0x49,0xc5,0x69,0x7b,0x32,0x69,0x19,0x70,0x3b,0xac,0x03,0x1c,0xae,0x7f,0x60]
  verifying :=
    [0xd7,0x5a,0x98,0x01,0x82,0xb1,0x0a,0xb7,0xd5,0x4b,0xfe,0xd3,0xc9,0x64,0x07,0x3a,
      0x0e,0xe1,0x72,0xf3,0xda,0xa6,0x23,0x25,0xaf,0x02,0x1a,0x68,0xf7,0x07,0x51,0x1a]

def secondKey : Ed25519Keypair where
  secret :=
    [0x4c,0xcd,0x08,0x9b,0x28,0xff,0x96,0xda,0x9d,0xb6,0xc3,0x46,0xec,0x11,0x4e,0x0f,
      0x5b,0x8a,0x31,0x9f,0x35,0xab,0xa6,0x24,0xda,0x8c,0xf6,0xed,0x4f,0xb8,0xa6,0xfb]
  verifying :=
    [0x3d,0x40,0x17,0xc3,0xe8,0x43,0x89,0x5a,0x92,0xb7,0x0a,0xa7,0x4d,0x1b,0x7e,0xbc,
      0x9c,0x98,0x2c,0xcf,0x2e,0xc4,0x96,0x8c,0xc0,0xcd,0x55,0xf1,0x2a,0xf4,0x66,0x0c]

/-- The encoding restricted to these keypairs. -/
def sampleCodec : KeyCodec Ed25519Keypair :=
  let listed := listedCodec [(firstKey,firstKey.protobuf),(secondKey,secondKey.protobuf)]
  ⟨listed.encode,listed.decode⟩

theorem sampleCodec_roundTrips (key : Ed25519Keypair) (bytes : List UInt8)
    (h : sampleCodec.toProtobuf key = .ok bytes) : sampleCodec.fromProtobuf bytes = .ok key :=
  listedCodec_roundTrips (by decide) key bytes h

def bareFiles : Files := fun path => if path = [] then some .dir else none

def sampleConfig (dataDir : Path) : NodeConfig where
  nodeId := 1
  dataDir := dataDir
  identityFile := none
  libp2pListen := "/ip4/127.0.0.1/tcp/4001"
  peers := []
  rpc := ⟨⟨.localhost,8001⟩,25,1024*1024⟩
  clusterId := "loganet-dev"
  applyDeadline := 5
  raftRpcTimeout := none

/-- A start of the sample node with a given new keypair. -/
def sampleStart (sqlite : Sqlite) (files : Files) (fresh : Ed25519Keypair) :
    Result ConsensusError Ed25519Keypair × Disk :=
  (openNode (fun _ => "127.0.0.1:8001") displayPath sampleCodec sqlite
    (sampleConfig ["data","node.sqlite"]) fresh).run (calm files [])

theorem calm_honest : Honest fun _ => .works := nofun

/-- The keypairs of two starts, the second of which would have drawn another one. -/
def sampleKeys (sqlite : Sqlite) : List Ed25519Keypair :=
  obtained (sampleStart sqlite bareFiles firstKey).1++
    obtained (sampleStart sqlite (sampleStart sqlite bareFiles firstKey).2.files secondKey).1

/-- Whatever the database library writes, the second start finds the keypair of the first. -/
theorem sample_key_kept : sampleCodec.toProtobuf firstKey = .ok firstKey.protobuf ∧
    ∀ sqlite, sampleKeys sqlite = [firstKey,firstKey] ∧
      ∀ key ∈ sampleKeys sqlite, ∀ key' ∈ sampleKeys sqlite, key = key' := by
  refine ⟨rfl,fun sqlite => ⟨rfl,?_⟩⟩
  have hfirst := @History.starts Ed25519Keypair (fun _ => "127.0.0.1:8001") displayPath sampleCodec
    sqlite (sampleConfig ["data","node.sqlite"]) (calm bareFiles []) [] firstKey (.begins bareFiles)
    calm_honest
  have hsecond := @History.starts Ed25519Keypair (fun _ => "127.0.0.1:8001") displayPath sampleCodec
    sqlite (sampleConfig ["data","node.sqlite"])
    (calm (sampleStart sqlite bareFiles firstKey).2.files []) _ secondKey hfirst calm_honest
  exact (node_identity_stable sampleCodec_roundTrips (fun _ h => by cases h)
    (fun _ => literal_displayPath _) hsecond).2

end Histories

section Directories
variable {K : Type} {display : SocketAddr → String} {spelled : Path → String} {codec : KeyCodec K}
  {sqlite : Sqlite} {config : NodeConfig} {d : Disk} {fresh key : K}

/-- The root is a directory, and whatever there is lies in one. -/
structure WellFormed (files : Files) : Prop where
  root : files [] = some .dir
  parents : ∀ path name, files (path++[name]) ≠ none → files path = some .dir

/-- A directory cannot be opened as a database. -/
theorem openLedger_dir {path : Path} {name : String} (hname : Literal name)
    (h : d.files path = some .dir) : ((openLedger sqlite name path).run d).1 ≠ .done () := by
  intro hanswer
  cases hrun : (openLedger sqlite name path).run d with
  | mk answer after =>
      rw [hrun] at hanswer
      cases hanswer
      obtain ⟨_,mid,hdirs,hopen⟩ := bind_done.mp hrun
      have hmade := mkdirs_made (mapError_done.mp hdirs)
      have hdir : mid.files path = some .dir := createDirs_dir hmade h
      have hopened := mapError_done.mp hopen
      rw [openDatabase,databaseFile,if_pos hname] at hopened
      have hfiles := atomic_done hopened
      rw [openFile,hdir] at hfiles
      cases hfiles

/-- The keypair goes into a directory of the name which the database should have. -/
theorem loadOrCreateIdentity_dir {d' : Disk} (htree : WellFormed d.files)
    (hpath : identityPath config = config.dataDir++["identity.bin"])
    (h : (loadOrCreateIdentity spelled codec config fresh).run d = (.done key,d')) :
    d'.files config.dataDir = some .dir := by
  rcases loadOrCreateIdentity_done h with ⟨hfiles,bytes,hbytes,-⟩ | ⟨bytes,made,-,hmade,hfiles⟩
  · rw [hfiles]
    apply htree.parents config.dataDir "identity.bin"
    rw [← hpath,file_of_content hbytes]
    nofun
  · have hne : config.dataDir ≠ identityPath config := by
      rw [hpath]
      intro heq
      have hlength := congrArg List.length heq
      simp at hlength
    rw [hpath,List.dropLast_concat] at hmade
    rw [hfiles,set_ne _ hne]
    exact (createDirAll_dirTo hmade htree.root).self

theorem localhost_name_plain (n : ℕ) : '.' ∉ ("omega-toy-consensus-"++n.repr).toList := by
  rw [String.toList_append,List.mem_append]
  rintro (hfront | hdigits)
  · revert hfront
    decide
  · exact (numberText_repr n).free rfl (by decide) hdigits

/-- A node whose `data_dir` is a path without an extension and whose keypair has no place of
its own never comes up: it keeps the keypair in a directory where the ledger wants its file.
The configurations of `single_node_localhost` are valid and all of this kind. -/
theorem plain_data_dir_never_starts :
    (∀ (config : NodeConfig) (d : Disk) (fresh key : K), config.identityFile = none →
      Literal (spelled config.dataDir) → extension config.dataDir = none → WellFormed d.files →
      ((openNode display spelled codec sqlite config fresh).run d).1 ≠ .done key) ∧
    ∀ tempDir nodeId config, NodeConfig.singleNodeLocalhost tempDir nodeId = .ok config →
      validateConfig display config = .ok () ∧ config.identityFile = none ∧
        Literal (displayPath config.dataDir) ∧ extension config.dataDir = none := by
  constructor
  · intro config d fresh key hfile hliteral hplain htree hanswer
    have hpath : identityPath config = config.dataDir++["identity.bin"] := by
      rw [identityPath_default hfile,hplain]
      rfl
    cases hrun : (openNode display spelled codec sqlite config fresh).run d with
    | mk answer after =>
        rw [hrun] at hanswer
        cases hanswer
        obtain ⟨-,mid,hload,hopen⟩ := openNode_done hrun
        exact openLedger_dir hliteral (loadOrCreateIdentity_dir htree hpath hload)
          (congrArg Prod.fst hopen)
  · intro tempDir nodeId config h
    rw [NodeConfig.singleNodeLocalhost] at h
    split_ifs at h
    cases h
    exact ⟨if_pos rfl,rfl,literal_displayPath _,extension_concat tempDir (localhost_name_plain _)⟩

theorem bareFiles_wellFormed : WellFormed bareFiles where
  root := rfl
  parents path name h := (h (if_neg (by simp))).elim

theorem sample_never_starts : Literal (displayPath ["data","node"]) ∧ ∀ sqlite,
    ((openNode (fun _ => "127.0.0.1:8001") displayPath sampleCodec sqlite
      (sampleConfig ["data","node"]) firstKey).run (calm bareFiles [])).1 ≠ .done firstKey :=
  ⟨literal_displayPath _,fun _ => plain_data_dir_never_starts.1 _ _ firstKey firstKey rfl
    (literal_displayPath _) (by decide) bareFiles_wellFormed⟩

end Directories

end OmegaHarness.NodeStart
