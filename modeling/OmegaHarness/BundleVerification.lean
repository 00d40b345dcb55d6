import Mathlib
import OmegaHarness.CommitCommand
import OmegaHarness.TextFiles

/-!
# Verifying a published bundle

`verify` assembles the bundle again and compares it with the published one, field after
field. The two commands of the tool work on files: `assemble` writes the bundle as JSON,
and `verify` reads it back, perhaps much later. Printing and parsing JSON are functions
which are not given here, and resolving the input directory is taken to give the same path
both times. Between the two commands anything may happen to the other files.
-/
namespace OmegaHarness.BundleVerification
open FallibleSteps FiniteCollisions FixedWidthBytes DomainHashes MerkleTreeV1 BundleAssembly
open CommitCommand FileTree TextFiles Blake3Compression

inductive VerifyError where
  | bundle (e : BundleError)
  | mismatch (field published recomputed : String)
  | schemaVersionMismatch (published current : UInt32)
  deriving DecidableEq, Repr

def compareItemCount (rows : SubTreeRecord × SubTreeRecord) : Except VerifyError Unit :=
  if rows.1.itemCount ≠ rows.2.itemCount then
    .error (.mismatch ("item_count["++rows.1.subTree++"]") rows.1.itemCount.repr rows.2.itemCount.repr)
  else .ok ()

/-- The comparisons of `verify`, in its order. -/
def compareRecords (bundle fresh : BundleRecord) : Except VerifyError Unit := do
  (if fresh.blake3BundleRoot ≠ bundle.blake3BundleRoot then
    .error (.mismatch "blake3_bundle_root" (hexEncode bundle.blake3BundleRoot.toList)
      (hexEncode fresh.blake3BundleRoot.toList))
  else .ok ())
  (if fresh.sha3BundleRoot ≠ bundle.sha3BundleRoot then
    .error (.mismatch "sha3_bundle_root" (hexEncode bundle.sha3BundleRoot.toList)
      (hexEncode fresh.sha3BundleRoot.toList))
  else .ok ())
  (if fresh.subTrees.length ≠ bundle.subTrees.length then
    .error (.mismatch "sub_trees.len" bundle.subTrees.length.repr fresh.subTrees.length.repr)
  else .ok ())
  (bundle.subTrees.zip fresh.subTrees).forM compareItemCount
  (if fresh.subTrees ≠ bundle.subTrees then
    .error (.mismatch "sub_trees" "<per-sub-tree records>" "<per-sub-tree records differ>")
  else .ok ())
  if fresh.schemaVersion ≠ bundle.schemaVersion then
    .error (.schemaVersionMismatch bundle.schemaVersion fresh.schemaVersion)
  else .ok ()

/-- Printing a record and reading one. -/
structure BundleJson where
  toStringPretty : BundleRecord → String
  fromStr : String → Except String BundleRecord

inductive CommandError where
  | bail (message : String)
  | bundle (e : VerifyError)
  | io (e : IoError)
  deriving DecidableEq, Repr

def inputFile (dir : Path) (subTree : SubTreeId) : Path := dir++[subTree.filename]

def inputDirOf (files : Files) (dir : Path) : InputDir :=
  ⟨displayPath dir,fun name => readToString files (dir++[name])⟩

section Commands
variable (blake3 sha3 : Bytes → Hash) (parsers : Parsers) (json : BundleJson)
  (canonicalize : Path → Except String Path)

def verify (bundle : BundleRecord) (dir : InputDir) : Except VerifyError Unit := do
  let fresh ← (assemble blake3 sha3 parsers dir).mapError .bundle
  compareRecords bundle fresh

def resolveInputDir (inputDir : Path) : Except CommandError Path :=
  (canonicalize inputDir).mapError fun e =>
    .bail ("cannot resolve input-dir "++displayPath inputDir++": "++e)

/-- The record whose roots are printed, and the files afterwards. -/
def cmdAssemble (files : Files) (inputDir output : Path) :
    Except CommandError BundleRecord × Files :=
  match resolveInputDir canonicalize inputDir with
  | .error e => (.error e,files)
  | .ok dir => match assemble blake3 sha3 parsers (inputDirOf files dir) with
    | .error e => (.error (.bundle (.bundle e)),files)
    | .ok bundle => match write files output (textBytes (json.toStringPretty bundle)) with
      | (.error e,files') => (.error (.io e),files')
      | (.ok (),files') => (.ok bundle,files')

def cmdVerify (files : Files) (bundlePath inputDir : Path) : Except CommandError BundleRecord := do
  let raw ← (readToString files bundlePath).mapError fun e =>
    .bail ("cannot read bundle "++displayPath bundlePath++": "++e)
  let bundle ← (json.fromStr raw).mapError fun e =>
    .bail ("cannot parse bundle "++displayPath bundlePath++": "++e)
  let dir ← resolveInputDir canonicalize inputDir
  (verify blake3 sha3 parsers bundle (inputDirOf files dir)).mapError .bundle
  return bundle

/-- What an error of the verifier says about the bundle and the directory. -/
def Explained (bundle : BundleRecord) (dir : InputDir) : VerifyError → Prop
  | .bundle e => assemble blake3 sha3 parsers dir = .error e
  | .mismatch _ published recomputed =>
      published ≠ recomputed ∧ ∃ fresh, assemble blake3 sha3 parsers dir = .ok fresh ∧ fresh ≠ bundle
  | .schemaVersionMismatch published current =>
      published = bundle.schemaVersion ∧ published ≠ current ∧
        assemble blake3 sha3 parsers dir = .ok { bundle with schemaVersion := current }

/-- The bytes of the seven files, as far as they can be read. -/
def inputBytes (files : Files) (dir : Path) : List Bytes :=
  SubTreeId.all.filterMap fun s => content files (inputFile dir s)

end Commands

section Comparison
variable {E A : Type} {bundle fresh : BundleRecord} {e : VerifyError}

theorem guard_error {c : Prop} [Decidable c] {e e' : E}
    (h : (if c then .error e else .ok () : Except E Unit) = .error e') : c ∧ e' = e := by
  split at h
  · next hc =>
      cases h
      exact ⟨hc,rfl⟩
  · cases h

theorem check_bind_error {x : Except E Unit} {f : Unit → Except E Unit} {e : E}
    (h : x.bind f = .error e) : x = .error e ∨ x = .ok () ∧ f () = .error e := by
  cases x with
  | error e' => exact Or.inl h
  | ok u => exact Or.inr ⟨rfl,h⟩

theorem forM_check_ok {f : A → Except E Unit} {xs : List A} (h : ∀ x ∈ xs, f x = .ok ()) :
    xs.forM f = .ok () := by
  induction xs with
  | nil => rfl
  | cons x xs ih =>
      exact check_bind_ok.mpr ⟨h x List.mem_cons_self,ih fun y hy => h y (List.mem_cons_of_mem _ hy)⟩

theorem forM_check_error {f : A → Except E Unit} {xs : List A} {e : E} (h : xs.forM f = .error e) :
    ∃ x ∈ xs, f x = .error e := by
  induction xs with
  | nil => cases h
  | cons x xs ih =>
      rcases check_bind_error h with hx | hrest
      · exact ⟨x,List.mem_cons_self,hx⟩
      · rcases ih hrest.2 with ⟨y,hy,hfail⟩
        exact ⟨y,List.mem_cons_of_mem _ hy,hfail⟩

theorem zip_self_eq {xs : List A} {pair : A × A} (h : pair ∈ xs.zip xs) : pair.1 = pair.2 := by
  induction xs with
  | nil => cases h
  | cons x xs ih =>
      rw [List.zip_cons_cons,List.mem_cons] at h
      rcases h with rfl | h
      · rfl
      · exact ih h

theorem compareRecords_self (bundle : BundleRecord) : compareRecords bundle bundle = .ok () := by
  have hcounts : (bundle.subTrees.zip bundle.subTrees).forM compareItemCount = .ok () := by
    apply forM_check_ok
    intro rows hrows
    have hcount := congrArg SubTreeRecord.itemCount (zip_self_eq hrows)
    exact if_neg (not_not_intro hcount)
  exact check_bind_ok.mpr ⟨if_neg (not_not_intro rfl),check_bind_ok.mpr
    ⟨if_neg (not_not_intro rfl),check_bind_ok.mpr ⟨if_neg (not_not_intro rfl),check_bind_ok.mpr
      ⟨hcounts,check_bind_ok.mpr ⟨if_neg (not_not_intro rfl),if_neg (not_not_intro rfl)⟩⟩⟩⟩⟩

theorem compareRecords_ok (h : compareRecords bundle fresh = .ok ()) : fresh = bundle := by
  rcases check_bind_ok.mp h with ⟨hblake3,h⟩
  rcases check_bind_ok.mp h with ⟨hsha3,h⟩
  rcases check_bind_ok.mp h with ⟨-,h⟩
  rcases check_bind_ok.mp h with ⟨-,h⟩
  rcases check_bind_ok.mp h with ⟨hsubTrees,hversion⟩
  rw [guard_ok,not_not] at hblake3 hsha3 hsubTrees hversion
  cases bundle
  cases fresh
  dsimp only at hblake3 hsha3 hsubTrees hversion
  rw [hblake3,hsha3,hsubTrees,hversion]

/-- The two texts of a mismatch differ, and a schema version is only blamed for itself. -/
theorem compareRecords_error (h : compareRecords bundle fresh = .error e) :
    (∃ field published recomputed, e = .mismatch field published recomputed ∧
      published ≠ recomputed) ∨
    ∃ current, e = .schemaVersionMismatch bundle.schemaVersion current ∧
      bundle.schemaVersion ≠ current ∧ fresh = { bundle with schemaVersion := current } := by
  have hroot {a b : Hash} (hne : a ≠ b) : hexEncode b.toList ≠ hexEncode a.toList :=
    fun heq => hne (Vector.toList_inj.mp (hexEncode_injective heq.symm))
  have hcount {m n : ℕ} (hne : m ≠ n) : m.repr ≠ n.repr := fun heq => hne (Nat.repr_injective heq)
  rcases check_bind_error h with hfail | ⟨hblake3,h⟩
  · rcases guard_error hfail with ⟨hne,rfl⟩
    exact Or.inl ⟨_,_,_,rfl,hroot hne⟩
  rcases check_bind_error h with hfail | ⟨hsha3,h⟩
  · rcases guard_error hfail with ⟨hne,rfl⟩
    exact Or.inl ⟨_,_,_,rfl,hroot hne⟩
  rcases check_bind_error h with hfail | ⟨-,h⟩
  · rcases guard_error hfail with ⟨hne,rfl⟩
    exact Or.inl ⟨_,_,_,rfl,hcount (Ne.symm hne)⟩
  rcases check_bind_error h with hfail | ⟨-,h⟩
  · rcases forM_check_error hfail with ⟨rows,-,hrows⟩
    rcases guard_error hrows with ⟨hne,rfl⟩
    exact Or.inl ⟨_,_,_,rfl,hcount hne⟩
  rcases check_bind_error h with hfail | ⟨hsubTrees,h⟩
  · rcases guard_error hfail with ⟨-,rfl⟩
    exact Or.inl ⟨_,_,_,rfl,by decide⟩
  rcases guard_error h with ⟨hne,rfl⟩
  rw [guard_ok,not_not] at hblake3 hsha3 hsubTrees
  refine Or.inr ⟨fresh.schemaVersion,rfl,Ne.symm hne,?_⟩
  cases bundle
  cases fresh
  dsimp only at hblake3 hsha3 hsubTrees ⊢
  rw [hblake3,hsha3,hsubTrees]

end Comparison

section Verification
variable {blake3 sha3 : Bytes → Hash} {parsers : Parsers} {json : BundleJson}
  {canonicalize : Path → Except String Path} {bundle : BundleRecord}

theorem verify_ok {dir : InputDir} :
    verify blake3 sha3 parsers bundle dir = .ok () ↔ assemble blake3 sha3 parsers dir = .ok bundle := by
  constructor
  · intro h
    rcases bind_ok.mp h with ⟨fresh,hfresh,hcompare⟩
    rw [mapError_ok.mp hfresh,compareRecords_ok hcompare]
  · intro h
    exact bind_ok.mpr ⟨bundle,mapError_ok.mpr h,compareRecords_self bundle⟩

/-- A directory verifies against exactly the bundle which is assembled from it, and an
error shows two different values, or that the directory cannot be assembled. -/
theorem verify_reports (bundle : BundleRecord) (dir : InputDir) :
    (verify blake3 sha3 parsers bundle dir = .ok () ↔
      assemble blake3 sha3 parsers dir = .ok bundle) ∧
    ∀ e, verify blake3 sha3 parsers bundle dir = .error e →
      Explained blake3 sha3 parsers bundle dir e := by
  refine ⟨verify_ok,?_⟩
  intro e h
  have hverify : verify blake3 sha3 parsers bundle dir =
      ((assemble blake3 sha3 parsers dir).mapError VerifyError.bundle).bind (compareRecords bundle) :=
    rfl
  rw [hverify] at h
  cases hfresh : assemble blake3 sha3 parsers dir with
  | error failed =>
      rw [hfresh] at h
      cases h
      exact hfresh
  | ok fresh =>
      rw [hfresh] at h
      change compareRecords bundle fresh = .error e at h
      rcases compareRecords_error h with ⟨field,published,recomputed,rfl,hne⟩ | ⟨current,rfl,hne,hsame⟩
      · refine ⟨hne,fresh,hfresh,?_⟩
        rintro rfl
        rw [compareRecords_self] at h
        cases h
      · rw [hsame] at hfresh
        exact ⟨rfl,hne,hfresh⟩

theorem assembleSubTree_digest {dir : InputDir} {subTree : SubTreeId} {record : SubTreeRecord}
    (h : assembleSubTree blake3 sha3 parsers dir subTree = .ok record) :
    ∃ raw, dir.read subTree.filename = .ok raw ∧ record.inputDigest = blake3 (textBytes raw) := by
  rcases bind_ok.mp h with ⟨raw,hraw,h⟩
  rcases bind_ok.mp h with ⟨roots,hroots,hrecord⟩
  rcases bind_ok.mp (mapError_ok.mp hroots) with ⟨built,-,hrest⟩
  rcases bind_ok.mp hrest with ⟨tree,-,hroots⟩
  cases hrecord
  cases hroots
  exact ⟨raw,mapError_ok.mp hraw,rfl⟩

theorem mem_inputBytes {files : Files} {dir : Path} {subTree : SubTreeId} {bytes : Bytes}
    (h : content files (inputFile dir subTree) = some bytes) : bytes ∈ inputBytes files dir :=
  List.mem_filterMap.mpr ⟨subTree,SubTreeId.mem_all subTree,h⟩

/-- Two states of the files from which one bundle is assembled. -/
theorem inputs_bound {files files' : Files} {dir : Path}
    (h : assemble blake3 sha3 parsers (inputDirOf files dir) = .ok bundle)
    (h' : assemble blake3 sha3 parsers (inputDirOf files' dir) = .ok bundle) (subTree : SubTreeId) :
    content files' (inputFile dir subTree) = content files (inputFile dir subTree) ∨
      Collision blake3 (inputBytes files dir) (inputBytes files' dir) := by
  rcases mapM_pair_ok SubTreeRecord.inputDigest (assemble_ok h).1 (assemble_ok h').1
    (SubTreeId.mem_all subTree) with ⟨record,record',hrecord,hrecord',hdigests⟩
  rcases assembleSubTree_digest hrecord with ⟨raw,hraw,hdigest⟩
  rcases assembleSubTree_digest hrecord' with ⟨raw',hraw',hdigest'⟩
  have hcontent : content files (inputFile dir subTree) = some (textBytes raw) :=
    readToString_ok.mp hraw
  have hcontent' : content files' (inputFile dir subTree) = some (textBytes raw') :=
    readToString_ok.mp hraw'
  have hsame := hdigests rfl
  rw [hdigest,hdigest'] at hsame
  rcases eq_or_collision (mem_inputBytes hcontent) (mem_inputBytes hcontent') hsame with heq | hcol
  · left
    rw [hcontent,hcontent',heq]
  · exact Or.inr hcol

theorem readToString_congr {files files' : Files} {path : Path} {text : String}
    (h : readToString files path = .ok text) (hsame : content files' path = content files path) :
    readToString files' path = .ok text := by
  rw [readToString_ok] at h ⊢
  rw [hsame,h]

theorem assembleSubTree_congr {dir dir' : InputDir} {subTree : SubTreeId} {raw : String}
    (h : dir.read subTree.filename = .ok raw) (h' : dir'.read subTree.filename = .ok raw) :
    assembleSubTree blake3 sha3 parsers dir' subTree =
      assembleSubTree blake3 sha3 parsers dir subTree := by
  rw [assembleSubTree,assembleSubTree,h,h']
  rfl

/-- Assembly reads the seven files and nothing else. -/
theorem assemble_congr {files files' : Files} {dir : Path}
    (h : assemble blake3 sha3 parsers (inputDirOf files dir) = .ok bundle)
    (hsame : ∀ s, content files' (inputFile dir s) = content files (inputFile dir s)) :
    assemble blake3 sha3 parsers (inputDirOf files' dir) = .ok bundle := by
  rcases bind_ok.mp h with ⟨subTrees,hsubTrees,hbundle⟩
  refine bind_ok.mpr ⟨subTrees,?_,hbundle⟩
  apply mapM_ok.mpr
  apply (mapM_ok.mp hsubTrees).imp
  intro s record hrecord
  rcases assembleSubTree_digest hrecord with ⟨raw,hraw,-⟩
  rw [assembleSubTree_congr hraw (readToString_congr hraw (hsame s)),hrecord]

theorem cmdAssemble_ok {files files' : Files} {inputDir output dir : Path}
    (hdir : canonicalize inputDir = .ok dir)
    (h : cmdAssemble blake3 sha3 parsers json canonicalize files inputDir output =
      (.ok bundle,files')) :
    assemble blake3 sha3 parsers (inputDirOf files dir) = .ok bundle ∧
      files' = set files output (some (.file (textBytes (json.toStringPretty bundle)))) := by
  have hresolved : resolveInputDir canonicalize inputDir = .ok dir := mapError_ok.mpr hdir
  rw [cmdAssemble,hresolved] at h
  dsimp only at h
  split at h
  · cases h
  · next made hmade =>
      split at h
      · cases h
      · next written hwrite =>
          cases h
          exact ⟨hmade,write_ok hwrite⟩

theorem cmdVerify_ok {files : Files} {bundlePath inputDir dir : Path} {text : String}
    (hdir : canonicalize inputDir = .ok dir) (htext : readToString files bundlePath = .ok text)
    (hjson : json.fromStr text = .ok bundle) {found : BundleRecord} :
    cmdVerify blake3 sha3 parsers json canonicalize files bundlePath inputDir = .ok found ↔
      found = bundle ∧ assemble blake3 sha3 parsers (inputDirOf files dir) = .ok bundle := by
  constructor
  · intro h
    rcases bind_ok.mp h with ⟨raw,hraw,h⟩
    rcases bind_ok.mp h with ⟨parsed,hparsed,h⟩
    rcases bind_ok.mp h with ⟨resolved,hresolved,h⟩
    rcases check_bind_ok.mp h with ⟨hverify,hfound⟩
    have hraw := mapError_ok.mp hraw
    rw [htext] at hraw
    cases hraw
    have hparsed := mapError_ok.mp hparsed
    rw [hjson] at hparsed
    cases hparsed
    have hresolved := mapError_ok.mp hresolved
    rw [hdir] at hresolved
    cases hresolved
    cases hfound
    exact ⟨rfl,verify_ok.mp (mapError_ok.mp hverify)⟩
  · rintro ⟨rfl,h⟩
    exact bind_ok.mpr ⟨text,mapError_ok.mpr htext,bind_ok.mpr ⟨found,mapError_ok.mpr hjson,
      bind_ok.mpr ⟨dir,mapError_ok.mpr hdir,check_bind_ok.mpr
        ⟨mapError_ok.mpr (verify_ok.mpr h),rfl⟩⟩⟩⟩

/-- After a bundle was written, whatever happens to the other files: it verifies if the
seven inputs have the bytes which they had, and if it verifies they have them, or the
bytes of two inputs have one digest. -/
theorem bundle_detects_edits {files files₁ files₂ : Files} {inputDir output dir : Path}
    (hdir : canonicalize inputDir = .ok dir)
    (hjson : json.fromStr (json.toStringPretty bundle) = .ok bundle)
    (hassembled : cmdAssemble blake3 sha3 parsers json canonicalize files inputDir output =
      (.ok bundle,files₁))
    (hkept : files₂ output = files₁ output) :
    ((∀ s, content files₂ (inputFile dir s) = content files (inputFile dir s)) →
      cmdVerify blake3 sha3 parsers json canonicalize files₂ output inputDir = .ok bundle) ∧
    ∀ found, cmdVerify blake3 sha3 parsers json canonicalize files₂ output inputDir = .ok found →
      (∀ s, content files₂ (inputFile dir s) = content files (inputFile dir s)) ∨
        Collision blake3 (inputBytes files dir) (inputBytes files₂ dir) := by
  rcases cmdAssemble_ok hdir hassembled with ⟨hmade,hwritten⟩
  have htext : readToString files₂ output = .ok (json.toStringPretty bundle) := by
    rw [readToString_ok]
    apply content_file
    rw [hkept,hwritten,set_same]
  constructor
  · intro hsame
    exact (cmdVerify_ok hdir htext hjson).mpr ⟨rfl,assemble_congr hmade hsame⟩
  · intro found hverified
    have hagain := ((cmdVerify_ok hdir htext hjson).mp hverified).2
    by_cases hcol : Collision blake3 (inputBytes files dir) (inputBytes files₂ dir)
    · exact Or.inr hcol
    · exact Or.inl fun s => (inputs_bound hmade hagain s).resolve_right hcol

/-- A bundle which can be assembled is written to a new file. -/
theorem cmdAssemble_writes {files : Files} {inputDir output dir : Path}
    (hdir : canonicalize inputDir = .ok dir)
    (hbundle : assemble blake3 sha3 parsers (inputDirOf files dir) = .ok bundle)
    (habsent : files output = none) (hparent : files output.dropLast = some .dir)
    (hfits : (textBytes (json.toStringPretty bundle)).length ≤ maxFileBytes) :
    cmdAssemble blake3 sha3 parsers json canonicalize files inputDir output =
      (.ok bundle,set files output (some (.file (textBytes (json.toStringPretty bundle))))) := by
  rw [cmdAssemble,resolveInputDir,hdir]
  dsimp only [Except.mapError]
  rw [hbundle]
  dsimp only
  rw [write_absent habsent hparent hfits]

/-- The rows of a bundle are those of the seven sub-trees. -/
theorem assemble_rows {dir : InputDir} (h : assemble blake3 sha3 parsers dir = .ok bundle) :
    bundle.schemaVersion = bundleSchemaVersion ∧ bundle.subTrees.length = 7 ∧
      ∀ row ∈ bundle.subTrees, ∃ s, assembleSubTree blake3 sha3 parsers dir s = .ok row := by
  rcases bind_ok.mp h with ⟨rows,hrows,hend⟩
  cases hend
  refine ⟨rfl,(mapM_ok.mp hrows).length_eq.symm,?_⟩
  intro row hrow
  rcases mapM_image_ok hrows hrow with ⟨s,-,hs⟩
  exact ⟨s,hs⟩

end Verification

section Sample

/-- The sample directory as files below `/in`. -/
def sampleTree : Files
  | [] => some .dir
  | ["in"] => some .dir
  | ["in",name] => match sampleFiles firstText name with
    | .ok text => some (.file (textBytes text))
    | .error _ => none
  | _ => none

theorem sampleTree_reads (s : SubTreeId) :
    (inputDirOf sampleTree ["in"]).read s.filename = (sampleDir "/in" firstText).read s.filename := by
  have hfound : ∃ text, sampleFiles firstText s.filename = .ok text := by
    cases s <;> simp [sampleFiles,SubTreeId.filename]
  rcases hfound with ⟨text,htext⟩
  have hread : readToString sampleTree ["in",s.filename] = .ok text := by
    rw [readToString_ok]
    apply content_file
    rw [sampleTree,htext]
  exact hread.trans htext.symm

theorem sampleTree_assembled :
    ∃ bundle, assemble singleChunkHash sampleSha3 sampleParsers (inputDirOf sampleTree ["in"]) =
      .ok bundle := by
  have hrow (s : SubTreeId) : ∃ record, assembleSubTree singleChunkHash sampleSha3 sampleParsers
      (inputDirOf sampleTree ["in"]) s = .ok record ∧ record.blake3Root =
        (buildLayersV1 singleChunkHash (leafRow singleChunkHash s.numericId (samplePayloads s))).root := by
    rcases @sample_subTree singleChunkHash sampleSha3 "/in" _ _ _ buildPayloads_first (by decide) rfl s
      with ⟨record,hrecord,hroot⟩
    rcases assembleSubTree_digest hrecord with ⟨raw,hraw,-⟩
    refine ⟨record,?_,hroot⟩
    rw [assembleSubTree_congr hraw ((sampleTree_reads s).trans hraw),hrecord]
  rcases assemble_of_subTrees hrow with ⟨bundle,hbundle,-⟩
  exact ⟨bundle,hbundle⟩

/-- A row as the pretty printer writes it. No label has a character which it escapes. -/
def prettyRow (row : SubTreeRecord) : String :=
  "    \x7b\n      \"sub_tree\": \""++row.subTree++
    "\",\n      \"blake3_root\": \""++hexEncode row.blake3Root.toList++
    "\",\n      \"sha3_root\": \""++hexEncode row.sha3Root.toList++
    "\",\n      \"input_digest\": \""++hexEncode row.inputDigest.toList++
    "\",\n      \"leaf_count\": "++row.leafCount.repr++
    ",\n      \"tree_depth\": "++row.treeDepth.repr++
    ",\n      \"item_count\": "++row.itemCount.repr++"\n    \x7d"

def prettyRows : List SubTreeRecord → String
  | [] => "\n"
  | [row] => "\n"++prettyRow row++"\n"
  | row::rows => "\n"++prettyRow row++","++prettyRows rows

/-- The text of a bundle with at least one row. -/
def prettyBundle (bundle : BundleRecord) : String :=
  "\x7b\n  \"schema_version\": "++bundle.schemaVersion.toNat.repr++
    ",\n  \"blake3_bundle_root\": \""++hexEncode bundle.blake3BundleRoot.toList++
    "\",\n  \"sha3_bundle_root\": \""++hexEncode bundle.sha3BundleRoot.toList++
    "\",\n  \"sub_trees\": ["++prettyRows bundle.subTrees++"  ]\n\x7d"

/-- The printer, and the reader restricted to the text of one bundle. -/
def bundleJson (bundle : BundleRecord) : BundleJson where
  toStringPretty := prettyBundle
  fromStr text := if text = prettyBundle bundle then .ok bundle else .error "another text"

theorem textBytes_length_le (text : String) : (textBytes text).length ≤ 4*text.toList.length := by
  have hsize : (textBytes text).length = text.utf8ByteSize := by
    rw [textBytes,byteArray_toList]
    rfl
  have hchars : ∀ chars : List Char, String.utf8Len chars ≤ 4*chars.length := by
    intro chars
    induction chars with
    | nil => exact le_rfl
    | cons c chars ih =>
        have hc := Char.utf8Size_le_four c
        simp only [String.utf8Len_cons,List.length_cons]
        omega
  rw [hsize,← String.ofList_toList (s := text),String.utf8ByteSize_ofList,String.toList_ofList]
  exact hchars text.toList

theorem hexEncode_length (hash : Hash) : (hexEncode hash.toList).toList.length = 64 := by
  simp [hexEncode]

theorem digit_length {n : ℕ} (h : n < 10) : n.repr.toList.length ≤ 1 := by
  rw [String.length_toList]
  exact Nat.repr_length n 1 one_pos (by rwa [pow_one])

/-- What there is to count in the sample takes one digit. -/
structure Short (row : SubTreeRecord) : Prop where
  label : row.subTree.toList.length ≤ 12
  leafCount : row.leafCount < 10
  treeDepth : row.treeDepth < 10
  itemCount : row.itemCount < 10

theorem prettyRow_length {row : SubTreeRecord} (h : Short row) :
    (prettyRow row).toList.length ≤ 500 := by
  have hleaves := digit_length h.leafCount
  have hdepth := digit_length h.treeDepth
  have hitems := digit_length h.itemCount
  have hlabel := h.label
  unfold prettyRow
  simp only [String.toList_append,List.length_append,hexEncode_length]
  generalize row.leafCount.repr.toList.length = a at *
  generalize row.treeDepth.repr.toList.length = b at *
  generalize row.itemCount.repr.toList.length = c at *
  generalize row.subTree.toList.length = d at *
  simp
  omega

theorem prettyRows_length {rows : List SubTreeRecord} (h : ∀ row ∈ rows, Short row) :
    (prettyRows rows).toList.length ≤ 502*rows.length+1 := by
  induction rows with
  | nil => simp [prettyRows]
  | cons row rows ih =>
      have hrow := prettyRow_length (h row List.mem_cons_self)
      have hrows := ih fun r hr => h r (List.mem_cons_of_mem row hr)
      cases rows with
      | nil =>
          simp [prettyRows] at hrow ⊢
          omega
      | cons next rows =>
          rw [prettyRows,String.toList_append,String.toList_append,String.toList_append,
            List.length_append,List.length_append,List.length_append,List.length_cons]
          · simp at hrow hrows ⊢
            omega
          · nofun

theorem prettyBundle_fits {bundle : BundleRecord} (hversion : bundle.schemaVersion = 1)
    (hlength : bundle.subTrees.length = 7) (hrows : ∀ row ∈ bundle.subTrees, Short row) :
    (textBytes (prettyBundle bundle)).length ≤ maxFileBytes := by
  have htext : (prettyBundle bundle).toList.length ≤ 5000 := by
    have hall := prettyRows_length hrows
    rw [hlength] at hall
    have hdigit := digit_length (n := bundle.schemaVersion.toNat) (by rw [hversion]; decide)
    unfold prettyBundle
    simp only [String.toList_append,List.length_append,hexEncode_length]
    generalize (prettyRows bundle.subTrees).toList.length = a at *
    generalize bundle.schemaVersion.toNat.repr.toList.length = b at *
    simp
    omega
  calc (textBytes (prettyBundle bundle)).length
    _ ≤ 4*(prettyBundle bundle).toList.length := textBytes_length_le _
    _ ≤ 4*5000 := Nat.mul_le_mul_left 4 htext
    _ ≤ maxFileBytes := by decide

theorem empty_payloads {A : Type} (id : UInt8) (encode : A → Bytes) (field : String) :
    ((parseEmpty field (emptyText field)).mapError RecomputeError.json).map
      (encodedPayloads id encode) = .ok (id,[],0) := by
  rw [parseEmpty,if_pos rfl]
  rfl

theorem sample_payloads (s : SubTreeId) :
    ∃ raw, (inputDirOf sampleTree ["in"]).read s.filename = .ok raw ∧
      buildPayloads sampleParsers s raw =
        .ok (s.numericId,samplePayloads s,(samplePayloads s).length) := by
  rw [sampleTree_reads]
  cases s with
  | utxo => exact ⟨firstText,by simp [sampleDir,sampleFiles,SubTreeId.filename],buildPayloads_first⟩
  | header =>
      exact ⟨emptyText "headers",by simp [sampleDir,sampleFiles,SubTreeId.filename],
        empty_payloads subTreeIdHeader LeafEncodings.BlockHeader.encode "headers"⟩
  | txIndex =>
      exact ⟨emptyText "entries",by simp [sampleDir,sampleFiles,SubTreeId.filename],
        empty_payloads subTreeIdTxIndex LeafEncodings.TxIndexEntry.encode "entries"⟩
  | tokenPolicy =>
      exact ⟨emptyText "policies",by simp [sampleDir,sampleFiles,SubTreeId.filename],
        empty_payloads subTreeIdTokenPolicy LeafEncodings.TokenPolicy.encode "policies"⟩
  | script =>
      exact ⟨emptyText "scripts",by simp [sampleDir,sampleFiles,SubTreeId.filename],
        empty_payloads subTreeIdScript LeafEncodings.ScriptEntry.encode "scripts"⟩
  | stake =>
      exact ⟨emptyText "stake_entries",by simp [sampleDir,sampleFiles,SubTreeId.filename],
        empty_payloads subTreeIdStake LeafEncodings.StakeEntry.encode "stake_entries"⟩
  | governance =>
      exact ⟨emptyText "facts",by simp [sampleDir,sampleFiles,SubTreeId.filename],
        empty_payloads subTreeIdGovernance LeafEncodings.GovernanceFact.encode "facts"⟩

theorem sample_row_short {s : SubTreeId} {row : SubTreeRecord} (h : assembleSubTree singleChunkHash
    sampleSha3 sampleParsers (inputDirOf sampleTree ["in"]) s = .ok row) : Short row := by
  rcases sample_payloads s with ⟨raw,hraw,hbuilt⟩
  rcases bind_ok.mp h with ⟨raw',hraw',hrest⟩
  cases hraw.symm.trans (mapError_ok.mp hraw')
  rcases bind_ok.mp hrest with ⟨roots,hroots,hrow⟩
  rcases bind_ok.mp (mapError_ok.mp hroots) with ⟨built,hbuilt',hrest⟩
  cases hbuilt.symm.trans hbuilt'
  rcases bind_ok.mp hrest with ⟨tree,htree,hend⟩
  have hbuild := mapError_ok.mp htree
  cases hend
  cases hrow
  have hdepth : depthOf (samplePayloads s).length ≤ 1 := by cases s <;> decide
  have hcount : (samplePayloads s).length ≤ 2 := by cases s <;> decide
  have hlabel : s.label.toList.length ≤ 12 := by cases s <;> decide
  refine ⟨hlabel,?_,?_,?_⟩
  · change tree.leafCount < 10
    rw [buildV1_leafCount _ _ hbuild]
    exact (Nat.pow_le_pow_right two_pos hdepth).trans_lt (by decide)
  · change tree.depth < 10
    rw [buildV1_depth _ _ hbuild]
    exact hdepth.trans_lt (by decide)
  · exact hcount.trans_lt (by decide)

/-- A bundle verifies right after it was written beside its inputs. -/
theorem sample_bundle_verifies :
    ∃ bundle files₁,
      cmdAssemble singleChunkHash sampleSha3 sampleParsers (bundleJson bundle) .ok sampleTree ["in"]
        ["bundle.json"] = (.ok bundle,files₁) ∧
      cmdVerify singleChunkHash sampleSha3 sampleParsers (bundleJson bundle) .ok files₁
        ["bundle.json"] ["in"] = .ok bundle := by
  rcases sampleTree_assembled with ⟨bundle,hbundle⟩
  rcases assemble_rows hbundle with ⟨hversion,hlength,hrows⟩
  have hfits : (textBytes (prettyBundle bundle)).length ≤ maxFileBytes := by
    apply prettyBundle_fits hversion hlength
    intro row hrow
    rcases hrows row hrow with ⟨s,hs⟩
    exact sample_row_short hs
  have hassembled := @cmdAssemble_writes singleChunkHash sampleSha3 sampleParsers (bundleJson bundle)
    .ok bundle sampleTree ["in"] ["bundle.json"] ["in"] rfl hbundle rfl rfl hfits
  refine ⟨bundle,_,hassembled,(bundle_detects_edits rfl (if_pos rfl) hassembled rfl).1 ?_⟩
  intro s
  apply content_set_ne
  simp [inputFile]

end Sample

end OmegaHarness.BundleVerification
