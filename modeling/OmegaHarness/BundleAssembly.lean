import OmegaHarness.LeafEncodings
import OmegaHarness.RootBinding

/-!
# The bundle of the seven sub-trees

`assemble` reads one input file for each sub-tree, encodes its records, builds both
roots over them and hashes the seven roots in a fixed order. Reading JSON is a function
of the text which is not given here. The bundle root is then followed back: the seven
roots, the payloads of each tree and the records of each payload are determined by it,
or two strings which the assembly hashed have one digest.
-/
namespace OmegaHarness.BundleAssembly
open FallibleSteps FiniteCollisions ByteFraming DomainHashes LayeredTree MerkleTreeV1
open LeafEncodings RootBinding Blake3Compression

inductive SubTreeId where
  | utxo
  | header
  | txIndex
  | tokenPolicy
  | script
  | stake
  | governance
  deriving DecidableEq, Repr

def subTreeIdUtxo : UInt8 := 1
def subTreeIdHeader : UInt8 := 2
def subTreeIdTxIndex : UInt8 := 3
def subTreeIdTokenPolicy : UInt8 := 4
def subTreeIdScript : UInt8 := 5
def subTreeIdStake : UInt8 := 6
def subTreeIdGovernance : UInt8 := 7

namespace SubTreeId

def all : List SubTreeId := [utxo,header,txIndex,tokenPolicy,script,stake,governance]

theorem mem_all (s : SubTreeId) : s ∈ all := by
  cases s <;> decide

def filename : SubTreeId → String
  | utxo => "utxo.json"
  | header => "header.json"
  | txIndex => "tx_index.json"
  | tokenPolicy => "token_policy.json"
  | script => "script.json"
  | stake => "stake.json"
  | governance => "governance.json"

def label : SubTreeId → String
  | utxo => "utxo"
  | header => "header"
  | txIndex => "tx-index"
  | tokenPolicy => "token-policy"
  | script => "script"
  | stake => "stake"
  | governance => "governance"

def numericId : SubTreeId → UInt8
  | utxo => subTreeIdUtxo
  | header => subTreeIdHeader
  | txIndex => subTreeIdTxIndex
  | tokenPolicy => subTreeIdTokenPolicy
  | script => subTreeIdScript
  | stake => subTreeIdStake
  | governance => subTreeIdGovernance

end SubTreeId

/-- `Vec`: a vector has at most `isize::MAX` elements. -/
abbrev Vec (A : Type) := { xs : List A // xs.length < 2^63 }

/-- `serde_json::from_str` at the seven input shapes, or its message. -/
structure Parsers where
  utxos : String → Except String (Vec Utxo)
  headers : String → Except String (Vec BlockHeader)
  entries : String → Except String (Vec TxIndexEntry)
  policies : String → Except String (Vec TokenPolicy)
  scripts : String → Except String (Vec ScriptEntry)
  stakeEntries : String → Except String (Vec StakeEntry)
  facts : String → Except String (Vec GovernanceFact)

inductive RecomputeError where
  | json (message : String)
  | leaf (e : LeafError)
  | rejected (message : String)
  deriving DecidableEq, Repr

def displayBuildError : BuildError → String
  | .duplicateLeafPayload subTreeId index =>
      s!"duplicate leaf payload in sub-tree {subTreeId} at sorted index {index}"

/-- The message of a refused tree. -/
def rejectedBuild (e : BuildError) : RecomputeError :=
  .rejected ("v1 build rejected sub-tree input: "++displayBuildError e)

inductive BundleError where
  | io (directory filename source : String)
  | recompute (subTree : String) (source : RecomputeError)
  deriving DecidableEq, Repr

structure SubTreeRoots where
  blake3Root : Hash
  sha3Root : Hash
  inputDigest : Hash
  leafCount : ℕ
  treeDepth : ℕ
  itemCount : ℕ
  deriving DecidableEq, Repr

structure SubTreeRecord where
  subTree : String
  blake3Root : Hash
  sha3Root : Hash
  inputDigest : Hash
  leafCount : ℕ
  treeDepth : ℕ
  itemCount : ℕ
  deriving DecidableEq, Repr

structure BundleRecord where
  schemaVersion : UInt32
  blake3BundleRoot : Hash
  sha3BundleRoot : Hash
  subTrees : List SubTreeRecord
  deriving DecidableEq, Repr

/-- A directory: its path, and the text or the error of reading one of its files. -/
structure InputDir where
  path : String
  read : String → Except String String

def bundleSchemaVersion : UInt32 := 1

section Assembly
variable (blake3 sha3 : Bytes → Hash) (parsers : Parsers)

/-- The payloads of records whose encoding cannot fail. -/
def encodedPayloads {A : Type} (subTreeId : UInt8) (encode : A → Bytes) (parsed : Vec A) :
    UInt8 × List Bytes × ℕ :=
  (subTreeId,parsed.val.map encode,parsed.val.length)

def buildPayloads (subTree : SubTreeId) (raw : String) :
    Except RecomputeError (UInt8 × List Bytes × ℕ) :=
  match subTree with
  | .utxo => do
      let parsed ← (parsers.utxos raw).mapError .json
      let payloads ← (parsed.val.mapM Utxo.encode).mapError .leaf
      return (subTreeIdUtxo,payloads,parsed.val.length)
  | .header =>
      ((parsers.headers raw).mapError .json).map (encodedPayloads subTreeIdHeader BlockHeader.encode)
  | .txIndex =>
      ((parsers.entries raw).mapError .json).map (encodedPayloads subTreeIdTxIndex TxIndexEntry.encode)
  | .tokenPolicy =>
      ((parsers.policies raw).mapError .json).map
        (encodedPayloads subTreeIdTokenPolicy TokenPolicy.encode)
  | .script =>
      ((parsers.scripts raw).mapError .json).map (encodedPayloads subTreeIdScript ScriptEntry.encode)
  | .stake =>
      ((parsers.stakeEntries raw).mapError .json).map
        (encodedPayloads subTreeIdStake StakeEntry.encode)
  | .governance =>
      ((parsers.facts raw).mapError .json).map
        (encodedPayloads subTreeIdGovernance GovernanceFact.encode)

/-- Pair the row until one element is left. -/
def collapse (node : Hash → Hash → Hash) (current : List Hash) : Hash :=
  if 1 < current.length then collapse node (nextLayer node current) else current[0]!
termination_by current.length
decreasing_by
  rw [nextLayer_length]
  omega

/-- The second root: the leaves of the first tree under another node hash. -/
def sha3RootOfV1 (subTreeId : UInt8) (payloads : List Bytes) : Hash :=
  collapse (fun left right => sha3 (left.toList++right.toList))
    (padLeaves blake3 subTreeId (payloadLeaves blake3 subTreeId (sortPayloads payloads)))

def recompute (subTree : SubTreeId) (raw : String) : Except RecomputeError SubTreeRoots := do
  let inputDigest := blake3 raw.toUTF8.toList
  let built ← buildPayloads parsers subTree raw
  let tree ← (buildV1 blake3 built.1 built.2.1).mapError rejectedBuild
  return ⟨tree.root,sha3RootOfV1 blake3 sha3 built.1 built.2.1,inputDigest,tree.leafCount,tree.depth,
    built.2.2⟩

def assembleSubTree (dir : InputDir) (subTree : SubTreeId) : Except BundleError SubTreeRecord := do
  let raw ← (dir.read subTree.filename).mapError (.io dir.path subTree.filename)
  let roots ← (recompute blake3 sha3 parsers subTree raw).mapError (.recompute subTree.label)
  return ⟨subTree.label,roots.blake3Root,roots.sha3Root,roots.inputDigest,roots.leafCount,
    roots.treeDepth,roots.itemCount⟩

/-- The seven roots in the order of the sub-trees. -/
def rootBytes (subTrees : List SubTreeRecord) : Bytes :=
  subTrees.flatMap fun r => r.blake3Root.toList

def aggregateBlake3 (subTrees : List SubTreeRecord) : Hash := blake3 (rootBytes subTrees)

def aggregateSha3 (subTrees : List SubTreeRecord) : Hash :=
  sha3 (subTrees.flatMap fun r => r.sha3Root.toList)

def assemble (dir : InputDir) : Except BundleError BundleRecord := do
  let subTrees ← SubTreeId.all.mapM (assembleSubTree blake3 sha3 parsers dir)
  return ⟨bundleSchemaVersion,aggregateBlake3 blake3 subTrees,aggregateSha3 sha3 subTrees,subTrees⟩

/-- The strings which a sub-tree's Blake3 root is computed from. -/
def subTreePreimages (dir : InputDir) (subTree : SubTreeId) : List Bytes :=
  match dir.read subTree.filename with
  | .error _ => []
  | .ok raw => match buildPayloads parsers subTree raw with
    | .error _ => []
    | .ok built => buildPreimages blake3 built.1 built.2.1

/-- The strings which the Blake3 root of a bundle is computed from. -/
def bundlePreimages (dir : InputDir) : List Bytes :=
  match assemble blake3 sha3 parsers dir with
  | .error _ => []
  | .ok bundle => rootBytes bundle.subTrees::SubTreeId.all.flatMap (subTreePreimages blake3 parsers dir)

end Assembly

/-- The records of the seven files. -/
structure Records where
  utxos : Vec Utxo
  headers : Vec BlockHeader
  entries : Vec TxIndexEntry
  policies : Vec TokenPolicy
  scripts : Vec ScriptEntry
  stakeEntries : Vec StakeEntry
  facts : Vec GovernanceFact

def parseFile {A : Type} (dir : InputDir) (subTree : SubTreeId)
    (parse : String → Except String (Vec A)) : Except String (Vec A) :=
  (dir.read subTree.filename).bind parse

structure Parsed (parsers : Parsers) (dir : InputDir) (records : Records) : Prop where
  utxos : parseFile dir .utxo parsers.utxos = .ok records.utxos
  headers : parseFile dir .header parsers.headers = .ok records.headers
  entries : parseFile dir .txIndex parsers.entries = .ok records.entries
  policies : parseFile dir .tokenPolicy parsers.policies = .ok records.policies
  scripts : parseFile dir .script parsers.scripts = .ok records.scripts
  stakeEntries : parseFile dir .stake parsers.stakeEntries = .ok records.stakeEntries
  facts : parseFile dir .governance parsers.facts = .ok records.facts

/-- The same records in another order, and outputs also with their assets in another
order. -/
structure SameRecords (r r' : Records) : Prop where
  utxos : ∃ us, List.Forall₂ SameUtxo r.utxos.val us ∧ us.Perm r'.utxos.val
  headers : r.headers.val.Perm r'.headers.val
  entries : r.entries.val.Perm r'.entries.val
  policies : r.policies.val.Perm r'.policies.val
  scripts : r.scripts.val.Perm r'.scripts.val
  stakeEntries : r.stakeEntries.val.Perm r'.stakeEntries.val
  facts : r.facts.val.Perm r'.facts.val

section Payloads
variable {blake3 sha3 : Bytes → Hash} {parsers : Parsers}

theorem encodedPayloads_ok {A : Type} {subTreeId : UInt8} {encode : A → Bytes}
    {x : Except String (Vec A)} {built : UInt8 × List Bytes × ℕ}
    (h : (x.mapError RecomputeError.json).map (encodedPayloads subTreeId encode) = .ok built) :
    ∃ parsed, x = .ok parsed ∧ built = encodedPayloads subTreeId encode parsed := by
  rcases map_ok.mp h with ⟨parsed,hparsed,hbuilt⟩
  exact ⟨parsed,mapError_ok.mp hparsed,hbuilt⟩

theorem buildPayloads_utxo {raw : String} {built : UInt8 × List Bytes × ℕ}
    (h : buildPayloads parsers .utxo raw = .ok built) :
    ∃ parsed, parsers.utxos raw = .ok parsed ∧ built.1 = subTreeIdUtxo ∧
      List.Forall₂ (fun (u : Utxo) bytes => u.encode = .ok bytes) parsed.val built.2.1 := by
  rcases bind_ok.mp h with ⟨parsed,hparsed,hrest⟩
  rcases bind_ok.mp hrest with ⟨payloads,hpayloads,hbuilt⟩
  cases hbuilt
  exact ⟨parsed,mapError_ok.mp hparsed,rfl,mapM_ok.mp (mapError_ok.mp hpayloads)⟩

/-- The payloads stand under the sub-tree's own id, and there are not more of them than
a vector can have. -/
theorem buildPayloads_ok {subTree : SubTreeId} {raw : String} {built : UInt8 × List Bytes × ℕ}
    (h : buildPayloads parsers subTree raw = .ok built) :
    built.1 = subTree.numericId ∧ built.2.1.length < 2^64-1 := by
  have hencoded : ∀ {A : Type} {subTreeId : UInt8} {encode : A → Bytes} {x : Except String (Vec A)},
      (x.mapError RecomputeError.json).map (encodedPayloads subTreeId encode) = .ok built →
        built.1 = subTreeId ∧ built.2.1.length < 2^64-1 := by
    intro A subTreeId encode x hx
    rcases encodedPayloads_ok hx with ⟨parsed,-,rfl⟩
    have hlength := parsed.property
    refine ⟨rfl,?_⟩
    rw [encodedPayloads,List.length_map]
    omega
  cases subTree with
  | utxo =>
      rcases buildPayloads_utxo h with ⟨parsed,-,hid,hpayloads⟩
      have hlength := parsed.property
      rw [hpayloads.length_eq] at hlength
      exact ⟨hid,by omega⟩
  | header => exact hencoded h
  | txIndex => exact hencoded h
  | tokenPolicy => exact hencoded h
  | script => exact hencoded h
  | stake => exact hencoded h
  | governance => exact hencoded h

theorem assembleSubTree_ok {dir : InputDir} {subTree : SubTreeId} {record : SubTreeRecord}
    (h : assembleSubTree blake3 sha3 parsers dir subTree = .ok record) :
    ∃ raw built tree, dir.read subTree.filename = .ok raw ∧
      buildPayloads parsers subTree raw = .ok built ∧
      buildV1 blake3 built.1 built.2.1 = .ok tree ∧ record.blake3Root = tree.root := by
  rcases bind_ok.mp h with ⟨raw,hraw,h⟩
  rcases bind_ok.mp h with ⟨roots,hroots,hrecord⟩
  rcases bind_ok.mp (mapError_ok.mp hroots) with ⟨built,hbuilt,hrest⟩
  rcases bind_ok.mp hrest with ⟨tree,htree,hroots⟩
  cases hrecord
  cases hroots
  exact ⟨raw,built,tree,mapError_ok.mp hraw,hbuilt,mapError_ok.mp htree,rfl⟩

/-- Payloads without duplicates are assembled. -/
theorem assembleSubTree_of_payloads {dir : InputDir} {subTree : SubTreeId} {raw : String}
    {built : UInt8 × List Bytes × ℕ} (hraw : dir.read subTree.filename = .ok raw)
    (hbuilt : buildPayloads parsers subTree raw = .ok built) (hnodup : built.2.1.Nodup) :
    ∃ record, assembleSubTree blake3 sha3 parsers dir subTree = .ok record ∧
      record.blake3Root = (buildLayersV1 blake3 (leafRow blake3 built.1 built.2.1)).root := by
  have htree := buildV1_of_nodup blake3 built.1 hnodup
  have hroots : recompute blake3 sha3 parsers subTree raw = .ok _ :=
    bind_ok.mpr ⟨built,hbuilt,bind_ok.mpr ⟨_,mapError_ok.mpr htree,rfl⟩⟩
  exact ⟨_,bind_ok.mpr ⟨raw,mapError_ok.mpr hraw,bind_ok.mpr ⟨_,mapError_ok.mpr hroots,rfl⟩⟩,rfl⟩

theorem assemble_of_subTrees {dir : InputDir} {roots : SubTreeId → Hash}
    (h : ∀ subTree, ∃ record, assembleSubTree blake3 sha3 parsers dir subTree = .ok record ∧
      record.blake3Root = roots subTree) :
    ∃ bundle, assemble blake3 sha3 parsers dir = .ok bundle ∧
      bundle.blake3BundleRoot = blake3 (SubTreeId.all.flatMap fun s => (roots s).toList) := by
  choose record hrecord hroot using h
  have hrows : SubTreeId.all.mapM (assembleSubTree blake3 sha3 parsers dir) =
      .ok (SubTreeId.all.map record) :=
    mapM_ok.mpr (List.forall₂_map_right_iff.mpr (List.forall₂_same.mpr fun s _ => hrecord s))
  refine ⟨_,bind_ok.mpr ⟨_,hrows,rfl⟩,?_⟩
  dsimp only [aggregateBlake3,rootBytes]
  rw [List.flatMap_map]
  simp only [hroot]

theorem assemble_ok {dir : InputDir} {bundle : BundleRecord}
    (h : assemble blake3 sha3 parsers dir = .ok bundle) :
    SubTreeId.all.mapM (assembleSubTree blake3 sha3 parsers dir) = .ok bundle.subTrees ∧
      bundle.blake3BundleRoot = blake3 (rootBytes bundle.subTrees) := by
  rcases bind_ok.mp h with ⟨subTrees,hsubTrees,hbundle⟩
  cases hbundle
  exact ⟨hsubTrees,rfl⟩

theorem subTreePreimages_eq {dir : InputDir} {subTree : SubTreeId} {raw : String}
    {built : UInt8 × List Bytes × ℕ} (hraw : dir.read subTree.filename = .ok raw)
    (hbuilt : buildPayloads parsers subTree raw = .ok built) :
    subTreePreimages blake3 parsers dir subTree = buildPreimages blake3 built.1 built.2.1 := by
  rw [subTreePreimages,hraw]
  dsimp only
  rw [hbuilt]

end Payloads

section Binding
variable {blake3 sha3 : Bytes → Hash} {parsers : Parsers} {dir dir' : InputDir}
  {bundle bundle' : BundleRecord}

theorem bundlePreimages_eq (h : assemble blake3 sha3 parsers dir = .ok bundle) :
    bundlePreimages blake3 sha3 parsers dir = rootBytes bundle.subTrees::
      SubTreeId.all.flatMap (subTreePreimages blake3 parsers dir) := by
  rw [bundlePreimages,h]

theorem rootBytes_inj {xs ys : List SubTreeRecord} (hlength : xs.length = ys.length)
    (h : rootBytes xs = rootBytes ys) :
    xs.map SubTreeRecord.blake3Root = ys.map SubTreeRecord.blake3Root := by
  have hsplits : SplitsAt (List.flatMap Vector.toList) (xs.map SubTreeRecord.blake3Root)
      (ys.map SubTreeRecord.blake3Root) :=
    splitsAt_flatMap (by rw [List.length_map,List.length_map,hlength])
      fun a _ b _ => vector_splits a b
  apply hsplits.inj
  rw [List.flatMap_map,List.flatMap_map]
  exact h

/-- Equal bundle roots: the roots of a sub-tree are equal on both sides, or two hashed
strings collide. -/
theorem subTree_roots (h : assemble blake3 sha3 parsers dir = .ok bundle)
    (h' : assemble blake3 sha3 parsers dir' = .ok bundle')
    (hroot : bundle.blake3BundleRoot = bundle'.blake3BundleRoot) (subTree : SubTreeId) :
    ∃ record record', assembleSubTree blake3 sha3 parsers dir subTree = .ok record ∧
      assembleSubTree blake3 sha3 parsers dir' subTree = .ok record' ∧
      (record.blake3Root = record'.blake3Root ∨
        Collision blake3 (bundlePreimages blake3 sha3 parsers dir)
          (bundlePreimages blake3 sha3 parsers dir')) := by
  have hparts := assemble_ok h
  have hparts' := assemble_ok h'
  rcases mapM_pair_ok SubTreeRecord.blake3Root hparts.1 hparts'.1 (SubTreeId.mem_all subTree) with
    ⟨record,record',hrecord,hrecord',hkeys⟩
  refine ⟨record,record',hrecord,hrecord',?_⟩
  rw [hparts.2,hparts'.2] at hroot
  rw [bundlePreimages_eq h,bundlePreimages_eq h']
  rcases eq_or_collision List.mem_cons_self List.mem_cons_self hroot with hbytes | hcol
  · have hlength := (mapM_ok.mp hparts.1).length_eq.symm.trans (mapM_ok.mp hparts'.1).length_eq
    exact Or.inl (hkeys (rootBytes_inj hlength hbytes))
  · exact Or.inr hcol

/-- The payloads of a sub-tree are the same on both sides, in some order. -/
theorem subTree_payloads (h : assemble blake3 sha3 parsers dir = .ok bundle)
    (h' : assemble blake3 sha3 parsers dir' = .ok bundle')
    (hroot : bundle.blake3BundleRoot = bundle'.blake3BundleRoot) (subTree : SubTreeId) :
    ∃ raw raw' built built', dir.read subTree.filename = .ok raw ∧
      dir'.read subTree.filename = .ok raw' ∧ buildPayloads parsers subTree raw = .ok built ∧
      buildPayloads parsers subTree raw' = .ok built' ∧
      (built.2.1.Perm built'.2.1 ∨
        Collision blake3 (bundlePreimages blake3 sha3 parsers dir)
          (bundlePreimages blake3 sha3 parsers dir')) := by
  rcases subTree_roots h h' hroot subTree with ⟨record,record',hrecord,hrecord',hor⟩
  rcases assembleSubTree_ok hrecord with ⟨raw,built,tree,hraw,hbuilt,htree,htreeRoot⟩
  rcases assembleSubTree_ok hrecord' with ⟨raw',built',tree',hraw',hbuilt',htree',htreeRoot'⟩
  refine ⟨raw,raw',built,built',hraw,hraw',hbuilt,hbuilt',?_⟩
  rcases hor with heq | hcol
  · rw [htreeRoot,htreeRoot',buildV1_root _ _ htree,buildV1_root _ _ htree'] at heq
    rcases rootAt_binds (buildPayloads_ok hbuilt).2 (buildPayloads_ok hbuilt').2 heq with hbound | hcol
    · exact Or.inl hbound.2
    · right
      rw [← subTreePreimages_eq hraw hbuilt,← subTreePreimages_eq hraw' hbuilt'] at hcol
      rw [bundlePreimages_eq h,bundlePreimages_eq h']
      have hpart : ∀ d : InputDir, subTreePreimages blake3 parsers d subTree ⊆
          SubTreeId.all.flatMap (subTreePreimages blake3 parsers d) :=
        fun d x hx => List.mem_flatMap.mpr ⟨subTree,SubTreeId.mem_all subTree,hx⟩
      exact hcol.mono (fun x hx => List.mem_cons_of_mem _ (hpart dir hx))
        fun x hx => List.mem_cons_of_mem _ (hpart dir' hx)
  · exact Or.inr hcol

theorem parseFile_ok {A : Type} {subTree : SubTreeId} {parse : String → Except String (Vec A)}
    {raw : String} {parsed : Vec A} (hraw : dir.read subTree.filename = .ok raw)
    (hparsed : parse raw = .ok parsed) : parseFile dir subTree parse = .ok parsed :=
  FallibleSteps.bind_ok.mpr ⟨raw,hraw,hparsed⟩

/-- A sub-tree whose records are encoded without failures: an injective encoding carries
the order of the payloads to the records. -/
theorem encoded_records (h : assemble blake3 sha3 parsers dir = .ok bundle)
    (h' : assemble blake3 sha3 parsers dir' = .ok bundle')
    (hroot : bundle.blake3BundleRoot = bundle'.blake3BundleRoot) {A : Type} (subTree : SubTreeId)
    {parse : String → Except String (Vec A)} {encode : A → Bytes}
    (hinj : Function.Injective encode)
    (hbuild : ∀ raw, buildPayloads parsers subTree raw =
      ((parse raw).mapError RecomputeError.json).map (encodedPayloads subTree.numericId encode)) :
    ∃ xs ys, parseFile dir subTree parse = .ok xs ∧ parseFile dir' subTree parse = .ok ys ∧
      (xs.val.Perm ys.val ∨
        Collision blake3 (bundlePreimages blake3 sha3 parsers dir)
          (bundlePreimages blake3 sha3 parsers dir')) := by
  rcases subTree_payloads h h' hroot subTree with
    ⟨raw,raw',built,built',hraw,hraw',hbuilt,hbuilt',hor⟩
  rw [hbuild] at hbuilt hbuilt'
  rcases encodedPayloads_ok hbuilt with ⟨xs,hxs,rfl⟩
  rcases encodedPayloads_ok hbuilt' with ⟨ys,hys,rfl⟩
  exact ⟨xs,ys,parseFile_ok hraw hxs,parseFile_ok hraw' hys,
    hor.imp_left (List.map_perm_map_iff hinj).mp⟩

/-- Outputs with the same payloads, pair by pair. -/
theorem sameUtxo_of_payloads {us vs : List Utxo} {payloads : List Bytes}
    (hus : List.Forall₂ (fun (u : Utxo) bytes => u.encode = .ok bytes) us payloads)
    (hvs : List.Forall₂ (fun bytes (v : Utxo) => v.encode = .ok bytes) payloads vs) :
    List.Forall₂ SameUtxo us vs := by
  induction hus generalizing vs with
  | nil =>
      rw [List.forall₂_nil_left_iff.mp hvs]
      exact List.Forall₂.nil
  | cons hu _ ih =>
      rcases List.forall₂_cons_left_iff.mp hvs with ⟨v,rest,hv,hrest,rfl⟩
      exact List.Forall₂.cons (Utxo.encode_binds hu hv) (ih hrest)

theorem utxo_records (h : assemble blake3 sha3 parsers dir = .ok bundle)
    (h' : assemble blake3 sha3 parsers dir' = .ok bundle')
    (hroot : bundle.blake3BundleRoot = bundle'.blake3BundleRoot) :
    ∃ xs ys, parseFile dir .utxo parsers.utxos = .ok xs ∧
      parseFile dir' .utxo parsers.utxos = .ok ys ∧
      ((∃ us, List.Forall₂ SameUtxo xs.val us ∧ us.Perm ys.val) ∨
        Collision blake3 (bundlePreimages blake3 sha3 parsers dir)
          (bundlePreimages blake3 sha3 parsers dir')) := by
  rcases subTree_payloads h h' hroot .utxo with
    ⟨raw,raw',built,built',hraw,hraw',hbuilt,hbuilt',hor⟩
  rcases buildPayloads_utxo hbuilt with ⟨xs,hxs,-,hencoded⟩
  rcases buildPayloads_utxo hbuilt' with ⟨ys,hys,-,hencoded'⟩
  refine ⟨xs,ys,parseFile_ok hraw hxs,parseFile_ok hraw' hys,hor.imp_left ?_⟩
  intro hperm
  rcases List.perm_comp_forall₂ hperm hencoded'.flip with ⟨us,hus,horder⟩
  exact ⟨us,sameUtxo_of_payloads hencoded hus,horder⟩

/-- Two assembled bundles with one Blake3 root were read from the same records up to their
order, and outputs up to the order of their assets, or two hashed strings collide. -/
theorem bundle_root_binds_records (h : assemble blake3 sha3 parsers dir = .ok bundle)
    (h' : assemble blake3 sha3 parsers dir' = .ok bundle')
    (hroot : bundle.blake3BundleRoot = bundle'.blake3BundleRoot) :
    ∃ r r', Parsed parsers dir r ∧ Parsed parsers dir' r' ∧
      (SameRecords r r' ∨
        Collision blake3 (bundlePreimages blake3 sha3 parsers dir)
          (bundlePreimages blake3 sha3 parsers dir')) := by
  rcases utxo_records h h' hroot with ⟨utxos,utxos',hu,hu',hutxos⟩
  rcases encoded_records h h' hroot .header BlockHeader.encode_injective (fun _ => rfl) with
    ⟨headers,headers',hh,hh',hheaders⟩
  rcases encoded_records h h' hroot .txIndex TxIndexEntry.encode_injective (fun _ => rfl) with
    ⟨entries,entries',he,he',hentries⟩
  rcases encoded_records h h' hroot .tokenPolicy TokenPolicy.encode_injective (fun _ => rfl) with
    ⟨policies,policies',hp,hp',hpolicies⟩
  rcases encoded_records h h' hroot .script ScriptEntry.encode_injective (fun _ => rfl) with
    ⟨scripts,scripts',hs,hs',hscripts⟩
  rcases encoded_records h h' hroot .stake StakeEntry.encode_injective (fun _ => rfl) with
    ⟨stakes,stakes',ht,ht',hstakes⟩
  rcases encoded_records h h' hroot .governance GovernanceFact.encode_injective (fun _ => rfl) with
    ⟨facts,facts',hf,hf',hfacts⟩
  refine ⟨⟨utxos,headers,entries,policies,scripts,stakes,facts⟩,
    ⟨utxos',headers',entries',policies',scripts',stakes',facts'⟩,⟨hu,hh,he,hp,hs,ht,hf⟩,
    ⟨hu',hh',he',hp',hs',ht',hf'⟩,?_⟩
  by_cases hcol : Collision blake3 (bundlePreimages blake3 sha3 parsers dir)
      (bundlePreimages blake3 sha3 parsers dir')
  · exact Or.inr hcol
  · exact Or.inl ⟨hutxos.resolve_right hcol,hheaders.resolve_right hcol,hentries.resolve_right hcol,
      hpolicies.resolve_right hcol,hscripts.resolve_right hcol,hstakes.resolve_right hcol,
      hfacts.resolve_right hcol⟩

end Binding

section Sample

def sampleOutput (tag : UInt8) (assets : List Asset) : Utxo :=
  ⟨Vector.replicate 32 tag,0,[0x61],1,assets,.none,none⟩

def outputText (digits assets : String) : String :=
  "\x7b\"tx_id\":\""++String.join (List.replicate 32 digits)++
    "\",\"output_index\":0,\"address\":\"61\",\"value_lovelace\":1,\"assets\":["++assets++
    "],\"datum_option\":\x7b\"kind\":\"none\"\x7d,\"script_ref\":null\x7d"

/-- Two outputs, the first with two assets. -/
def firstText : String :=
  "\x7b\"utxos\":["++outputText "01"
    "\x7b\"asset_id\":\"aa\",\"quantity\":1\x7d,\x7b\"asset_id\":\"bb\",\"quantity\":2\x7d"++
    ","++outputText "02" ""++"]\x7d"

/-- The same outputs in the other order, and the two assets as well. -/
def secondText : String :=
  "\x7b\"utxos\":["++outputText "02" ""++","++outputText "01"
    "\x7b\"asset_id\":\"bb\",\"quantity\":2\x7d,\x7b\"asset_id\":\"aa\",\"quantity\":1\x7d"++
    "]\x7d"

def emptyText (field : String) : String := "\x7b\""++field++"\":[]\x7d"

def sampleFiles (utxos : String) (name : String) : Except String String :=
  if name = "utxo.json" then .ok utxos
  else if name = "header.json" then .ok (emptyText "headers")
  else if name = "tx_index.json" then .ok (emptyText "entries")
  else if name = "token_policy.json" then .ok (emptyText "policies")
  else if name = "script.json" then .ok (emptyText "scripts")
  else if name = "stake.json" then .ok (emptyText "stake_entries")
  else if name = "governance.json" then .ok (emptyText "facts")
  else .error "No such file or directory (os error 2)"

def sampleDir (path utxos : String) : InputDir := ⟨path,sampleFiles utxos⟩

def firstOutputs : Vec Utxo :=
  ⟨[sampleOutput 1 [⟨[0xaa],1⟩,⟨[0xbb],2⟩],sampleOutput 2 []],by decide⟩

def secondOutputs : Vec Utxo :=
  ⟨[sampleOutput 2 [],sampleOutput 1 [⟨[0xbb],2⟩,⟨[0xaa],1⟩]],by decide⟩

def parseUtxos (raw : String) : Except String (Vec Utxo) :=
  if raw = firstText then .ok firstOutputs
  else if raw = secondText then .ok secondOutputs
  else .error "expected value at line 1 column 1"

def parseEmpty {A : Type} (field raw : String) : Except String (Vec A) :=
  if raw = emptyText field then .ok ⟨[],Nat.two_pow_pos 63⟩ else .error "expected value at line 1 column 1"

def sampleParsers : Parsers :=
  ⟨parseUtxos,parseEmpty "headers",parseEmpty "entries",parseEmpty "policies",parseEmpty "scripts",
    parseEmpty "stake_entries",parseEmpty "facts"⟩

theorem parseUtxos_first : parseUtxos firstText = .ok firstOutputs := by
  rw [parseUtxos,if_pos rfl]

theorem parseUtxos_second : parseUtxos secondText = .ok secondOutputs := by
  have hne : secondText ≠ firstText := by decide +kernel
  rw [parseUtxos,if_neg hne,if_pos rfl]

/-- SHA3-256 of the two leaves and of the seven roots of the sample. -/
def sampleSha3 (bytes : Bytes) : Hash :=
  if bytes.length = 64 then
    #v[0x6b,0xcd,0x0e,0x94,0x9a,0xcb,0xd7,0xdf,0x5b,0x23,0xe4,0xe0,0xfd,0x62,0x5a,0xc3,
      0x36,0x04,0xd8,0x4f,0xb3,0x1e,0xba,0xd6,0x46,0x19,0x6e,0x80,0x0d,0xa6,0x9d,0xee]
  else
    #v[0x69,0x06,0xe4,0xa5,0xbf,0x34,0xc4,0xcc,0x1a,0x08,0xb9,0x01,0x08,0x6c,0xc2,0x7c,
      0x64,0x26,0xbe,0x02,0x32,0x08,0x03,0x30,0xd2,0x6c,0x70,0x1c,0xe1,0x59,0xaa,0xc3]

def samplePayloads : SubTreeId → List Bytes
  | .utxo => [(sampleOutput 1 [⟨[0xaa],1⟩,⟨[0xbb],2⟩]).layout,(sampleOutput 2 []).layout]
  | _ => []

theorem buildPayloads_first :
    buildPayloads sampleParsers .utxo firstText = .ok (subTreeIdUtxo,samplePayloads .utxo,2) := by
  dsimp only [buildPayloads,sampleParsers]
  rw [parseUtxos_first]
  rfl

section Files
variable {blake3 sha3 : Bytes → Hash}

theorem sample_empty {A : Type} {subTree : SubTreeId} {utxos field : String} {encode : A → Bytes}
    {path : String} (hraw : (sampleDir path utxos).read subTree.filename = .ok (emptyText field))
    (hbuild : ∀ raw, buildPayloads sampleParsers subTree raw =
      ((parseEmpty field raw).mapError RecomputeError.json).map
        (encodedPayloads subTree.numericId encode)) :
    ∃ record, assembleSubTree blake3 sha3 sampleParsers (sampleDir path utxos) subTree =
        .ok record ∧
      record.blake3Root = (buildLayersV1 blake3 (leafRow blake3 subTree.numericId [])).root := by
  have hbuilt : buildPayloads sampleParsers subTree (emptyText field) =
      .ok (subTree.numericId,[],0) := by
    rw [hbuild,parseEmpty,if_pos rfl]
    rfl
  have hrecord := @assembleSubTree_of_payloads blake3 sha3 _ _ _ _ _ hraw hbuilt List.nodup_nil
  exact hrecord

theorem sample_subTree {path utxos : String} {payloads : List Bytes} {count : ℕ}
    (hutxos : buildPayloads sampleParsers .utxo utxos = .ok (subTreeIdUtxo,payloads,count))
    (hnodup : payloads.Nodup) (hsorted : sortPayloads payloads = sortPayloads (samplePayloads .utxo))
    (subTree : SubTreeId) :
    ∃ record, assembleSubTree blake3 sha3 sampleParsers (sampleDir path utxos) subTree =
        .ok record ∧
      record.blake3Root = (buildLayersV1 blake3
        (leafRow blake3 subTree.numericId (samplePayloads subTree))).root := by
  cases subTree with
  | utxo =>
      have hraw : (sampleDir path utxos).read SubTreeId.utxo.filename = .ok utxos := by
        simp [sampleDir,sampleFiles,SubTreeId.filename]
      have hrow : leafRow blake3 SubTreeId.utxo.numericId (samplePayloads .utxo) =
          leafRow blake3 subTreeIdUtxo payloads := by
        rw [leafRow,leafRow,hsorted]
        rfl
      have hrecord := @assembleSubTree_of_payloads blake3 sha3 _ _ _ _ _ hraw hutxos hnodup
      rw [hrow]
      exact hrecord
  | header => exact sample_empty (by simp [sampleDir,sampleFiles,SubTreeId.filename]) fun _ => rfl
  | txIndex => exact sample_empty (by simp [sampleDir,sampleFiles,SubTreeId.filename]) fun _ => rfl
  | tokenPolicy => exact sample_empty (by simp [sampleDir,sampleFiles,SubTreeId.filename]) fun _ => rfl
  | script => exact sample_empty (by simp [sampleDir,sampleFiles,SubTreeId.filename]) fun _ => rfl
  | stake => exact sample_empty (by simp [sampleDir,sampleFiles,SubTreeId.filename]) fun _ => rfl
  | governance => exact sample_empty (by simp [sampleDir,sampleFiles,SubTreeId.filename]) fun _ => rfl

end Files

/-- Two directories with the same outputs in another order. -/
theorem reordered_outputs_bound :
    ∃ bundle bundle' r r',
      assemble singleChunkHash sampleSha3 sampleParsers (sampleDir "a" firstText) = .ok bundle ∧
      assemble singleChunkHash sampleSha3 sampleParsers (sampleDir "b" secondText) = .ok bundle' ∧
      bundle.blake3BundleRoot = bundle'.blake3BundleRoot ∧
      Parsed sampleParsers (sampleDir "a" firstText) r ∧
      Parsed sampleParsers (sampleDir "b" secondText) r' ∧
      (SameRecords r r' ∨
        Collision singleChunkHash
          (bundlePreimages singleChunkHash sampleSha3 sampleParsers (sampleDir "a" firstText))
          (bundlePreimages singleChunkHash sampleSha3 sampleParsers (sampleDir "b" secondText))) := by
  have hsecond : buildPayloads sampleParsers .utxo secondText =
      .ok (subTreeIdUtxo,(samplePayloads .utxo).reverse,2) := by
    dsimp only [buildPayloads,sampleParsers]
    rw [parseUtxos_second]
    rfl
  rcases @assemble_of_subTrees singleChunkHash sampleSha3 sampleParsers (sampleDir "a" firstText) _
    (sample_subTree buildPayloads_first (by decide) rfl) with ⟨bundle,h,hroot⟩
  rcases @assemble_of_subTrees singleChunkHash sampleSha3 sampleParsers (sampleDir "b" secondText) _
    (sample_subTree hsecond (by decide) (by decide)) with ⟨bundle',h',hroot'⟩
  have hsame := hroot.trans hroot'.symm
  rcases bundle_root_binds_records h h' hsame with ⟨r,r',hparsed,hparsed',hbound⟩
  exact ⟨bundle,bundle',r,r',h,h',hsame,hparsed,hparsed',hbound⟩

end Sample

end OmegaHarness.BundleAssembly
