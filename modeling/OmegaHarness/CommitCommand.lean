import OmegaHarness.FileTree
import OmegaHarness.MembershipExactness
import OmegaHarness.SemanticKeys

/-!
# The command for one sub-tree

`commit` reads the input of one sub-tree, hashes each payload without a tag, sorts the
digests and builds the older tree over them: padded with zeros, with untagged nodes. It
writes one record and one inclusion witness for each leaf. The bundle tool reads the same
text and builds the tagged tree. Both go through the same payloads, so their counts and
depths agree. Their roots do not: they are digests of strings of different lengths. And
where the bundle tool refuses equal payloads, the command keeps them.
-/
namespace OmegaHarness.CommitCommand
open FallibleSteps FiniteCollisions FixedWidthBytes DomainHashes LayeredTree MerkleTreeV1
open LeafEncodings BundleAssembly SemanticKeys MembershipExactness Blake3Compression
open FileTree (Path)

def displayPath (path : Path) : String := "/"++String.intercalate "/" path

inductive CommitError where
  | bail (message : String)
  | json (message : String)
  | leaf (e : LeafError)
  deriving DecidableEq, Repr

structure CommitmentRecord where
  subTree : SubTreeId
  inputDigest : Hash
  root : Hash
  leafCount : ℕ
  treeDepth : ℕ
  itemCount : ℕ
  deriving DecidableEq, Repr

/-- What the command leaves in its output directory. -/
structure Written where
  commitment : CommitmentRecord
  witnesses : List (Path × InclusionWitness)
  deriving DecidableEq, Repr

section Legacy
variable (blake3 : Bytes → Hash)

def legacyNode (left right : Hash) : Hash := blake3 (left.toList++right.toList)

/-- `sort()` on digests, then zeros up to the next power of two. -/
def legacyRow (input : List Hash) : List Hash :=
  let sorted := input.insertionSort fun a b => a.toList ≤ b.toList
  sorted++List.replicate (nextPowerOfTwo (max sorted.length 1)-sorted.length) zeroHash

def buildLegacy (input : List Hash) : MerkleTree :=
  let layers := growLayers (legacyNode blake3) (legacyRow input)
  ⟨layers[0]!,layers⟩

end Legacy

section Command
variable (blake3 : Bytes → Hash) (parsers : Parsers)

/-- The leaves of records whose encoding cannot fail. -/
def hashedLeaves {A : Type} (encode : A → Bytes) (parsed : Vec A) : List Hash × ℕ :=
  (parsed.val.map fun a => blake3 (encode a),parsed.val.length)

def buildUtxoLeaves (raw : String) : Except CommitError (List Hash × ℕ) := do
  let parsed ← (parsers.utxos raw).mapError .json
  let leaves ← (parsed.val.mapM fun u => (Utxo.encode u).map blake3).mapError .leaf
  return (leaves,parsed.val.length)

def buildHeaderLeaves (raw : String) : Except CommitError (List Hash × ℕ) :=
  ((parsers.headers raw).mapError .json).map (hashedLeaves blake3 BlockHeader.encode)

def buildTxIndexLeaves (raw : String) : Except CommitError (List Hash × ℕ) :=
  ((parsers.entries raw).mapError .json).map (hashedLeaves blake3 TxIndexEntry.encode)

def buildTokenPolicyLeaves (raw : String) : Except CommitError (List Hash × ℕ) :=
  ((parsers.policies raw).mapError .json).map (hashedLeaves blake3 TokenPolicy.encode)

def buildScriptLeaves (raw : String) : Except CommitError (List Hash × ℕ) :=
  ((parsers.scripts raw).mapError .json).map (hashedLeaves blake3 ScriptEntry.encode)

def buildStakeLeaves (raw : String) : Except CommitError (List Hash × ℕ) :=
  ((parsers.stakeEntries raw).mapError .json).map (hashedLeaves blake3 StakeEntry.encode)

def buildGovernanceLeaves (raw : String) : Except CommitError (List Hash × ℕ) :=
  ((parsers.facts raw).mapError .json).map (hashedLeaves blake3 GovernanceFact.encode)

def buildLeaves (subTree : SubTreeId) (raw : String) : Except CommitError (List Hash × ℕ) :=
  match subTree with
  | .utxo => buildUtxoLeaves blake3 parsers raw
  | .header => buildHeaderLeaves blake3 parsers raw
  | .txIndex => buildTxIndexLeaves blake3 parsers raw
  | .tokenPolicy => buildTokenPolicyLeaves blake3 parsers raw
  | .script => buildScriptLeaves blake3 parsers raw
  | .stake => buildStakeLeaves blake3 parsers raw
  | .governance => buildGovernanceLeaves blake3 parsers raw

/-- A child of a directory is written only below it once its parent is resolved. -/
def safeChild (canonicalize : Path → Except String Path) (baseDir child : Path) :
    Except CommitError Path :=
  match child.getLast? with
  | none => .error (.bail ("write path has no parent: "++displayPath child))
  | some fileName => do
      let parent ← (canonicalize child.dropLast).mapError fun e =>
        .bail ("cannot resolve write parent "++displayPath child.dropLast++": "++e)
      let resolved := parent++[fileName]
      if baseDir.isPrefixOf resolved then
        return resolved
      else
        .error (.bail ("write path escapes output dir: "++displayPath resolved++" not in "++
          displayPath baseDir))

/-- `or_insert` keeps the first position of a leaf, and it is cast to `u32`. -/
def leafIdx (leaves : List Hash) (leaf : Hash) : Option UInt32 :=
  (leaves.findIdx? (· = leaf)).map UInt32.ofNat

def writeWitness (canonicalize : Path → Except String Path) (output : Path) (tree : MerkleTree)
    (leaf : Hash) : Except CommitError (Path × InclusionWitness) :=
  match leafIdx tree.leaves leaf with
  | none => .error (.bail "leaf vanished from tree")
  | some idx => match buildAtIndex tree idx with
    | none => .error (.bail "index out of range")
    | some w => do
        let target ← safeChild canonicalize output
          (output++["witnesses",hexEncode leaf.toList++".json"])
        return (target,w)

def checkInputSize (input : Path) (len : ℕ) (maxInputBytes : UInt64) : Except CommitError Unit :=
  if len > maxInputBytes.toNat then
    .error (.bail ("input file "++displayPath input++" is "++toString len++
      " bytes, exceeds --max-input-bytes="++toString maxInputBytes.toNat))
  else .ok ()

/-- The command on an input file with the given text. Reading the file and creating the
output directories are taken to succeed. -/
def commit (canonicalize : Path → Except String Path) (input : Path) (raw : String)
    (output : Path) (subTree : SubTreeId) (maxInputBytes : UInt64) : Except CommitError Written := do
  checkInputSize input raw.toUTF8.size maxInputBytes
  let inputDigest := blake3 raw.toUTF8.toList
  let built ← buildLeaves blake3 parsers subTree raw
  let tree := buildLegacy blake3 built.1
  let record := ⟨subTree,inputDigest,tree.root,tree.leafCount,tree.depth,built.2⟩
  let witnesses ← built.1.mapM (writeWitness canonicalize output tree)
  return ⟨record,witnesses⟩

end Command

section LegacyTree
variable (blake3 : Bytes → Hash)

theorem legacyRow_length (input : List Hash) :
    (legacyRow input).length = 2^depthOf input.length := by
  have h := count_le_width input.length
  simp only [legacyRow,List.length_append,List.length_replicate,List.length_insertionSort,
    nextPowerOfTwo]
  change input.length+(2^depthOf input.length-input.length) = _
  omega

theorem mem_legacyRow {input : List Hash} {leaf : Hash} (h : leaf ∈ input) : leaf ∈ legacyRow input :=
  List.mem_append_left _ ((List.mem_insertionSort _).mpr h)

theorem buildLegacy_leaves (input : List Hash) : (buildLegacy blake3 input).leaves = legacyRow input :=
  growLayers_head _ _

theorem buildLegacy_leafCount (input : List Hash) :
    (buildLegacy blake3 input).leafCount = 2^depthOf input.length := by
  rw [MerkleTree.leafCount,buildLegacy_leaves,legacyRow_length]

theorem buildLegacy_depth (input : List Hash) :
    (buildLegacy blake3 input).depth = depthOf input.length := by
  rw [MerkleTree.depth,buildLegacy,growLayers_length _ (legacyRow_length input)]
  rfl

theorem buildLegacy_root (input : List Hash) :
    (buildLegacy blake3 input).root =
      rootAt (legacyNode blake3) (depthOf input.length) (legacyRow input) :=
  growLayers_root _ (legacyRow_length input)

def concatPair (p : Hash × Hash) : Bytes := p.1.toList++p.2.toList

/-- Every string hashed for the older tree: the payloads and the nodes. -/
def legacyPreimages (payloads : List Bytes) : List Bytes :=
  payloads++(treePairs (legacyNode blake3) (depthOf payloads.length)
    (legacyRow (payloads.map blake3))).map concatPair

theorem depthOf_two_le {count : ℕ} (h : 2 ≤ count) : ∃ depth, depthOf count = depth+1 := by
  have hpos : 0 < depthOf count := Nat.clog_pos (by omega) (by omega)
  exact ⟨depthOf count-1,by omega⟩

/-- The two trees have one root only if two hashed strings collide, or over no payloads if
the padding leaf has the zero digest. -/
theorem legacy_root_eq (subTreeId : UInt8) (payloads : List Bytes)
    (h : rootAt (legacyNode blake3) (depthOf payloads.length) (legacyRow (payloads.map blake3)) =
      rootAt (nodeHashV2 blake3) (depthOf payloads.length) (leafRow blake3 subTreeId payloads)) :
    Collision blake3 (legacyPreimages blake3 payloads) (buildPreimages blake3 subTreeId payloads) ∨
      (payloads = [] ∧ emptyLeaf blake3 subTreeId = zeroHash) := by
  have hlength := leafRow_length blake3 subTreeId payloads
  have hlegacy := legacyRow_length (payloads.map blake3)
  rw [List.length_map] at hlegacy
  match payloads, hlength, hlegacy, h with
  | [],_,_,h => exact Or.inr ⟨rfl,h.symm⟩
  | [payload],_,_,h =>
      left
      have himage : blake3 payload = blake3 (leafPreimage subTreeId (UInt64.ofNat 0) payload) := h
      have hleft : payload ∈ legacyPreimages blake3 [payload] :=
        List.mem_append_left _ List.mem_cons_self
      have hright : leafPreimage subTreeId (UInt64.ofNat 0) payload ∈
          buildPreimages blake3 subTreeId [payload] :=
        buildPreimages_payload blake3 subTreeId [payload] Nat.zero_lt_one
      rcases eq_or_collision hleft hright himage with heq | hcol
      · have hsize := congrArg List.length heq
        rw [leafPreimage,List.length_append,domainLeaf_length,List.length_cons,List.length_append,
          List.length_append] at hsize
        omega
      · exact hcol
  | first::second::rest,hlength,hlegacy,h =>
      left
      -- both roots are nodes, of 64 bytes here and of 77 bytes there
      obtain ⟨depth,hdepth⟩ := @depthOf_two_le (first::second::rest).length (by simp)
      rw [hdepth] at hlength hlegacy h
      obtain ⟨p,hp,hroot⟩ := rootAt_pair (legacyNode blake3) hlegacy
      obtain ⟨q,hq,hroot'⟩ := rootAt_pair (nodeHashV2 blake3) hlength
      have himage : blake3 (concatPair p) = blake3 (pairPreimage q) := hroot.symm.trans (h.trans hroot')
      have hleft : concatPair p ∈ legacyPreimages blake3 (first::second::rest) := by
        rw [legacyPreimages,hdepth]
        exact List.mem_append_right _ (List.mem_map_of_mem hp)
      have hright := buildPreimages_node blake3 subTreeId (first::second::rest) (hdepth ▸ hq)
      rcases eq_or_collision hleft hright himage with heq | hcol
      · have hsize := congrArg List.length heq
        simp [concatPair,pairPreimage,nodePreimage] at hsize
      · exact hcol

end LegacyTree

section Agreement
variable {blake3 sha3 : Bytes → Hash} {parsers : Parsers} {subTree : SubTreeId} {raw : String}
  {canonicalize : Path → Except String Path} {input output : Path} {maxInputBytes : UInt64}

theorem hashedLeaves_ok {A : Type} {leaves : List Hash × ℕ} (subTreeId : UInt8) (encode : A → Bytes)
    (x : Except String (Vec A)) :
    (x.mapError CommitError.json).map (hashedLeaves blake3 encode) = .ok leaves ↔
      ∃ built, (x.mapError RecomputeError.json).map (encodedPayloads subTreeId encode) = .ok built ∧
        leaves = (built.2.1.map blake3,built.2.2) := by
  cases x with
  | error e => exact ⟨nofun,nofun⟩
  | ok parsed =>
      have hpair : hashedLeaves blake3 encode parsed =
          ((encodedPayloads subTreeId encode parsed).2.1.map blake3,
            (encodedPayloads subTreeId encode parsed).2.2) := by
        rw [hashedLeaves,encodedPayloads,List.map_map]
        rfl
      constructor
      · intro h
        cases h
        exact ⟨_,rfl,hpair⟩
      · rintro ⟨built,hbuilt,rfl⟩
        cases hbuilt
        exact congrArg Except.ok hpair

/-- The records whose encoding can fail: it fails in both or in neither. -/
theorem buildUtxoLeaves_ok {leaves : List Hash × ℕ} :
    buildUtxoLeaves blake3 parsers raw = .ok leaves ↔
      ∃ built, buildPayloads parsers .utxo raw = .ok built ∧
        leaves = (built.2.1.map blake3,built.2.2) := by
  constructor
  · intro h
    obtain ⟨parsed,hparsed,hrest⟩ := bind_ok.mp h
    obtain ⟨hashes,hhashes,hleaves⟩ := bind_ok.mp hrest
    rw [mapM_map] at hhashes
    obtain ⟨payloads,hpayloads,rfl⟩ := map_ok.mp (mapError_ok.mp hhashes)
    cases hleaves
    refine ⟨(subTreeIdUtxo,payloads,parsed.val.length),?_,rfl⟩
    exact bind_ok.mpr ⟨parsed,mapError_ok.mpr (mapError_ok.mp hparsed),
      bind_ok.mpr ⟨payloads,mapError_ok.mpr hpayloads,rfl⟩⟩
  · rintro ⟨built,h,rfl⟩
    obtain ⟨parsed,hparsed,hrest⟩ := bind_ok.mp h
    obtain ⟨payloads,hpayloads,hbuilt⟩ := bind_ok.mp hrest
    cases hbuilt
    have hhashes : parsed.val.mapM (fun u => (Utxo.encode u).map blake3) =
        .ok (payloads.map blake3) := by
      rw [mapM_map,mapError_ok.mp hpayloads]
      rfl
    exact bind_ok.mpr ⟨parsed,mapError_ok.mpr (mapError_ok.mp hparsed),
      bind_ok.mpr ⟨_,mapError_ok.mpr hhashes,rfl⟩⟩

/-- The command hashes the payloads which the bundle tool commits to. -/
theorem buildLeaves_ok {leaves : List Hash × ℕ} :
    buildLeaves blake3 parsers subTree raw = .ok leaves ↔
      ∃ built, buildPayloads parsers subTree raw = .ok built ∧
        leaves = (built.2.1.map blake3,built.2.2) := by
  cases subTree with
  | utxo => exact buildUtxoLeaves_ok
  | header => exact hashedLeaves_ok subTreeIdHeader BlockHeader.encode _
  | txIndex => exact hashedLeaves_ok subTreeIdTxIndex TxIndexEntry.encode _
  | tokenPolicy => exact hashedLeaves_ok subTreeIdTokenPolicy TokenPolicy.encode _
  | script => exact hashedLeaves_ok subTreeIdScript ScriptEntry.encode _
  | stake => exact hashedLeaves_ok subTreeIdStake StakeEntry.encode _
  | governance => exact hashedLeaves_ok subTreeIdGovernance GovernanceFact.encode _

theorem leafIdx_mem {leaves : List Hash} {leaf : Hash} (h : leaf ∈ leaves) :
    ∃ idx, leafIdx leaves leaf = some idx ∧ idx.toNat < leaves.length := by
  cases hfind : leaves.findIdx? (· = leaf) with
  | none =>
      have habsent := List.findIdx?_eq_none_iff.mp hfind leaf h
      simp at habsent
  | some i =>
      have hi := (List.findIdx?_eq_some_iff_getElem.mp hfind).1
      refine ⟨UInt32.ofNat i,by rw [leafIdx,hfind]; rfl,?_⟩
      -- a position beyond 32 bits is truncated, which keeps it in range
      have hle : (UInt32.ofNat i).toNat ≤ i := by
        rw [UInt32.toNat_ofNat']
        exact Nat.mod_le _ _
      omega

theorem safeChild_witness (hdir : canonicalize (output++["witnesses"]) = .ok (output++["witnesses"]))
    (name : String) :
    safeChild canonicalize output (output++["witnesses",name]) = .ok (output++["witnesses",name]) := by
  have hsplit : output++["witnesses",name] = (output++["witnesses"])++[name] := by
    rw [List.append_assoc]
    rfl
  have hbelow : output.isPrefixOf ((output++["witnesses"])++[name]) = true := by
    rw [List.isPrefixOf_iff_prefix,List.append_assoc]
    exact List.prefix_append _ _
  rw [hsplit,safeChild,List.getLast?_concat]
  dsimp only
  rw [List.dropLast_concat,hdir]
  exact if_pos hbelow

theorem writeWitness_ok (hdir : canonicalize (output++["witnesses"]) = .ok (output++["witnesses"]))
    {leaves : List Hash} {leaf : Hash} (h : leaf ∈ leaves) :
    ∃ written, writeWitness canonicalize output (buildLegacy blake3 leaves) leaf = .ok written := by
  have hrow : leaf ∈ (buildLegacy blake3 leaves).leaves := by
    rw [buildLegacy_leaves]
    exact mem_legacyRow h
  obtain ⟨idx,hidx,hlt⟩ := leafIdx_mem hrow
  obtain ⟨w,hopened⟩ : ∃ w, buildAtIndex (buildLegacy blake3 leaves) idx = some w := by
    rw [buildAtIndex,List.getElem?_eq_getElem hlt]
    exact ⟨_,rfl⟩
  refine ⟨(output++["witnesses",hexEncode leaf.toList++".json"],w),?_⟩
  rw [writeWitness,hidx]
  dsimp only
  rw [hopened]
  dsimp only
  rw [safeChild_witness hdir]
  rfl

/-- The loop over the leaves never stops the command. -/
theorem writeWitnesses_ok (hdir : canonicalize (output++["witnesses"]) = .ok (output++["witnesses"]))
    (leaves : List Hash) :
    ∃ written, leaves.mapM (writeWitness canonicalize output (buildLegacy blake3 leaves)) =
      .ok written := by
  have hall : ∀ leaf ∈ leaves, ∃ written,
      writeWitness canonicalize output (buildLegacy blake3 leaves) leaf = .ok written :=
    fun leaf h => writeWitness_ok hdir h
  exact mapM_exists_ok hall

theorem commit_ok {out : Written}
    (h : commit blake3 parsers canonicalize input raw output subTree maxInputBytes = .ok out) :
    raw.toUTF8.size ≤ maxInputBytes.toNat ∧
      ∃ built, buildPayloads parsers subTree raw = .ok built ∧
        out.commitment = ⟨subTree,blake3 raw.toUTF8.toList,
          (buildLegacy blake3 (built.2.1.map blake3)).root,2^depthOf built.2.1.length,
          depthOf built.2.1.length,built.2.2⟩ := by
  obtain ⟨hsize,hrest⟩ := check_bind_ok.mp h
  obtain ⟨leaves,hleaves,hrest⟩ := bind_ok.mp hrest
  obtain ⟨witnesses,-,hout⟩ := bind_ok.mp hrest
  obtain ⟨built,hbuilt,rfl⟩ := buildLeaves_ok.mp hleaves
  cases hout
  refine ⟨not_lt.mp (guard_ok.mp hsize),built,hbuilt,?_⟩
  dsimp only
  rw [buildLegacy_leafCount,buildLegacy_depth,List.length_map]

theorem commit_of_payloads
    (hdir : canonicalize (output++["witnesses"]) = .ok (output++["witnesses"]))
    (hsize : raw.toUTF8.size ≤ maxInputBytes.toNat) {built : UInt8 × List Bytes × ℕ}
    (hbuilt : buildPayloads parsers subTree raw = .ok built) :
    ∃ out, commit blake3 parsers canonicalize input raw output subTree maxInputBytes = .ok out := by
  have hleaves : buildLeaves blake3 parsers subTree raw = .ok (built.2.1.map blake3,built.2.2) :=
    buildLeaves_ok.mpr ⟨built,hbuilt,rfl⟩
  obtain ⟨witnesses,hwitnesses⟩ := @writeWitnesses_ok blake3 _ _ hdir (built.2.1.map blake3)
  exact ⟨_,check_bind_ok.mpr ⟨guard_ok.mpr (not_lt.mpr hsize),
    bind_ok.mpr ⟨_,hleaves,bind_ok.mpr ⟨witnesses,hwitnesses,rfl⟩⟩⟩⟩

theorem encodedPayloads_error {A : Type} {e : RecomputeError} {subTreeId : UInt8}
    {encode : A → Bytes} {x : Except String (Vec A)}
    (h : (x.mapError RecomputeError.json).map (encodedPayloads subTreeId encode) = .error e)
    (message : String) : e ≠ .rejected message := by
  cases x with
  | error m =>
      cases h
      nofun
  | ok parsed => cases h

theorem utxoPayloads_error {e : RecomputeError} (h : buildPayloads parsers .utxo raw = .error e)
    (message : String) : e ≠ .rejected message := by
  dsimp only [buildPayloads] at h
  cases hparsed : parsers.utxos raw with
  | error m =>
      rw [hparsed] at h
      cases h
      nofun
  | ok parsed =>
      rw [hparsed] at h
      change Except.bind ((parsed.val.mapM Utxo.encode).mapError RecomputeError.leaf) _ = _ at h
      cases hpayloads : parsed.val.mapM Utxo.encode with
      | error m =>
          rw [hpayloads] at h
          cases h
          nofun
      | ok payloads =>
          rw [hpayloads] at h
          cases h

/-- Reading the records fails with an error of its own, never with a refusal of the builder. -/
theorem buildPayloads_error {e : RecomputeError} (h : buildPayloads parsers subTree raw = .error e)
    (message : String) : e ≠ .rejected message := by
  cases subTree with
  | utxo => exact utxoPayloads_error h message
  | header => exact encodedPayloads_error h message
  | txIndex => exact encodedPayloads_error h message
  | tokenPolicy => exact encodedPayloads_error h message
  | script => exact encodedPayloads_error h message
  | stake => exact encodedPayloads_error h message
  | governance => exact encodedPayloads_error h message

/-- Encoded records are committed or refused as duplicates, and nothing else is. -/
theorem recompute_or_duplicate :
    ((∃ roots, recompute blake3 sha3 parsers subTree raw = .ok roots) ∨
        ∃ index, recompute blake3 sha3 parsers subTree raw =
          .error (rejectedBuild (.duplicateLeafPayload subTree.numericId index))) ↔
      ∃ built, buildPayloads parsers subTree raw = .ok built := by
  constructor
  · rintro (⟨roots,h⟩ | ⟨index,h⟩)
    · obtain ⟨built,-,hbuilt,-⟩ := recompute_ok h
      exact ⟨built,hbuilt⟩
    · cases hbuilt : buildPayloads parsers subTree raw with
      | ok built => exact ⟨built,rfl⟩
      | error e =>
          rw [recompute,hbuilt] at h
          exact (buildPayloads_error hbuilt _ (Except.error.inj h)).elim
  · rintro ⟨built,hbuilt⟩
    have hid := (buildPayloads_ok hbuilt).1
    cases htree : buildV1 blake3 built.1 built.2.1 with
    | ok tree => exact Or.inl ⟨_,bind_ok.mpr ⟨built,hbuilt,bind_ok.mpr ⟨tree,mapError_ok.mpr htree,rfl⟩⟩⟩
    | error e =>
        obtain ⟨index,rfl⟩ := buildV1_error blake3 built.1 htree
        refine Or.inr ⟨index,?_⟩
        rw [recompute,hbuilt,← hid]
        change Except.bind ((buildV1 blake3 built.1 built.2.1).mapError rejectedBuild) _ = _
        rw [htree]
        rfl

/-- The command succeeds on every text within its limit which the bundle tool commits to
or refuses for a duplicate. Where both succeed, counts and depth agree, and the roots
agree only if two hashed strings collide or, over no records, the padding leaf has the
zero digest. -/
theorem commit_agrees
    (hdir : canonicalize (output++["witnesses"]) = .ok (output++["witnesses"])) :
    ((∃ out, commit blake3 parsers canonicalize input raw output subTree maxInputBytes = .ok out) ↔
      raw.toUTF8.size ≤ maxInputBytes.toNat ∧
        ((∃ roots, recompute blake3 sha3 parsers subTree raw = .ok roots) ∨
          ∃ index, recompute blake3 sha3 parsers subTree raw =
            .error (rejectedBuild (.duplicateLeafPayload subTree.numericId index)))) ∧
    ∀ out roots,
      commit blake3 parsers canonicalize input raw output subTree maxInputBytes = .ok out →
      recompute blake3 sha3 parsers subTree raw = .ok roots →
      out.commitment.leafCount = roots.leafCount ∧ out.commitment.treeDepth = roots.treeDepth ∧
        out.commitment.itemCount = roots.itemCount ∧
        ∃ built, buildPayloads parsers subTree raw = .ok built ∧
          out.commitment.root = (buildLegacy blake3 (built.2.1.map blake3)).root ∧
          (out.commitment.root = roots.blake3Root →
            Collision blake3 (legacyPreimages blake3 built.2.1)
                (buildPreimages blake3 built.1 built.2.1) ∨
              (built.2.1 = [] ∧ emptyLeaf blake3 built.1 = zeroHash)) := by
  rw [recompute_or_duplicate]
  refine ⟨⟨?_,?_⟩,?_⟩
  · rintro ⟨out,h⟩
    obtain ⟨hsize,built,hbuilt,-⟩ := commit_ok h
    exact ⟨hsize,built,hbuilt⟩
  · rintro ⟨hsize,built,hbuilt⟩
    exact commit_of_payloads hdir hsize hbuilt
  · intro out roots h h'
    obtain ⟨-,built,hbuilt,hrecord⟩ := commit_ok h
    obtain ⟨built',tree,hbuilt',htree,rfl⟩ := recompute_ok h'
    obtain rfl : built = built' := Except.ok.inj (hbuilt.symm.trans hbuilt')
    rw [hrecord]
    refine ⟨(buildV1_leafCount _ _ htree).symm,(buildV1_depth _ _ htree).symm,rfl,built,hbuilt,rfl,?_⟩
    intro hroot
    dsimp only at hroot
    rw [buildLegacy_root,buildV1_root _ _ htree,List.length_map] at hroot
    exact legacy_root_eq blake3 built.1 built.2.1 hroot

end Agreement

section Sample

/-- The default of `--max-input-bytes`. -/
def defaultMaxInputBytes : UInt64 := 2147483648

/-- Both tools on one file of two outputs. -/
theorem two_outputs_agree :
    ∃ out roots,
      commit singleChunkHash sampleParsers .ok ["utxo.json"] firstText ["out"] .utxo
        defaultMaxInputBytes = .ok out ∧
      recompute singleChunkHash sampleSha3 sampleParsers .utxo firstText = .ok roots ∧
      out.commitment.leafCount = roots.leafCount ∧ out.commitment.treeDepth = roots.treeDepth ∧
      out.commitment.itemCount = roots.itemCount := by
  have hnodup : (samplePayloads .utxo).Nodup := by decide
  have hsize : firstText.toUTF8.size ≤ defaultMaxInputBytes.toNat := by decide +kernel
  obtain ⟨roots,hroots⟩ :=
    @recompute_of_payloads singleChunkHash sampleSha3 _ _ _ _ buildPayloads_first hnodup
  have hagree := @commit_agrees singleChunkHash sampleSha3 sampleParsers .utxo firstText .ok
    ["utxo.json"] ["out"] defaultMaxInputBytes rfl
  obtain ⟨out,hout⟩ := hagree.1.mpr ⟨hsize,Or.inl ⟨roots,hroots⟩⟩
  obtain ⟨hcount,hdepth,hitems,-⟩ := hagree.2 out roots hout hroots
  exact ⟨out,roots,hout,hroots,hcount,hdepth,hitems⟩

def sampleHeader : BlockHeader := ⟨1,1,Vector.replicate 32 0xab,zeroHash⟩

def headerText : String :=
  "\x7b\"slot\":1,\"block_height\":1,\"block_hash\":\""++String.join (List.replicate 32 "ab")++
    "\",\"prev_hash\":\""++String.join (List.replicate 32 "00")++"\"\x7d"

/-- One header listed twice. -/
def twinText : String := "\x7b\"headers\":["++headerText++","++headerText++"]\x7d"

def parseHeaders (raw : String) : Except String (Vec BlockHeader) :=
  if raw = twinText then .ok ⟨[sampleHeader,sampleHeader],by decide⟩ else parseEmpty "headers" raw

def headerParsers : Parsers :=
  ⟨parseEmpty "utxos",parseHeaders,parseEmpty "entries",parseEmpty "policies",parseEmpty "scripts",
    parseEmpty "stake_entries",parseEmpty "facts"⟩

/-- SHA3-256 of no bytes; trees of at most one leaf never call it. -/
def emptySha3 (_ : Bytes) : Hash :=
  #v[0xa7,0xff,0xc6,0xf8,0xbf,0x1e,0xd7,0x66,0x51,0xc1,0x47,0x56,0xa0,0x61,0xd6,0x62,
    0xf5,0x80,0xff,0x4d,0xe4,0x3b,0x49,0xfa,0x82,0xd8,0x0a,0x4b,0x80,0xf8,0x43,0x4a]

theorem twin_payloads : buildPayloads headerParsers .header twinText =
    .ok (subTreeIdHeader,[sampleHeader.encode,sampleHeader.encode],2) := by
  dsimp only [buildPayloads,headerParsers]
  rw [parseHeaders,if_pos rfl]
  rfl

theorem no_headers_payloads : buildPayloads headerParsers .header (emptyText "headers") =
    .ok (subTreeIdHeader,[],0) := by
  have hne : emptyText "headers" ≠ twinText := by decide +kernel
  dsimp only [buildPayloads,headerParsers]
  rw [parseHeaders,if_neg hne,parseEmpty,if_pos rfl]
  rfl

/-- A header listed twice is committed by the command and refused by the bundle tool. Over
no headers the two roots differ. A limit below the size of the file stops the command
alone. -/
theorem command_and_bundle_differ :
    (∃ out, commit singleChunkHash headerParsers .ok ["header.json"] twinText ["out"] .header
        defaultMaxInputBytes = .ok out ∧
      ∀ roots, recompute singleChunkHash emptySha3 headerParsers .header twinText ≠ .ok roots) ∧
    (∃ out roots,
      commit singleChunkHash headerParsers .ok ["header.json"] (emptyText "headers") ["out"] .header
        defaultMaxInputBytes = .ok out ∧
      recompute singleChunkHash emptySha3 headerParsers .header (emptyText "headers") = .ok roots ∧
      out.commitment.root ≠ roots.blake3Root ∧
      ∀ out, commit singleChunkHash headerParsers .ok ["header.json"] (emptyText "headers") ["out"]
        .header 0 ≠ .ok out) := by
  have htwinSize : twinText.toUTF8.size ≤ defaultMaxInputBytes.toNat := by decide +kernel
  have hemptySize : (emptyText "headers").toUTF8.size ≤ defaultMaxInputBytes.toNat := by decide +kernel
  obtain ⟨twins,htwins⟩ := @commit_of_payloads singleChunkHash headerParsers .header twinText .ok
    ["header.json"] ["out"] _ rfl htwinSize _ twin_payloads
  obtain ⟨out,hout⟩ := @commit_of_payloads singleChunkHash headerParsers .header
    (emptyText "headers") .ok ["header.json"] ["out"] _ rfl hemptySize _ no_headers_payloads
  obtain ⟨roots,hroots⟩ := @recompute_of_payloads singleChunkHash emptySha3 _ _ _ _
    no_headers_payloads List.nodup_nil
  refine ⟨⟨twins,htwins,?_⟩,out,roots,hout,hroots,?_,?_⟩
  · intro roots hroots
    obtain ⟨built,tree,hbuilt,htree,-⟩ := recompute_ok hroots
    cases twin_payloads.symm.trans hbuilt
    have hnodup := buildV1_nodup _ _ htree
    simp at hnodup
  · obtain ⟨-,built,hbuilt,hrecord⟩ := commit_ok hout
    obtain ⟨built',tree,hbuilt',htree,rfl⟩ := recompute_ok hroots
    cases no_headers_payloads.symm.trans hbuilt
    cases no_headers_payloads.symm.trans hbuilt'
    rw [hrecord]
    dsimp only
    rw [buildLegacy_root,buildV1_root _ _ htree]
    have hdigest : zeroHash ≠ emptyLeaf singleChunkHash subTreeIdHeader := by decide +kernel
    exact hdigest
  · intro out hout
    have hsize := (commit_ok hout).1
    have hpositive : ¬(emptyText "headers").toUTF8.size ≤ (0 : UInt64).toNat := by decide +kernel
    exact hpositive hsize

end Sample

end OmegaHarness.CommitCommand
