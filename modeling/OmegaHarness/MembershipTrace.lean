import OmegaHarness.MembershipRelation
import OmegaHarness.MembershipAir
import OmegaHarness.CellWrites

/-!
# Witness validation and trace building

The prover's two steps before the proof library takes over. `validateWitness`
compares a witness with the commitment and walks its path; `buildMembershipTrace`
fills one row per path step and leaves the rest of the rows zero. A tree without
siblings still gets one real row, which carries no node hash.
-/
namespace OmegaHarness.MembershipTrace
open FixedWidthBytes FallibleSteps DomainHashes LayeredTree MerkleTreeV1 ClaimTypes
open ProofPublicValues BabyBearField Blake3Compression MembershipAir CellWrites MembershipRelation

structure MembershipWitness where
  publicInput : ClaimPublicInputs
  leafPayload : Bytes
  merklePath : List Hash
  deriving DecidableEq, Repr

structure CheckedWitness where
  publicInput : ClaimPublicInputs
  leafPayload : Bytes
  merklePath : List Hash
  leafHash : Hash
  deriving DecidableEq, Repr

/-- The refusals of the prover. -/
inductive ProverError where
  | unknownSubTree (subTreeId : UInt8)
  | leafTooLargeForV01 (actual limit witnessIndex : ℕ)
  | leafIndexOutOfRange (witnessIndex : ℕ) (leafIndex itemCount : UInt64)
  | pathDepthMismatch (witnessIndex expected actual : ℕ)
  | pathMismatch (witnessIndex : ℕ)
  | publicBundleRootMismatch (witnessIndex : ℕ)
  | publicSubTreeRootMismatch (witnessIndex : ℕ)
  | publicTreeDepthMismatch (witnessIndex : ℕ)
  | treeDepthTooLarge (witnessIndex : ℕ) (depth : UInt32)
  | commitmentMismatch (expected actual : Hash)
  | serialize (message : String)
  deriving DecidableEq, Repr

def ProverError.display : ProverError → String
  | .unknownSubTree subTreeId => s!"unknown sub-tree id {subTreeId}"
  | .leafTooLargeForV01 actual limit witnessIndex =>
      s!"witness {witnessIndex} leaf preimage length {actual} exceeds v0.1 limit {limit}"
  | .leafIndexOutOfRange witnessIndex leafIndex itemCount =>
      s!"witness {witnessIndex} leaf_index {leafIndex} exceeds item_count {itemCount}"
  | .pathDepthMismatch witnessIndex expected actual =>
      s!"witness {witnessIndex} path depth {actual} does not match commitment depth {expected}"
  | .pathMismatch witnessIndex =>
      s!"witness {witnessIndex} Merkle path does not terminate at the committed sub-tree root"
  | .publicBundleRootMismatch witnessIndex =>
      s!"claim public bundle root does not match commitment for witness {witnessIndex}"
  | .publicSubTreeRootMismatch witnessIndex =>
      s!"claim public sub-tree root does not match commitment for witness {witnessIndex}"
  | .publicTreeDepthMismatch witnessIndex =>
      s!"claim public tree depth does not match commitment for witness {witnessIndex}"
  | .treeDepthTooLarge witnessIndex depth =>
      s!"commitment tree depth {depth} for witness {witnessIndex} exceeds v0.1 u8 public input"
  | .commitmentMismatch expected actual =>
      "commitment bundle root mismatch: expected "++hexEncode expected.toList++", actual "++
        hexEncode actual.toList
  | .serialize message => "cannot serialize Plonky3 proof envelope: "++message

def maxLeafPreimageLen : ℕ := 64

def leafPreimageLen (payloadLen : ℕ) : ℕ := domainLeaf.length+1+8+8+payloadLen

section Validate
variable (blake3 : Bytes → Hash) (c : OmegaCommitment)

/-- The checks against one sub-tree's entry of the commitment. -/
def validateEntry (witnessIndex : ℕ) (w : MembershipWitness) (i : Fin 7) :
    Except ProverError CheckedWitness :=
  let itemCount := c.itemCounts.get i
  let depth := c.treeDepths.get i
  let leaf := leafHashV2 blake3 w.publicInput.subTreeId w.publicInput.leafIndex w.leafPayload
  if itemCount ≤ w.publicInput.leafIndex then
    .error (.leafIndexOutOfRange witnessIndex w.publicInput.leafIndex itemCount)
  else if 255 < depth.toNat then .error (.treeDepthTooLarge witnessIndex depth)
  else if w.publicInput.treeDepth ≠ depth.toUInt8 then
    .error (.publicTreeDepthMismatch witnessIndex)
  else if w.publicInput.perSubTreeRoot ≠ c.subTreeRootsBlake3.get i then
    .error (.publicSubTreeRootMismatch witnessIndex)
  else if w.merklePath.length ≠ depth.toNat then
    .error (.pathDepthMismatch witnessIndex depth.toNat w.merklePath.length)
  else if walkV1Path blake3 leaf w.publicInput.leafIndex w.merklePath ≠ c.subTreeRootsBlake3.get i then
    .error (.pathMismatch witnessIndex)
  else .ok ⟨w.publicInput,w.leafPayload,w.merklePath,leaf⟩

def validateWitness (witnessIndex : ℕ) (w : MembershipWitness) : Except ProverError CheckedWitness :=
  if maxLeafPreimageLen < leafPreimageLen w.leafPayload.length then
    .error (.leafTooLargeForV01 (leafPreimageLen w.leafPayload.length) maxLeafPreimageLen witnessIndex)
  else if w.publicInput.bundleRootBlake3 ≠ c.bundleRootBlake3 then
    .error (.publicBundleRootMismatch witnessIndex)
  else match subTreeIndex w.publicInput.subTreeId with
    | none => .error (.unknownSubTree w.publicInput.subTreeId)
    | some i => validateEntry blake3 c witnessIndex w i

end Validate

/-- What an accepted witness agrees with. -/
structure Accepted (blake3 : Bytes → Hash) (c : OmegaCommitment) (i : Fin 7) (w : MembershipWitness) :
    Prop where
  payload : w.leafPayload.length ≤ 34
  bundleRoot : w.publicInput.bundleRootBlake3 = c.bundleRootBlake3
  subTree : w.publicInput.subTreeId = subTreeIdOf i
  index : w.publicInput.leafIndex < c.itemCounts.get i
  depth : w.publicInput.treeDepth.toNat = (c.treeDepths.get i).toNat
  root : w.publicInput.perSubTreeRoot = c.subTreeRootsBlake3.get i
  path : w.merklePath.length = w.publicInput.treeDepth.toNat
  walk : walkV1Path blake3
    (leafHashV2 blake3 w.publicInput.subTreeId w.publicInput.leafIndex w.leafPayload)
    w.publicInput.leafIndex w.merklePath = w.publicInput.perSubTreeRoot

def checkedWitness (blake3 : Bytes → Hash) (w : MembershipWitness) : CheckedWitness :=
  ⟨w.publicInput,w.leafPayload,w.merklePath,
    leafHashV2 blake3 w.publicInput.subTreeId w.publicInput.leafIndex w.leafPayload⟩

theorem validateEntry_ok {blake3 : Bytes → Hash} {c : OmegaCommitment} {witnessIndex : ℕ}
    {w : MembershipWitness} {i : Fin 7} {cw : CheckedWitness}
    (h : validateEntry blake3 c witnessIndex w i = .ok cw) :
    cw = checkedWitness blake3 w ∧ w.publicInput.leafIndex < c.itemCounts.get i ∧
      w.publicInput.treeDepth.toNat = (c.treeDepths.get i).toNat ∧
      w.publicInput.perSubTreeRoot = c.subTreeRootsBlake3.get i ∧
      w.merklePath.length = (c.treeDepths.get i).toNat ∧
      walkV1Path blake3
        (leafHashV2 blake3 w.publicInput.subTreeId w.publicInput.leafIndex w.leafPayload)
        w.publicInput.leafIndex w.merklePath = c.subTreeRootsBlake3.get i := by
  unfold validateEntry at h
  dsimp only at h
  split at h
  · cases h
  · rename_i hindex
    split at h
    · cases h
    · rename_i hsmall
      split at h
      · cases h
      · rename_i hdepth
        split at h
        · cases h
        · rename_i hroot
          split at h
          · cases h
          · rename_i hpath
            split at h
            · cases h
            · rename_i hwalk
              cases h
              refine ⟨rfl,UInt64.not_le.mp hindex,?_,not_not.mp hroot,not_not.mp hpath,
                not_not.mp hwalk⟩
              rw [not_not.mp hdepth,UInt32.toNat_toUInt8]
              omega

/-- Validation returns the witness with its leaf hash, and only for witnesses
which agree with the commitment. -/
theorem validateWitness_ok {blake3 : Bytes → Hash} {c : OmegaCommitment} {witnessIndex : ℕ}
    {w : MembershipWitness} {cw : CheckedWitness}
    (h : validateWitness blake3 c witnessIndex w = .ok cw) :
    cw = checkedWitness blake3 w ∧ ∃ i, Accepted blake3 c i w := by
  unfold validateWitness at h
  split at h
  · cases h
  · rename_i hlen
    split at h
    · cases h
    · rename_i hbundle
      split at h
      · cases h
      · rename_i i hi
        obtain ⟨hcw,hindex,hdepth,hroot,hpath,hwalk⟩ := validateEntry_ok h
        have hpayload : w.leafPayload.length ≤ 34 := by
          have hlimit : ¬64 < 13+1+8+8+w.leafPayload.length := hlen
          omega
        exact ⟨hcw,i,hpayload,not_not.mp hbundle,subTreeIndex_some hi,hindex,hdepth,hroot,
          hpath.trans hdepth.symm,hwalk.trans hroot.symm⟩

/-- A witness which agrees with the commitment is not refused. -/
theorem validateWitness_accepted {blake3 : Bytes → Hash} {c : OmegaCommitment} {i : Fin 7}
    {w : MembershipWitness} (h : Accepted blake3 c i w) (witnessIndex : ℕ) :
    validateWitness blake3 c witnessIndex w = .ok (checkedWitness blake3 w) := by
  have hbyte := w.publicInput.treeDepth.toNat_lt
  have hdepth := h.depth
  have hpayload := h.payload
  have hlen : ¬maxLeafPreimageLen < leafPreimageLen w.leafPayload.length := by
    change ¬64 < 13+1+8+8+w.leafPayload.length
    omega
  have hcast : w.publicInput.treeDepth = (c.treeDepths.get i).toUInt8 := by
    rw [← UInt8.toNat_inj,UInt32.toNat_toUInt8]
    omega
  rw [validateWitness,if_neg hlen,if_neg (not_not.mpr h.bundleRoot),h.subTree,
    subTreeIndex_subTreeIdOf]
  dsimp only
  rw [validateEntry,if_neg (UInt64.not_le.mpr h.index),if_neg (by omega),
    if_neg (not_not.mpr hcast),if_neg (not_not.mpr h.root),if_neg (by rw [h.path,hdepth]; simp),
    if_neg (not_not.mpr (h.walk.trans h.root))]
  rfl

/-- The values of one path step. -/
structure RealRowValues where
  step : ℕ
  remainingIndex : UInt64
  direction : UInt8
  hasNode : Bool
  prev : Hash
  sibling : Hash
  left : Hash
  right : Hash
  mid : Hash
  current : Hash
  deriving DecidableEq, Repr

/-- One pass of the trace loop, from the previous node and the shifted index. -/
def stepValues (path : List Hash) (step : ℕ) (prev : Hash) (remainingIndex : UInt64) :
    RealRowValues :=
  let hasNode := decide (0 < path.length)
  let sibling := path.getD step zeroHash
  let direction := if hasNode then (remainingIndex &&& 1).toUInt8 else 0
  let children := if direction = 0 then (prev,sibling) else (sibling,prev)
  { step := step
    remainingIndex := remainingIndex
    direction := direction
    hasNode := hasNode
    prev := prev
    sibling := sibling
    left := children.1
    right := children.2
    mid := if hasNode then
        hashFromWords (nodeFirstCompression children.1 children.2).outputWords
      else zeroHash
    current := if hasNode then
        hashFromWords (nodeSecondCompression children.1 children.2).outputWords
      else prev }

/-- The trace loop: `rows` passes from one step on. -/
def traceSteps (path : List Hash) : ℕ → ℕ → Hash → UInt64 → List RealRowValues
  | 0,_,_,_ => []
  | rows+1,step,prev,remainingIndex =>
      let values := stepValues path step prev remainingIndex
      values::traceSteps path rows (step+1) values.current (remainingIndex >>> 1)

/-- The cell runs which one real row is filled with, in source order. -/
def rowWrites (w : CheckedWitness) (v : RealRowValues) : List (Write Val) :=
  [⟨colSubTreeId,[byteVal w.publicInput.subTreeId]⟩,
    ⟨colLeafIndexBe,(toBeBytes w.publicInput.leafIndex).map byteVal⟩,
    ⟨colRemainingIndexBits,(List.range remainingIndexBits).map fun bit =>
      boolVal ((v.remainingIndex >>> UInt64.ofNat bit) &&& 1 == 1)⟩,
    ⟨colPathStepIndex,[((UInt32.ofNat v.step).toNat : Val)]⟩,
    ⟨colTreeDepth,[byteVal w.publicInput.treeDepth]⟩,
    ⟨colPayloadLen,[byteVal (UInt8.ofNat w.leafPayload.length)]⟩,
    ⟨colPayloadLenSelector+w.leafPayload.length,[1]⟩,
    ⟨colPayload,w.leafPayload.map byteVal⟩,
    ⟨colPrevNode,v.prev.toList.map byteVal⟩,
    ⟨colSibling,v.sibling.toList.map byteVal⟩,
    ⟨colLeftNode,v.left.toList.map byteVal⟩,
    ⟨colRightNode,v.right.toList.map byteVal⟩,
    ⟨colNodeMid,v.mid.toList.map byteVal⟩,
    ⟨colCurrentNode,v.current.toList.map byteVal⟩,
    ⟨colDirectionBit,[byteVal v.direction]⟩,
    ⟨colHasNodeHash,[boolVal v.hasNode]⟩,
    ⟨colIsFirstStep,[boolVal (v.step == 0)]⟩,
    ⟨colIsRealStep,[1]⟩,
    ⟨colIsLastStep,[boolVal (v.step+1 == max w.merklePath.length 1)]⟩]

def zeroRow : Row := fun _ => 0

def fillRealRow (w : CheckedWitness) (v : RealRowValues) : Row := applyAll zeroRow (rowWrites w v)

/-- Which cell of the first row the negative tests alter. -/
inductive TraceTamper where
  | payloadByte
  | siblingByte
  | currentNodeByte
  | leafIndexByte
  deriving DecidableEq, Repr

def TraceTamper.column : TraceTamper → ℕ
  | .payloadByte => colPayload
  | .siblingByte => colSibling
  | .currentNodeByte => colCurrentNode
  | .leafIndexByte => colLeafIndexBe+leafIndexLen-1

def tamperTrace (t : Trace) (tamper : TraceTamper) : Trace :=
  { t with row := fun r c => if r = 0 ∧ c = tamper.column then t.row r c+1 else t.row r c }

/-- The real rows of a path: one per sibling, and one for an empty path. -/
def pathSteps (w : CheckedWitness) : List RealRowValues :=
  traceSteps w.merklePath (max w.merklePath.length 1) 0 w.leafHash w.publicInput.leafIndex

def untamperedTrace (w : CheckedWitness) : Trace where
  height := max (nextPowerOfTwo (max w.merklePath.length 1)) 8
  row := fun r => match (pathSteps w)[r]? with
    | some values => fillRealRow w values
    | none => zeroRow

/-- The compressions of one step, in the order they are pushed. -/
def stepCompressions (v : RealRowValues) : List Compression :=
  if v.hasNode then [nodeFirstCompression v.left v.right,nodeSecondCompression v.left v.right] else []

/-- The trace of one witness, and the compressions it adds to the hash trace. -/
def buildMembershipTrace (w : CheckedWitness) (tamper : Option TraceTamper)
    (compressions : List Compression) : Trace × List Compression :=
  let trace := untamperedTrace w
  (match tamper with
    | some tamper => tamperTrace trace tamper
    | none => trace,
    compressions++leafCompression w.publicInput.subTreeId w.publicInput.leafIndex w.leafPayload::
      (pathSteps w).flatMap stepCompressions)

end OmegaHarness.MembershipTrace
