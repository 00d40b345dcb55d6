import OmegaHarness.ClaimTypes

/-!
# Public values of a membership proof

One row of 74 words per public input: the sub-tree, the big-endian index, the
depth, the root and the 32 words of a binding digest over the commitment and
the whole public-input list. The prover writes the row; the verifier compares it
word by word. A row which passes the comparison is the prover's row.
-/
namespace OmegaHarness.ProofPublicValues
open FixedWidthBytes DomainHashes ClaimTypes

def hashLen : ℕ := 32
def leafIndexLen : ℕ := 8
def publicSubTreeIdOffset : ℕ := 0
def publicLeafIndexOffset : ℕ := publicSubTreeIdOffset+1
def publicTreeDepthOffset : ℕ := publicLeafIndexOffset+leafIndexLen
def publicRootOffset : ℕ := publicTreeDepthOffset+1
def proofBindingWordOffset : ℕ := publicRootOffset+hashLen
def proofBindingWords : ℕ := 32
def proofPublicValueCount : ℕ := proofBindingWordOffset+proofBindingWords

def domainProofBinding : Bytes :=
  ascii ['o','m','e','g','a',':','p','r','o','o','f',':','v','2',':','b','i','n','d','i','n','g']

/-- One public input inside the binding preimage. -/
def publicInputBytes (p : ClaimPublicInputs) : Bytes :=
  p.subTreeId::(toBeBytes p.leafIndex++p.treeDepth::(p.perSubTreeRoot.toList++
    (p.bundleRootBlake3.toList++(p.nullifier.toList++p.recipientStarstreamAddr.toList))))

def proofBindingPreimage (c : OmegaCommitment) (publicInputs : List ClaimPublicInputs) : Bytes :=
  domainProofBinding++c.bundleRootBlake3.toList++
    c.subTreeRootsBlake3.toList.flatMap (·.toList)++
    c.itemCounts.toList.flatMap toBeBytes++
    c.leafCounts.toList.flatMap toBeBytes++
    c.treeDepths.toList.flatMap (fun d => beBytes 4 d.toNat)++
    beBytes 8 publicInputs.length++
    publicInputs.flatMap publicInputBytes

section Rows
variable (blake3 : Bytes → Hash)

def proofBindingDigest (c : OmegaCommitment) (publicInputs : List ClaimPublicInputs) : Hash :=
  blake3 (proofBindingPreimage c publicInputs)

/-- One word per digest byte. -/
def bindingWords (c : OmegaCommitment) (publicInputs : List ClaimPublicInputs) : List UInt32 :=
  (proofBindingDigest blake3 c publicInputs).toList.map UInt8.toUInt32

/-- The source writes each field at its offset of a zeroed array; the offsets
are contiguous, so the array is the concatenation of the fields. -/
def publicValueRow (binding : List UInt32) (p : ClaimPublicInputs) : List UInt32 :=
  p.subTreeId.toUInt32::((toBeBytes p.leafIndex).map UInt8.toUInt32++
    p.treeDepth.toUInt32::(p.perSubTreeRoot.toList.map UInt8.toUInt32++binding))

def proofPublicValues (c : OmegaCommitment) (publicInputs : List ClaimPublicInputs) :
    List (List UInt32) :=
  publicInputs.map (publicValueRow (bindingWords blake3 c publicInputs))

@[simp] theorem bindingWords_length (c : OmegaCommitment) (publicInputs : List ClaimPublicInputs) :
    (bindingWords blake3 c publicInputs).length = 32 := by
  simp [bindingWords]

theorem publicValueRow_length {binding : List UInt32} (h : binding.length = 32)
    (p : ClaimPublicInputs) : (publicValueRow binding p).length = proofPublicValueCount := by
  simp [publicValueRow,h,proofPublicValueCount,proofBindingWordOffset,publicRootOffset,
    publicTreeDepthOffset,publicLeafIndexOffset,publicSubTreeIdOffset,leafIndexLen,hashLen,
    proofBindingWords]

end Rows

/-- The words of a row from an offset on, compared with a byte string. -/
def wordsMatch (values : List UInt32) (offset : ℕ) (bytes : Bytes) : Bool :=
  (List.range bytes.length).all fun k => values[offset+k]! = (bytes[k]!).toUInt32

/-- The comparison the verifier makes on one row, in its order. -/
def rowMatches (binding : List UInt32) (values : List UInt32) (p : ClaimPublicInputs) : Bool :=
  values.length = proofPublicValueCount &&
    values[publicSubTreeIdOffset]! = p.subTreeId.toUInt32 &&
    wordsMatch values publicLeafIndexOffset (toBeBytes p.leafIndex) &&
    values[publicTreeDepthOffset]! = p.treeDepth.toUInt32 &&
    wordsMatch values publicRootOffset p.perSubTreeRoot.toList &&
    values.drop proofBindingWordOffset = binding

theorem wordsMatch_iff {values : List UInt32} {offset : ℕ} {bytes : Bytes}
    (h : offset+bytes.length ≤ values.length) :
    wordsMatch values offset bytes = true ↔
      (values.drop offset).take bytes.length = bytes.map UInt8.toUInt32 := by
  simp only [wordsMatch,List.all_eq_true,List.mem_range,decide_eq_true_eq]
  constructor
  · intro hall
    apply List.ext_getElem
    · simp only [List.length_take,List.length_drop,List.length_map]
      omega
    · intro k h1 h2
      have hk : k < bytes.length := by simpa using h2
      have hv := hall k hk
      rw [List.getElem!_eq_getElem?_getD,List.getElem!_eq_getElem?_getD,
        List.getElem?_eq_getElem hk,List.getElem?_eq_getElem (by omega)] at hv
      simpa using hv
  · intro heq k hk
    have hv := congrArg (·[k]?) heq
    rw [List.getElem!_eq_getElem?_getD,List.getElem!_eq_getElem?_getD,
      List.getElem?_eq_getElem hk,List.getElem?_eq_getElem (show offset+k < values.length by omega)]
    simpa [List.getElem?_take,hk,List.getElem?_drop,List.getElem?_eq_getElem hk,
      List.getElem?_eq_getElem (show offset+k < values.length by omega)] using hv

/-- A full row cut at its five offsets. -/
theorem row_split {values : List UInt32} (h : values.length = proofPublicValueCount) :
    ∃ (subTree depth : UInt32) (index root binding : List UInt32),
      values = subTree::(index++depth::(root++binding)) ∧ index.length = 8 ∧ root.length = 32 := by
  have hlen : values.length = 74 := h
  obtain ⟨subTree,rest,rfl⟩ := List.exists_cons_of_length_eq_add_one hlen
  have hrest : (rest.drop 8).length = 64+1 := by simp only [List.length_cons] at hlen; simp; omega
  obtain ⟨depth,tail,htail⟩ := List.exists_cons_of_length_eq_add_one hrest
  refine ⟨subTree,depth,rest.take 8,tail.take 32,tail.drop 32,?_,?_,?_⟩
  · rw [List.take_append_drop,← htail,List.take_append_drop]
  · simp only [List.length_cons] at hlen
    simp only [List.length_take]
    omega
  · rw [htail,List.length_cons] at hrest
    simp only [List.length_take]
    omega

/-- A row passes the verifier's comparison exactly when it is the prover's row. -/
theorem rowMatches_iff {binding values : List UInt32} (hb : binding.length = 32)
    (p : ClaimPublicInputs) :
    rowMatches binding values p = true ↔ values = publicValueRow binding p := by
  by_cases hlen : values.length = proofPublicValueCount
  · have h74 : values.length = 74 := hlen
    have hindex := @wordsMatch_iff values publicLeafIndexOffset (toBeBytes p.leafIndex)
      (by rw [toBeBytes_length,h74]; decide)
    have hroot := @wordsMatch_iff values publicRootOffset p.perSubTreeRoot.toList
      (by rw [hash_length,h74]; decide)
    unfold rowMatches
    simp only [Bool.and_eq_true,decide_eq_true_eq,hindex,hroot,hlen,true_and]
    obtain ⟨v,d,is,rs,bs,rfl,his,hrs⟩ := row_split hlen
    have hdepth : (v::(is++d::(rs++bs)))[publicTreeDepthOffset]! = d := by
      change (v::(is++d::(rs++bs)))[8+1]! = d
      rw [List.getElem!_cons_succ,List.getElem!_eq_getElem?_getD,
        List.getElem?_append_right (by omega),his]
      rfl
    have hdropIndex : (v::(is++d::(rs++bs))).drop publicLeafIndexOffset = is++d::(rs++bs) := rfl
    have hdropRoot : (v::(is++d::(rs++bs))).drop publicRootOffset = rs++bs := by
      change (is++d::(rs++bs)).drop 9 = rs++bs
      rw [List.drop_append,List.drop_eq_nil_of_le (by omega),his]
      rfl
    have hdropBinding : (v::(is++d::(rs++bs))).drop proofBindingWordOffset = bs := by
      have h42 : proofBindingWordOffset = publicRootOffset+32 := rfl
      rw [h42,← List.drop_drop,hdropRoot,List.drop_left' hrs]
    rw [hdepth,hdropIndex,hdropRoot,hdropBinding,toBeBytes_length,hash_length,
      List.take_left' his,List.take_left' hrs,publicValueRow]
    have hfirst : (v::(is++d::(rs++bs)))[publicSubTreeIdOffset]! = v := rfl
    rw [hfirst]
    constructor
    · rintro ⟨⟨⟨⟨rfl,rfl⟩,rfl⟩,rfl⟩,rfl⟩
      rfl
    · intro h
      obtain ⟨hv,htail⟩ := List.cons.inj h
      obtain ⟨hi,htail⟩ := List.append_inj htail (by simp [his])
      obtain ⟨hd,htail⟩ := List.cons.inj htail
      obtain ⟨hr,hw⟩ := List.append_inj htail (by simp [hrs])
      exact ⟨⟨⟨⟨hv,hi⟩,hd⟩,hr⟩,hw⟩
  · constructor
    · intro h
      simp [rowMatches,hlen] at h
    · rintro rfl
      exact (hlen (publicValueRow_length hb p)).elim

end OmegaHarness.ProofPublicValues
