import OmegaHarness.AirSoundness
import OmegaHarness.MembershipTrace

/-!
# Completeness of the membership AIR

The trace which the prover builds for a witness it has accepted, against the
constraints. Every row of a path with at least one sibling satisfies them. The
single row of an empty path does not: the loop stores the leaf hash in the left
child, and a row without a node must have a zero left child. The lookups of every
accepted witness are answered by the compressions pushed beside the trace.
-/
namespace OmegaHarness.AirCompleteness
open FixedWidthBytes DomainHashes LayeredTree MerkleTreeV1 ClaimTypes ProofPublicValues
open BabyBearField Blake3Compression MembershipAir LookupHashes MembershipRelation AirSoundness
open CellWrites MembershipTrace

/-- What a filled row holds, column group by column group. -/
structure FilledRow (w : CheckedWitness) (v : RealRowValues) (row : Row) : Prop where
  subTree : row colSubTreeId = byteVal w.publicInput.subTreeId
  index : ∀ k < 8, row (colLeafIndexBe+k) = byteVal ((toBeBytes w.publicInput.leafIndex).getD k 0)
  bits : IndexBits row v.remainingIndex.toNat
  step : row colPathStepIndex = ((UInt32.ofNat v.step).toNat : Val)
  depth : row colTreeDepth = byteVal w.publicInput.treeDepth
  len : row colPayloadLen = (w.leafPayload.length : Val)
  selector : ∀ k < 35, row (colPayloadLenSelector+k) = if k = w.leafPayload.length then 1 else 0
  payload : ∀ k < 34, row (colPayload+k) = byteVal (w.leafPayload.getD k 0)
  prev : HashAt row colPrevNode v.prev
  sibling : HashAt row colSibling v.sibling
  left : HashAt row colLeftNode v.left
  right : HashAt row colRightNode v.right
  mid : HashAt row colNodeMid v.mid
  current : HashAt row colCurrentNode v.current
  direction : row colDirectionBit = byteVal v.direction
  hasNode : row colHasNodeHash = boolVal v.hasNode
  first : row colIsFirstStep = boolVal (v.step == 0)
  real : row colIsRealStep = 1
  last : row colIsLastStep = boolVal (v.step+1 == max w.merklePath.length 1)

section Fill
variable {w : CheckedWitness} {v : RealRowValues} (hlen : w.leafPayload.length ≤ 34)

include hlen

theorem rowWrites_ascending : Ascending (rowWrites w v) := by
  apply ascending_of_chain
  simp [rowWrites,colSubTreeId,colLeafIndexBe,colRemainingIndexBits,colPathStepIndex,colTreeDepth,
    colPayloadLen,colPayloadLenSelector,colPayload,colPrevNode,colSibling,colLeftNode,colRightNode,
    colNodeMid,colCurrentNode,colDirectionBit,colHasNodeHash,colIsFirstStep,colIsRealStep,
    colIsLastStep,leafIndexLen,remainingIndexBits,leafPayloadLenChoices,maxLeafPayloadLen,hashLen]
  omega

/-- A cell of one of the runs. -/
theorem fill_inside {write : Write Val} (hmem : write ∈ rowWrites w v) {k : ℕ}
    (hk : k < write.values.length) :
    fillRealRow w v (write.offset+k) = write.values.getD k 0 :=
  applyAll_inside zeroRow (rowWrites_ascending hlen) hmem hk 0

theorem fill_cell {offset : ℕ} {value : Val} (hmem : ⟨offset,[value]⟩ ∈ rowWrites w v) :
    fillRealRow w v offset = value :=
  fill_inside hlen hmem (Nat.one_pos)

theorem fill_bytes {offset : ℕ} {bytes : Bytes} (hmem : ⟨offset,bytes.map byteVal⟩ ∈ rowWrites w v)
    {k : ℕ} (hk : k < bytes.length) :
    fillRealRow w v (offset+k) = byteVal (bytes.getD k 0) := by
  have hcell := fill_inside hlen hmem (k := k) (by simpa using hk)
  rw [hcell,List.getD_eq_getElem _ _ (by simpa using hk),List.getD_eq_getElem _ _ hk,List.getElem_map]

theorem fill_hash {offset : ℕ} {h : Hash} (hmem : ⟨offset,h.toList.map byteVal⟩ ∈ rowWrites w v) :
    HashAt (fillRealRow w v) offset h :=
  hashAt_iff.mpr fun _ hk => fill_bytes hlen hmem (by simpa using hk)

/-- A cell between two runs stays zero. -/
theorem fill_gap {c : ℕ} (h : (colPayloadLenSelector ≤ c ∧ c < colPayload ∧
      c ≠ colPayloadLenSelector+w.leafPayload.length) ∨
      (colPayload+w.leafPayload.length ≤ c ∧ c < colPrevNode)) : fillRealRow w v c = 0 := by
  apply applyAll_outside
  simp only [rowWrites,List.forall_mem_cons,Write.covers,List.not_mem_nil,false_imp_iff,implies_true,
    and_true,List.length_cons,List.length_nil,List.length_map,List.length_range,toBeBytes_length,
    hash_length]
  simp only [colSubTreeId,colLeafIndexBe,colRemainingIndexBits,colPathStepIndex,colTreeDepth,
    colPayloadLen,colPayloadLenSelector,colPayload,colPrevNode,colSibling,colLeftNode,colRightNode,
    colNodeMid,colCurrentNode,colDirectionBit,colHasNodeHash,colIsFirstStep,colIsRealStep,
    colIsLastStep,leafIndexLen,remainingIndexBits,leafPayloadLenChoices,maxLeafPayloadLen,hashLen]
    at h ⊢
  omega

omit hlen in
theorem shifted_bit (n : UInt64) {k : ℕ} (hk : k < 64) :
    ((n >>> UInt64.ofNat k) &&& 1 == 1) = n.toNat.testBit k := by
  rw [Bool.eq_iff_iff,beq_iff_eq,← UInt64.toNat_inj,UInt64.toNat_and,UInt64.toNat_shiftRight,
    UInt64.toNat_ofNat',Nat.mod_eq_of_lt (by omega : k < 2^64),Nat.mod_eq_of_lt hk]
  change (n.toNat >>> k) &&& 1 = 1 ↔ _
  rw [Nat.and_one_is_mod,Nat.testBit,Nat.and_comm,Nat.and_one_is_mod]
  simp

theorem filled_row : FilledRow w v (fillRealRow w v) := by
  refine ⟨fill_cell hlen (by simp [rowWrites]),?_,?_,fill_cell hlen (by simp [rowWrites]),
    fill_cell hlen (by simp [rowWrites]),?_,?_,?_,fill_hash hlen (by simp [rowWrites]),
    fill_hash hlen (by simp [rowWrites]),fill_hash hlen (by simp [rowWrites]),
    fill_hash hlen (by simp [rowWrites]),fill_hash hlen (by simp [rowWrites]),
    fill_hash hlen (by simp [rowWrites]),fill_cell hlen (by simp [rowWrites]),
    fill_cell hlen (by simp [rowWrites]),fill_cell hlen (by simp [rowWrites]),
    fill_cell hlen (by simp [rowWrites]),fill_cell hlen (by simp [rowWrites])⟩
  · intro k hk
    exact fill_bytes hlen (by simp [rowWrites]) (by simpa using hk)
  · intro k hk
    have hmem : (⟨colRemainingIndexBits,(List.range remainingIndexBits).map fun bit =>
        boolVal ((v.remainingIndex >>> UInt64.ofNat bit) &&& 1 == 1)⟩ : Write Val) ∈ rowWrites w v := by
      simp [rowWrites]
    have hrange : k < ((List.range remainingIndexBits).map fun bit =>
        boolVal ((v.remainingIndex >>> UInt64.ofNat bit) &&& 1 == 1)).length := by
      simpa [remainingIndexBits] using hk
    rw [fill_inside hlen hmem hrange,List.getD_eq_getElem _ _ hrange,List.getElem_map,
      List.getElem_range,shifted_bit _ hk]
  · rw [fill_cell hlen (show ⟨colPayloadLen,[byteVal (UInt8.ofNat w.leafPayload.length)]⟩ ∈
      rowWrites w v by simp [rowWrites]),byteVal_ofNat (by omega)]
  · intro k hk
    by_cases heq : k = w.leafPayload.length
    · rw [if_pos heq,heq]
      exact fill_cell hlen (by simp [rowWrites])
    · rw [if_neg heq]
      apply fill_gap hlen
      left
      have hpayload : colPayload = colPayloadLenSelector+35 := rfl
      omega
  · intro k hk
    by_cases hlt : k < w.leafPayload.length
    · exact fill_bytes hlen (by simp [rowWrites]) hlt
    · rw [List.getD_eq_default _ _ (by omega),byteVal_zero]
      apply fill_gap hlen
      right
      have hprev : colPrevNode = colPayload+34 := rfl
      omega

end Fill

/-- The index after a number of shifts. -/
def shiftedIndex (index : UInt64) (k : ℕ) : UInt64 := UInt64.ofNat (index.toNat/2^k)

@[simp] theorem shiftedIndex_toNat (index : UInt64) (k : ℕ) :
    (shiftedIndex index k).toNat = index.toNat/2^k := by
  have hlt := index.toNat_lt
  have hle := Nat.div_le_self index.toNat (2^k)
  rw [shiftedIndex,UInt64.toNat_ofNat',Nat.mod_eq_of_lt (by omega)]

theorem shiftedIndex_zero (index : UInt64) : shiftedIndex index 0 = index := by
  rw [← UInt64.toNat_inj,shiftedIndex_toNat,pow_zero,Nat.div_one]

theorem shiftedIndex_succ (index : UInt64) (k : ℕ) :
    shiftedIndex index k >>> 1 = shiftedIndex index (k+1) := by
  rw [← UInt64.toNat_inj,UInt64.toNat_shiftRight,shiftedIndex_toNat,shiftedIndex_toNat,pow_succ,
    ← Nat.div_div_eq_div_mul]
  rfl

theorem low_byte (index : UInt64) : (index &&& 1).toUInt8.toNat = index.toNat % 2 := by
  rw [UInt64.toNat_toUInt8,UInt64.toNat_and]
  change (index.toNat &&& 1) % 2^8 = _
  rw [Nat.and_one_is_mod]
  omega

/-- The direction of a step with a node is the lowest bit of its index. -/
theorem stepValues_direction {path : List Hash} (hpath : 0 < path.length) (step : ℕ) (prev : Hash)
    (index : UInt64) : (stepValues path step prev index).direction.toNat = index.toNat % 2 := by
  simp only [stepValues,hpath,decide_true,if_true]
  exact low_byte index

theorem stepValues_children {path : List Hash} (hpath : 0 < path.length) (step : ℕ) (prev : Hash)
    (index : UInt64) :
    ((stepValues path step prev index).left,(stepValues path step prev index).right) =
      orderedPair index.toNat prev (path.getD step zeroHash) := by
  have hzero : (index &&& 1).toUInt8 = 0 ↔ index.toNat % 2 = 0 := by
    rw [← UInt8.toNat_inj,low_byte]
    rfl
  simp only [stepValues,hpath,decide_true,if_true,orderedPair,hzero]

/-- The two hashes of a step with a node are its compressions' outputs. -/
theorem stepValues_hashes {path : List Hash} (hpath : 0 < path.length) (step : ℕ) (prev : Hash)
    (index : UInt64) :
    let v := stepValues path step prev index
    v.mid = hashFromWords (nodeFirstCompression v.left v.right).outputWords ∧
      v.current = hashFromWords (nodeSecondCompression v.left v.right).outputWords := by
  simp only [stepValues,hpath,decide_true,if_true,and_self]

section Steps
variable {blake3 : Bytes → Hash} (hchunk : SingleChunk blake3) {w : CheckedWitness}

/-- The values of one step in terms of the climb so far. -/
def pathStep (blake3 : Bytes → Hash) (w : CheckedWitness) (k : ℕ) : RealRowValues :=
  stepValues w.merklePath k
    (walk (nodeHashV2 blake3) w.leafHash w.publicInput.leafIndex.toNat (w.merklePath.take k))
    (shiftedIndex w.publicInput.leafIndex k)

theorem pathStep_hashes (hpath : 0 < w.merklePath.length) (k : ℕ) :
    (pathStep blake3 w k).mid = hashFromWords (nodeFirstCompression (pathStep blake3 w k).left
        (pathStep blake3 w k).right).outputWords ∧
      (pathStep blake3 w k).current = hashFromWords (nodeSecondCompression
        (pathStep blake3 w k).left (pathStep blake3 w k).right).outputWords :=
  stepValues_hashes hpath _ _ _

include hchunk in
theorem stepValues_current {path : List Hash} (hpath : 0 < path.length) (step : ℕ) (prev : Hash)
    (index : UInt64) :
    (stepValues path step prev index).current =
      nodeHashV2 blake3 (stepValues path step prev index).left
        (stepValues path step prev index).right := by
  rw [nodeHashV2_eq hchunk]
  exact (stepValues_hashes hpath step prev index).2

include hchunk in
/-- The node of one step is the climb with one more sibling. -/
theorem pathStep_current {k : ℕ} (hk : k < w.merklePath.length) :
    (pathStep blake3 w k).current = walk (nodeHashV2 blake3) w.leafHash
      w.publicInput.leafIndex.toNat (w.merklePath.take (k+1)) := by
  have hpath : 0 < w.merklePath.length := by omega
  have hlen : (w.merklePath.take k).length = k := by rw [List.length_take]; omega
  have hchildren := stepValues_children hpath k
    (walk (nodeHashV2 blake3) w.leafHash w.publicInput.leafIndex.toNat (w.merklePath.take k))
    (shiftedIndex w.publicInput.leafIndex k)
  rw [shiftedIndex_toNat,List.getD_eq_getElem _ _ hk] at hchildren
  rw [List.take_succ_eq_append_getElem hk,walk_concat,hlen,← hchildren]
  exact stepValues_current hchunk hpath _ _ _

include hchunk in
/-- The loop runs through the steps of the climb. -/
theorem traceSteps_get (rows start : ℕ) (h : start+rows ≤ w.merklePath.length) {k : ℕ}
    (hk : k < rows) :
    (traceSteps w.merklePath rows start
      (walk (nodeHashV2 blake3) w.leafHash w.publicInput.leafIndex.toNat (w.merklePath.take start))
      (shiftedIndex w.publicInput.leafIndex start))[k]? = some (pathStep blake3 w (start+k)) := by
  induction rows generalizing start k with
  | zero => omega
  | succ rows ih =>
      cases k with
      | zero => rfl
      | succ k =>
          have hcurrent := pathStep_current (w := w) hchunk (show start < w.merklePath.length by omega)
          rw [traceSteps,List.getElem?_cons_succ,shiftedIndex_succ]
          change (traceSteps w.merklePath rows (start+1) (pathStep blake3 w start).current _)[k]? = _
          rw [hcurrent,ih (start+1) (by omega) (by omega),show start+1+k = start+(k+1) by omega]

theorem traceSteps_length (path : List Hash) (rows start : ℕ) (prev : Hash) (index : UInt64) :
    (traceSteps path rows start prev index).length = rows := by
  induction rows generalizing start prev index with
  | zero => rfl
  | succ rows ih => rw [traceSteps,List.length_cons,ih]

include hchunk in
theorem pathSteps_get {k : ℕ} (hk : k < max w.merklePath.length 1) :
    (pathSteps w)[k]? = some (pathStep blake3 w k) := by
  by_cases hpath : 0 < w.merklePath.length
  · have hget := traceSteps_get (w := w) hchunk w.merklePath.length 0 (by omega)
      (show k < w.merklePath.length by omega)
    rw [shiftedIndex_zero,Nat.zero_add] at hget
    rw [pathSteps,max_eq_left (by omega)]
    exact hget
  · have hnil : w.merklePath = [] := List.length_eq_zero_iff.mp (by omega)
    have hk0 : k = 0 := by rw [hnil] at hk; simpa using hk
    rw [pathSteps,hnil,hk0,pathStep,shiftedIndex_zero,hnil]
    rfl

include hchunk in
theorem row_real {r : ℕ} (hr : r < max w.merklePath.length 1) :
    (untamperedTrace w).row r = fillRealRow w (pathStep blake3 w r) := by
  rw [untamperedTrace]
  dsimp only
  rw [pathSteps_get hchunk hr]

theorem row_padding {r : ℕ} (hr : max w.merklePath.length 1 ≤ r) :
    (untamperedTrace w).row r = zeroRow := by
  have hnone : (pathSteps w)[r]? = none := by
    rw [List.getElem?_eq_none_iff,pathSteps,traceSteps_length]
    exact hr
  rw [untamperedTrace]
  dsimp only
  rw [hnone]

end Steps

theorem boolVal_bit (b : Bool) : Bit (boolVal b) := by
  cases b
  · exact Or.inl rfl
  · exact Or.inr rfl

theorem boolVal_one {b : Bool} : boolVal b = 1 ↔ b = true := by
  cases b <;> simp [boolVal]

theorem boolVal_zero {b : Bool} : boolVal b = 0 ↔ b = false := by
  cases b <;> simp [boolVal]

theorem byteVal_one : byteVal 1 = 1 := by
  rw [byteVal]
  exact Nat.cast_one

/-- Two places which hold one hash have equal cells. -/
theorem hashAt_cells {row row' : Row} {offset offset' : ℕ} {h : Hash} (ha : HashAt row offset h)
    (hb : HashAt row' offset' h) {k : ℕ} (hk : k < 32) : row (offset+k) = row' (offset'+k) :=
  (hashAt_iff.mp ha k hk).trans (hashAt_iff.mp hb k hk).symm

theorem hashAt_zero {row : Row} {offset : ℕ} :
    HashAt row offset zeroHash ↔ ∀ k < 32, row (offset+k) = 0 := by
  rw [hashAt_iff]
  refine forall₂_congr fun k hk => ?_
  have hget : zeroHash.toList.getD k 0 = 0 := by
    rw [zeroHash,Vector.toList_replicate,List.getD_replicate _ hk]
  rw [hget,byteVal_zero]

/-- The bits of a byte pack to the byte. -/
theorem pack_testBit {v : ℕ} (hv : v < 256) :
    ∑ b ∈ Finset.range 8, boolVal (v.testBit b)*(2^b : Val) = (v : Val) := by
  obtain ⟨hlt,htest⟩ := testBit_sum v.testBit 8
  have heq : ∑ b ∈ Finset.range 8, (v.testBit b).toNat*2^b = v := by
    apply Nat.eq_of_testBit_eq
    intro k
    by_cases hk : k < 8
    · exact htest k hk
    · have hpow : 2^8 ≤ 2^k := Nat.pow_le_pow_right (by omega) (by omega)
      rw [Nat.testBit_lt_two_pow (by omega),Nat.testBit_lt_two_pow (by omega)]
  conv_rhs => rw [← heq,Nat.cast_sum]
  apply Finset.sum_congr rfl
  intro b _
  cases v.testBit b <;> simp [boolVal]

/-- A one-hot selector is a payload length. -/
theorem filled_selector {w : CheckedWitness} {v : RealRowValues} {row : Row}
    (hlen : w.leafPayload.length ≤ 34) (h : FilledRow w v row) : SelectorHolds row := by
  have hsum : ∀ m, m ≤ 35 → ∀ g : ℕ → Val,
      ∑ k ∈ Finset.range m, row (colPayloadLenSelector+k)*g k =
        if w.leafPayload.length < m then g w.leafPayload.length else 0 := by
    intro m hm g
    have hterm : ∀ k ∈ Finset.range m, row (colPayloadLenSelector+k)*g k =
        if k = w.leafPayload.length then g k else 0 := by
      intro k hk
      rw [h.selector k (by have := Finset.mem_range.mp hk; omega),ite_mul,one_mul,zero_mul]
    rw [Finset.sum_congr rfl hterm,Finset.sum_ite_eq']
    simp only [Finset.mem_range]
  have hone := fun m hm => hsum m hm fun _ => 1
  simp only [mul_one] at hone
  refine ⟨?_,?_,?_,?_⟩
  · intro k hk
    rw [h.selector k hk]
    split
    · exact Or.inr rfl
    · exact Or.inl rfl
  · rw [hone 35 le_rfl,if_pos (by omega)]
  · rw [h.len,hsum 35 le_rfl fun k => (k : Val),if_pos (by omega)]
  · intro k hk
    by_cases hlt : w.leafPayload.length < k+1
    · left
      rw [h.payload k hk,List.getD_eq_default _ _ (by omega),byteVal_zero]
    · right
      rw [hone (k+1) (by omega),if_neg hlt]

/-- A zero row after the first one, followed by zero rows. -/
theorem zero_window_holds {win : Window} (hcell : ∀ col, win.current col = 0)
    (hfirst : win.isFirstRow = 0) (hnext : win.isTransition ≠ 0 → ∀ col, win.next col = 0) :
    RowHolds win := by
  have hbit : ∀ col, Bit (win.current col) := fun col => Or.inl (hcell col)
  have hone : ∀ col, win.current col ≠ 1 := fun col h1 => zero_ne_one ((hcell col).symm.trans h1)
  exact
    { real := hbit _
      last := hbit _
      first := hbit _
      hasNode := hbit _
      direction := hbit _
      start := fun hne => (hne hfirst).elim
      inputs := fun h1 => (hone _ h1).elim
      indexBits := fun h1 => (hone _ h1).elim
      lowBit := fun h1 => (hone _ h1).elim
      leftChild := fun h1 => (hone _ h1).elim
      rightChild := fun h1 => (hone _ h1).elim
      noNode := fun h1 => (hone _ h1).elim
      stop := fun h1 => (hone _ h1).elim
      nextFirst := fun ht => hnext ht _
      nextContinue := fun _ h1 => (hone _ h1).elim
      nextStop := fun _ h1 => (hone _ h1).elim
      nextPadding := fun ht _ => hnext ht _
      ending := fun _ h1 => (hone _ h1).elim
      padding := fun _ col _ => hcell col }

/-- The public values of a witness. -/
def witnessValues (binding : List UInt32) (p : ClaimPublicInputs) : ℕ → Val :=
  fieldValues (publicValueRow binding p)

theorem filled_inputs {w : CheckedWitness} {v : RealRowValues} {win : Window}
    {binding : List UInt32} (hlen : w.leafPayload.length ≤ 34) (h : FilledRow w v win.current)
    (hpub : win.publicValues = witnessValues binding w.publicInput) : InputsHold win := by
  refine ⟨?_,?_,?_,filled_selector hlen h,?_⟩
  · rw [h.subTree,hpub]
    exact (fieldValues_subTree binding w.publicInput).symm
  · rw [h.depth,hpub]
    exact (fieldValues_depth binding w.publicInput).symm
  · intro k hk
    rw [h.index k hk,hpub]
    exact (fieldValues_index binding w.publicInput hk).symm
  · intro k hk
    rw [h.bits k hk]
    exact boolVal_bit _

/-- The unshifted index packs to its public bytes. -/
theorem filled_indexBits {w : CheckedWitness} {v : RealRowValues} {win : Window}
    {binding : List UInt32} (h : FilledRow w v win.current)
    (hpub : win.publicValues = witnessValues binding w.publicInput)
    (hindex : v.remainingIndex = w.publicInput.leafIndex) {k : ℕ} (hk : k < 8) :
    ∑ bit ∈ Finset.range 8, win.current (colRemainingIndexBits+k*8+bit)*(2^bit : Val) =
      win.publicValues (publicLeafIndexOffset+leafIndexLen-1-k) := by
  have hoffset : publicLeafIndexOffset+leafIndexLen-1-k = publicLeafIndexOffset+(7-k) := by
    change 1+8-1-k = 1+(7-k)
    omega
  rw [hpub,hoffset,witnessValues,fieldValues_index binding w.publicInput (by omega),
    toBeBytes_low _ hk,← pack_testBit (Nat.mod_lt _ (by omega))]
  apply Finset.sum_congr rfl
  intro b hb
  have hb8 := Finset.mem_range.mp hb
  rw [testBit_byte _ hb8,Nat.add_assoc,h.bits _ (by omega),hindex]

/-- Two consecutive filled rows. -/
theorem filled_continue {w : CheckedWitness} {v v' : RealRowValues} {win : Window}
    (h : FilledRow w v win.current) (h' : FilledRow w v' win.next)
    (hsmall : v.step+1 < 2^32) (hstep : v'.step = v.step+1) (hprev : v'.prev = v.current)
    (hindex : v'.remainingIndex.toNat = v.remainingIndex.toNat/2) : ContinueHolds win := by
  refine ⟨h'.real,?_,?_,?_,?_⟩
  · rw [h'.step,h.step,hstep,UInt32.toNat_ofNat',UInt32.toNat_ofNat',Nat.mod_eq_of_lt (by omega),
      Nat.mod_eq_of_lt (by omega),Nat.cast_add,Nat.cast_one]
  · intro k hk
    have hat := h'.prev
    rw [hprev] at hat
    exact hashAt_cells hat h.current hk
  · intro k hk
    rw [h'.bits k (by omega),Nat.add_assoc,h.bits (k+1) (by omega),hindex,Nat.testBit_div_two]
  · have hlt := v.remainingIndex.toNat_lt
    rw [h'.bits 63 (by omega),hindex,Nat.testBit_lt_two_pow (by omega)]
    rfl

/-- The constraints of a real row on its children and its root. -/
structure NodeHolds (win : Window) : Prop where
  direction : Bit (win.current colDirectionBit)
  lowBit : win.current colHasNodeHash = 1 →
    win.current colDirectionBit = win.current colRemainingIndexBits
  leftChild : win.current colHasNodeHash = 1 → win.current colDirectionBit = 0 → ∀ k < 32,
    win.current (colLeftNode+k) = win.current (colPrevNode+k) ∧
      win.current (colRightNode+k) = win.current (colSibling+k)
  rightChild : win.current colHasNodeHash = 1 → win.current colDirectionBit = 1 → ∀ k < 32,
    win.current (colLeftNode+k) = win.current (colSibling+k) ∧
      win.current (colRightNode+k) = win.current (colPrevNode+k)
  noNode : win.current colHasNodeHash = 0 → win.current colTreeDepth = 0 ∧ ∀ k < 32,
    win.current (colCurrentNode+k) = win.current (colPrevNode+k) ∧ win.current (colSibling+k) = 0 ∧
      win.current (colLeftNode+k) = 0 ∧ win.current (colRightNode+k) = 0 ∧
      win.current (colNodeMid+k) = 0
  stop : win.current colIsLastStep = 1 →
    win.current colPathStepIndex+win.current colHasNodeHash = win.current colTreeDepth ∧
      ∀ k < 32, win.current (colCurrentNode+k) = win.publicValues (publicRootOffset+k)

section Rows
variable {blake3 : Bytes → Hash} (hchunk : SingleChunk blake3) {c : OmegaCommitment} {i : Fin 7}
  {w : MembershipWitness} (h : Accepted blake3 c i w) (binding : List UInt32)

/-- The number of real rows. -/
def realRows (w : MembershipWitness) : ℕ := max w.merklePath.length 1

def builtTrace (blake3 : Bytes → Hash) (w : MembershipWitness) : Trace :=
  untamperedTrace (checkedWitness blake3 w)

def builtWindow (blake3 : Bytes → Hash) (w : MembershipWitness) (binding : List UInt32) (r : ℕ) :
    Window :=
  (builtTrace blake3 w).window (witnessValues binding w.publicInput) r

theorem realRows_le_height : realRows w ≤ (builtTrace blake3 w).height := by
  have hpow : realRows w ≤ nextPowerOfTwo (realRows w) := Nat.le_pow_clog (by omega) _
  exact hpow.trans (le_max_left _ _)

theorem realRows_pos : 0 < realRows w := lt_of_lt_of_le Nat.one_pos (le_max_right _ _)

theorem transition_lt {r : ℕ} (hr : r < (builtTrace blake3 w).height)
    (ht : (builtWindow blake3 w binding r).isTransition ≠ 0) : r+1 < (builtTrace blake3 w).height := by
  by_contra hge
  apply ht
  rw [builtWindow,Trace.window]
  dsimp only
  rw [if_pos (by omega)]

theorem first_row_eq {r : ℕ} (hfirst : (builtWindow blake3 w binding r).isFirstRow ≠ 0) : r = 0 := by
  by_contra hne
  apply hfirst
  rw [builtWindow,Trace.window]
  dsimp only
  rw [if_neg hne]

theorem last_row_eq {r : ℕ} (hend : (builtWindow blake3 w binding r).isLastRow ≠ 0) :
    r+1 = (builtTrace blake3 w).height := by
  by_contra hne
  apply hend
  rw [builtWindow,Trace.window]
  dsimp only
  rw [if_neg hne]

theorem padding_cells {r : ℕ} (hr : realRows w ≤ r) (col : ℕ) :
    (builtTrace blake3 w).row r col = 0 := by
  rw [builtTrace,row_padding hr]
  rfl

theorem next_padding_cells {r : ℕ} (hr : realRows w ≤ r+1) (hlt : r < (builtTrace blake3 w).height)
    (ht : (builtWindow blake3 w binding r).isTransition ≠ 0) (col : ℕ) :
    (builtWindow blake3 w binding r).next col = 0 := by
  rw [builtWindow,window_next (transition_lt binding hlt ht)]
  exact padding_cells hr col

theorem padding_row_holds {r : ℕ} (hr : realRows w ≤ r) (hlt : r < (builtTrace blake3 w).height) :
    RowHolds (builtWindow blake3 w binding r) := by
  refine zero_window_holds (padding_cells hr) ?_ ?_
  · have hpos := realRows_pos (w := w)
    rw [builtWindow,Trace.window]
    dsimp only
    rw [if_neg (by omega)]
  · intro ht col
    exact next_padding_cells binding (by omega) hlt ht col

include hchunk h in
theorem real_row_filled {r : ℕ} (hr : r < realRows w) :
    FilledRow (checkedWitness blake3 w) (pathStep blake3 (checkedWitness blake3 w) r)
      ((builtTrace blake3 w).row r) := by
  have hrow : (builtTrace blake3 w).row r = _ := row_real hchunk hr
  rw [hrow]
  exact filled_row h.payload

include hchunk h in
theorem next_row_filled {r : ℕ} (hr : r+1 < realRows w) :
    FilledRow (checkedWitness blake3 w) (pathStep blake3 (checkedWitness blake3 w) (r+1))
      (builtWindow blake3 w binding r).next := by
  have hheight := @realRows_le_height blake3 w
  rw [builtWindow,window_next (by omega)]
  exact real_row_filled hchunk h hr

include hchunk h in
/-- A step of the path hands its node and its shifted index to the next step. -/
theorem real_row_continues {r : ℕ} (hr : r+1 < realRows w) :
    ContinueHolds (builtWindow blake3 w binding r) := by
  have hfilled : FilledRow (checkedWitness blake3 w) (pathStep blake3 (checkedWitness blake3 w) r)
    (builtWindow blake3 w binding r).current := real_row_filled hchunk h (by omega)
  have hbyte := w.publicInput.treeDepth.toNat_lt
  have hpath := h.path
  have hlen : r < w.merklePath.length := by unfold realRows at hr; omega
  refine filled_continue hfilled (next_row_filled hchunk h binding hr) ?_ rfl ?_ ?_
  · change r+1 < 2^32
    omega
  · exact (pathStep_current hchunk hlen).symm
  · change (shiftedIndex w.publicInput.leafIndex (r+1)).toNat =
      (shiftedIndex w.publicInput.leafIndex r).toNat/2
    rw [shiftedIndex_toNat,shiftedIndex_toNat,pow_succ,Nat.div_div_eq_div_mul]

include hchunk h in
/-- The rows of the loop, given the group of constraints on children and root. -/
theorem real_row_holds {r : ℕ} (hr : r < realRows w)
    (hnode : NodeHolds (builtWindow blake3 w binding r)) :
    RowHolds (builtWindow blake3 w binding r) := by
  have hfilled : FilledRow (checkedWitness blake3 w) (pathStep blake3 (checkedWitness blake3 w) r)
    (builtWindow blake3 w binding r).current := real_row_filled hchunk h hr
  have hheight := @realRows_le_height blake3 w
  have hlast : (builtWindow blake3 w binding r).current colIsLastStep = boolVal (r+1 == realRows w) :=
    hfilled.last
  have hreal : (builtWindow blake3 w binding r).current colIsRealStep ≠ 0 := by
    rw [hfilled.real]
    exact one_ne_zero
  exact
    { real := Or.inr hfilled.real
      last := by rw [hlast]; exact boolVal_bit _
      first := by rw [hfilled.first]; exact boolVal_bit _
      hasNode := by rw [hfilled.hasNode]; exact boolVal_bit _
      direction := hnode.direction
      start := fun hfirst => by
        have hr0 : r = 0 := first_row_eq binding hfirst
        subst hr0
        exact ⟨hfilled.real,hfilled.first,hfilled.step.trans Nat.cast_zero⟩
      inputs := fun _ => filled_inputs h.payload hfilled rfl
      indexBits := fun hfirst => by
        rw [hfilled.first,boolVal_one,beq_iff_eq] at hfirst
        have hr0 : r = 0 := hfirst
        subst hr0
        refine ⟨hfilled.real,fun k hk => filled_indexBits hfilled rfl ?_ hk⟩
        exact shiftedIndex_zero _
      lowBit := hnode.lowBit
      leftChild := hnode.leftChild
      rightChild := hnode.rightChild
      noNode := fun _ => hnode.noNode
      stop := fun _ => hnode.stop
      nextFirst := fun ht => by
        by_cases hlt : r+1 < realRows w
        · rw [(next_row_filled hchunk h binding hlt).first]
          rfl
        · exact next_padding_cells binding (by omega) (by omega) ht _
      nextContinue := fun ht _ hzero => by
        rw [hlast,boolVal_zero,beq_eq_false_iff_ne] at hzero
        exact real_row_continues hchunk h binding (by omega)
      nextStop := fun ht _ hone => by
        rw [hlast,boolVal_one,beq_iff_eq] at hone
        exact next_padding_cells binding (by omega) (by omega) ht _
      nextPadding := fun _ hzero => (hreal hzero).elim
      ending := fun hend _ => by
        have heq := last_row_eq binding hend
        rw [hlast,boolVal_one,beq_iff_eq]
        omega
      padding := fun hzero => (hreal hzero).elim }

theorem root_cells {win : Window} (hpub : win.publicValues = witnessValues binding w.publicInput)
    (hroot : HashAt win.current colCurrentNode w.publicInput.perSubTreeRoot) :
    ∀ k < 32, win.current (colCurrentNode+k) = win.publicValues (publicRootOffset+k) := by
  intro k hk
  rw [hpub,witnessValues,fieldValues_root binding w.publicInput hk]
  exact hashAt_iff.mp hroot k hk

include h in
theorem walk_root :
    walk (nodeHashV2 blake3) (checkedWitness blake3 w).leafHash w.publicInput.leafIndex.toNat
      w.merklePath = w.publicInput.perSubTreeRoot := by
  rw [← h.walk,walkV1Path_eq_walk]
  rfl

/-- The two orders of a step's children, with the direction byte of each. -/
theorem stepValues_order {path : List Hash} (hpath : 0 < path.length) (step : ℕ) (prev : Hash)
    (index : UInt64) :
    let v := stepValues path step prev index
    (index.toNat.testBit 0 = false ∧ v.direction = 0 ∧ v.left = v.prev ∧ v.right = v.sibling) ∨
      (index.toNat.testBit 0 = true ∧ v.direction = 1 ∧ v.left = v.sibling ∧ v.right = v.prev) := by
  have hdirection := stepValues_direction hpath step prev index
  have hchildren := stepValues_children hpath step prev index
  rw [orderedPair] at hchildren
  dsimp only
  rw [Nat.testBit_zero]
  rcases Nat.mod_two_eq_zero_or_one index.toNat with hpar | hpar
  · left
    rw [if_pos hpar,Prod.mk.injEq] at hchildren
    rw [hpar] at hdirection ⊢
    exact ⟨rfl,UInt8.toNat_inj.mp hdirection,hchildren⟩
  · right
    rw [if_neg (by omega),Prod.mk.injEq] at hchildren
    rw [hpar] at hdirection ⊢
    exact ⟨rfl,UInt8.toNat_inj.mp hdirection,hchildren⟩

include hchunk h in
/-- The row of the last sibling has counted the whole path and ends in the root. -/
theorem last_sibling_row {r : ℕ} (hlast : r+1 = w.merklePath.length) :
    (builtWindow blake3 w binding r).current colPathStepIndex+1 =
        (builtWindow blake3 w binding r).current colTreeDepth ∧
      ∀ k < 32, (builtWindow blake3 w binding r).current (colCurrentNode+k) =
        (builtWindow blake3 w binding r).publicValues (publicRootOffset+k) := by
  have hr : r < w.merklePath.length := by omega
  have hfilled : FilledRow (checkedWitness blake3 w) (pathStep blake3 (checkedWitness blake3 w) r)
    (builtWindow blake3 w binding r).current :=
    real_row_filled hchunk h (lt_of_lt_of_le hr (le_max_left _ _))
  have hbyte := w.publicInput.treeDepth.toNat_lt
  have hdepth := h.path
  refine ⟨?_,root_cells binding rfl ?_⟩
  · rw [hfilled.step,hfilled.depth,byteVal,UInt32.toNat_ofNat']
    change ((r % 2^32 : ℕ) : Val)+1 = (w.publicInput.treeDepth.toNat : Val)
    rw [Nat.mod_eq_of_lt (by omega),← hdepth,← hlast,Nat.cast_add,Nat.cast_one]
  · have hroot := hfilled.current
    rw [@pathStep_current _ hchunk (checkedWitness blake3 w) r hr] at hroot
    change HashAt _ _ (walk _ _ _ (w.merklePath.take (r+1))) at hroot
    rw [hlast,List.take_length] at hroot
    rw [← walk_root h]
    exact hroot

include hchunk h in
/-- With at least one sibling every real row carries a node, and its children
stand in the order of the index's bit. -/
theorem node_holds_of_siblings {r : ℕ} (hr : r < w.merklePath.length) :
    NodeHolds (builtWindow blake3 w binding r) := by
  have hpath : 0 < w.merklePath.length := by omega
  have hfilled : FilledRow (checkedWitness blake3 w) (pathStep blake3 (checkedWitness blake3 w) r)
    (builtWindow blake3 w binding r).current :=
    real_row_filled hchunk h (lt_of_lt_of_le hr (le_max_left _ _))
  have hnode : (builtWindow blake3 w binding r).current colHasNodeHash = 1 := by
    rw [hfilled.hasNode,boolVal_one]
    exact decide_eq_true hpath
  have hbit := hfilled.bits 0 (by omega)
  have hstop : (builtWindow blake3 w binding r).current colIsLastStep = 1 →
      r+1 = w.merklePath.length := by
    intro hone
    rw [hfilled.last,boolVal_one,beq_iff_eq] at hone
    have hmax : r+1 = max w.merklePath.length 1 := hone
    omega
  have hleft := hfilled.left
  have hright := hfilled.right
  have hdirection := hfilled.direction
  have horder : _ ∨ _ := stepValues_order hpath r
    (walk (nodeHashV2 blake3) (checkedWitness blake3 w).leafHash w.publicInput.leafIndex.toNat
      (w.merklePath.take r)) (shiftedIndex w.publicInput.leafIndex r)
  refine ⟨?_,fun _ => ?_,fun _ hzero k hk => ?_,fun _ hone k hk => ?_,fun hzero => ?_,fun hone => ?_⟩
  · rcases horder with ⟨-,hd,-⟩ | ⟨-,hd,-⟩
    · left
      rw [hdirection]
      exact (congrArg byteVal hd).trans byteVal_zero
    · right
      rw [hdirection]
      exact (congrArg byteVal hd).trans byteVal_one
  · rw [hdirection]
    rcases horder with ⟨hb,hd,-⟩ | ⟨hb,hd,-⟩
    · exact ((congrArg byteVal hd).trans byteVal_zero).trans (hbit.trans (congrArg boolVal hb)).symm
    · exact ((congrArg byteVal hd).trans byteVal_one).trans (hbit.trans (congrArg boolVal hb)).symm
  · rcases horder with ⟨-,-,hl,hr⟩ | ⟨-,hd,-⟩
    · exact ⟨hashAt_cells (hl ▸ hleft) hfilled.prev hk,hashAt_cells (hr ▸ hright) hfilled.sibling hk⟩
    · rw [hdirection] at hzero
      exact (one_ne_zero (((congrArg byteVal hd).trans byteVal_one).symm.trans hzero)).elim
  · rcases horder with ⟨-,hd,-⟩ | ⟨-,-,hl,hr⟩
    · rw [hdirection] at hone
      exact (zero_ne_one (((congrArg byteVal hd).trans byteVal_zero).symm.trans hone)).elim
    · exact ⟨hashAt_cells (hl ▸ hleft) hfilled.sibling hk,hashAt_cells (hr ▸ hright) hfilled.prev hk⟩
  · exact (one_ne_zero (hnode.symm.trans hzero)).elim
  · rw [hnode]
    exact last_sibling_row hchunk h binding (hstop hone)

include hchunk h in
/-- Without siblings the one real row carries no node, and its left child is the
leaf hash instead of zero. -/
theorem node_holds_empty_iff (hnil : w.merklePath = []) :
    NodeHolds (builtWindow blake3 w binding 0) ↔ w.publicInput.perSubTreeRoot = zeroHash := by
  have hfilled : FilledRow (checkedWitness blake3 w) (pathStep blake3 (checkedWitness blake3 w) 0)
    (builtWindow blake3 w binding 0).current := real_row_filled hchunk h realRows_pos
  have hroot : (checkedWitness blake3 w).leafHash = w.publicInput.perSubTreeRoot := by
    rw [← walk_root h,hnil]
    rfl
  have hvalues : pathStep blake3 (checkedWitness blake3 w) 0 = stepValues [] 0
      w.publicInput.perSubTreeRoot (shiftedIndex w.publicInput.leafIndex 0) := by
    rw [← hroot,pathStep]
    change stepValues w.merklePath 0 (walk _ _ _ (w.merklePath.take 0)) _ = _
    rw [hnil]
    rfl
  rw [hvalues] at hfilled
  have hleft : HashAt (builtWindow blake3 w binding 0).current colLeftNode
    w.publicInput.perSubTreeRoot := hfilled.left
  have hnone : (builtWindow blake3 w binding 0).current colHasNodeHash = 0 := hfilled.hasNode
  have hnever : (builtWindow blake3 w binding 0).current colHasNodeHash ≠ 1 := by
    rw [hnone]
    exact zero_ne_one
  have hdepth : (builtWindow blake3 w binding 0).current colTreeDepth = 0 := by
    have hpath := h.path
    rw [hnil] at hpath
    rw [hfilled.depth,byteVal]
    change ((w.publicInput.treeDepth.toNat : ℕ) : Val) = 0
    rw [← hpath]
    rfl
  constructor
  · intro hnode
    refine hleft.unique (hashAt_zero.mpr fun k hk => ?_)
    exact ((hnode.noNode hnone).2 k hk).2.2.1
  · intro hzero
    have hsibling : HashAt _ colSibling zeroHash := hfilled.sibling
    have hright : HashAt _ colRightNode zeroHash := hfilled.right
    have hmid : HashAt _ colNodeMid zeroHash := hfilled.mid
    have hcurrent : HashAt _ colCurrentNode w.publicInput.perSubTreeRoot := hfilled.current
    refine ⟨Or.inl (hfilled.direction.trans byteVal_zero),fun h1 => (hnever h1).elim,
      fun h1 => (hnever h1).elim,fun h1 => (hnever h1).elim,fun _ => ⟨hdepth,fun k hk => ?_⟩,
      fun _ => ⟨?_,root_cells binding rfl hcurrent⟩⟩
    · rw [hzero] at hleft
      exact ⟨hashAt_cells hcurrent hfilled.prev hk,hashAt_zero.mp hsibling k hk,
        hashAt_zero.mp hleft k hk,hashAt_zero.mp hright k hk,hashAt_zero.mp hmid k hk⟩
    · rw [hnone,hdepth,hfilled.step]
      rfl

/-- The group is part of the row. -/
theorem nodeHolds_of_rowHolds {win : Window} (hrow : RowHolds win)
    (hreal : win.current colIsRealStep = 1) : NodeHolds win :=
  ⟨hrow.direction,hrow.lowBit,hrow.leftChild,hrow.rightChild,hrow.noNode hreal,hrow.stop hreal⟩

include hchunk h in
/-- The built trace satisfies the constraints exactly when the path is not empty
or the root is the zero hash. -/
theorem built_satisfies_iff :
    Satisfies (builtTrace blake3 w) (witnessValues binding w.publicInput) ↔
      w.merklePath ≠ [] ∨ w.publicInput.perSubTreeRoot = zeroHash := by
  rw [satisfies_iff]
  constructor
  · intro hrows
    by_cases hnil : w.merklePath = []
    · right
      have hrow := hrows 0 (lt_of_lt_of_le realRows_pos realRows_le_height)
      refine (node_holds_empty_iff hchunk h binding hnil).mp (nodeHolds_of_rowHolds hrow ?_)
      exact (real_row_filled hchunk h realRows_pos).real
    · exact Or.inl hnil
  · intro hcase r hr
    by_cases hreal : r < realRows w
    · apply real_row_holds hchunk h binding hreal
      by_cases hnil : w.merklePath = []
      · have hr0 : r = 0 := by
          rw [realRows,hnil] at hreal
          simpa using hreal
        rw [hr0]
        exact (node_holds_empty_iff hchunk h binding hnil).mpr (hcase.resolve_left (not_not.mpr hnil))
      · have hlen := List.length_pos_iff.mpr hnil
        apply node_holds_of_siblings hchunk h binding
        rw [realRows] at hreal
        omega
    · exact padding_row_holds binding (by omega) hr

theorem filled_leafCells {cw : CheckedWitness} {v : RealRowValues} {row : Row}
    (hlen : cw.leafPayload.length ≤ 34) (hfilled : FilledRow cw v row) :
    LeafCells row cw.publicInput.subTreeId cw.publicInput.leafIndex cw.leafPayload :=
  ⟨hfilled.subTree,hfilled.index,hlen,hfilled.len,hfilled.payload⟩

/-- The compressions pushed for a witness. -/
def pushedCompressions (cw : CheckedWitness) : List Compression :=
  leafCompression cw.publicInput.subTreeId cw.publicInput.leafIndex cw.leafPayload::
    (pathSteps cw).flatMap stepCompressions

include hchunk in
theorem step_pushed {cw : CheckedWitness} {r : ℕ} (hr : r < max cw.merklePath.length 1)
    {cmp : Compression} (hcmp : cmp ∈ stepCompressions (pathStep blake3 cw r)) :
    cmp ∈ pushedCompressions cw := by
  apply List.mem_cons_of_mem
  rw [List.mem_flatMap]
  exact ⟨_,List.mem_of_getElem? (pathSteps_get hchunk hr),hcmp⟩

include hchunk h in
/-- The first row receives the tuple of the leaf. -/
theorem built_leaf_sent :
    leafLookupCells ((builtTrace blake3 w).row 0) =
      (lookupBytes (leafCompression w.publicInput.subTreeId w.publicInput.leafIndex
        w.leafPayload)).map byteVal := by
  have hfilled := real_row_filled hchunk h (@realRows_pos w)
  have hprev := hfilled.prev
  change HashAt _ _ (leafHashV2 blake3 w.publicInput.subTreeId w.publicInput.leafIndex
    w.leafPayload) at hprev
  rw [leafHashV2_eq hchunk _ _ h.payload] at hprev
  exact leaf_sent (filled_leafCells h.payload hfilled) hprev

include hchunk h in
/-- A row of a path with siblings receives the tuples of its node. -/
theorem built_node_sent {r : ℕ} (hr : r < realRows w) (hpath : 0 < w.merklePath.length) :
    nodeFirstLookupCells ((builtTrace blake3 w).row r) =
      (lookupBytes (nodeFirstCompression (pathStep blake3 (checkedWitness blake3 w) r).left
        (pathStep blake3 (checkedWitness blake3 w) r).right)).map byteVal ∧
    nodeSecondLookupCells ((builtTrace blake3 w).row r) =
      (lookupBytes (nodeSecondCompression (pathStep blake3 (checkedWitness blake3 w) r).left
        (pathStep blake3 (checkedWitness blake3 w) r).right)).map byteVal := by
  have hfilled := real_row_filled hchunk h hr
  have hhashes := @pathStep_hashes blake3 (checkedWitness blake3 w) hpath r
  exact ⟨node_first_sent hfilled.left hfilled.right (hhashes.1 ▸ hfilled.mid),
    node_second_sent hfilled.right (hhashes.1 ▸ hfilled.mid) (hhashes.2 ▸ hfilled.current)⟩

/-- Nothing is received behind the last step. -/
theorem padding_receives {r : ℕ} (hr : realRows w ≤ r) {receive : List Val × Val}
    (hmem : receive ∈ receives ((builtTrace blake3 w).row r)) : receive.2 = 0 := by
  have hcell := @padding_cells blake3 w r hr
  simp only [receives,List.mem_cons,List.not_mem_nil,or_false] at hmem
  rcases hmem with rfl | rfl | rfl
  · exact hcell _
  · rw [hcell,zero_mul]
  · rw [hcell,zero_mul]

include hchunk h in
/-- Every tuple which the built trace receives is sent by a pushed compression. -/
theorem built_receives_sent {r : ℕ} {receive : List Val × Val}
    (hmem : receive ∈ receives ((builtTrace blake3 w).row r)) (hne : receive.2 ≠ 0) :
    ∃ cmp ∈ pushedCompressions (checkedWitness blake3 w),
      receive.1 = (lookupBytes cmp).map byteVal := by
  by_cases hr : r < realRows w
  · have hfilled := real_row_filled hchunk h hr
    simp only [receives,List.mem_cons,List.not_mem_nil,or_false] at hmem
    have hsiblings : (builtTrace blake3 w).row r colIsRealStep*
        (builtTrace blake3 w).row r colHasNodeHash ≠ 0 → 0 < w.merklePath.length := by
      intro hactive
      rw [hfilled.real,one_mul,hfilled.hasNode] at hactive
      exact of_decide_eq_true (boolVal_one.mp ((boolVal_bit _).ne_zero.mp hactive))
    rcases hmem with rfl | rfl | rfl
    · have hfirst : boolVal (r == 0) ≠ 0 := by
        intro hzero
        exact hne (hfilled.first.trans hzero)
      have hr0 : r = 0 := beq_iff_eq.mp (boolVal_one.mp ((boolVal_bit _).ne_zero.mp hfirst))
      subst hr0
      exact ⟨_,List.mem_cons_self,built_leaf_sent hchunk h⟩
    · have hpath := hsiblings hne
      have hnode : (pathStep blake3 (checkedWitness blake3 w) r).hasNode = true :=
        decide_eq_true hpath
      refine ⟨nodeFirstCompression _ _,step_pushed hchunk hr ?_,(built_node_sent hchunk h hr hpath).1⟩
      rw [stepCompressions,if_pos hnode]
      exact List.mem_cons_self
    · have hpath := hsiblings hne
      have hnode : (pathStep blake3 (checkedWitness blake3 w) r).hasNode = true :=
        decide_eq_true hpath
      refine ⟨nodeSecondCompression _ _,step_pushed hchunk hr ?_,
        (built_node_sent hchunk h hr hpath).2⟩
      rw [stepCompressions,if_pos hnode]
      exact List.mem_cons_of_mem _ List.mem_cons_self
  · exact (hne (padding_receives (by omega) hmem)).elim

/-- A compression with its own output. -/
def Genuine (cmp : Compression) : Prop :=
  cmp = compression cmp.blockWords cmp.cvWords cmp.counter cmp.blockLen cmp.flags

/-- A pushed compression is the leaf's or one of a node's two. -/
theorem pushed_cases {cw : CheckedWitness} {cmp : Compression} (hmem : cmp ∈ pushedCompressions cw) :
    cmp = leafCompression cw.publicInput.subTreeId cw.publicInput.leafIndex cw.leafPayload ∨
      ∃ left right, cmp = nodeFirstCompression left right ∨ cmp = nodeSecondCompression left right := by
  rcases List.mem_cons.mp hmem with hleaf | hstep
  · exact Or.inl hleaf
  · obtain ⟨v,-,hv⟩ := List.mem_flatMap.mp hstep
    rw [stepCompressions] at hv
    split at hv
    · simp only [List.mem_cons,List.not_mem_nil,or_false] at hv
      exact Or.inr ⟨v.left,v.right,hv⟩
    · cases hv

theorem pushed_genuine {cw : CheckedWitness} {cmp : Compression}
    (hmem : cmp ∈ pushedCompressions cw) : Genuine cmp := by
  rcases pushed_cases hmem with rfl | ⟨left,right,rfl | rfl⟩
  · rfl
  · rfl
  · rfl

include hchunk h in
theorem built_lookups_hold : LookupsHold (builtTrace blake3 w) := by
  intro r _ receive hmem hne
  obtain ⟨cmp,hcmp,htuple⟩ := built_receives_sent hchunk h hmem hne
  refine ⟨cmp.blockWords,cmp.cvWords,cmp.counter,cmp.blockLen,cmp.flags,?_⟩
  rw [htuple]
  exact congrArg (fun c => (lookupBytes c).map byteVal) (pushed_genuine hcmp)

end Rows

/-- The trace built for an accepted witness satisfies every constraint exactly
when the tree has a level above its leaves, or the committed root is zero. -/
theorem membership_air_complete_iff {blake3 : Bytes → Hash} (hchunk : SingleChunk blake3)
    (c : OmegaCommitment) (witnessIndex : ℕ) (w : MembershipWitness) (cw : CheckedWitness)
    (hok : validateWitness blake3 c witnessIndex w = .ok cw)
    (publicInputs : List ClaimPublicInputs) (position : ℕ)
    (hposition : publicInputs[position]? = some w.publicInput) (compressions : List Compression) :
    Satisfies (buildMembershipTrace cw none compressions).1
        (fieldValues ((proofPublicValues blake3 c publicInputs).getD position [])) ↔
      w.publicInput.treeDepth ≠ 0 ∨ w.publicInput.perSubTreeRoot = zeroHash := by
  obtain ⟨rfl,i,h⟩ := validateWitness_ok hok
  have hvalues : (proofPublicValues blake3 c publicInputs).getD position [] =
      publicValueRow (bindingWords blake3 c publicInputs) w.publicInput := by
    rw [proofPublicValues,List.getD_eq_getElem?_getD,List.getElem?_map,hposition]
    rfl
  have hdepth : w.merklePath ≠ [] ↔ w.publicInput.treeDepth ≠ 0 := by
    rw [← List.length_pos_iff,h.path,ne_eq,← UInt8.toNat_inj,Nat.pos_iff_ne_zero]
    rfl
  rw [hvalues,← hdepth]
  exact built_satisfies_iff hchunk h (bindingWords blake3 c publicInputs)

/-- The prover's witness for one sorted payload of a sub-tree. -/
def itemWitness (blake3 : Bytes → Hash) (c : OmegaCommitment) (i : Fin 7) (payloads : List Bytes)
    (j : ℕ) : MembershipWitness where
  publicInput := slotInput c i (UInt64.ofNat j)
  leafPayload := (sortPayloads payloads)[j]!
  merklePath := (slotOpening blake3 i payloads (UInt64.ofNat j) (sortPayloads payloads)[j]!).siblings

/-- Every committed payload which fits in a block has an accepted witness. -/
theorem itemWitness_accepted {blake3 : Bytes → Hash} {c : OmegaCommitment} {i : Fin 7}
    {payloads : List Bytes} {t : MerkleTree} (h : HonestSubTree blake3 c i payloads t) {j : ℕ}
    (hj : j < payloads.length) (hlen : (sortPayloads payloads)[j]!.length ≤ 34) :
    Accepted blake3 c i (itemWitness blake3 c i payloads j) := by
  have hlt := h.count_lt
  have hslot : (UInt64.ofNat j).toNat % 2^depthOf payloads.length = j := by
    have hwidth := count_le_width payloads.length
    rw [UInt64.toNat_ofNat',Nat.mod_eq_of_lt (by omega),Nat.mod_eq_of_lt (by omega)]
  have hleaf : leafHashV2 blake3 (subTreeIdOf i) (UInt64.ofNat j) (sortPayloads payloads)[j]! =
      (leafRow blake3 (subTreeIdOf i) payloads)[(UInt64.ofNat j).toNat %
        2^depthOf payloads.length]! := by
    rw [hslot,leafRow_payload blake3 _ payloads hj]
  have hopens := slotOpening_opens h hlen hleaf
  have hchecked := slotInput_checked h (UInt64.ofNat j)
  exact ⟨hlen,hchecked.bundleRoot,hchecked.subTree,canonical_lt_count h hj,hchecked.depth,
    hchecked.root,hopens.depth,hopens.walk⟩

/-- Two payloads in every sub-tree: one level of nodes. -/
def pairCommitment : OmegaCommitment := commitmentOver singleChunkHash fun _ => [[1],[2]]

/-- One payload in every sub-tree: no level of nodes. -/
def soleCommitment : OmegaCommitment := commitmentOver singleChunkHash fun _ => [[1]]

theorem pair_accepted :
    Accepted singleChunkHash pairCommitment 0 (itemWitness singleChunkHash pairCommitment 0 [[1],[2]] 0) :=
  itemWitness_accepted (commitmentOver_honest singleChunkHash (fun _ => [[1],[2]]) 0 (by decide)
    (by decide)) (by decide) (by decide)

theorem sole_accepted :
    Accepted singleChunkHash soleCommitment 0 (itemWitness singleChunkHash soleCommitment 0 [[1]] 0) :=
  itemWitness_accepted (commitmentOver_honest singleChunkHash (fun _ => [[1]]) 0 (by decide)
    (by decide)) (by decide) (by decide)

theorem singleChunk_self : SingleChunk singleChunkHash := fun _ _ => rfl

/-- The first payload of the pair is proved with a satisfied trace. -/
theorem pair_trace_satisfied :
    Satisfies
      (buildMembershipTrace
        (checkedWitness singleChunkHash (itemWitness singleChunkHash pairCommitment 0 [[1],[2]] 0)) none
        []).1
      (fieldValues ((proofPublicValues singleChunkHash pairCommitment
        [slotInput pairCommitment 0 0]).getD 0 [])) := by
  refine (membership_air_complete_iff singleChunk_self pairCommitment 0 _ _
    (validateWitness_accepted pair_accepted 0) [slotInput pairCommitment 0 0] 0 rfl []).mpr (Or.inl ?_)
  intro hzero
  have hpath := pair_accepted.path
  rw [hzero] at hpath
  exact absurd hpath (by decide)

/-- The only payload of a sub-tree is accepted and has no satisfied trace. -/
theorem sole_trace_unsatisfied :
    validateWitness singleChunkHash soleCommitment 0
        (itemWitness singleChunkHash soleCommitment 0 [[1]] 0) =
      .ok (checkedWitness singleChunkHash (itemWitness singleChunkHash soleCommitment 0 [[1]] 0)) ∧
    ¬Satisfies
      (buildMembershipTrace
        (checkedWitness singleChunkHash (itemWitness singleChunkHash soleCommitment 0 [[1]] 0)) none []).1
      (fieldValues ((proofPublicValues singleChunkHash soleCommitment
        [slotInput soleCommitment 0 0]).getD 0 [])) := by
  refine ⟨validateWitness_accepted sole_accepted 0,fun hsat => ?_⟩
  rcases (built_satisfies_iff singleChunk_self sole_accepted (bindingWords singleChunkHash
    soleCommitment [slotInput soleCommitment 0 0])).mp hsat with hpath | hzero
  · exact hpath rfl
  · have hleaf : (leafHashV2 singleChunkHash (subTreeIdOf 0) 0 [1])[0] ≠ 0 := by decide +kernel
    have hroot : leafHashV2 singleChunkHash (subTreeIdOf 0) 0 [1] = zeroHash :=
      sole_accepted.walk.trans hzero
    rw [hroot] at hleaf
    exact hleaf (by decide)

/-- The pair's trace is one from which an opening is extracted. -/
theorem pair_opening_extracted :
    ∃ o, Opens singleChunkHash (slotInput pairCommitment 0 0) o :=
  membership_air_sound singleChunk_self
    (builtTrace singleChunkHash (itemWitness singleChunkHash pairCommitment 0 [[1],[2]] 0))
    ⟨3,by decide⟩ (by decide) [] (slotInput pairCommitment 0 0)
    ((built_satisfies_iff singleChunk_self pair_accepted []).mpr (Or.inl (by decide)))
    (built_lookups_hold singleChunk_self pair_accepted)

end OmegaHarness.AirCompleteness
