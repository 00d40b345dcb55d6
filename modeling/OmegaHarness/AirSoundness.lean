import OmegaHarness.LookupHashes
import OmegaHarness.MembershipRelation

/-!
# Soundness of the membership AIR

Any trace which satisfies the constraints and whose lookups are answered by real
compressions contains an opening of the public root. The trace is arbitrary, so
the rows are pinned one after the other: a first row is forced, every real row
which is not the last step forces the next row, and the step counter, which
cannot wrap below the field's size, fixes how many rows there are.
-/
namespace OmegaHarness.AirSoundness
open FixedWidthBytes DomainHashes LayeredTree MerkleTreeV1 ClaimTypes ProofPublicValues
open BabyBearField Blake3Compression MembershipAir LookupHashes MembershipRelation

/-- A number from its bits, and the bits from the number. -/
theorem testBit_sum (f : ℕ → Bool) (n : ℕ) :
    ∑ b ∈ Finset.range n, (f b).toNat*2^b < 2^n ∧
      ∀ k < n, (∑ b ∈ Finset.range n, (f b).toNat*2^b).testBit k = f k := by
  induction n with
  | zero => simp
  | succ n ih =>
      rw [Finset.sum_range_succ,Nat.add_comm,Nat.mul_comm]
      have hbit := Bool.toNat_lt (f n)
      refine ⟨?_,?_⟩
      · have hle : 2^n*(f n).toNat ≤ 2^n*1 := Nat.mul_le_mul_left _ (by omega)
        have hsum := ih.1
        rw [pow_succ]
        omega
      · intro k hk
        rw [Nat.testBit_two_pow_mul_add _ ih.1]
        by_cases hlt : k < n
        · rw [if_pos hlt,ih.2 k hlt]
        · rw [if_neg hlt,show k = n by omega,Nat.sub_self]
          cases f n <;> rfl

/-- Eight bit cells packed into a byte are the bits of that byte. -/
theorem packed_bits {f : ℕ → Val} {v : ℕ} (hv : v < 256) (hbits : ∀ b < 8, Bit (f b))
    (hsum : ∑ b ∈ Finset.range 8, f b*(2^b : Val) = (v : Val)) :
    ∀ b < 8, f b = boolVal (v.testBit b) := by
  have hcell : ∀ b < 8, f b = boolVal (decide (f b = 1)) := by
    intro b hb
    rcases hbits b hb with h | h <;> simp [h,boolVal]
  obtain ⟨hlt,htest⟩ := testBit_sum (fun b => decide (f b = 1)) 8
  have hcast : ((∑ b ∈ Finset.range 8, (decide (f b = 1)).toNat*2^b : ℕ) : Val) = (v : Val) := by
    rw [← hsum,Nat.cast_sum]
    apply Finset.sum_congr rfl
    intro b hb
    rcases hbits b (Finset.mem_range.mp hb) with h | h <;> simp [h]
  have heq := natCast_inj (by unfold babyBearPrime; omega) (by unfold babyBearPrime; omega) hcast
  intro b hb
  rw [hcell b hb,← heq,htest b hb]

/-- The remaining-index cells hold the bits of a number. -/
def IndexBits (row : Row) (n : ℕ) : Prop :=
  ∀ k < 64, row (colRemainingIndexBits+k) = boolVal (n.testBit k)

/-- Byte `k` of an index, counted from the low end of its big-endian string. -/
theorem toBeBytes_low (i : UInt64) {k : ℕ} (h : k < 8) :
    byteVal ((toBeBytes i).getD (7-k) 0) = ((i.toNat/256^k % 256 : ℕ) : Val) := by
  rw [toBeBytes,List.getD_eq_getElem?_getD,beBytes_get _ _ _ (by omega),Option.getD_some,byteVal,
    toNat_ofNat_byte,show 8-1-(7-k) = k by omega]

theorem testBit_byte (n : ℕ) {k b : ℕ} (hb : b < 8) :
    (n/256^k % 256).testBit b = n.testBit (k*8+b) := by
  rw [show (256 : ℕ) = 2^8 by norm_num,← pow_mul,Nat.testBit_mod_two_pow,Nat.testBit_div_two_pow]
  simp [hb,Nat.add_comm,Nat.mul_comm]

/-- The packing constraints of a first row put the public index into its bits. -/
theorem first_indexBits {w : Window} {i : UInt64} (hrow : RowHolds w)
    (hfirst : w.current colIsFirstStep = 1)
    (hpub : ∀ k < 8, w.publicValues (publicLeafIndexOffset+k) =
      byteVal ((toBeBytes i).getD k 0)) : IndexBits w.current i.toNat := by
  obtain ⟨hreal,hpacked⟩ := hrow.indexBits hfirst
  intro k hk
  have hbyte : k/8 < 8 := by omega
  have hbits : ∀ b < 8, Bit (w.current (colRemainingIndexBits+k/8*8+b)) := by
    intro b hb
    rw [Nat.add_assoc]
    exact (hrow.inputs hreal).bits _ (by omega)
  have hsum := hpacked (k/8) hbyte
  rw [show publicLeafIndexOffset+leafIndexLen-1-k/8 = publicLeafIndexOffset+(7-k/8) by
    change 1+8-1-k/8 = 1+(7-k/8); omega,hpub _ (by omega),toBeBytes_low i hbyte] at hsum
  have hcell := packed_bits (Nat.mod_lt _ (by omega)) hbits hsum (k % 8) (Nat.mod_lt _ (by omega))
  rw [testBit_byte _ (Nat.mod_lt _ (by omega)),Nat.div_add_mod',Nat.add_assoc,Nat.div_add_mod'] at hcell
  exact hcell

/-- Shifting the cells by one halves the number. -/
theorem next_indexBits {w : Window} (h : ContinueHolds w) {n : ℕ} (hn : n < 2^64)
    (hbits : IndexBits w.current n) : IndexBits w.next (n/2) := by
  intro k hk
  by_cases hlt : k < 63
  · rw [h.shift k hlt,Nat.add_assoc,hbits (k+1) (by omega),Nat.testBit_div_two]
  · have hzero : (n/2).testBit k = false := by
      apply Nat.testBit_lt_two_pow
      have hk63 : k = 63 := by omega
      rw [hk63]
      omega
    rw [show k = 63 by omega,h.top,← show k = 63 by omega,hzero]
    rfl

section Rows
variable {blake3 : Bytes → Hash} {t : Trace} {publicValues : ℕ → Val}
  (hrows : ∀ r < t.height, RowHolds (t.window publicValues r))

theorem window_next {r : ℕ} (h : r+1 < t.height) :
    (t.window publicValues r).next = t.row (r+1) := by
  rw [Trace.window,Nat.mod_eq_of_lt h]

theorem window_transition {r : ℕ} (h : r+1 < t.height) :
    (t.window publicValues r).isTransition ≠ 0 := by
  simp [Trace.window,show r+1 ≠ t.height by omega]

include hrows in
/-- Up to the first row flagged as the last step, every row is real and carries
its own number. -/
theorem rows_real (r : ℕ) (hr : r < t.height) (hbefore : ∀ q < r, t.row q colIsLastStep = 0) :
    t.row r colIsRealStep = 1 ∧ t.row r colPathStepIndex = (r : Val) := by
  induction r with
  | zero =>
      have hstart := (hrows 0 hr).start one_ne_zero
      exact ⟨hstart.1,by rw [Nat.cast_zero]; exact hstart.2.2⟩
  | succ r ih =>
      obtain ⟨hreal,hstep⟩ := ih (by omega) fun q hq => hbefore q (by omega)
      have hnext := (hrows r (by omega)).nextContinue (window_transition hr) hreal
        (hbefore r (by omega))
      have hnextReal := hnext.real
      have hnextStep := hnext.step
      rw [window_next hr] at hnextReal hnextStep
      refine ⟨hnextReal,?_⟩
      rw [hnextStep,Nat.cast_add,Nat.cast_one]
      exact congrArg (·+1) hstep

include hrows in
/-- Some row is flagged, because the last one cannot be real without the flag. -/
theorem exists_last_step (hpos : 0 < t.height) :
    ∃ k < t.height, t.row k colIsLastStep = 1 ∧ ∀ q < k, t.row q colIsLastStep = 0 := by
  have hbit : ∀ q < t.height, t.row q colIsLastStep ≠ 1 → t.row q colIsLastStep = 0 :=
    fun q hq hne => ((hrows q hq).last).resolve_right hne
  have hex : ∃ k, k < t.height ∧ t.row k colIsLastStep = 1 := by
    by_contra hnone
    push Not at hnone
    have hend : t.height-1+1 = t.height := by omega
    have hlt : t.height-1 < t.height := by omega
    have hreal := rows_real hrows (t.height-1) hlt fun q hq =>
      hbit q (by omega) (hnone q (by omega))
    apply hnone (t.height-1) hlt
    refine (hrows _ hlt).ending ?_ hreal.1
    rw [Trace.window,if_pos hend]
    exact one_ne_zero
  refine ⟨Nat.find hex,(Nat.find_spec hex).1,(Nat.find_spec hex).2,?_⟩
  intro q hq
  have hheight := (Nat.find_spec hex).1
  apply hbit q (by omega)
  intro hone
  exact Nat.find_min hex hq ⟨by omega,hone⟩

/-- The direction of a node row is the parity of the number in its bits. -/
theorem direction_parity {w : Window} {n : ℕ} (hrow : RowHolds w)
    (hnode : w.current colHasNodeHash = 1) (hbits : IndexBits w.current n) :
    w.current colDirectionBit = if n % 2 = 0 then 0 else 1 := by
  have hlow := hbits 0 (by omega)
  rw [Nat.add_zero] at hlow
  rw [hrow.lowBit hnode,hlow,Nat.testBit_zero,boolVal]
  by_cases hpar : n % 2 = 0
  · simp [hpar]
  · simp [show n % 2 = 1 by omega]

/-- One node row: its current node is the hash of the previous node and some
sibling, in the order of the index's next bit. -/
theorem node_row (hchunk : SingleChunk blake3) {w : Window} (hrow : RowHolds w)
    (hfirst : CompressionTuple (nodeFirstLookupCells w.current))
    (hsecond : CompressionTuple (nodeSecondLookupCells w.current))
    (hnode : w.current colHasNodeHash = 1) {h : Hash} (hprev : HashAt w.current colPrevNode h)
    {n : ℕ} (hbits : IndexBits w.current n) :
    ∃ sibling, HashAt w.current colCurrentNode
      (nodeOf (nodeHashV2 blake3) (orderedPair n h sibling)) := by
  obtain ⟨left,right,hleft,hright,hcurrent⟩ := node_tuples hchunk hfirst hsecond
  have hdir := direction_parity hrow hnode hbits
  by_cases hpar : n % 2 = 0
  · rw [if_pos hpar] at hdir
    have heq := hleft.unique (hprev.congr fun k hk => (hrow.leftChild hnode hdir k hk).1)
    refine ⟨right,?_⟩
    rw [orderedPair,if_pos hpar,← heq]
    exact hcurrent
  · rw [if_neg hpar] at hdir
    have heq := hright.unique (hprev.congr fun k hk => (hrow.rightChild hnode hdir k hk).2)
    refine ⟨left,?_⟩
    rw [orderedPair,if_neg hpar,← heq]
    exact hcurrent

/-- What holds at a real row after `siblings.length` node steps. -/
structure Climb (blake3 : Bytes → Hash) (row : Row) (leaf : Hash) (index : ℕ)
    (siblings : List Hash) : Prop where
  prev : HashAt row colPrevNode (walk (nodeHashV2 blake3) leaf index siblings)
  bits : IndexBits row (index/2^siblings.length)

theorem node_receives (hlookups : LookupsHold t) {r : ℕ} (hr : r < t.height)
    (hreal : t.row r colIsRealStep = 1) (hnode : t.row r colHasNodeHash = 1) :
    CompressionTuple (nodeFirstLookupCells (t.row r)) ∧
      CompressionTuple (nodeSecondLookupCells (t.row r)) := by
  have hactive : t.row r colIsRealStep*t.row r colHasNodeHash ≠ 0 := by
    rw [hreal,hnode,mul_one]
    exact one_ne_zero
  exact ⟨hlookups r hr (nodeFirstLookupCells (t.row r),_) (by simp [receives]) hactive,
    hlookups r hr (nodeSecondLookupCells (t.row r),_) (by simp [receives]) hactive⟩

include hrows in
/-- The node of one row of the climb. -/
theorem climb_node (hchunk : SingleChunk blake3) (hlookups : LookupsHold t) {r : ℕ}
    (hr : r < t.height) (hreal : t.row r colIsRealStep = 1) (hnode : t.row r colHasNodeHash = 1)
    {leaf : Hash} {index : ℕ} {siblings : List Hash}
    (h : Climb blake3 (t.row r) leaf index siblings) :
    ∃ sibling, HashAt (t.row r) colCurrentNode
      (walk (nodeHashV2 blake3) leaf index (siblings++[sibling])) := by
  obtain ⟨hfirst,hsecond⟩ := node_receives hlookups hr hreal hnode
  obtain ⟨sibling,hcurrent⟩ := node_row hchunk (hrows r hr) hfirst hsecond hnode h.prev h.bits
  refine ⟨sibling,?_⟩
  rw [walk_concat]
  exact hcurrent

include hrows in
/-- From one row of the climb to the next. -/
theorem climb_step (hchunk : SingleChunk blake3) (hlookups : LookupsHold t) {r : ℕ}
    (hr : r+1 < t.height) (hreal : t.row r colIsRealStep = 1) (hlast : t.row r colIsLastStep = 0)
    (hnode : t.row r colHasNodeHash = 1) {leaf : Hash} {index : ℕ} (hindex : index < 2^64)
    {siblings : List Hash} (h : Climb blake3 (t.row r) leaf index siblings) :
    ∃ sibling, Climb blake3 (t.row (r+1)) leaf index (siblings++[sibling]) := by
  obtain ⟨sibling,hcurrent⟩ := climb_node hrows hchunk hlookups (by omega) hreal hnode h
  have hnext := (hrows r (by omega)).nextContinue (window_transition hr) hreal hlast
  have hprev := hnext.prev
  have hbits := next_indexBits hnext (lt_of_le_of_lt (Nat.div_le_self _ _) hindex) h.bits
  rw [window_next hr] at hprev hbits
  refine ⟨sibling,hcurrent.congr hprev,?_⟩
  rw [List.length_append,List.length_singleton,pow_succ,← Nat.div_div_eq_div_mul]
  exact hbits

include hrows in
/-- The climb through a run of node rows. -/
theorem climb_rows (hchunk : SingleChunk blake3) (hlookups : LookupsHold t) {k : ℕ}
    (hk : k < t.height) (hbefore : ∀ q < k, t.row q colIsLastStep = 0)
    (hnodes : ∀ q < k, t.row q colHasNodeHash = 1) {leaf : Hash} {index : ℕ}
    (hindex : index < 2^64) (hstart : Climb blake3 (t.row 0) leaf index []) :
    ∃ siblings, siblings.length = k ∧ Climb blake3 (t.row k) leaf index siblings := by
  induction k with
  | zero => exact ⟨[],rfl,hstart⟩
  | succ k ih =>
      obtain ⟨siblings,hlen,hclimb⟩ := ih (by omega) (fun q hq => hbefore q (by omega))
        fun q hq => hnodes q (by omega)
      have hreal := (rows_real hrows k (by omega) fun q hq => hbefore q (by omega)).1
      obtain ⟨sibling,hnext⟩ := climb_step hrows hchunk hlookups hk hreal (hbefore k (by omega))
        (hnodes k (by omega)) hindex hclimb
      exact ⟨siblings++[sibling],by simp [hlen],hnext⟩

end Rows

section Sound
variable {blake3 : Bytes → Hash} {t : Trace} {binding : List UInt32} {p : ClaimPublicInputs}
  (hrows : ∀ r < t.height, RowHolds (t.window (fieldValues (publicValueRow binding p)) r))

include hrows in
/-- The first row hashes some payload of at most 34 bytes. -/
theorem climb_start (hchunk : SingleChunk blake3) (hlookups : LookupsHold t)
    (hpos : 0 < t.height) :
    ∃ payload : Bytes, payload.length ≤ 34 ∧
      Climb blake3 (t.row 0) (leafHashV2 blake3 p.subTreeId p.leafIndex payload)
        p.leafIndex.toNat [] := by
  have hrow := hrows 0 hpos
  obtain ⟨hreal,hfirst,-⟩ := hrow.start one_ne_zero
  have hinputs := hrow.inputs hreal
  have htuple : CompressionTuple (leafLookupCells (t.row 0)) := by
    refine hlookups 0 hpos _ List.mem_cons_self ?_
    exact fun hzero => one_ne_zero (hfirst.symm.trans hzero)
  have hindex : ∀ k < 8, t.row 0 (colLeafIndexBe+k) =
      byteVal ((toBeBytes p.leafIndex).getD k 0) := by
    intro k hk
    exact (hinputs.index k hk).trans (fieldValues_index binding p hk)
  obtain ⟨payload,hcells⟩ := leaf_cells_of_tuple
    (hinputs.subTree.trans (fieldValues_subTree binding p)) hindex hinputs.selector htuple
  refine ⟨payload,hcells.small,leaf_tuple hchunk hcells htuple,?_⟩
  rw [List.length_nil,pow_zero,Nat.div_one]
  exact first_indexBits hrow hfirst fun k hk => fieldValues_index binding p hk

include hrows in
/-- A real row without a node names the depth zero. -/
theorem depth_zero_of_noNode {q : ℕ} (hq : q < t.height) (hreal : t.row q colIsRealStep = 1)
    (hnone : t.row q colHasNodeHash = 0) : p.treeDepth.toNat = 0 := by
  have hbyte := p.treeDepth.toNat_lt
  have hprime : babyBearPrime = 2013265921 := rfl
  have hcell : t.row q colTreeDepth = (p.treeDepth.toNat : Val) :=
    ((hrows q hq).inputs hreal).depth.trans (fieldValues_depth binding p)
  have hzero : t.row q colTreeDepth = 0 := ((hrows q hq).noNode hreal hnone).1
  rw [hcell,← Nat.cast_zero] at hzero
  exact natCast_inj (by omega) (by omega) hzero

include hrows in
/-- The last step's counter and node flag add up to the public depth. -/
theorem last_step_depth (hheight : t.height < babyBearPrime) {k : ℕ} (hk : k < t.height)
    (hlast : t.row k colIsLastStep = 1) (hbefore : ∀ q < k, t.row q colIsLastStep = 0) :
    (t.row k colHasNodeHash = 0 ∧ k = 0 ∧ p.treeDepth.toNat = 0) ∨
      (t.row k colHasNodeHash = 1 ∧ k+1 = p.treeDepth.toNat) := by
  have hrow := hrows k hk
  obtain ⟨hreal,hstep⟩ := rows_real hrows k hk hbefore
  have hdepth : t.row k colTreeDepth = (p.treeDepth.toNat : Val) :=
    (hrow.inputs hreal).depth.trans (fieldValues_depth binding p)
  have hbyte := p.treeDepth.toNat_lt
  have hprime : babyBearPrime = 2013265921 := rfl
  have hsum : t.row k colPathStepIndex+t.row k colHasNodeHash = t.row k colTreeDepth :=
    (hrow.stop hreal hlast).1
  rw [hstep,hdepth] at hsum
  have hnode : Bit (t.row k colHasNodeHash) := hrow.hasNode
  rcases hnode with hnode | hnode
  · left
    have hdepth0 := depth_zero_of_noNode hrows hk hreal hnode
    rw [hnode,add_zero] at hsum
    have hk0 := natCast_inj (by omega) (by omega) hsum
    exact ⟨hnode,by omega,hdepth0⟩
  · right
    rw [hnode,← Nat.cast_one,← Nat.cast_add] at hsum
    exact ⟨hnode,natCast_inj (by omega) (by omega) hsum⟩

end Sound

/-- A satisfied trace with answered lookups opens the public root. -/
theorem membership_air_sound {blake3 : Bytes → Hash} (hchunk : SingleChunk blake3) (t : Trace)
    (hpow : ∃ n, t.height = 2^n) (hheight : t.height < babyBearPrime) (binding : List UInt32)
    (p : ClaimPublicInputs) (hsat : Satisfies t (fieldValues (publicValueRow binding p)))
    (hlookups : LookupsHold t) : ∃ o, Opens blake3 p o := by
  have hrows := (satisfies_iff t _).mp hsat
  have hpos : 0 < t.height := by
    obtain ⟨n,hn⟩ := hpow
    rw [hn]
    exact Nat.two_pow_pos n
  obtain ⟨k,hk,hlast,hbefore⟩ := exists_last_step hrows hpos
  obtain ⟨payload,hpayload,hstart⟩ := climb_start hrows hchunk hlookups hpos
  have hreal := (rows_real hrows k hk hbefore).1
  have hroot : HashAt (t.row k) colCurrentNode p.perSubTreeRoot := by
    refine hashAt_iff.mpr fun j hj => ?_
    exact ((hrows k hk).stop hreal hlast).2 j hj |>.trans (fieldValues_root binding p hj)
  rcases last_step_depth hrows hheight hk hlast hbefore with ⟨hnone,rfl,hdepth⟩ | ⟨hnode,hdepth⟩
  · have hcurrent := hstart.prev.congr fun j hj => (((hrows 0 hk).noNode hreal hnone).2 j hj).1
    refine ⟨⟨payload,[]⟩,hpayload,hdepth.symm,?_⟩
    exact hcurrent.unique hroot
  · -- a depth above zero leaves no row without a node
    have hnodes : ∀ q < k, t.row q colHasNodeHash = 1 := by
      intro q hq
      have hrealq := (rows_real hrows q (by omega) fun j hj => hbefore j (by omega)).1
      rcases (hrows q (by omega)).hasNode with hzero | hone
      · have hdepth0 := depth_zero_of_noNode hrows (by omega) hrealq hzero
        omega
      · exact hone
    obtain ⟨siblings,hlen,hclimb⟩ :=
      climb_rows hrows hchunk hlookups hk hbefore hnodes p.leafIndex.toNat_lt hstart
    obtain ⟨sibling,hcurrent⟩ := climb_node hrows hchunk hlookups hk hreal hnode hclimb
    refine ⟨⟨payload,siblings++[sibling]⟩,hpayload,?_,?_⟩
    · simp [hlen,hdepth]
    · rw [walkV1Path_eq_walk]
      exact hcurrent.unique hroot

end OmegaHarness.AirSoundness
