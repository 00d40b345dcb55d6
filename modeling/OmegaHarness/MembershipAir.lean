import Mathlib.Data.List.GetD
import OmegaHarness.ProofPublicValues
import OmegaHarness.BabyBearField
import OmegaHarness.Blake3Compression

/-!
# The membership AIR

The columns, the constraint list and the lookup tuples of the membership trace,
at the offsets the source gives them. A row is read by column number. A constraint
is the value which must vanish; a condition multiplies the constraints under it, as
the filtered builders do. `RowHolds` says in equations what the vanishing of the
whole list means, and both directions of the later arguments start from it.
-/
namespace OmegaHarness.MembershipAir
open FixedWidthBytes DomainHashes ClaimTypes ProofPublicValues BabyBearField Blake3Compression

def maxLeafPayloadLen : ℕ := 34
def leafPayloadLenChoices : ℕ := maxLeafPayloadLen+1
def remainingIndexBits : ℕ := 64

def colSubTreeId : ℕ := 0
def colLeafIndexBe : ℕ := colSubTreeId+1
def colRemainingIndexBits : ℕ := colLeafIndexBe+leafIndexLen
def colPathStepIndex : ℕ := colRemainingIndexBits+remainingIndexBits
def colTreeDepth : ℕ := colPathStepIndex+1
def colPayloadLen : ℕ := colTreeDepth+1
def colPayloadLenSelector : ℕ := colPayloadLen+1
def colPayload : ℕ := colPayloadLenSelector+leafPayloadLenChoices
def colPrevNode : ℕ := colPayload+maxLeafPayloadLen
def colSibling : ℕ := colPrevNode+hashLen
def colLeftNode : ℕ := colSibling+hashLen
def colRightNode : ℕ := colLeftNode+hashLen
def colNodeMid : ℕ := colRightNode+hashLen
def colCurrentNode : ℕ := colNodeMid+hashLen
def colDirectionBit : ℕ := colCurrentNode+hashLen
def colHasNodeHash : ℕ := colDirectionBit+1
def colIsFirstStep : ℕ := colHasNodeHash+1
def colIsRealStep : ℕ := colIsFirstStep+1
def colIsLastStep : ℕ := colIsRealStep+1
def numMembershipCols : ℕ := colIsLastStep+1

/-- One trace row, by column. -/
abbrev Row := ℕ → Val

/-- What the constraints see at one row; the selectors are one on their rows and
zero elsewhere. -/
structure Window where
  current : Row
  next : Row
  publicValues : ℕ → Val
  isFirstRow : Val
  isLastRow : Val
  isTransition : Val

def assertBool (x : Val) : Val := x*(x-1)

/-- The constraints of a filtered builder. -/
def underCondition (condition : Val) (constraints : List Val) : List Val :=
  constraints.map (condition*·)

def assertPayloadLenSelector (row : Row) : List Val :=
  (List.range leafPayloadLenChoices).map (fun choice => assertBool (row (colPayloadLenSelector+choice)))++
    [(∑ choice ∈ Finset.range leafPayloadLenChoices, row (colPayloadLenSelector+choice))-1,
      row colPayloadLen-
        ∑ choice ∈ Finset.range leafPayloadLenChoices, row (colPayloadLenSelector+choice)*(choice : Val)]++
    (List.range maxLeafPayloadLen).map fun index =>
      row (colPayload+index)*∑ choice ∈ Finset.range (index+1), row (colPayloadLenSelector+choice)

def assertRemainingBitsMatchLeafIndex (row : Row) (publicValues : ℕ → Val) : List Val :=
  (List.range leafIndexLen).map fun byteIndex =>
    (∑ bit ∈ Finset.range 8, row (colRemainingIndexBits+byteIndex*8+bit)*(2^bit : Val))-
      publicValues (publicLeafIndexOffset+leafIndexLen-1-byteIndex)

/-- `OmegaMembershipAir::eval`: every asserted value at one row, in source order. -/
def eval (w : Window) : List Val :=
  let real := w.current colIsRealStep
  let firstStep := w.current colIsFirstStep
  let lastStep := w.current colIsLastStep
  let hasNode := w.current colHasNodeHash
  let direction := w.current colDirectionBit
  let continueActive := real*(1-lastStep)
  let stopActive := real*lastStep
  [assertBool real,assertBool lastStep,assertBool firstStep,assertBool hasNode,assertBool direction]++
  underCondition w.isFirstRow [real-1,firstStep-1,w.current colPathStepIndex]++
  underCondition real
    ([w.current colSubTreeId-w.publicValues publicSubTreeIdOffset,
      w.current colTreeDepth-w.publicValues publicTreeDepthOffset]++
    (List.range leafIndexLen).map (fun offset =>
      w.current (colLeafIndexBe+offset)-w.publicValues (publicLeafIndexOffset+offset))++
    assertPayloadLenSelector w.current++
    (List.range remainingIndexBits).map fun bit => assertBool (w.current (colRemainingIndexBits+bit)))++
  underCondition firstStep
    ((real-1)::assertRemainingBitsMatchLeafIndex w.current w.publicValues)++
  underCondition hasNode [direction-w.current colRemainingIndexBits]++
  underCondition (hasNode*(1-direction)) ((List.range hashLen).flatMap fun byte =>
    [w.current (colLeftNode+byte)-w.current (colPrevNode+byte),
      w.current (colRightNode+byte)-w.current (colSibling+byte)])++
  underCondition (hasNode*direction) ((List.range hashLen).flatMap fun byte =>
    [w.current (colLeftNode+byte)-w.current (colSibling+byte),
      w.current (colRightNode+byte)-w.current (colPrevNode+byte)])++
  underCondition (real-hasNode) (w.current colTreeDepth::(List.range hashLen).flatMap fun byte =>
    [w.current (colCurrentNode+byte)-w.current (colPrevNode+byte),w.current (colSibling+byte),
      w.current (colLeftNode+byte),w.current (colRightNode+byte),w.current (colNodeMid+byte)])++
  underCondition stopActive
    ((w.current colPathStepIndex+hasNode-w.current colTreeDepth)::(List.range hashLen).map fun byte =>
      w.current (colCurrentNode+byte)-w.publicValues (publicRootOffset+byte))++
  underCondition w.isTransition
    ([w.next colIsFirstStep]++
    underCondition continueActive [w.next colIsRealStep-1]++
    underCondition stopActive [w.next colIsRealStep]++
    underCondition (1-real) [w.next colIsRealStep]++
    underCondition (1-real) [w.next colIsFirstStep]++
    underCondition continueActive
      ([w.next colPathStepIndex-(w.current colPathStepIndex+1)]++
      (List.range hashLen).map (fun byte =>
        w.next (colPrevNode+byte)-w.current (colCurrentNode+byte))++
      (List.range (remainingIndexBits-1)).map (fun bit =>
        w.next (colRemainingIndexBits+bit)-w.current (colRemainingIndexBits+bit+1))++
      [w.next (colRemainingIndexBits+remainingIndexBits-1)]))++
  underCondition w.isLastRow [real*(1-lastStep)]++
  underCondition (1-real) ((List.range numMembershipCols).map w.current)

/-- A trace: its rows by number, of which the first `height` count. -/
structure Trace where
  height : ℕ
  row : ℕ → Row

/-- The row after the last one is the first. -/
def Trace.window (t : Trace) (publicValues : ℕ → Val) (r : ℕ) : Window where
  current := t.row r
  next := t.row ((r+1) % t.height)
  publicValues := publicValues
  isFirstRow := if r = 0 then 1 else 0
  isLastRow := if r+1 = t.height then 1 else 0
  isTransition := if r+1 = t.height then 0 else 1

/-- Every constraint vanishes at every row. -/
def Satisfies (t : Trace) (publicValues : ℕ → Val) : Prop :=
  ∀ r < t.height, ∀ x ∈ eval (t.window publicValues r), x = 0

/-- A cell holding a bit. -/
def Bit (x : Val) : Prop := x = 0 ∨ x = 1

theorem assertBool_zero {x : Val} : assertBool x = 0 ↔ Bit x := by
  rw [assertBool,mul_eq_zero,sub_eq_zero]
  rfl

theorem underCondition_zero {condition : Val} {constraints : List Val} :
    (∀ x ∈ underCondition condition constraints, x = 0) ↔
      (condition ≠ 0 → ∀ x ∈ constraints, x = 0) := by
  simp only [underCondition,List.forall_mem_map,mul_eq_zero]
  constructor
  · intro h hne x hx
    exact (h x hx).resolve_left hne
  · intro h x hx
    by_cases hzero : condition = 0
    · exact Or.inl hzero
    · exact Or.inr (h hzero x hx)

namespace Bit
variable {a b : Val}

theorem ne_zero (ha : Bit a) : a ≠ 0 ↔ a = 1 := by
  rcases ha with rfl | rfl <;> simp

theorem complement (ha : Bit a) : 1-a ≠ 0 ↔ a = 0 := by
  rcases ha with rfl | rfl <;> simp

theorem both (ha : Bit a) (hb : Bit b) : a*b ≠ 0 ↔ a = 1 ∧ b = 1 := by
  rw [mul_ne_zero_iff,ha.ne_zero,hb.ne_zero]

theorem butNot (ha : Bit a) (hb : Bit b) : a*(1-b) ≠ 0 ↔ a = 1 ∧ b = 0 := by
  rw [mul_ne_zero_iff,ha.ne_zero,hb.complement]

end Bit

/-- The selector group: one choice of the payload length, and no payload byte
beyond it. -/
structure SelectorHolds (row : Row) : Prop where
  bits : ∀ choice < 35, Bit (row (colPayloadLenSelector+choice))
  sum : ∑ choice ∈ Finset.range 35, row (colPayloadLenSelector+choice) = 1
  len : row colPayloadLen =
    ∑ choice ∈ Finset.range 35, row (colPayloadLenSelector+choice)*(choice : Val)
  beyond : ∀ index < 34, row (colPayload+index) = 0 ∨
    ∑ choice ∈ Finset.range (index+1), row (colPayloadLenSelector+choice) = 0

/-- What a real row says about the public values and itself. -/
structure InputsHold (w : Window) : Prop where
  subTree : w.current colSubTreeId = w.publicValues publicSubTreeIdOffset
  depth : w.current colTreeDepth = w.publicValues publicTreeDepthOffset
  index : ∀ k < 8, w.current (colLeafIndexBe+k) = w.publicValues (publicLeafIndexOffset+k)
  selector : SelectorHolds w.current
  bits : ∀ k < 64, Bit (w.current (colRemainingIndexBits+k))

/-- What a real row which is not the last step hands to the next row. -/
structure ContinueHolds (w : Window) : Prop where
  real : w.next colIsRealStep = 1
  step : w.next colPathStepIndex = w.current colPathStepIndex+1
  prev : ∀ k < 32, w.next (colPrevNode+k) = w.current (colCurrentNode+k)
  shift : ∀ k < 63, w.next (colRemainingIndexBits+k) = w.current (colRemainingIndexBits+k+1)
  top : w.next (colRemainingIndexBits+63) = 0

/-- The constraint list as equations between cells. -/
structure RowHolds (w : Window) : Prop where
  real : Bit (w.current colIsRealStep)
  last : Bit (w.current colIsLastStep)
  first : Bit (w.current colIsFirstStep)
  hasNode : Bit (w.current colHasNodeHash)
  direction : Bit (w.current colDirectionBit)
  start : w.isFirstRow ≠ 0 → w.current colIsRealStep = 1 ∧ w.current colIsFirstStep = 1 ∧
    w.current colPathStepIndex = 0
  inputs : w.current colIsRealStep = 1 → InputsHold w
  indexBits : w.current colIsFirstStep = 1 → w.current colIsRealStep = 1 ∧ ∀ k < 8,
    ∑ bit ∈ Finset.range 8, w.current (colRemainingIndexBits+k*8+bit)*(2^bit : Val) =
      w.publicValues (publicLeafIndexOffset+leafIndexLen-1-k)
  lowBit : w.current colHasNodeHash = 1 →
    w.current colDirectionBit = w.current colRemainingIndexBits
  leftChild : w.current colHasNodeHash = 1 → w.current colDirectionBit = 0 → ∀ k < 32,
    w.current (colLeftNode+k) = w.current (colPrevNode+k) ∧
      w.current (colRightNode+k) = w.current (colSibling+k)
  rightChild : w.current colHasNodeHash = 1 → w.current colDirectionBit = 1 → ∀ k < 32,
    w.current (colLeftNode+k) = w.current (colSibling+k) ∧
      w.current (colRightNode+k) = w.current (colPrevNode+k)
  noNode : w.current colIsRealStep = 1 → w.current colHasNodeHash = 0 →
    w.current colTreeDepth = 0 ∧ ∀ k < 32, w.current (colCurrentNode+k) = w.current (colPrevNode+k) ∧
      w.current (colSibling+k) = 0 ∧ w.current (colLeftNode+k) = 0 ∧
      w.current (colRightNode+k) = 0 ∧ w.current (colNodeMid+k) = 0
  stop : w.current colIsRealStep = 1 → w.current colIsLastStep = 1 →
    w.current colPathStepIndex+w.current colHasNodeHash = w.current colTreeDepth ∧
      ∀ k < 32, w.current (colCurrentNode+k) = w.publicValues (publicRootOffset+k)
  nextFirst : w.isTransition ≠ 0 → w.next colIsFirstStep = 0
  nextContinue : w.isTransition ≠ 0 → w.current colIsRealStep = 1 → w.current colIsLastStep = 0 →
    ContinueHolds w
  nextStop : w.isTransition ≠ 0 → w.current colIsRealStep = 1 → w.current colIsLastStep = 1 →
    w.next colIsRealStep = 0
  nextPadding : w.isTransition ≠ 0 → w.current colIsRealStep = 0 → w.next colIsRealStep = 0
  ending : w.isLastRow ≠ 0 → w.current colIsRealStep = 1 → w.current colIsLastStep = 1
  padding : w.current colIsRealStep = 0 → ∀ c < numMembershipCols, w.current c = 0

theorem assertPayloadLenSelector_zero (row : Row) :
    (∀ x ∈ assertPayloadLenSelector row, x = 0) ↔ SelectorHolds row := by
  simp only [assertPayloadLenSelector,List.forall_mem_append,List.forall_mem_map,List.forall_mem_cons,
    List.mem_range,assertBool_zero,sub_eq_zero,mul_eq_zero,List.not_mem_nil,false_imp_iff,
    implies_true,and_true]
  constructor
  · intro h
    exact ⟨h.1.1,h.1.2.1,h.1.2.2,h.2⟩
  · intro h
    exact ⟨⟨h.bits,h.sum,h.len⟩,h.beyond⟩

/-- The difference of the two flags is active on no padding row, where both are zero. -/
theorem RowHolds.real_without_node {w : Window} (h : RowHolds w)
    (hne : w.current colIsRealStep-w.current colHasNodeHash ≠ 0) :
    w.current colIsRealStep = 1 ∧ w.current colHasNodeHash = 0 := by
  rcases h.real with hr | hr
  · rw [hr,h.padding hr colHasNodeHash (by decide),sub_zero] at hne
    exact (hne rfl).elim
  · rcases h.hasNode with hn | hn
    · exact ⟨hr,hn⟩
    · rw [hr,hn,sub_self] at hne
      exact (hne rfl).elim

theorem eval_zero (w : Window) : (∀ x ∈ eval w, x = 0) ↔ RowHolds w := by
  simp only [eval,List.forall_mem_append,underCondition_zero,List.forall_mem_cons,
    List.forall_mem_map,List.forall_mem_flatMap,List.mem_range,assertPayloadLenSelector_zero,
    assertRemainingBitsMatchLeafIndex,assertBool_zero,sub_eq_zero,List.not_mem_nil,false_imp_iff,
    implies_true,and_true]
  constructor
  · intro h
    obtain ⟨⟨⟨⟨⟨⟨⟨⟨⟨⟨⟨⟨hreal,hlast,hfirst,hnode,hdir⟩,hstart⟩,hinputs⟩,hbits⟩,hlow⟩,hleft⟩,hright⟩,
      hnone⟩,hstop⟩,hnext⟩,hend⟩,hpad⟩ := h
    exact
      { real := hreal
        last := hlast
        first := hfirst
        hasNode := hnode
        direction := hdir
        start := hstart
        inputs := fun h1 => by
          obtain ⟨⟨⟨⟨hs,hd⟩,hi⟩,hsel⟩,hb⟩ := hinputs (hreal.ne_zero.mpr h1)
          exact ⟨hs,hd,hi,hsel,hb⟩
        indexBits := fun h1 => hbits (hfirst.ne_zero.mpr h1)
        lowBit := fun h1 => hlow (hnode.ne_zero.mpr h1)
        leftChild := fun h1 h2 => hleft ((hnode.butNot hdir).mpr ⟨h1,h2⟩)
        rightChild := fun h1 h2 => hright ((hnode.both hdir).mpr ⟨h1,h2⟩)
        noNode := fun h1 h2 => hnone (by rw [h1,h2,sub_zero]; exact one_ne_zero)
        stop := fun h1 h2 => hstop ((hreal.both hlast).mpr ⟨h1,h2⟩)
        nextFirst := fun ht => (hnext ht).1.1.1.1.1
        nextContinue := fun ht h1 h2 => by
          have hactive := (hreal.butNot hlast).mpr ⟨h1,h2⟩
          obtain ⟨⟨⟨hstep,hprev⟩,hshift⟩,htop⟩ := (hnext ht).2 hactive
          exact ⟨(hnext ht).1.1.1.1.2 hactive,hstep,hprev,hshift,htop⟩
        nextStop := fun ht h1 h2 => (hnext ht).1.1.1.2 ((hreal.both hlast).mpr ⟨h1,h2⟩)
        nextPadding := fun ht h0 => (hnext ht).1.1.2 (hreal.complement.mpr h0)
        ending := fun ht h1 => by
          have hzero := hend ht
          rw [h1,one_mul,sub_eq_zero] at hzero
          exact hzero.symm
        padding := fun h0 => hpad (hreal.complement.mpr h0) }
  · intro h
    refine ⟨⟨⟨⟨⟨⟨⟨⟨⟨⟨⟨⟨h.real,h.last,h.first,h.hasNode,h.direction⟩,h.start⟩,?_⟩,?_⟩,?_⟩,?_⟩,?_⟩,
      ?_⟩,?_⟩,?_⟩,?_⟩,?_⟩
    · intro h1
      have hi := h.inputs (h.real.ne_zero.mp h1)
      exact ⟨⟨⟨⟨hi.subTree,hi.depth⟩,hi.index⟩,hi.selector⟩,hi.bits⟩
    · intro h1
      exact h.indexBits (h.first.ne_zero.mp h1)
    · intro h1
      exact h.lowBit (h.hasNode.ne_zero.mp h1)
    · intro h1
      obtain ⟨hn,hd⟩ := (h.hasNode.butNot h.direction).mp h1
      exact h.leftChild hn hd
    · intro h1
      obtain ⟨hn,hd⟩ := (h.hasNode.both h.direction).mp h1
      exact h.rightChild hn hd
    · intro h1
      obtain ⟨hr,hn⟩ := h.real_without_node h1
      exact h.noNode hr hn
    · intro h1
      obtain ⟨hr,hl⟩ := (h.real.both h.last).mp h1
      exact h.stop hr hl
    · intro ht
      refine ⟨⟨⟨⟨⟨h.nextFirst ht,?_⟩,?_⟩,?_⟩,?_⟩,?_⟩
      · intro h1
        obtain ⟨hr,hl⟩ := (h.real.butNot h.last).mp h1
        exact (h.nextContinue ht hr hl).real
      · intro h1
        obtain ⟨hr,hl⟩ := (h.real.both h.last).mp h1
        exact h.nextStop ht hr hl
      · intro h1
        exact h.nextPadding ht (h.real.complement.mp h1)
      · intro h1
        exact h.nextFirst ht
      · intro h1
        obtain ⟨hr,hl⟩ := (h.real.butNot h.last).mp h1
        have hc := h.nextContinue ht hr hl
        exact ⟨⟨⟨hc.step,hc.prev⟩,hc.shift⟩,hc.top⟩
    · intro ht
      by_contra h1
      obtain ⟨hr,hl⟩ := (h.real.butNot h.last).mp h1
      have hone := h.ending ht hr
      rw [hl] at hone
      exact zero_ne_one hone
    · intro h1
      exact h.padding (h.real.complement.mp h1)

theorem satisfies_iff (t : Trace) (publicValues : ℕ → Val) :
    Satisfies t publicValues ↔ ∀ r < t.height, RowHolds (t.window publicValues r) := by
  simp only [Satisfies,eval_zero]

def hashCells (row : Row) (offset : ℕ) : List Val := (List.range hashLen).map fun i => row (offset+i)

/-- `const_u32_byte_expr` at its four byte positions. -/
def u32Cells (value : UInt32) : List Val := (leBytes 4 value.toNat).map byteVal

def ivCells : List Val := (wordsBytes iv).map byteVal

def leafLookupCells (row : Row) : List Val :=
  (domainLeaf.map byteVal++row colSubTreeId::
      ((List.range leafIndexLen).map (fun offset => row (colLeafIndexBe+offset))++
        (List.replicate 7 0++row colPayloadLen::
          ((List.range maxLeafPayloadLen).map (fun offset => row (colPayload+offset))++
            List.replicate (64-domainLeaf.length-1-leafIndexLen-8-maxLeafPayloadLen) 0))))++
    (ivCells++(List.replicate 8 0++
      ((((domainLeaf.length+1+leafIndexLen+8 : ℕ) : Val)+row colPayloadLen)::List.replicate 3 0++
        (u32Cells leafFlags++hashCells row colPrevNode))))

def nodeFirstLookupCells (row : Row) : List Val :=
  (domainNode.map byteVal++(hashCells row colLeftNode++
      (List.range (64-domainNode.length-hashLen)).map fun i => row (colRightNode+i)))++
    (ivCells++(List.replicate 8 0++(u32Cells 64++
      (u32Cells nodeFirstFlags++hashCells row colNodeMid))))

def nodeSecondLookupCells (row : Row) : List Val :=
  ((List.range (hashLen-(64-domainNode.length-hashLen))).map
        (fun i => row (colRightNode+(64-domainNode.length-hashLen+i)))++
      List.replicate (64-(domainNode.length+hashLen*2-64)) 0)++
    (hashCells row colNodeMid++(List.replicate 8 0++(u32Cells 13++
      (u32Cells nodeSecondFlags++hashCells row colCurrentNode))))

/-- The tuples one row receives, each with its multiplicity. -/
def receives (row : Row) : List (List Val × Val) :=
  [(leafLookupCells row,row colIsFirstStep),
    (nodeFirstLookupCells row,row colIsRealStep*row colHasNodeHash),
    (nodeSecondLookupCells row,row colIsRealStep*row colHasNodeHash)]

/-- A tuple which the hash AIR can send: the bytes of one compression. -/
def CompressionTuple (tuple : List Val) : Prop :=
  ∃ (block : Vector UInt32 16) (cv : Vector UInt32 8) (counter : UInt64) (len flags : UInt32),
    tuple = (lookupBytes (compression block cv counter len flags)).map byteVal

/-- Every tuple received with a multiplicity is sent by some compression. -/
def LookupsHold (t : Trace) : Prop :=
  ∀ r < t.height, ∀ receive ∈ receives (t.row r), receive.2 ≠ 0 → CompressionTuple receive.1

/-- The public words of one instance as field elements. -/
def fieldValues (words : List UInt32) (k : ℕ) : Val := ((words.getD k 0).toNat : Val)

section PublicWords
variable (binding : List UInt32) (p : ClaimPublicInputs)

theorem fieldValues_subTree :
    fieldValues (publicValueRow binding p) publicSubTreeIdOffset = byteVal p.subTreeId := rfl

theorem fieldValues_index {k : ℕ} (h : k < 8) :
    fieldValues (publicValueRow binding p) (publicLeafIndexOffset+k) =
      byteVal ((toBeBytes p.leafIndex).getD k 0) := by
  have hk : k < ((toBeBytes p.leafIndex).map UInt8.toUInt32).length := by simpa using h
  have hoff : publicLeafIndexOffset+k = k+1 := by
    change 1+k = k+1
    omega
  rw [fieldValues,publicValueRow,hoff,List.getD_cons_succ,List.getD_append _ _ _ _ hk]
  simp [List.getD_eq_getElem?_getD,List.getElem?_eq_getElem (show k < (toBeBytes p.leafIndex).length
    by simpa using h),byteVal]

theorem fieldValues_depth :
    fieldValues (publicValueRow binding p) publicTreeDepthOffset = byteVal p.treeDepth := by
  have hlen : ((toBeBytes p.leafIndex).map UInt8.toUInt32).length = 8 := by simp
  have hoff : publicTreeDepthOffset = 8+1 := rfl
  rw [fieldValues,publicValueRow,hoff,List.getD_cons_succ,List.getD_append_right _ _ _ _ (by omega),
    hlen]
  simp [byteVal]

theorem fieldValues_root {k : ℕ} (h : k < 32) :
    fieldValues (publicValueRow binding p) (publicRootOffset+k) =
      byteVal (p.perSubTreeRoot.toList.getD k 0) := by
  have hlen : ((toBeBytes p.leafIndex).map UInt8.toUInt32).length = 8 := by simp
  have hk : k < (p.perSubTreeRoot.toList.map UInt8.toUInt32).length := by simpa using h
  have hoff : publicRootOffset+k = k+1+8+1 := by
    change 10+k = k+1+8+1
    omega
  rw [fieldValues,publicValueRow,hoff,List.getD_cons_succ,List.getD_append_right _ _ _ _ (by omega),
    hlen,show k+9-8 = k+1 by omega,List.getD_cons_succ,List.getD_append _ _ _ _ hk]
  simp [List.getD_eq_getElem?_getD,List.getElem?_eq_getElem (show k < p.perSubTreeRoot.toList.length
    by simpa using h),byteVal]

end PublicWords

/-- The cells of a hash, from an offset on. -/
def HashAt (row : Row) (offset : ℕ) (h : Hash) : Prop := hashCells row offset = h.toList.map byteVal

theorem bytes_map_inj {xs ys : Bytes} (h : xs.map byteVal = ys.map byteVal) : xs = ys :=
  List.map_injective_iff.mpr (fun _ _ hxy => byteVal_inj hxy) h

theorem HashAt.unique {row : Row} {offset : ℕ} {a b : Hash} (ha : HashAt row offset a)
    (hb : HashAt row offset b) : a = b :=
  Vector.toList_inj.mp (bytes_map_inj (ha.symm.trans hb))

/-- Equal cells are equal hashes. -/
theorem HashAt.congr {row row' : Row} {offset offset' : ℕ} {h : Hash} (hat : HashAt row offset h)
    (heq : ∀ k < 32, row' (offset'+k) = row (offset+k)) : HashAt row' offset' h := by
  rw [HashAt,← hat,hashCells,hashCells]
  apply List.map_congr_left
  intro k hk
  exact heq k (List.mem_range.mp hk)

/-- Cells which hold a byte string, cell by cell. -/
theorem cells_iff {row : Row} {offset width : ℕ} {bytes : Bytes} (hlen : bytes.length = width) :
    (List.range width).map (fun k => row (offset+k)) = bytes.map byteVal ↔
      ∀ k < width, row (offset+k) = byteVal (bytes.getD k 0) := by
  have hbytes : bytes.map byteVal = (List.range width).map fun k => byteVal (bytes.getD k 0) := by
    apply List.ext_getElem
    · simp [hlen]
    · intro k hk hk'
      have hlt : k < bytes.length := by simpa using hk
      simp only [List.getElem_map,List.getElem_range,List.getD_eq_getElem?_getD,
        List.getElem?_eq_getElem hlt,Option.getD_some]
  rw [hbytes,List.map_inj_left]
  simp only [List.mem_range]

theorem hashAt_iff {row : Row} {offset : ℕ} {h : Hash} :
    HashAt row offset h ↔ ∀ k < 32, row (offset+k) = byteVal (h.toList.getD k 0) :=
  cells_iff (hash_length h)

end OmegaHarness.MembershipAir
