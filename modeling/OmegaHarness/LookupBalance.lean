import OmegaHarness.CollectionProver
import OmegaHarness.Blake3Trace

/-!
# The lookups of honest traces balance

Membership rows receive tuples and hash rows send them, each with a multiplicity from
its own cells. For accepted witnesses both sides are the multiset of the compressions
which the membership traces push: a first row receives its leaf, a row with a sibling
the two blocks of its node, and every row of the hash trace up to the last compression
sends exactly once. The padding of either side counts for nothing.
-/
namespace OmegaHarness.LookupBalance
open FallibleSteps DomainHashes ClaimTypes BabyBearField Blake3Compression MembershipAir
open MembershipTrace AirCompleteness CollectionProver Blake3Trace

section Counting

/-- Tuples with multiplicities as a multiset. A field element counts as its least
natural representative. -/
def counted (tuples : List (List Val × Val)) : Multiset (List Val) :=
  (tuples.map fun t => Multiset.replicate t.2.val t.1).sum

theorem counted_of_zero {tuples : List (List Val × Val)} (h : ∀ t ∈ tuples, t.2 = 0) :
    counted tuples = 0 := by
  apply List.sum_eq_zero
  intro m hm
  obtain ⟨t,ht,rfl⟩ := List.mem_map.mp hm
  rw [h t ht,ZMod.val_zero,Multiset.replicate_zero]

theorem boolVal_val (b : Bool) : (boolVal b).val = b.toNat := by
  cases b with
  | false => exact ZMod.val_zero
  | true => exact ZMod.val_one _

/-- A sum over numbered rows, of which the first belong to the members of a list and
the others vanish. -/
theorem sum_rows {X M : Type} [AddCommMonoid M] {xs : List X} {height : ℕ} (h : xs.length ≤ height)
    {f : ℕ → M} {g : X → M} (hin : ∀ r x, xs[r]? = some x → f r = g x)
    (hout : ∀ r, xs.length ≤ r → f r = 0) :
    ((List.range height).map f).sum = (xs.map g).sum := by
  obtain ⟨padding,rfl⟩ := Nat.exists_eq_add_of_le h
  have hreal : (List.range xs.length).map f = xs.map g := by
    apply List.ext_getElem
    · simp
    · intro r hr hr'
      have hlt : r < xs.length := by simpa using hr
      rw [List.getElem_map,List.getElem_map,List.getElem_range]
      exact hin r _ (List.getElem?_eq_getElem hlt)
  have hzero : (((List.range padding).map (xs.length+·)).map f).sum = 0 := by
    apply List.sum_eq_zero
    intro m hm
    simp only [List.map_map,List.mem_map] at hm
    obtain ⟨r,-,rfl⟩ := hm
    exact hout _ (Nat.le_add_right _ _)
  rw [List.range_add,List.map_append,List.sum_append,hreal,hzero,add_zero]

theorem sum_first {M : Type} [AddCommMonoid M] (a : M) {n : ℕ} (h : 0 < n) :
    ((List.range n).map fun r => if r = 0 then a else 0).sum = a := by
  obtain ⟨rest,rfl⟩ := Nat.exists_eq_add_of_le' h
  simp [List.range_succ_eq_map,Function.comp_def]

theorem coe_flatMap {X Y : Type} (xs : List X) (f : X → List Y) :
    ((xs.flatMap f : List Y) : Multiset Y) = (xs.map fun x => (f x : Multiset Y)).sum := by
  induction xs with
  | nil => rfl
  | cons x xs ih =>
      rw [List.flatMap_cons,List.map_cons,List.sum_cons,← ih]
      rfl

end Counting

/-- What all rows of a membership trace receive. -/
def receivedBy (t : Trace) : Multiset (List Val) :=
  ((List.range t.height).map fun r => counted (receives (t.row r))).sum

/-- What all rows of a hash trace send. -/
def sentBy (t : Trace) : Multiset (List Val) :=
  ((List.range t.height).map fun r => counted (sends (t.row r))).sum

def lookupTuple (c : Compression) : List Val := (lookupBytes c).map byteVal

/-- A compression whose row sends its tuple: it starts or ends a chunk. -/
def Sending (c : Compression) : Prop :=
  Genuine c ∧ (c.flags.toNat.testBit 0 || c.flags.toNat.testBit 1) = true

theorem sentBy_eq {compressions : List Compression} (h : ∀ c ∈ compressions, Sending c) :
    sentBy (buildBlake3Trace compressions) = (compressions.map lookupTuple : List (List Val)) := by
  have hin : ∀ r c, compressions[r]? = some c →
      counted (sends ((buildBlake3Trace compressions).row r)) = ([lookupTuple c] : List (List Val)) := by
    intro r c hc
    obtain ⟨hgenuine,hflag⟩ := h c (List.mem_of_getElem? hc)
    rw [hash_row_real hc,filled_sends hgenuine,hflag]
    rfl
  have hout : ∀ r, compressions.length ≤ r →
      counted (sends ((buildBlake3Trace compressions).row r)) = 0 := by
    intro r hr
    exact counted_of_zero fun send hmem => hash_row_padding hr hmem
  rw [sentBy,sum_rows compressions_le_height hin hout,← coe_flatMap,List.map_eq_flatMap]

theorem pushed_sending {cw : CheckedWitness} {c : Compression} (hmem : c ∈ pushedCompressions cw) :
    Sending c := by
  refine ⟨pushed_genuine hmem,?_⟩
  rcases pushed_cases hmem with rfl | ⟨left,right,rfl | rfl⟩
  · change (leafFlags.toNat.testBit 0 || leafFlags.toNat.testBit 1) = true
    decide
  · change (nodeFirstFlags.toNat.testBit 0 || nodeFirstFlags.toNat.testBit 1) = true
    decide
  · change (nodeSecondFlags.toNat.testBit 0 || nodeSecondFlags.toNat.testBit 1) = true
    decide

section Received
variable {blake3 : Bytes → Hash} (hchunk : SingleChunk blake3) {c : OmegaCommitment} {i : Fin 7}
  {w : MembershipWitness} (h : Accepted blake3 c i w)

include hchunk h in
/-- The leaf lookup is active on the first row only. -/
theorem leaf_received {r : ℕ} (hr : r < realRows w) :
    Multiset.replicate ((builtTrace blake3 w).row r colIsFirstStep).val
        (leafLookupCells ((builtTrace blake3 w).row r)) =
      if r = 0 then {lookupTuple (leafCompression w.publicInput.subTreeId w.publicInput.leafIndex
        w.leafPayload)} else 0 := by
  have hstep : (pathStep blake3 (checkedWitness blake3 w) r).step = r := rfl
  rw [(real_row_filled hchunk h hr).first,boolVal_val,hstep]
  by_cases hr0 : r = 0
  · subst hr0
    rw [if_pos rfl,built_leaf_sent hchunk h]
    rfl
  · rw [if_neg hr0,beq_false_of_ne hr0]
    rfl

include hchunk h in
/-- The node lookups are active on the rows with a sibling. -/
theorem node_received {r : ℕ} (hr : r < realRows w) :
    Multiset.replicate ((builtTrace blake3 w).row r colIsRealStep*
        (builtTrace blake3 w).row r colHasNodeHash).val
        (nodeFirstLookupCells ((builtTrace blake3 w).row r))+
      Multiset.replicate ((builtTrace blake3 w).row r colIsRealStep*
        (builtTrace blake3 w).row r colHasNodeHash).val
        (nodeSecondLookupCells ((builtTrace blake3 w).row r)) =
      ((stepCompressions (pathStep blake3 (checkedWitness blake3 w) r)).map lookupTuple :
        List (List Val)) := by
  have hfilled := real_row_filled hchunk h hr
  rw [hfilled.real,one_mul,hfilled.hasNode,boolVal_val]
  by_cases hpath : 0 < w.merklePath.length
  · have hnode : (pathStep blake3 (checkedWitness blake3 w) r).hasNode = true :=
      decide_eq_true hpath
    obtain ⟨hfirst,hsecond⟩ := built_node_sent hchunk h hr hpath
    rw [hfirst,hsecond,stepCompressions,if_pos hnode,hnode]
    rfl
  · have hnode : (pathStep blake3 (checkedWitness blake3 w) r).hasNode = false :=
      decide_eq_false hpath
    rw [stepCompressions,hnode]
    rfl

include hchunk h in
/-- A real row receives its leaf on the first step, and the compressions of its step. -/
theorem row_received {r : ℕ} (hr : r < realRows w) :
    counted (receives ((builtTrace blake3 w).row r)) =
      (if r = 0 then {lookupTuple (leafCompression w.publicInput.subTreeId w.publicInput.leafIndex
        w.leafPayload)} else 0)+
      ((stepCompressions (pathStep blake3 (checkedWitness blake3 w) r)).map lookupTuple :
        List (List Val)) := by
  simp only [counted,receives,List.map_cons,List.map_nil,List.sum_cons,List.sum_nil,add_zero]
  rw [leaf_received hchunk h hr,node_received hchunk h hr]

include hchunk in
theorem pathSteps_eq (cw : CheckedWitness) :
    pathSteps cw = (List.range (max cw.merklePath.length 1)).map (pathStep blake3 cw) := by
  apply List.ext_getElem?
  intro k
  by_cases hk : k < max cw.merklePath.length 1
  · rw [pathSteps_get hchunk hk,List.getElem?_map,List.getElem?_range hk]
    rfl
  · have hlen : (pathSteps cw).length = max cw.merklePath.length 1 := traceSteps_length _ _ _ _ _
    rw [List.getElem?_eq_none (by omega),List.getElem?_eq_none (by rw [List.length_map,List.length_range]; omega)]

include hchunk h in
/-- A built trace receives exactly the compressions which were pushed beside it. -/
theorem trace_received :
    receivedBy (builtTrace blake3 w) =
      ((pushedCompressions (checkedWitness blake3 w)).map lookupTuple : List (List Val)) := by
  have hreal : ∀ r x, (List.range (realRows w))[r]? = some x →
      counted (receives ((builtTrace blake3 w).row r)) =
        (if x = 0 then {lookupTuple (leafCompression w.publicInput.subTreeId w.publicInput.leafIndex
          w.leafPayload)} else 0)+
        ((stepCompressions (pathStep blake3 (checkedWitness blake3 w) x)).map lookupTuple :
          List (List Val)) := by
    intro r x hx
    obtain ⟨hr,rfl⟩ := List.getElem?_eq_some_iff.mp hx
    rw [List.getElem_range]
    exact row_received hchunk h (by simpa using hr)
  have hpadding : ∀ r, (List.range (realRows w)).length ≤ r →
      counted (receives ((builtTrace blake3 w).row r)) = 0 := by
    intro r hr
    rw [List.length_range] at hr
    exact counted_of_zero fun receive hmem => padding_receives hr hmem
  have hsteps : (((List.range (realRows w)).flatMap fun r =>
      (stepCompressions (pathStep blake3 (checkedWitness blake3 w) r)).map lookupTuple) :
        List (List Val)) =
      ((pathSteps (checkedWitness blake3 w)).flatMap stepCompressions).map lookupTuple := by
    rw [pathSteps_eq hchunk,List.flatMap_map,List.map_flatMap]
    rfl
  rw [receivedBy,sum_rows (by simpa using realRows_le_height) hreal hpadding,List.sum_map_add,
    sum_first _ realRows_pos,← coe_flatMap,hsteps]
  rfl

end Received

section Batch
variable {blake3 : Bytes → Hash}

/-- Without tampering the traces stand beside each other, and so do their compressions. -/
theorem buildTraces_none (compressions : List Compression) (checked : List CheckedWitness) :
    buildTraces none compressions checked =
      (checked.map untamperedTrace,compressions++checked.flatMap pushedCompressions) := by
  induction checked generalizing compressions with
  | nil => simp [buildTraces]
  | cons cw rest ih =>
      rw [buildTraces,ih]
      simp [buildMembershipTrace,pushedCompressions]

theorem checked_accepted {c : OmegaCommitment} {witnesses : List MembershipWitness} {checked : List CheckedWitness}
    (h : validateWitnesses blake3 c witnesses = .ok checked) {cw : CheckedWitness}
    (hmem : cw ∈ checked) : ∃ i w, Accepted blake3 c i w ∧ cw = checkedWitness blake3 w := by
  obtain ⟨w,-,hw⟩ := mapM_image_ok h hmem
  obtain ⟨hcw,i,hi⟩ := validateWitness_ok hw
  exact ⟨i,w.1,hi,hcw⟩

/-- Accepted witnesses, however many and however deep, leave the lookups balanced: the
membership rows receive the multiset which the hash rows send. No row behind the steps
of its path receives anything, and no row behind the last compression sends anything. -/
theorem honest_lookups_balance (hchunk : SingleChunk blake3) (c : OmegaCommitment)
    (witnesses : List MembershipWitness) (checked : List CheckedWitness)
    (hok : validateWitnesses blake3 c witnesses = .ok checked) :
    ((buildTraces none [] checked).1.map receivedBy).sum =
        sentBy (buildBlake3Trace (buildTraces none [] checked).2) ∧
      (∀ (k : ℕ) (cw : CheckedWitness) (t : Trace), checked[k]? = some cw →
        (buildTraces none [] checked).1[k]? = some t → ∀ r, max cw.merklePath.length 1 ≤ r →
          ∀ receive ∈ receives (t.row r), receive.2 = 0) ∧
      ∀ r, (buildTraces none [] checked).2.length ≤ r →
        ∀ send ∈ sends ((buildBlake3Trace (buildTraces none [] checked).2).row r), send.2 = 0 := by
  rw [buildTraces_none]
  dsimp only
  rw [List.nil_append]
  refine ⟨?_,?_,?_⟩
  · have hsending : ∀ cmp ∈ checked.flatMap pushedCompressions, Sending cmp := by
      intro cmp hmem
      obtain ⟨cw,-,hcw⟩ := List.mem_flatMap.mp hmem
      exact pushed_sending hcw
    rw [sentBy_eq hsending,List.map_flatMap,coe_flatMap,List.map_map]
    refine congrArg List.sum (List.map_congr_left ?_)
    intro cw hcw
    obtain ⟨i,w,hi,rfl⟩ := checked_accepted hok hcw
    exact trace_received hchunk hi
  · intro k cw t hcw ht r hr receive hmem
    obtain ⟨i,w,-,rfl⟩ := checked_accepted hok (List.mem_of_getElem? hcw)
    rw [List.getElem?_map,hcw] at ht
    cases ht
    exact padding_receives hr hmem
  · intro r hr send hmem
    exact hash_row_padding hr hmem

/-- One witness given twice: each of its tuples is received and sent twice. -/
theorem repeated_witness_balances :
    ∃ checked,
      validateWitnesses singleChunkHash pairCommitment [pairWitness,pairWitness] = .ok checked ∧
      checked.length = 2 ∧
      ((buildTraces none [] checked).1.map receivedBy).sum =
        sentBy (buildBlake3Trace (buildTraces none [] checked).2) := by
  have hok : validateWitnesses singleChunkHash pairCommitment [pairWitness,pairWitness] =
      .ok [checkedWitness singleChunkHash pairWitness,checkedWitness singleChunkHash pairWitness] := by
    apply mapM_ok.mpr
    exact List.Forall₂.cons (validateWitness_accepted pair_accepted 0)
      (List.Forall₂.cons (validateWitness_accepted pair_accepted 1) List.Forall₂.nil)
  exact ⟨_,hok,rfl,(honest_lookups_balance singleChunk_self pairCommitment _ _ hok).1⟩

end Batch

end OmegaHarness.LookupBalance
