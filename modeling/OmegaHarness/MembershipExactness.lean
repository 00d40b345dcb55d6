import OmegaHarness.MembershipTrace

/-!
# Which openings a root accepts

An opening of a payload slot consists of the slot's payload and of the neighbours of
the shifted index in the layers of the tree, which is what the builder of inclusion
witnesses reads. The climb over it ends in the root, and a climb over anything else
which ends in the root hashes two strings with one digest. A witness which passes the
prover's checks against an honest entry is therefore the opening of its claimed index.
-/
namespace OmegaHarness.MembershipExactness
open FiniteCollisions DomainHashes LayeredTree MerkleTreeV1 ClaimTypes MembershipTrace
open Blake3Compression

structure InclusionWitness where
  leaf : Hash
  leafIndex : UInt32
  siblings : List Hash
  deriving DecidableEq, Repr

/-- The loop over the layers below the root: the index is halved at each of them. -/
def readSiblings : ℕ → List (List Hash) → List Hash
  | _,[] => []
  | idx,layer::rest => layer[idx ^^^ 1]!::readSiblings (idx/2) rest

def buildAtIndex (tree : MerkleTree) (leafIndex : UInt32) : Option InclusionWitness := do
  let leaf ← tree.leaves[leafIndex.toNat]?
  return ⟨leaf,leafIndex,readSiblings leafIndex.toNat (tree.layers.take tree.depth)⟩

/-- The payload of a slot, with the neighbours of its path. -/
def OpensSlot (tree : MerkleTree) (payloads : List Bytes) (i : ℕ) (payload : Bytes)
    (siblings : List Hash) : Prop :=
  payload = (sortPayloads payloads)[i]! ∧
    ∀ k < tree.depth, siblings[k]! = (tree.layers[k]!)[(i >>> k) ^^^ 1]!

@[simp] theorem readSiblings_length (idx : ℕ) (layers : List (List Hash)) :
    (readSiblings idx layers).length = layers.length := by
  induction layers generalizing idx with
  | nil => rfl
  | cons layer rest ih => rw [readSiblings,List.length_cons,ih,List.length_cons]

theorem readSiblings_get {layers : List (List Hash)} {k : ℕ} (h : k < layers.length) (idx : ℕ) :
    (readSiblings idx layers)[k]! = (layers[k]!)[(idx >>> k) ^^^ 1]! := by
  induction layers generalizing k idx with
  | nil => exact (Nat.not_lt_zero k h).elim
  | cons layer rest ih =>
      cases k with
      | zero => rfl
      | succ k =>
          rw [readSiblings,List.getElem!_cons_succ,List.getElem!_cons_succ,
            ih (Nat.lt_of_succ_lt_succ h),Nat.shiftRight_succ_inside]

section Opening
variable {blake3 : Bytes → Hash} {s : UInt8} {P : List Bytes} {tree : MerkleTree}

theorem slot_mod {i : ℕ} (h : i < P.length) : i % 2^depthOf P.length = i :=
  Nat.mod_eq_of_lt (h.trans_le (count_le_width P.length))

theorem buildV1_layer (h : buildV1 blake3 s P = .ok tree) {k : ℕ} (hk : k < tree.depth) :
    tree.layers[k]! = layerAt (nodeHashV2 blake3) k (leafRow blake3 s P) := by
  rw [buildV1_depth blake3 s h] at hk
  rw [(buildV1_ok blake3 s h).2]
  exact growLayers_get _ (leafRow_length blake3 s P) hk.le

/-- The neighbours read from the layers are the siblings of the path. -/
theorem siblingsAt_eq (h : buildV1 blake3 s P = .ok tree) {i : ℕ} (hi : i < P.length)
    {siblings : List Hash} (hlength : siblings.length = tree.depth) :
    siblings = siblingsAt (nodeHashV2 blake3) (depthOf P.length) (leafRow blake3 s P) i ↔
      ∀ k < tree.depth, siblings[k]! = (tree.layers[k]!)[(i >>> k) ^^^ 1]! := by
  have hdepth := buildV1_depth blake3 s h
  have hidx : i < 2^depthOf P.length := hi.trans_le (count_le_width P.length)
  have hown : ∀ k < tree.depth, (tree.layers[k]!)[(i >>> k) ^^^ 1]! =
      (siblingsAt (nodeHashV2 blake3) (depthOf P.length) (leafRow blake3 s P) i)[k]! := by
    intro k hk
    rw [buildV1_layer h hk,siblingsAt_get _ _ (hdepth ▸ hk) hidx]
  constructor
  · intro heq k hk
    rw [hown k hk,heq]
  · intro hreads
    apply List.ext_getElem
    · rw [siblingsAt_length,hlength,hdepth]
    · intro k hk hk'
      have hget := (hreads k (hlength ▸ hk)).trans (hown k (hlength ▸ hk))
      rwa [getElem!_pos _ k hk,getElem!_pos _ k hk'] at hget

/-- The climb over an opening of a payload slot ends in the root. -/
theorem walk_of_opensSlot (h : buildV1 blake3 s P = .ok tree) (hcount : P.length < 2^64) {i : ℕ}
    (hi : i < P.length) {payload : Bytes} {siblings : List Hash}
    (hlength : siblings.length = tree.depth) (hopens : OpensSlot tree P i payload siblings) :
    walkV1Path blake3 (leafHashV2 blake3 s (UInt64.ofNat i) payload) (UInt64.ofNat i) siblings =
      tree.root := by
  have hwalk := walk_siblingsAt (nodeHashV2 blake3) (leafRow_length blake3 s P) i
  rw [slot_mod hi,leafRow_payload blake3 s P hi] at hwalk
  rw [walkV1Path_eq_walk,UInt64.toNat_ofNat_of_lt' (hi.trans hcount),buildV1_root blake3 s h,hopens.1,
    (siblingsAt_eq h hi hlength).mpr hopens.2]
  exact hwalk

/-- A climb which ends in the root opens the slot of its index, or two hashed strings
collide. -/
theorem opensSlot_of_walk (h : buildV1 blake3 s P = .ok tree) (hcount : P.length < 2^64) {i : ℕ}
    (hi : i < P.length) {payload : Bytes} {siblings : List Hash}
    (hlength : siblings.length = tree.depth)
    (hwalk : walkV1Path blake3 (leafHashV2 blake3 s (UInt64.ofNat i) payload) (UInt64.ofNat i)
      siblings = tree.root) :
    OpensSlot tree P i payload siblings ∨
      Collision blake3 (openingPreimages blake3 s (UInt64.ofNat i) payload siblings)
        (buildPreimages blake3 s P) := by
  rcases opening_pins_slot blake3 h hlength hwalk with hpinned | hcol
  · rw [UInt64.toNat_ofNat_of_lt' (hi.trans hcount),slot_mod hi,leafRow_payload blake3 s P hi]
      at hpinned
    have hown : leafPreimage s (UInt64.ofNat i) payload ∈
        openingPreimages blake3 s (UInt64.ofNat i) payload siblings := List.mem_cons_self
    rcases eq_or_collision hown (buildPreimages_payload blake3 s P hi) hpinned.1 with heq | hcol
    · exact Or.inl ⟨(leafPreimage_inj heq).2.2,(siblingsAt_eq h hi hlength).mp hpinned.2⟩
    · exact Or.inr hcol
  · exact Or.inr hcol

/-- An inclusion witness of a payload slot opens it. -/
theorem buildAtIndex_opensSlot (h : buildV1 blake3 s P = .ok tree) {index : UInt32}
    (hi : index.toNat < P.length) :
    ∃ w, buildAtIndex tree index = some w ∧
      w.leaf = leafHashV2 blake3 s (UInt64.ofNat index.toNat) (sortPayloads P)[index.toNat]! ∧
      w.siblings.length = tree.depth ∧
      OpensSlot tree P index.toNat (sortPayloads P)[index.toNat]! w.siblings := by
  have hwidth := hi.trans_le (count_le_width P.length)
  have hleaves : index.toNat < tree.leaves.length := by
    rw [(buildV1_ok blake3 s h).1,leafRow_length]
    exact hwidth
  have hlayers : (tree.layers.take tree.depth).length = tree.depth := by
    rw [List.length_take,MerkleTree.depth]
    omega
  refine ⟨⟨tree.leaves[index.toNat]!,index,
    readSiblings index.toNat (tree.layers.take tree.depth)⟩,?_,?_,?_,rfl,?_⟩
  · rw [buildAtIndex,List.getElem?_eq_getElem hleaves,getElem!_pos tree.leaves _ hleaves]
    rfl
  · dsimp only
    rw [(buildV1_ok blake3 s h).1,leafRow_payload blake3 s P hi]
  · rw [readSiblings_length,hlayers]
  · intro k hk
    rw [readSiblings_get (hlayers.symm ▸ hk)]
    congr 1
    rw [List.getElem!_eq_getElem?_getD,List.getElem!_eq_getElem?_getD,List.getElem?_take_of_lt hk]

/-- A climb from a payload under the index of a slot ends in the root if the slot is
opened by it, and only then, up to a collision of two hashed strings. An accepted witness
of an honest sub-tree opens the slot it claims. -/
theorem membership_exact (hcount : P.length < 2^64-1) (hbuilt : buildV1 blake3 s P = .ok tree) :
    (∀ (i : ℕ) (payload : Bytes) (siblings : List Hash), i < P.length →
      siblings.length = tree.depth →
        (OpensSlot tree P i payload siblings →
          walkV1Path blake3 (leafHashV2 blake3 s (UInt64.ofNat i) payload) (UInt64.ofNat i)
            siblings = tree.root) ∧
        (walkV1Path blake3 (leafHashV2 blake3 s (UInt64.ofNat i) payload) (UInt64.ofNat i)
            siblings = tree.root →
          OpensSlot tree P i payload siblings ∨
            Collision blake3 (openingPreimages blake3 s (UInt64.ofNat i) payload siblings)
              (buildPreimages blake3 s P))) ∧
    ∀ (c : OmegaCommitment) (j : Fin 7) (n : ℕ) (w : MembershipWitness) (cw : CheckedWitness),
      s = subTreeIdOf j → HonestSubTree blake3 c j P tree → w.publicInput.subTreeId = s →
      validateWitness blake3 c n w = .ok cw →
        cw.leafPayload = w.leafPayload ∧ ∃ i, i < P.length ∧
          w.publicInput.leafIndex = UInt64.ofNat i ∧
          (OpensSlot tree P i w.leafPayload w.merklePath ∨
            Collision blake3 (openingPreimages blake3 s (UInt64.ofNat i) w.leafPayload w.merklePath)
              (buildPreimages blake3 s P)) := by
  have hlt : P.length < 2^64 := by omega
  constructor
  · intro i payload siblings hi hlength
    exact ⟨walk_of_opensSlot hbuilt hlt hi hlength,opensSlot_of_walk hbuilt hlt hi hlength⟩
  · intro c j n w cw hs hhonest hsub hvalid
    rcases validateWitness_ok hvalid with ⟨hcw,j',haccepted⟩
    have hsame : j' = j := subTreeIdOf_inj (haccepted.subTree.symm.trans (hsub.trans hs))
    subst hsame
    have hindex : w.publicInput.leafIndex.toNat < P.length := by
      rw [← hhonest.count]
      exact UInt64.lt_iff_toNat_lt.mp haccepted.index
    have hlength : w.merklePath.length = tree.depth := by
      rw [haccepted.path,haccepted.depth,hhonest.depth]
    have hback : UInt64.ofNat w.publicInput.leafIndex.toNat = w.publicInput.leafIndex :=
      UInt64.ofNat_toNat
    have hwalk := haccepted.walk
    rw [hsub,haccepted.root,hhonest.root,← hback] at hwalk
    exact ⟨by rw [hcw]; rfl,_,hindex,hback.symm,
      opensSlot_of_walk hbuilt hlt hindex hlength hwalk⟩

end Opening

/-- The inclusion witness of the second of three payloads climbs to their root. -/
theorem second_of_three_climbs :
    ∃ tree w, buildV1 singleChunkHash 1 [[1],[2],[3]] = .ok tree ∧ buildAtIndex tree 1 = some w ∧
      walkV1Path singleChunkHash (leafHashV2 singleChunkHash 1 1 [2]) 1 w.siblings = tree.root := by
  have hbuilt := @buildV1_of_nodup singleChunkHash 1 [[1],[2],[3]] (by decide)
  have hindex : (1 : UInt32).toNat < [[1],[2],[(3 : UInt8)]].length := by decide
  rcases buildAtIndex_opensSlot hbuilt hindex with ⟨w,hw,-,hlength,hopens⟩
  have hpayload : (sortPayloads [[1],[2],[3]])[(1 : UInt32).toNat]! = [2] := by decide
  rw [hpayload] at hopens
  exact ⟨_,w,hbuilt,hw,
    ((membership_exact (by decide) hbuilt).1 1 [2] w.siblings hindex hlength).1 hopens⟩

end OmegaHarness.MembershipExactness
