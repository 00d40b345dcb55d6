import OmegaHarness.MerkleTreeV1
import OmegaHarness.Blake3Compression

/-!
# What a root binds

Two successful builds with one root were given the same sub-tree and the same
payloads in some order, or two of the strings which they hashed have one digest. The
deeper tree is cut at the height of the other, so that rows of one width are compared.
A row of leaves which equals a row of nodes gives a leaf string and a node string with
one digest, and equal leaf rows are compared slot by slot: the tag, the sub-tree, the
index and the payload all stand in the string, and no payload has the sentinel's index.
-/
namespace OmegaHarness.RootBinding
open FiniteCollisions DomainHashes LayeredTree MerkleTreeV1 Blake3Compression

section Slots
variable (blake3 : Bytes → Hash) (subTreeId : UInt8)

/-- The string hashed for one slot of the padded row. -/
def slotPreimage (payloads : List Bytes) (slot : ℕ) : Bytes :=
  if slot < payloads.length then
    leafPreimage subTreeId (UInt64.ofNat slot) (sortPayloads payloads)[slot]!
  else leafPreimage subTreeId emptyIndexSentinel []

theorem slotPreimage_mem (payloads : List Bytes) (slot : ℕ) :
    slotPreimage subTreeId payloads slot ∈ buildPreimages blake3 subTreeId payloads := by
  unfold slotPreimage
  split
  · next h => exact buildPreimages_payload blake3 subTreeId payloads h
  · exact buildPreimages_padding blake3 subTreeId payloads

theorem leafRow_slot (payloads : List Bytes) {slot : ℕ} (h : slot < 2^depthOf payloads.length) :
    (leafRow blake3 subTreeId payloads)[slot]! = blake3 (slotPreimage subTreeId payloads slot) := by
  unfold slotPreimage
  split
  · next hitem => exact leafRow_payload blake3 subTreeId payloads hitem
  · next hitem => exact leafRow_padding blake3 subTreeId payloads (by omega) h

end Slots

theorem ofNat_ne_sentinel {j : ℕ} (h : j < 2^64-1) : UInt64.ofNat j ≠ emptyIndexSentinel := by
  intro heq
  have hval := congrArg UInt64.toNat heq
  rw [UInt64.toNat_ofNat',emptyIndexSentinel_toNat] at hval
  omega

section Binding
variable {blake3 : Bytes → Hash} {s t : UInt8} {P Q : List Bytes}

theorem slotPreimage_subTree {slot : ℕ} (h : slotPreimage s P slot = slotPreimage t Q slot) :
    s = t := by
  unfold slotPreimage at h
  split at h <;> split at h <;> exact (leafPreimage_inj h).1

/-- A payload slot is a payload slot of the other tree, with the same payload. -/
theorem slotPreimage_payload {slot : ℕ} (hcount : P.length < 2^64-1) (hslot : slot < P.length)
    (h : slotPreimage s P slot = slotPreimage t Q slot) :
    slot < Q.length ∧ (sortPayloads P)[slot]! = (sortPayloads Q)[slot]! := by
  unfold slotPreimage at h
  rw [if_pos hslot] at h
  split at h
  · next hitem => exact ⟨hitem,(leafPreimage_inj h).2.2⟩
  · exact absurd (leafPreimage_inj h).2.1 (ofNat_ne_sentinel (hslot.trans hcount))

/-- Equal slots hold equal lists. -/
theorem sorted_of_slots (hP : P.length < 2^64-1) (hQ : Q.length < 2^64-1)
    (hdepth : depthOf P.length = depthOf Q.length)
    (h : ∀ slot < 2^depthOf P.length, slotPreimage s P slot = slotPreimage t Q slot) :
    sortPayloads P = sortPayloads Q := by
  have hcountP := count_le_width P.length
  have hcountQ := count_le_width Q.length
  rw [← hdepth] at hcountQ
  have hle : P.length ≤ Q.length := by
    by_contra hlt
    have hslot : Q.length < P.length := by omega
    exact lt_irrefl _ (slotPreimage_payload hP hslot (h _ (by omega))).1
  have hge : Q.length ≤ P.length := by
    by_contra hlt
    have hslot : P.length < Q.length := by omega
    exact lt_irrefl _ (slotPreimage_payload hQ hslot (h _ (by omega)).symm).1
  apply List.ext_getElem
  · rw [sortPayloads_length,sortPayloads_length]
    omega
  · intro j hj hj'
    rw [sortPayloads_length] at hj
    have hpayload := (slotPreimage_payload hP hj (h j (by omega))).2
    rwa [getElem!_pos _ j (by simpa using hj),getElem!_pos _ j hj'] at hpayload

theorem slots_of_rows (hdepth : depthOf P.length = depthOf Q.length)
    (h : leafRow blake3 s P = leafRow blake3 t Q) :
    (∀ slot < 2^depthOf P.length, slotPreimage s P slot = slotPreimage t Q slot) ∨
      Collision blake3 (buildPreimages blake3 s P) (buildPreimages blake3 t Q) := by
  by_cases hall : ∀ slot < 2^depthOf P.length, slotPreimage s P slot = slotPreimage t Q slot
  · exact Or.inl hall
  · push Not at hall
    rcases hall with ⟨slot,hslot,hne⟩
    right
    refine ⟨_,slotPreimage_mem blake3 s P slot,_,slotPreimage_mem blake3 t Q slot,hne,?_⟩
    rw [← leafRow_slot blake3 s P hslot,h,leafRow_slot blake3 t Q (by rwa [← hdepth])]

/-- Colliding nodes are colliding strings of the two builds. -/
theorem collision_of_pairs {d : ℕ} {row : List Hash}
    (hrow : treePairs (nodeHashV2 blake3) d row ⊆
      treePairs (nodeHashV2 blake3) (depthOf Q.length) (leafRow blake3 t Q))
    (h : Collision (nodeOf (nodeHashV2 blake3))
      (treePairs (nodeHashV2 blake3) (depthOf P.length) (leafRow blake3 s P))
      (treePairs (nodeHashV2 blake3) d row)) :
    Collision blake3 (buildPreimages blake3 s P) (buildPreimages blake3 t Q) := by
  have hmap : Collision blake3 _ _ := Collision.map pairPreimage_injective h
  apply hmap.mono
  · intro x hx
    rcases List.mem_map.mp hx with ⟨p,hp,rfl⟩
    exact buildPreimages_node blake3 s P hp
  · intro x hx
    rcases List.mem_map.mp hx with ⟨p,hp,rfl⟩
    exact buildPreimages_node blake3 t Q (hrow hp)

/-- The root of a tree is no root of a deeper one: the leaves of the shallow tree would
be nodes of the other. -/
theorem deeper_tree_collides {k : ℕ} (hdepth : depthOf Q.length = k+1+depthOf P.length)
    (h : rootAt (nodeHashV2 blake3) (depthOf P.length) (leafRow blake3 s P) =
      rootAt (nodeHashV2 blake3) (depthOf Q.length) (leafRow blake3 t Q)) :
    Collision blake3 (buildPreimages blake3 s P) (buildPreimages blake3 t Q) := by
  have hlength := leafRow_length blake3 t Q
  rw [hdepth] at hlength
  rw [hdepth,rootAt_layerAt] at h
  have hcut := layerAt_length (nodeHashV2 blake3) hlength
  have hpairs := treePairs_layerAt (nodeHashV2 blake3) (k+1) (depthOf P.length) (leafRow blake3 t Q)
  rw [← hdepth] at hpairs
  rcases rows_eq_or_collision _ (leafRow_length blake3 s P) hcut h with hrows | hcol
  · have hslot : 0 < 2^depthOf P.length := Nat.two_pow_pos _
    have hmem : (leafRow blake3 s P)[0]! ∈ layerAt (nodeHashV2 blake3) (k+1) (leafRow blake3 t Q) := by
      rw [hrows,getElem!_pos _ 0 (by omega)]
      exact List.getElem_mem _
    rcases mem_layerAt_succ _ (depthOf P.length) hmem with ⟨p,hp,himage⟩
    rw [← hdepth] at hp
    refine ⟨_,slotPreimage_mem blake3 s P 0,_,buildPreimages_node blake3 t Q hp,?_,?_⟩
    · unfold slotPreimage
      split <;> exact leafPreimage_ne_nodePreimage _ _ _ _ _
    · rw [← leafRow_slot blake3 s P hslot]
      exact himage.symm
  · exact collision_of_pairs hpairs hcol

theorem depths_eq_or_collision
    (h : rootAt (nodeHashV2 blake3) (depthOf P.length) (leafRow blake3 s P) =
      rootAt (nodeHashV2 blake3) (depthOf Q.length) (leafRow blake3 t Q)) :
    depthOf P.length = depthOf Q.length ∨
      Collision blake3 (buildPreimages blake3 s P) (buildPreimages blake3 t Q) := by
  rcases lt_trichotomy (depthOf P.length) (depthOf Q.length) with hlt | heq | hgt
  · exact Or.inr (deeper_tree_collides
      (k := depthOf Q.length-depthOf P.length-1) (by omega) h)
  · exact Or.inl heq
  · exact Or.inr (deeper_tree_collides
      (k := depthOf P.length-depthOf Q.length-1) (by omega) h.symm).symm

theorem rootAt_binds (hP : P.length < 2^64-1) (hQ : Q.length < 2^64-1)
    (h : rootAt (nodeHashV2 blake3) (depthOf P.length) (leafRow blake3 s P) =
      rootAt (nodeHashV2 blake3) (depthOf Q.length) (leafRow blake3 t Q)) :
    (s = t ∧ P.Perm Q) ∨
      Collision blake3 (buildPreimages blake3 s P) (buildPreimages blake3 t Q) := by
  rcases depths_eq_or_collision h with hdepth | hcol
  · have hlength := leafRow_length blake3 t Q
    rw [← hdepth] at h hlength
    rcases rows_eq_or_collision _ (leafRow_length blake3 s P) hlength h with hrows | hcol
    · rcases slots_of_rows hdepth hrows with hslots | hcol
      · have hsorted := sorted_of_slots hP hQ hdepth hslots
        have hperm : P.Perm (sortPayloads Q) := hsorted ▸ (sortPayloads_perm P).symm
        exact Or.inl ⟨slotPreimage_subTree (hslots 0 (Nat.two_pow_pos _)),
          hperm.trans (sortPayloads_perm Q)⟩
      · exact Or.inr hcol
    · refine Or.inr (collision_of_pairs ?_ hcol)
      rw [hdepth]
      exact List.Subset.refl _
  · exact Or.inr hcol

/-- Equal roots were built for one sub-tree from the same payloads in some order, or two
of the hashed strings collide. -/
theorem roots_bind_payloads {tree tree' : MerkleTree} (hP : P.length < 2^64-1)
    (hQ : Q.length < 2^64-1) (hbuilt : buildV1 blake3 s P = .ok tree)
    (hbuilt' : buildV1 blake3 t Q = .ok tree') (hroot : tree.root = tree'.root) :
    (s = t ∧ P.Perm Q) ∨
      Collision blake3 (buildPreimages blake3 s P) (buildPreimages blake3 t Q) := by
  rw [buildV1_root blake3 s hbuilt,buildV1_root blake3 t hbuilt'] at hroot
  exact rootAt_binds hP hQ hroot

end Binding

/-- The order of the payloads does not matter to the builder. -/
theorem pair_roots_bind :
    ∃ tree, buildV1 singleChunkHash 1 [[1],[2]] = .ok tree ∧
      buildV1 singleChunkHash 1 [[2],[1]] = .ok tree ∧
      (((1 : UInt8) = 1 ∧ [[1],[2]].Perm [[2],[(1 : UInt8)]]) ∨
        Collision singleChunkHash (buildPreimages singleChunkHash 1 [[1],[2]])
          (buildPreimages singleChunkHash 1 [[2],[1]])) := by
  have hbuilt := @buildV1_of_nodup singleChunkHash 1 [[1],[2]] (by decide)
  have hsorted : sortPayloads [[2],[1]] = sortPayloads [[1],[2]] := by decide
  have hbuilt' := hbuilt
  rw [buildV1,← hsorted] at hbuilt'
  exact ⟨_,hbuilt,hbuilt',
    roots_bind_payloads (by decide) (by decide) hbuilt hbuilt' rfl⟩

end OmegaHarness.RootBinding
