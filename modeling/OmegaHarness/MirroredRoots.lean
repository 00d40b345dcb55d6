import OmegaHarness.BundleAssembly

/-!
# The second root mirrors the first

A bundle carries two roots of each sub-tree. The second is meant to differ in its node hash
only, so that a difference in anything else would be seen. It is computed by a loop of its
own, which keeps one level where the builder keeps all of them. Here both are written over
an arbitrary node hash, and the two loops end in the same root.
-/
namespace OmegaHarness.MirroredRoots
open BundleAssembly DomainHashes LayeredTree MerkleTreeV1

section
variable (blake3 sha3 : Bytes → Hash) (node : Hash → Hash → Hash) (subTreeId : UInt8)
  (payloads : List Bytes)

/-- The builder of the sub-tree with its node hash replaced. -/
def buildWith : Except BuildError MerkleTree :=
  let sorted := sortPayloads payloads
  match firstEqualWindow sorted with
  | some duplicate =>
      .error (.duplicateLeafPayload subTreeId ((sorted.findIdx? (· = duplicate)).getD 0))
  | none =>
      let layers := growLayers node
        (padLeaves blake3 subTreeId (payloadLeaves blake3 subTreeId sorted))
      .ok ⟨layers[0]!,layers⟩

/-- The second root with its node hash replaced. -/
def rootWith : Hash :=
  collapse node (padLeaves blake3 subTreeId (payloadLeaves blake3 subTreeId (sortPayloads payloads)))

theorem buildWith_nodeHashV2 :
    buildWith blake3 (nodeHashV2 blake3) subTreeId payloads = buildV1 blake3 subTreeId payloads :=
  rfl

theorem rootWith_sha3 :
    rootWith blake3 (fun left right => sha3 (left.toList++right.toList)) subTreeId payloads =
      sha3RootOfV1 blake3 sha3 subTreeId payloads := rfl

end

theorem getLast_growLayers {node : Hash → Hash → Hash} {row : List Hash} (h : 1 < row.length) :
    (growLayers node row).getLast! = (growLayers node (nextLayer node row)).getLast! := by
  have hne : growLayers node (nextLayer node row) ≠ [] := by
    rw [growLayers]
    split <;> simp
  rw [growLayers,if_pos h]
  obtain ⟨layer,layers,hlayers⟩ := List.exists_cons_of_ne_nil hne
  rw [hlayers]
  rfl

/-- Overwriting the level or pushing the next one, the loops end in the same element,
whatever the width of the row. -/
theorem collapse_eq_growLayers (node : Hash → Hash → Hash) (row : List Hash) :
    collapse node row = ((growLayers node row).getLast!)[0]! := by
  fun_induction collapse node row with
  | case1 row h ih => rw [getLast_growLayers h,ih]
  | case2 row h =>
      rw [growLayers,if_neg h]
      rfl

/-- Over payloads without a duplicate the builder succeeds, and its root is the second root
under the same node hash. The builder of the source and its second root are the two at
their own node hashes. -/
theorem sha3_root_mirrors_build (blake3 sha3 : Bytes → Hash) (subTreeId : UInt8)
    {payloads : List Bytes} (h : payloads.Nodup) :
    (∀ node, ∃ tree, buildWith blake3 node subTreeId payloads = .ok tree ∧
      rootWith blake3 node subTreeId payloads = tree.root) ∧
    buildWith blake3 (nodeHashV2 blake3) subTreeId payloads = buildV1 blake3 subTreeId payloads ∧
    rootWith blake3 (fun left right => sha3 (left.toList++right.toList)) subTreeId payloads =
      sha3RootOfV1 blake3 sha3 subTreeId payloads := by
  refine ⟨?_,buildWith_nodeHashV2 blake3 subTreeId payloads,
    rootWith_sha3 blake3 sha3 subTreeId payloads⟩
  intro node
  have hsorted : (sortPayloads payloads).Nodup := (sortPayloads_perm payloads).nodup_iff.mpr h
  have hbuilt : buildWith blake3 node subTreeId payloads =
      .ok ⟨(growLayers node (leafRow blake3 subTreeId payloads))[0]!,
        growLayers node (leafRow blake3 subTreeId payloads)⟩ := by
    rw [buildWith]
    dsimp only
    rw [firstEqualWindow_none hsorted]
    rfl
  exact ⟨_,hbuilt,collapse_eq_growLayers node (leafRow blake3 subTreeId payloads)⟩

theorem three_payloads_mirrored :
    ∃ tree, buildWith (fun _ => zeroHash) (fun left _ => left) 1 [[3],[1],[2]] = .ok tree ∧
      rootWith (fun _ => zeroHash) (fun left _ => left) 1 [[3],[1],[2]] = tree.root :=
  (sha3_root_mirrors_build (fun _ => zeroHash) (fun _ => zeroHash) 1 (by decide)).1 _

end OmegaHarness.MirroredRoots
