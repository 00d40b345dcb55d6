import OmegaHarness.FixedWidthBytes
import OmegaHarness.FiniteCollisions

/-!
# Domain-separated leaf and node hashes

The digest `blake3_256` comes from an outside crate and is the parameter `blake3`
throughout. What this repository decides is the preimage: a tag, the sub-tree,
the canonical index and the payload length in fixed widths, then the payload.
Every statement about equal digests is reduced to equal preimages or to a
collision between two preimages that are written down.
-/
namespace OmegaHarness.DomainHashes
open FixedWidthBytes FiniteCollisions

abbrev Bytes := List UInt8

/-- `[u8; 32]`. -/
abbrev Hash := Vector UInt8 32

def ascii (text : List Char) : Bytes := text.map Char.toUInt8

def domainLeaf : Bytes := ascii ['o','m','e','g','a',':','v','2',':','l','e','a','f']

def domainNode : Bytes := ascii ['o','m','e','g','a',':','v','2',':','n','o','d','e']

/-- `u64::MAX`, the index bound into every padding leaf. -/
def emptyIndexSentinel : UInt64 := UInt64.ofNat (2^64-1)

def zeroHash : Hash := Vector.replicate 32 0

@[simp] theorem domainLeaf_length : domainLeaf.length = 13 := rfl
@[simp] theorem domainNode_length : domainNode.length = 13 := rfl
@[simp] theorem hash_length (h : Hash) : h.toList.length = 32 := by simp

theorem emptyIndexSentinel_toNat : emptyIndexSentinel.toNat = 2^64-1 := by decide

theorem index_lt (i : UInt64) : i.toNat < 256^8 := by
  have h := i.toNat_lt
  norm_num at h ⊢
  exact h

/-- `u64::to_be_bytes`. -/
def toBeBytes (n : UInt64) : Bytes := beBytes 8 n.toNat

@[simp] theorem toBeBytes_length (n : UInt64) : (toBeBytes n).length = 8 := by simp [toBeBytes]

theorem toBeBytes_inj {m n : UInt64} (h : toBeBytes m = toBeBytes n) : m = n :=
  UInt64.toNat_inj.mp (beBytes_inj (index_lt m) (index_lt n) h)

/-- The string `leaf_hash_v2` hashes. The length is cast to `u64` before its
bytes are taken, so only its low eight bytes enter. -/
def leafPreimage (subTreeId : UInt8) (canonicalIndex : UInt64) (payload : Bytes) : Bytes :=
  domainLeaf++subTreeId::(toBeBytes canonicalIndex++(beBytes 8 payload.length++payload))

/-- The string `node_hash_v2` hashes. -/
def nodePreimage (left right : Hash) : Bytes := domainNode++(left.toList++right.toList)

/-- Fixed widths in front of the payload leave nothing to reinterpret. -/
theorem leafPreimage_inj {s t : UInt8} {i j : UInt64} {p q : Bytes}
    (h : leafPreimage s i p = leafPreimage t j q) : s = t ∧ i = j ∧ p = q := by
  have htail := (List.append_inj h rfl).2
  rw [List.cons.injEq] at htail
  obtain ⟨hindex,hrest⟩ := List.append_inj htail.2 (by simp)
  exact ⟨htail.1,toBeBytes_inj hindex,(List.append_inj hrest (by simp)).2⟩

theorem nodePreimage_inj {a b c d : Hash} (h : nodePreimage a b = nodePreimage c d) :
    a = c ∧ b = d := by
  obtain ⟨hl,hr⟩ := List.append_inj (List.append_inj h rfl).2 (by simp)
  exact ⟨Vector.toList_inj.mp hl,Vector.toList_inj.mp hr⟩

/-- The tags separate the two domains before any other byte is compared. -/
theorem leafPreimage_ne_nodePreimage (s : UInt8) (i : UInt64) (p : Bytes) (a b : Hash) :
    leafPreimage s i p ≠ nodePreimage a b := by
  intro h
  have htag : domainLeaf = domainNode := (List.append_inj h rfl).1
  exact absurd htag (by decide)

/-- The pair form of the node preimage, as the layered tree feeds it. -/
def pairPreimage (p : Hash × Hash) : Bytes := nodePreimage p.1 p.2

theorem pairPreimage_injective : Function.Injective pairPreimage := by
  intro p q h
  obtain ⟨hl,hr⟩ := nodePreimage_inj h
  exact Prod.ext hl hr

section Digest
variable (blake3 : Bytes → Hash)

def leafHashV2 (subTreeId : UInt8) (canonicalIndex : UInt64) (payload : Bytes) : Hash :=
  blake3 (leafPreimage subTreeId canonicalIndex payload)

def nodeHashV2 (left right : Hash) : Hash := blake3 (nodePreimage left right)

/-- The digest of the padding leaves of one sub-tree. -/
def emptyLeaf (subTreeId : UInt8) : Hash := leafHashV2 blake3 subTreeId emptyIndexSentinel []

end Digest

end OmegaHarness.DomainHashes
