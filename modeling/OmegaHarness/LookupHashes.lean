import OmegaHarness.MembershipAir

/-!
# What the received tuples say about a row

The constraints never range-check a byte column. The lookups do: a tuple which
some compression sends consists of bytes, and its output cells are the output of
that compression on its input cells. A first row therefore holds a leaf hash, and
a node row holds the hash of its two children. Rows filled from such hashes
receive tuples which the two or three compressions send, so the argument also
runs backwards.
-/
namespace OmegaHarness.LookupHashes
open FixedWidthBytes DomainHashes ProofPublicValues BabyBearField Blake3Compression MembershipAir

theorem u32Cells_inj {a b : UInt32} (h : u32Cells a = (leBytes 4 b.toNat).map byteVal) : b = a := by
  have hle := leBytes_inj (by have := a.toNat_lt; omega) (by have := b.toNat_lt; omega)
    (bytes_map_inj h)
  exact UInt32.toNat_inj.mp hle.symm

@[simp] theorem u32Cells_length (a : UInt32) : (u32Cells a).length = 4 := by simp [u32Cells]

theorem zeroCells_eq (k : ℕ) : (List.replicate k 0 : List Val) = (leBytes k 0).map byteVal := by
  induction k with
  | zero => rfl
  | succ k ih => rw [List.replicate_succ,ih,leBytes,List.map_cons,Nat.zero_div]; simp

theorem leBytes_zero (k : ℕ) : leBytes k 0 = List.replicate k 0 := by
  induction k with
  | zero => rfl
  | succ k ih => rw [leBytes,Nat.zero_div,ih,List.replicate_succ]; rfl

/-- A tuple with a zero counter and known length and flags, read as one
compression of the bytes in its block and chaining cells. -/
theorem tuple_output {block cv out : List Val} {len flags : UInt32} (hb : block.length = 64)
    (hc : cv.length = 32)
    (h : CompressionTuple (block++(cv++(List.replicate 8 0++(u32Cells len++(u32Cells flags++out)))))) :
    ∃ blockBytes cvBytes : Bytes, block = blockBytes.map byteVal ∧ cv = cvBytes.map byteVal ∧
      out = (hashFromWords (compression (blockWords blockBytes) (wordsAt 8 cvBytes) 0 len
        flags).outputWords).toList.map byteVal := by
  obtain ⟨bw,cw,counter,l,f,h⟩ := h
  simp only [lookupBytes,compression,List.map_append] at h
  obtain ⟨hblock,h⟩ := List.append_inj h (by simp [hb])
  obtain ⟨hcv,h⟩ := List.append_inj h (by simp [hc])
  obtain ⟨hcounter,h⟩ := List.append_inj h (by simp)
  obtain ⟨hlen,h⟩ := List.append_inj h (by simp)
  obtain ⟨hflags,hout⟩ := List.append_inj h (by simp)
  have hzero : counter = 0 := by
    rw [zeroCells_eq] at hcounter
    have hle := leBytes_inj (by norm_num) (by have := counter.toNat_lt; omega) (bytes_map_inj hcounter)
    exact UInt64.toNat_inj.mp hle.symm
  refine ⟨wordsBytes bw,wordsBytes cw,hblock,hcv,?_⟩
  rw [hout,hzero,u32Cells_inj hlen,u32Cells_inj hflags,blockWords,wordsAt_wordsBytes,
    wordsAt_wordsBytes]
  rfl

@[simp] theorem hashCells_length (row : Row) (offset : ℕ) : (hashCells row offset).length = 32 := by
  simp [hashCells,hashLen]

/-- Hash cells cut at a position. -/
theorem hashCells_split (row : Row) (offset k : ℕ) (h : k ≤ 32) :
    hashCells row offset = (List.range k).map (fun i => row (offset+i))++
      (List.range (32-k)).map fun i => row (offset+(k+i)) := by
  have hrange : List.range hashLen = List.range k++(List.range (32-k)).map (k+·) := by
    rw [← List.range_add,show k+(32-k) = hashLen by change _ = 32; omega]
  rw [hashCells,hrange,List.map_append,List.map_map]
  rfl

theorem hash_of_bytes {bytes : Bytes} (h : bytes.length = 32) : ∃ x : Hash, x.toList = bytes :=
  ⟨⟨⟨bytes⟩,by simpa using h⟩,rfl⟩

/-- The node preimage cut at the block boundary, nineteen bytes into the right child. -/
theorem nodePreimage_blocks {left right : Hash} {right0 right1 : Bytes} (h0 : right0.length = 19)
    (hright : right.toList = right0++right1) :
    (nodePreimage left right).take blockBytes = domainNode++(left.toList++right0) ∧
      (nodePreimage left right).drop blockBytes = right1 := by
  have hcut : nodePreimage left right = (domainNode++(left.toList++right0))++right1 := by
    simp only [nodePreimage,hright,List.append_assoc]
  have hlen : (domainNode++(left.toList++right0)).length = blockBytes := by
    simp [h0,blockBytes]
  rw [hcut,← hlen]
  exact ⟨List.take_left,List.drop_left⟩

variable {blake3 : Bytes → Hash} (hchunk : SingleChunk blake3)

/-- The two compressions of a node, read from its preimage's blocks. -/
theorem nodeFirst_outputWords {left right : Hash} {right0 right1 : Bytes} (h0 : right0.length = 19)
    (hright : right.toList = right0++right1) :
    (compression (blockWords (domainNode++(left.toList++right0))) (wordsAt 8 (wordsBytes iv)) 0 64
      nodeFirstFlags).outputWords = (nodeFirstCompression left right).outputWords := by
  rw [nodeFirstCompression,(nodePreimage_blocks h0 hright).1,wordsAt_wordsBytes]

include hchunk in
theorem nodeSecond_hash {left right : Hash} {right0 right1 : Bytes} (h0 : right0.length = 19)
    (hright : right.toList = right0++right1) :
    hashFromWords (compression (blockWords (right1++List.replicate 51 0))
      (wordsAt 8 (wordsBytes (nodeFirstCompression left right).outputWords)) 0 13
      nodeSecondFlags).outputWords = nodeHashV2 blake3 left right := by
  rw [nodeHashV2_eq hchunk,nodeSecondCompression,(nodePreimage_blocks h0 hright).2,
    nodePreimage_length,wordsAt_wordsBytes,blockWords,blockWords,wordsAt_append_zeros]
  rfl

include hchunk in
/-- The two tuples of a node row make its current cells the hash of its children. -/
theorem node_tuples {row : Row} (hfirst : CompressionTuple (nodeFirstLookupCells row))
    (hsecond : CompressionTuple (nodeSecondLookupCells row)) :
    ∃ left right : Hash, HashAt row colLeftNode left ∧ HashAt row colRightNode right ∧
      HashAt row colCurrentNode (nodeHashV2 blake3 left right) := by
  obtain ⟨block,chain,hblock,hchain,hmid⟩ :=
    tuple_output (by simp [hashLen]) (by simp [ivCells]) hfirst
  obtain ⟨block',chain',hblock',hchain',hcurrent⟩ :=
    tuple_output (by simp [hashLen]) (by simp) hsecond
  have hwidth : 64-domainNode.length-hashLen = 19 := rfl
  have hrest : hashLen-(64-domainNode.length-hashLen) = 13 := rfl
  have hpad : 64-(domainNode.length+hashLen*2-64) = 51 := rfl
  rw [hwidth] at hblock
  rw [hrest,hpad,hwidth,zeroCells_eq] at hblock'
  -- the first block is the tag, the left child and nineteen bytes of the right child
  obtain ⟨tag,tail,rfl,htag,htail⟩ := List.map_eq_append_iff.mp hblock.symm
  obtain ⟨leftBytes,right0,rfl,hleft,hright0⟩ := List.map_eq_append_iff.mp htail
  -- the second block is the other thirteen bytes and zeros
  obtain ⟨right1,zeros,rfl,hright1,hzeros⟩ := List.map_eq_append_iff.mp hblock'.symm
  rw [bytes_map_inj hzeros,leBytes_zero] at hcurrent
  rw [bytes_map_inj htag,← bytes_map_inj hchain] at hmid
  have h0 : right0.length = 19 := by simpa using congrArg List.length hright0
  have h1 : right1.length = 13 := by simpa using congrArg List.length hright1
  obtain ⟨left,rfl⟩ := hash_of_bytes (show leftBytes.length = 32 by
    simpa using congrArg List.length hleft)
  obtain ⟨right,hright⟩ := hash_of_bytes (show (right0++right1).length = 32 by simp [h0,h1])
  rw [nodeFirst_outputWords h0 hright] at hmid
  rw [← bytes_map_inj (hmid.symm.trans hchain'),
    hashFromWords_toList (nodeFirstCompression left right).outputWords,
    nodeSecond_hash hchunk h0 hright] at hcurrent
  refine ⟨left,right,hleft.symm,?_,hcurrent⟩
  rw [HashAt,hashCells_split row colRightNode 19 (by omega),hright,List.map_append,hright0,hright1]

/-- Bits which sum to one below the field's size have exactly one member set. -/
theorem one_hot {f : ℕ → Val} {n : ℕ} (hn : n < babyBearPrime) (hbits : ∀ k < n, Bit (f k))
    (hsum : ∑ k ∈ Finset.range n, f k = 1) :
    ∃ j < n, f j = 1 ∧ ∀ k < n, k ≠ j → f k = 0 := by
  -- the sum is the size of the set of members which hold one
  have hcount : (((Finset.range n).filter fun k => f k = 1).card : Val) = 1 := by
    refine Eq.trans ?_ hsum
    rw [Finset.card_filter,Nat.cast_sum]
    apply Finset.sum_congr rfl
    intro k hk
    rcases hbits k (Finset.mem_range.mp hk) with h | h <;> simp [h]
  have hle : ((Finset.range n).filter fun k => f k = 1).card ≤ n := by
    simpa using Finset.card_filter_le (Finset.range n) fun k => f k = 1
  have hone := natCast_inj (by omega) (by decide) (hcount.trans Nat.cast_one.symm)
  obtain ⟨j,hj⟩ := Finset.card_eq_one.mp hone
  have hmem : j ∈ (Finset.range n).filter fun k => f k = 1 := by rw [hj]; simp
  obtain ⟨hlt,hfj⟩ := Finset.mem_filter.mp hmem
  refine ⟨j,Finset.mem_range.mp hlt,hfj,?_⟩
  intro k hk hne
  rcases hbits k hk with h | h
  · exact h
  · have hk' : k ∈ (Finset.range n).filter fun k => f k = 1 :=
      Finset.mem_filter.mpr ⟨Finset.mem_range.mpr hk,h⟩
    rw [hj,Finset.mem_singleton] at hk'
    exact (hne hk').elim

/-- The selector names one payload length, and the cells from it on are zero. -/
theorem selector_length {row : Row} (h : SelectorHolds row) :
    ∃ n : ℕ, n ≤ 34 ∧ row colPayloadLen = (n : Val) ∧ ∀ k : ℕ, n ≤ k → k < 34 → row (colPayload+k) = 0 := by
  obtain ⟨n,hn,hone,hzero⟩ := one_hot (by decide) h.bits h.sum
  have hsingle : ∀ m, n < m → m ≤ 35 → ∀ g : ℕ → Val,
      ∑ k ∈ Finset.range m, row (colPayloadLenSelector+k)*g k = g n := by
    intro m hm hm' g
    rw [Finset.sum_eq_single n]
    · rw [hone,one_mul]
    · intro k hk hne
      have hk' := Finset.mem_range.mp hk
      rw [hzero k (by omega) hne,zero_mul]
    · intro hnot
      exact (hnot (Finset.mem_range.mpr hm)).elim
  refine ⟨n,by omega,?_,?_⟩
  · rw [h.len,hsingle 35 hn le_rfl]
  · intro k hk hk'
    have hsum := hsingle (k+1) (by omega) (by omega) fun _ => 1
    simp only [mul_one] at hsum
    rcases h.beyond k hk' with hcell | hempty
    · exact hcell
    · rw [hempty] at hsum
      exact (zero_ne_one hsum).elim

theorem beBytes_small {n : ℕ} (h : n < 256) : beBytes 8 n = List.replicate 7 0++[UInt8.ofNat n] := by
  have hdiv : n/256 = 0 := by omega
  rw [beBytes,leBytes,hdiv,leBytes_zero,List.reverse_cons,List.reverse_replicate]

theorem byteVal_ofNat {n : ℕ} (h : n < 256) : byteVal (UInt8.ofNat n) = (n : Val) := by
  rw [byteVal,toNat_ofNat_byte,Nat.mod_eq_of_lt h]

/-- A length cell of a leaf tuple and the three zero cells after it. -/
theorem leafLen_cells {n : ℕ} (h : n ≤ 34) :
    (((domainLeaf.length+1+leafIndexLen+8 : ℕ) : Val)+(n : Val))::List.replicate 3 0 =
      u32Cells (UInt32.ofNat (30+n)) := by
  have hdiv : (30+n)/256 = 0 := by omega
  rw [u32Cells,UInt32.toNat_ofNat',Nat.mod_eq_of_lt (by omega),leBytes,hdiv,List.map_cons,zeroCells_eq,
    byteVal_ofNat (by omega)]
  push_cast
  rfl

/-- The leaf preimage in its zeroed block. -/
def leafBlock (s : UInt8) (i : UInt64) (payload : Bytes) : Bytes :=
  leafPreimage s i payload++List.replicate (34-payload.length) 0

theorem leafBlock_length (s : UInt8) (i : UInt64) {payload : Bytes} (h : payload.length ≤ 34) :
    (leafBlock s i payload).length = 64 := by
  rw [leafBlock,List.length_append,leafPreimage_length,List.length_replicate]
  omega

/-- The cells of a row which hold a sub-tree, an index and a payload. -/
structure LeafCells (row : Row) (s : UInt8) (i : UInt64) (payload : Bytes) : Prop where
  subTree : row colSubTreeId = byteVal s
  index : ∀ k < 8, row (colLeafIndexBe+k) = byteVal ((toBeBytes i).getD k 0)
  small : payload.length ≤ 34
  len : row colPayloadLen = (payload.length : Val)
  payload : ∀ k < 34, row (colPayload+k) = byteVal (payload.getD k 0)

/-- The leaf tuple of such a row is the block of the leaf preimage. -/
theorem leafLookupCells_eq {row : Row} {s : UInt8} {i : UInt64} {payload : Bytes}
    (h : LeafCells row s i payload) :
    leafLookupCells row = (leafBlock s i payload).map byteVal++(ivCells++(List.replicate 8 0++
      (u32Cells (UInt32.ofNat (30+payload.length))++(u32Cells leafFlags++
        hashCells row colPrevNode)))) := by
  have hn := h.small
  have hindex : (List.range leafIndexLen).map (fun k => row (colLeafIndexBe+k)) =
      (toBeBytes i).map byteVal := (cells_iff (toBeBytes_length i)).mpr h.index
  have hpadded : (payload++List.replicate (34-payload.length) 0).length = maxLeafPayloadLen := by
    rw [List.length_append,List.length_replicate,maxLeafPayloadLen]
    omega
  have hcells : (List.range maxLeafPayloadLen).map (fun k => row (colPayload+k)) =
      (payload++List.replicate (34-payload.length) 0).map byteVal := by
    refine (cells_iff hpadded).mpr ?_
    intro k hk
    rw [h.payload k hk]
    by_cases hlt : k < payload.length
    · rw [List.getD_append _ _ _ _ hlt]
    · have hk34 : k < 34 := hk
      rw [List.getD_append_right _ _ _ _ (by omega),List.getD_eq_default _ _ (by omega),
        List.getD_replicate _ (by omega)]
  have hnone : 64-domainLeaf.length-1-leafIndexLen-8-maxLeafPayloadLen = 0 := rfl
  rw [leafLookupCells,hnone,hindex,hcells,h.subTree,h.len,leafLen_cells hn,
    ← byteVal_ofNat (show payload.length < 256 by omega),leafBlock,leafPreimage,
    beBytes_small (show payload.length < 256 by omega)]
  simp

include hchunk in
theorem leafBlock_hash (s : UInt8) (i : UInt64) {payload : Bytes} (h : payload.length ≤ 34) :
    hashFromWords (compression (blockWords (leafBlock s i payload)) (wordsAt 8 (wordsBytes iv)) 0
      (UInt32.ofNat (30+payload.length)) leafFlags).outputWords = leafHashV2 blake3 s i payload := by
  rw [leafHashV2_eq hchunk s i h,leafCompression,blockWords,blockWords,leafBlock,
    wordsAt_append_zeros,wordsAt_wordsBytes]
  rfl

include hchunk in
/-- A leaf tuple makes the previous-node cells the leaf hash. -/
theorem leaf_tuple {row : Row} {s : UInt8} {i : UInt64} {payload : Bytes}
    (hcells : LeafCells row s i payload) (h : CompressionTuple (leafLookupCells row)) :
    HashAt row colPrevNode (leafHashV2 blake3 s i payload) := by
  rw [leafLookupCells_eq hcells] at h
  obtain ⟨block,chain,hblock,hchain,hout⟩ :=
    tuple_output (by simp [leafBlock_length s i hcells.small]) (by simp [ivCells]) h
  rw [← bytes_map_inj hblock,← bytes_map_inj hchain,leafBlock_hash hchunk s i hcells.small] at hout
  exact hout

/-- The payload cells of a leaf tuple are bytes. -/
theorem payload_bytes {row : Row} (h : CompressionTuple (leafLookupCells row)) :
    ∃ bytes : Bytes, bytes.length = 34 ∧ ∀ k < 34, row (colPayload+k) = byteVal (bytes.getD k 0) := by
  obtain ⟨bw,cw,counter,l,f,h⟩ := h
  simp only [lookupBytes,compression,List.map_append] at h
  obtain ⟨hblock,-⟩ := List.append_inj h (by
    simp [leafIndexLen,maxLeafPayloadLen])
  obtain ⟨_,_,-,-,hrest⟩ := List.map_eq_append_iff.mp hblock.symm
  obtain ⟨_,_,-,-,hrest⟩ := List.map_eq_cons_iff.mp hrest
  obtain ⟨_,_,-,-,hrest⟩ := List.map_eq_append_iff.mp hrest
  obtain ⟨_,_,-,-,hrest⟩ := List.map_eq_append_iff.mp hrest
  obtain ⟨_,_,-,-,hrest⟩ := List.map_eq_cons_iff.mp hrest
  obtain ⟨bytes,_,-,hbytes,-⟩ := List.map_eq_append_iff.mp hrest
  have hlen : bytes.length = maxLeafPayloadLen := by simpa using congrArg List.length hbytes
  exact ⟨bytes,hlen,(cells_iff hlen).mp hbytes.symm⟩

/-- A first row whose selector holds has a payload behind its cells. -/
theorem leaf_cells_of_tuple {row : Row} {s : UInt8} {i : UInt64} (hs : row colSubTreeId = byteVal s)
    (hi : ∀ k < 8, row (colLeafIndexBe+k) = byteVal ((toBeBytes i).getD k 0))
    (hsel : SelectorHolds row) (h : CompressionTuple (leafLookupCells row)) :
    ∃ payload, LeafCells row s i payload := by
  obtain ⟨n,hn,hlen,hzero⟩ := selector_length hsel
  obtain ⟨bytes,hbytes,hcells⟩ := payload_bytes h
  have htake : (bytes.take n).length = n := by rw [List.length_take]; omega
  refine ⟨bytes.take n,hs,hi,by omega,by rw [htake]; exact hlen,?_⟩
  intro k hk
  by_cases hlt : k < n
  · rw [hcells k hk]
    simp [List.getD_eq_getElem?_getD,hlt]
  · rw [hzero k (by omega) hk,List.getD_eq_default _ _ (by omega),byteVal_zero]

/-- The bytes of a block's words are the block with its zeros. -/
theorem wordsBytes_blockWords {bytes : Bytes} {k : ℕ} (h : bytes.length+k = 64) :
    wordsBytes (blockWords bytes) = bytes++List.replicate k 0 := by
  rw [blockWords,← wordsAt_append_zeros 16 bytes k]
  apply wordsBytes_wordsAt
  simpa using h

/-- A first row filled from a leaf receives what the leaf's compression sends. -/
theorem leaf_sent {row : Row} {s : UInt8} {i : UInt64} {payload : Bytes}
    (hcells : LeafCells row s i payload)
    (hprev : HashAt row colPrevNode (hashFromWords (leafCompression s i payload).outputWords)) :
    leafLookupCells row = (lookupBytes (leafCompression s i payload)).map byteVal := by
  have hlen := leafPreimage_length s i payload
  have hsmall := hcells.small
  rw [leafLookupCells_eq hcells,hprev,lookupBytes,leafCompression,compression,
    wordsBytes_blockWords (show _+(34-payload.length) = 64 by omega)]
  simp only [leafBlock,List.map_append,zeroCells_eq 8]
  rfl

/-- The right child's cells on both sides of the block boundary. -/
theorem right_cells {row : Row} {right : Hash} (h : HashAt row colRightNode right) :
    (List.range 19).map (fun i => row (colRightNode+i)) = (right.toList.take 19).map byteVal ∧
      (List.range 13).map (fun i => row (colRightNode+(19+i))) =
        (right.toList.drop 19).map byteVal := by
  rw [HashAt,hashCells_split row colRightNode 19 (by omega),← List.take_append_drop 19 right.toList,
    List.map_append] at h
  exact List.append_inj h (by simp)

theorem node_first_sent {row : Row} {left right : Hash} (hleft : HashAt row colLeftNode left)
    (hright : HashAt row colRightNode right)
    (hmid : HashAt row colNodeMid (hashFromWords (nodeFirstCompression left right).outputWords)) :
    nodeFirstLookupCells row = (lookupBytes (nodeFirstCompression left right)).map byteVal := by
  have hblock := (@nodePreimage_blocks left right _ _
    (show (right.toList.take 19).length = 19 by simp) (List.take_append_drop 19 right.toList).symm).1
  have hwidth : 64-domainNode.length-hashLen = 19 := rfl
  have hbytes : wordsBytes (blockWords ((nodePreimage left right).take blockBytes)) =
      domainNode++(left.toList++right.toList.take 19) := by
    rw [hblock,wordsBytes_blockWords (k := 0) (by simp)]
    simp
  rw [nodeFirstLookupCells,hwidth,hleft,(right_cells hright).1,hmid,lookupBytes]
  simp only [nodeFirstCompression,compression,hbytes,List.map_append,zeroCells_eq 8]
  rfl

theorem node_second_sent {row : Row} {left right : Hash} (hright : HashAt row colRightNode right)
    (hmid : HashAt row colNodeMid (hashFromWords (nodeFirstCompression left right).outputWords))
    (hcurrent : HashAt row colCurrentNode
      (hashFromWords (nodeSecondCompression left right).outputWords)) :
    nodeSecondLookupCells row = (lookupBytes (nodeSecondCompression left right)).map byteVal := by
  have hblock := (@nodePreimage_blocks left right _ _
    (show (right.toList.take 19).length = 19 by simp) (List.take_append_drop 19 right.toList).symm).2
  have hwidth : 64-domainNode.length-hashLen = 19 := rfl
  have hrest : hashLen-19 = 13 := rfl
  have hpad : 64-(domainNode.length+hashLen*2-64) = 51 := rfl
  have hbytes : wordsBytes (blockWords ((nodePreimage left right).drop blockBytes)) =
      right.toList.drop 19++leBytes 51 0 := by
    rw [hblock,wordsBytes_blockWords (k := 51) (by simp),leBytes_zero]
  rw [nodeSecondLookupCells,hwidth,hrest,hpad,(right_cells hright).2,hmid,hcurrent,lookupBytes]
  simp only [nodeSecondCompression,compression,hbytes,List.map_append,zeroCells_eq,
    nodePreimage_length]
  rfl

end OmegaHarness.LookupHashes
