import OmegaHarness.Blake3Spec
import OmegaHarness.Blake3Trace
import OmegaHarness.CheckedRuns

/-!
# The recorded compressions compute the tree hashes

The trace generator fills its blocks by copies into a zeroed buffer, and compresses them one
after the other. Here its compression is the one of the specification, its chain over the
blocks of an input is the specification's hash on one chunk, and the blocks it fills are
those of the strings which the tree hashes. So the records of a leaf and of a node end
in the leaf's and the node's hash.
-/
namespace OmegaHarness.CompressionRecords
open Blake3Compression Blake3Trace CheckedRuns DomainHashes FixedWidthBytes

section Square

/-- The words of a vector, where they are in range. -/
def Reads {n : ℕ} (words : Vector UInt32 n) (w : Blake3Spec.Words) : Prop :=
  ∀ k, words.get k = w k.val

/-- The lanes of a state as the columns of a square. -/
def Shows (shift : Fin 4) (state : Vector UInt32 16) (v : Blake3Spec.Square) : Prop :=
  ∀ i r, state.get (lane shift i r) = v r.val i.val

section Quarter
variable {p : Fin 4 → Fin 16} (hp : Function.Injective p) (state : Vector UInt32 16) (mx my : UInt32)

include hp

/-- A quarter round leaves the mix of its words in them. -/
theorem g_own {w : Blake3Spec.Words} (hw : ∀ r, state.get (p r) = w r.val) (r : Fin 4) :
    (g state (p 0) (p 1) (p 2) (p 3) mx my).get (p r) = Blake3Spec.mix w mx my r.val := by
  rw [g_eq_halves hp,halfRoundAt_own hp]
  simp only [halfRoundAt_own hp,hw]
  match r with
  | 0 | 1 | 2 | 3 => rfl

theorem g_other {k : Fin 16} (hk : ∀ r, p r ≠ k) :
    (g state (p 0) (p 1) (p 2) (p 3) mx my).get k = state.get k := by
  rw [g_eq_halves hp,halfRoundAt_other _ _ _ hk,halfRoundAt_other _ _ _ hk]

end Quarter

/-- A sweep mixes each lane from its own words, whichever lanes went before. -/
theorem sweep_get {shift : Fin 4} (mx my : Fin 4 → UInt32) {lanes : List (Fin 4)}
    (hnodup : lanes.Nodup) {state : Vector UInt32 16} {i : Fin 4} {w : Blake3Spec.Words}
    (hw : ∀ r, state.get (lane shift i r) = w r.val) (r : Fin 4) :
    (lanes.foldl (fun state i => g state (lane shift i 0) (lane shift i 1) (lane shift i 2)
      (lane shift i 3) (mx i) (my i)) state).get (lane shift i r) =
        if i ∈ lanes then Blake3Spec.mix w (mx i) (my i) r.val else w r.val := by
  induction lanes generalizing state w with
  | nil => exact hw r
  | cons first lanes ih =>
      obtain ⟨hnot,hrest⟩ := List.nodup_cons.mp hnodup
      rw [List.foldl_cons]
      by_cases heq : i = first
      · subst heq
        rw [ih hrest (g_own (lane_injective shift i) state (mx i) (my i) hw),if_neg hnot,
          if_pos List.mem_cons_self]
      · have hother : ∀ r, (g state (lane shift first 0) (lane shift first 1) (lane shift first 2)
            (lane shift first 3) (mx first) (my first)).get (lane shift i r) = w r.val := by
          intro r
          rw [g_other (lane_injective shift first),hw]
          intro t hlane
          exact heq (lane_inj shift first i t r hlane).1.symm
        simp only [ih hrest hother,List.mem_cons,heq,false_or]

theorem quarterRounds_shows {shift : Fin 4} {mx my : Fin 4 → UInt32} {x y : Blake3Spec.Words}
    (hx : ∀ i, mx i = x i.val) (hy : ∀ i, my i = y i.val) {state : Vector UInt32 16}
    {v : Blake3Spec.Square} (hv : Shows shift state v) :
    Shows shift (quarterRounds shift mx my state) (Blake3Spec.mixColumns x y v) := by
  intro i r
  rw [quarterRounds,sweep_get (w := fun r => v r i.val) mx my (List.nodup_finRange 4) (hv i),
    if_pos (List.mem_finRange i),hx,hy]
  rfl

theorem lane_shift : ∀ i r : Fin 4, lane 1 i r = lane 0 (i+r) r := by decide

theorem sub_val : ∀ i r : Fin 4, (i-r).val = (i.val+4-r.val)%4 := by decide

/-- The diagonals are the columns of the rotated rows. -/
theorem Shows.shift {state : Vector UInt32 16} {v : Blake3Spec.Square} (hv : Shows 0 state v) :
    Shows 1 state (Blake3Spec.shiftRows v) := by
  intro i r
  rw [lane_shift,hv,Fin.val_add]
  rfl

theorem Shows.unshift {state : Vector UInt32 16} {v : Blake3Spec.Square} (hv : Shows 1 state v) :
    Shows 0 state (Blake3Spec.unshiftRows v) := by
  intro i r
  have hlane : lane 0 i r = lane 1 (i-r) r := by rw [lane_shift,sub_add_cancel]
  rw [hlane,hv,sub_val]
  rfl

theorem Reads.getElem {n k : ℕ} {words : Vector UInt32 n} {w : Blake3Spec.Words} (hw : Reads words w)
    (hk : k < n) : words[k] = w k :=
  hw ⟨k,hk⟩

/-- A round is the round of the specification. -/
theorem round_shows {state m : Vector UInt32 16} {v : Blake3Spec.Square} {w : Blake3Spec.Words}
    (hv : Shows 0 state v) (hm : Reads m w) : Shows 0 (round state m) (Blake3Spec.round w v) := by
  rw [round_eq_quarters]
  apply Shows.unshift
  apply quarterRounds_shows
  · intro i
    exact hm.getElem _
  · intro i
    exact hm.getElem _
  apply Shows.shift
  apply quarterRounds_shows
  · intro i
    exact hm.getElem _
  · intro i
    exact hm.getElem _
  exact hv

theorem permutation_eq : ∀ i, (msgPermutation.get i).val = Blake3Spec.permutation i.val := by decide

theorem permute_reads {m : Vector UInt32 16} {w : Blake3Spec.Words} (hm : Reads m w) :
    Reads (permute m) (w ∘ Blake3Spec.permutation) := by
  intro k
  rw [permute,get_ofFn,Function.comp_apply,← permutation_eq,← hm]
  rfl

theorem rounds_shows (count : ℕ) {state m : Vector UInt32 16} {v : Blake3Spec.Square}
    {w : Blake3Spec.Words} (hv : Shows 0 state v) (hm : Reads m w) :
    Shows 0 (rounds count state m) (Blake3Spec.rounds count w v) := by
  induction count generalizing state m v w with
  | zero => exact hv
  | succ count ih => exact ih (round_shows hv hm) (permute_reads hm)

theorem iv_reads : Reads iv Blake3Spec.iv := by
  intro k
  fin_cases k <;> rfl

theorem initialState_shows (c : Compression) {h : Blake3Spec.Words} (hh : Reads c.cvWords h) :
    Shows 0 (initialState c) (Blake3Spec.start h c.counter c.blockLen c.flags) := by
  intro i r
  match r,i with
  | 0,0 | 0,1 | 0,2 | 0,3 | 1,0 | 1,1 | 1,2 | 1,3 =>
      exact (Vector.getElem_append_left (by decide)).trans (hh.getElem (by decide))
  | 2,0 | 2,1 | 2,2 | 2,3 | 3,0 | 3,1 | 3,2 | 3,3 =>
      exact Vector.getElem_append_right (by decide) (by decide)

/-- The lanes of the columns are all the words, row by row. -/
theorem Shows.get {state : Vector UInt32 16} {v : Blake3Spec.Square} (hv : Shows 0 state v)
    (k : Fin 16) : state.get k = v (k.val/4) (k.val%4) := by
  have hlane : k = lane 0 ⟨k.val%4,by omega⟩ ⟨k.val/4,by omega⟩ := by
    revert k
    decide
  exact (congrArg state.get hlane).trans (hv _ _)

/-- The compression is the one of the specification. -/
theorem compress_reads (c : Compression) {h m : Blake3Spec.Words} (hh : Reads c.cvWords h)
    (hm : Reads c.blockWords m) :
    Reads (compress c.blockWords c.cvWords c.counter c.blockLen c.flags)
      (Blake3Spec.compress h m c.counter c.blockLen c.flags) := by
  intro k
  have hlast := (rounds_shows 7 (initialState_shows c hh) hm).get
  unfold Blake3Spec.compress
  by_cases hk : k.val < 8
  · have hrow : (k.val+8)/4 = k.val/4+2 := by omega
    have hcolumn : (k.val+8)%4 = k.val%4 := by omega
    rw [compress_upper c (j := ⟨k.val+8,by omega⟩) hk rfl,if_pos hk,hlast,hlast,
      hrow,hcolumn]
  · rw [compress_lower c (j := ⟨k.val-8,by omega⟩) (Nat.sub_add_cancel (by omega)).symm,
      if_neg hk,hlast,hh]

end Square

section Chunk

/-- Bytes as a number, one by one. -/
theorem ofLeBytes_take (bytes : Bytes) (n width : ℕ) :
    ofLeBytes ((bytes.drop n).take width) =
      ∑ j ∈ Finset.range width, (bytes.getD (n+j) 0).toNat*256^j := by
  induction width generalizing n with
  | zero => rfl
  | succ width ih =>
      have htail : ∑ j ∈ Finset.range width, (bytes.getD (n+(j+1)) 0).toNat*256^(j+1) =
          256*ofLeBytes ((bytes.drop (n+1)).take width) := by
        rw [ih,Finset.mul_sum]
        apply Finset.sum_congr rfl
        intro j _
        rw [Nat.add_right_comm n 1,Nat.add_assoc n j,pow_succ]
        ring
      rw [Finset.sum_range_succ',htail,pow_zero,Nat.mul_one,Nat.add_zero n]
      by_cases hn : n < bytes.length
      · rw [List.drop_eq_getElem_cons hn,List.take_succ_cons,ofLeBytes,List.getD_eq_getElem _ _ hn,
          Nat.add_comm]
      · rw [List.drop_eq_nil_of_le (by omega),List.drop_eq_nil_of_le (by omega),
          List.getD_eq_default _ _ (by omega)]
        simp [ofLeBytes]

theorem blockWords_reads (bytes : Bytes) : Reads (blockWords bytes) (Blake3Spec.word bytes) := by
  intro k
  rw [blockWords,wordsAt,get_ofFn,wordAt,ofLeBytes_take,Blake3Spec.word]
  simp only [Blake3Spec.padded_getD]

/-- One link of the chain. -/
theorem outputWords_reads (bytes : Bytes) {cv : Vector UInt32 8} {h : Blake3Spec.Words}
    (hh : Reads cv h) (blockLen flags : UInt32) :
    Reads (compression (blockWords bytes) cv 0 blockLen flags).outputWords
      (Blake3Spec.compress h (Blake3Spec.word bytes) 0 blockLen flags) := by
  intro i
  have hword := compress_reads (compression (blockWords bytes) cv 0 blockLen flags) hh
    (blockWords_reads bytes) ⟨i.val,by omega⟩
  unfold compression at hword ⊢
  rw [get_ofFn]
  exact hword

/-- The chain over the blocks from one of them on. -/
theorem chunkCv_reads (data : Bytes) {more k : ℕ} (hk : k+more+1 = Blake3Spec.blockCount data)
    {cv : Vector UInt32 8} (hcv : Reads cv (Blake3Spec.chain data k)) {start : UInt32}
    (hstart : start = if k = 0 then Blake3Spec.chunkStart else 0) :
    Reads (chunkCv more cv start (data.drop (64*k)))
      (Blake3Spec.chain data (Blake3Spec.blockCount data)) := by
  induction more generalizing k cv start with
  | zero =>
      have hflags : Blake3Spec.flags data k = start ||| chunkEnd ||| rootFlag := by
        rw [Blake3Spec.flags,if_pos hk,hstart,UInt32.or_assoc]
        rfl
      rw [← hk,Blake3Spec.chain,Blake3Spec.block_last data hk,hflags,chunkCv]
      exact outputWords_reads _ hcv _ _
  | succ more ih =>
      have hfull : (Blake3Spec.block data k).length = 64 := Blake3Spec.block_full data (by omega)
      have hflags : Blake3Spec.flags data k = start := by
        have hinner : ¬k+1 = Blake3Spec.blockCount data := by omega
        rw [Blake3Spec.flags,if_neg hinner,← hstart,UInt32.or_zero]
      rw [chunkCv,List.drop_drop,blockBytes,← Nat.mul_succ]
      apply ih (by omega)
      · rw [Blake3Spec.chain,hfull,hflags]
        exact outputWords_reads _ hcv _ _
      · rfl

/-- The hash on one chunk is the one of the specification. -/
theorem singleChunkHash_eq (data : Bytes) : (singleChunkHash data).toList = Blake3Spec.hash data := by
  have hcount : 0+(data.length-1)/blockBytes+1 = Blake3Spec.blockCount data := by
    rw [Nat.zero_add,Blake3Spec.blockCount_eq]
    rfl
  have hchain := chunkCv_reads data hcount iv_reads rfl
  rw [Nat.mul_zero,List.drop_zero] at hchain
  have hrange : List.range 8 = (List.finRange 8).map Fin.val := List.map_coe_finRange_eq_range.symm
  rw [singleChunkHash,hashFromWords_toList,wordsBytes,toList_eq_map,List.flatMap_map,Blake3Spec.hash,
    hrange,List.flatMap_map]
  apply List.flatMap_congr
  intro i _
  rw [← hchain i]
  exact leBytes_eq_map 4 _

example : Blake3Spec.hash [] = [0xaf,0x13,0x49,0xb9,0xf5,0xf9,0xa1,0xa6,0xa0,0x40,0x4d,0xea,0x36,0xdc,
    0xc9,0x49,0x9b,0xcb,0x25,0xc9,0xad,0xc1,0x12,0xb7,0xcc,0x9a,0x93,0xca,0xe4,0x1f,0x32,0x62] := by
  rw [← singleChunkHash_eq]
  decide +kernel

end Chunk

section Records

def leafCompression (subTreeId : UInt8) (leafIndex : UInt64) (payload : Bytes) :
    Checked Compression := do
  let block := List.replicate blockBytes 0
  let offset := 0
  let block ← copyFromSlice block offset (offset+domainLeaf.length) domainLeaf
  let offset := offset+domainLeaf.length
  let block ← assign block offset subTreeId
  let offset := offset+1
  let block ← copyFromSlice block offset (offset+8) (toBeBytes leafIndex)
  let offset := offset+8
  let block ← copyFromSlice block offset (offset+8) (beBytes 8 payload.length)
  let offset := offset+8
  let block ← copyFromSlice block offset (offset+payload.length) payload
  let blockLen := UInt32.ofNat (domainLeaf.length+1+8+8+payload.length)
  return compression (blockWords block) iv 0 blockLen leafFlags

def nodeCompressions (left right : Hash) : Checked (Compression × Compression) := do
  let preimage := List.replicate (domainNode.length+64) 0
  let offset := 0
  let preimage ← copyFromSlice preimage offset (offset+domainNode.length) domainNode
  let offset := offset+domainNode.length
  let preimage ← copyFromSlice preimage offset (offset+32) left.toList
  let offset := offset+32
  let preimage ← copyFromSlice preimage offset (offset+32) right.toList
  let head ← sliceTo preimage blockBytes
  let firstBlock ← copyFromSlice (List.replicate blockBytes 0) 0 blockBytes head
  let first := compression (blockWords firstBlock) iv 0 (UInt32.ofNat blockBytes) nodeFirstFlags
  let tail ← sliceFrom preimage blockBytes
  let secondBlock ← copyFromSlice (List.replicate blockBytes 0) 0 (preimage.length-blockBytes) tail
  let second := compression (blockWords secondBlock) first.outputWords 0
    (UInt32.ofNat (preimage.length-blockBytes)) nodeSecondFlags
  return (first,second)

/-- The zeros behind the bytes of a block do not change its words. -/
theorem blockWords_filled (bytes : Bytes) : blockWords (filled 0 blockBytes bytes) = blockWords bytes :=
  wordsAt_append_zeros 16 bytes _

/-- The cells of a leaf's block in front of its payload. -/
def leafFrame (subTreeId : UInt8) (leafIndex : UInt64) (payload : Bytes) : Bytes :=
  domainLeaf++[subTreeId]++toBeBytes leafIndex++beBytes 8 payload.length

theorem leafFrame_length (subTreeId : UInt8) (leafIndex : UInt64) (payload : Bytes) :
    (leafFrame subTreeId leafIndex payload).length = 30 := by
  simp [leafFrame]

section Leaf
variable (subTreeId : UInt8) (leafIndex : UInt64) {payload : Bytes}

/-- The frame always fits, and the copy of the payload comes last. -/
theorem leafCompression_framed :
    leafCompression subTreeId leafIndex payload =
      copyFromSlice (filled 0 blockBytes (leafFrame subTreeId leafIndex payload)) 30
        (30+payload.length) payload >>= fun block =>
          .ok (compression (blockWords block) iv 0 (UInt32.ofNat (30+payload.length)) leafFlags) := by
  unfold leafCompression
  dsimp only
  rw [copy_first (by rfl) (by decide),bind_value,assign_next _ (by rfl) (by decide),bind_value,
    copy_next (by simp) (by simp) (by simp [blockBytes]),bind_value,
    copy_next (by simp) (by simp) (by simp [blockBytes]),bind_value]
  rfl

theorem leafCompression_returns (h : payload.length ≤ 34) :
    leafCompression subTreeId leafIndex payload =
      .ok (Blake3Compression.leafCompression subTreeId leafIndex payload) := by
  have hframe := leafFrame_length subTreeId leafIndex payload
  have hpreimage : leafFrame subTreeId leafIndex payload++payload =
      leafPreimage subTreeId leafIndex payload := by
    simp only [leafFrame,List.append_assoc]
    rfl
  rw [leafCompression_framed,copy_next hframe.symm rfl (by rw [hframe,blockBytes]; omega),bind_value,
    blockWords_filled,hpreimage]
  rfl

/-- A longer payload is refused by the slice, whether or not the assertion was compiled in. -/
theorem leafCompression_panics (h : 34 < payload.length) :
    leafCompression subTreeId leafIndex payload = .error .panicked := by
  have hframe := leafFrame_length subTreeId leafIndex payload
  have hsize : (filled 0 blockBytes (leafFrame subTreeId leafIndex payload)).length = 64 :=
    filled_length (by rw [hframe]; decide)
  rw [leafCompression_framed,copy_beyond (by omega)]
  rfl

end Leaf

/-- The right child is cut: its last bytes go into the second block. -/
theorem nodeCompressions_returns (left right : Hash) :
    nodeCompressions left right =
      .ok (nodeFirstCompression left right,nodeSecondCompression left right) := by
  have hlength := nodePreimage_length left right
  have hpreimage : filled 0 (domainNode.length+64) (domainNode++left.toList++right.toList) =
      nodePreimage left right := by
    rw [filled_all (by simp),List.append_assoc]
    rfl
  have hhead : ((nodePreimage left right).take blockBytes).length = blockBytes := by
    rw [List.length_take,hlength]
    rfl
  have htail : ((nodePreimage left right).drop blockBytes).length =
      (nodePreimage left right).length-blockBytes := List.length_drop
  unfold nodeCompressions
  dsimp only
  rw [copy_first (by rfl) (by decide),bind_value,copy_next (by simp) (by simp) (by simp),bind_value,
    copy_next (by simp) (by simp) (by simp),bind_value,hpreimage,
    sliceTo_ok (by rw [hlength]; decide),bind_value,copy_first hhead.symm hhead.le,bind_value,
    sliceFrom_ok (by rw [hlength]; decide),bind_value,
    copy_first htail.symm (by rw [htail,hlength]; decide),bind_value]
  simp only [blockWords_filled]
  rfl

/-- If the digest is the specification's on one chunk, the record of a leaf whose preimage
fits in a block ends in the leaf's hash, and the second record of a node in the node's. -/
theorem records_compute_hashes {blake3 : Bytes → Hash}
    (hspec : ∀ data : Bytes, data.length ≤ 1024 → (blake3 data).toList = Blake3Spec.hash data) :
    (∀ (subTreeId : UInt8) (leafIndex : UInt64) (payload : Bytes), payload.length ≤ 34 →
      ∃ c, leafCompression subTreeId leafIndex payload = .ok c ∧
        hashFromWords c.outputWords = leafHashV2 blake3 subTreeId leafIndex payload) ∧
    ∀ left right : Hash, ∃ first second, nodeCompressions left right = .ok (first,second) ∧
      hashFromWords second.outputWords = nodeHashV2 blake3 left right := by
  have hchunk : SingleChunk blake3 := by
    intro data hdata
    apply Vector.toList_inj.mp
    rw [hspec data hdata,singleChunkHash_eq]
  constructor
  · intro subTreeId leafIndex payload hpayload
    exact ⟨_,leafCompression_returns subTreeId leafIndex hpayload,
      (leafHashV2_eq hchunk subTreeId leafIndex hpayload).symm⟩
  · intro left right
    exact ⟨_,_,nodeCompressions_returns left right,(nodeHashV2_eq hchunk left right).symm⟩

theorem short_leaf_recorded :
    ∃ c, leafCompression 1 42 [97,98] = .ok c ∧
      hashFromWords c.outputWords = leafHashV2 singleChunkHash 1 42 [97,98] :=
  (records_compute_hashes fun data _ => singleChunkHash_eq data).1 1 42 [97,98] (by decide)

end Records

end OmegaHarness.CompressionRecords
