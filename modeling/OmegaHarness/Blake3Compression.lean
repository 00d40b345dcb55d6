import OmegaHarness.DomainHashes

/-!
# Blake3 compressions and the single-chunk hash

The compression function as the trace generator computes it, and the two shapes
of input which the membership proof sends through it: a leaf in one block and a
node in two. `singleChunkHash` is Blake3 on inputs of at most one chunk. The
digest of the commitment core stays a parameter; `SingleChunk` says that on such
inputs it is this hash.
-/
namespace OmegaHarness.Blake3Compression
open FixedWidthBytes DomainHashes

def chunkStart : UInt32 := 1
def chunkEnd : UInt32 := 2
def rootFlag : UInt32 := 8
def leafFlags : UInt32 := chunkStart ||| chunkEnd ||| rootFlag
def nodeFirstFlags : UInt32 := chunkStart
def nodeSecondFlags : UInt32 := chunkEnd ||| rootFlag

def iv : Vector UInt32 8 :=
  #v[0x6A09E667,0xBB67AE85,0x3C6EF372,0xA54FF53A,0x510E527F,0x9B05688C,0x1F83D9AB,0x5BE0CD19]

def msgPermutation : Vector (Fin 16) 16 := #v[2,6,3,10,7,0,4,13,1,11,12,5,9,14,15,8]

def blockBytes : ℕ := 64

/-- `u32::rotate_right`. -/
def rotateRight (x : UInt32) (k : ℕ) : UInt32 := ⟨x.toBitVec.rotateRight k⟩

/-- The quarter round on four positions of the state. -/
def g (state : Vector UInt32 16) (a b c d : Fin 16) (mx my : UInt32) : Vector UInt32 16 :=
  let state := state.set a (state[a]+state[b]+mx)
  let state := state.set d (rotateRight (state[d] ^^^ state[a]) 16)
  let state := state.set c (state[c]+state[d])
  let state := state.set b (rotateRight (state[b] ^^^ state[c]) 12)
  let state := state.set a (state[a]+state[b]+my)
  let state := state.set d (rotateRight (state[d] ^^^ state[a]) 8)
  let state := state.set c (state[c]+state[d])
  state.set b (rotateRight (state[b] ^^^ state[c]) 7)

def round (state m : Vector UInt32 16) : Vector UInt32 16 :=
  let state := g state 0 4 8 12 m[0] m[1]
  let state := g state 1 5 9 13 m[2] m[3]
  let state := g state 2 6 10 14 m[4] m[5]
  let state := g state 3 7 11 15 m[6] m[7]
  let state := g state 0 5 10 15 m[8] m[9]
  let state := g state 1 6 11 12 m[10] m[11]
  let state := g state 2 7 8 13 m[12] m[13]
  g state 3 4 9 14 m[14] m[15]

def permute (m : Vector UInt32 16) : Vector UInt32 16 := Vector.ofFn fun i => m[msgPermutation[i]]

/-- `count` rounds, each followed by the message permutation. -/
def rounds : ℕ → Vector UInt32 16 → Vector UInt32 16 → Vector UInt32 16
  | 0,state,_ => state
  | count+1,state,m => rounds count (round state m) (permute m)

def compress (blockWords : Vector UInt32 16) (cvWords : Vector UInt32 8) (counter : UInt64)
    (blockLen flags : UInt32) : Vector UInt32 16 :=
  let state := rounds 7
    (cvWords ++ #v[iv[0],iv[1],iv[2],iv[3],counter.toUInt32,(counter >>> 32).toUInt32,blockLen,flags])
    blockWords
  Vector.ofFn fun i : Fin 16 =>
    if h : i.val < 8 then state[i] ^^^ state[i.val+8] else state[i] ^^^ cvWords[i.val-8]

/-- One invocation with its inputs and the first eight output words. -/
structure Compression where
  blockWords : Vector UInt32 16
  cvWords : Vector UInt32 8
  counter : UInt64
  blockLen : UInt32
  flags : UInt32
  outputWords : Vector UInt32 8
  deriving DecidableEq, Repr

def compression (blockWords : Vector UInt32 16) (cvWords : Vector UInt32 8) (counter : UInt64)
    (blockLen flags : UInt32) : Compression :=
  ⟨blockWords,cvWords,counter,blockLen,flags,
    Vector.ofFn fun i : Fin 8 => (compress blockWords cvWords counter blockLen flags)[i.val]⟩

/-- `u32::from_le_bytes` of the four bytes at a word position; bytes beyond the
end of the string read as zero, as in a zeroed block. -/
def wordAt (bytes : Bytes) (i : ℕ) : UInt32 :=
  UInt32.ofNat (ofLeBytes ((bytes.drop (4*i)).take 4))

def wordsAt (n : ℕ) (bytes : Bytes) : Vector UInt32 n := Vector.ofFn fun i => wordAt bytes i

def blockWords (block : Bytes) : Vector UInt32 16 := wordsAt 16 block

/-- `u32::to_le_bytes`. -/
def wordBytes (w : UInt32) : Bytes := leBytes 4 w.toNat

def wordsBytes {n : ℕ} (words : Vector UInt32 n) : Bytes := words.toList.flatMap wordBytes

@[simp] theorem wordBytes_length (w : UInt32) : (wordBytes w).length = 4 := by simp [wordBytes]

@[simp] theorem wordsBytes_length {n : ℕ} (words : Vector UInt32 n) :
    (wordsBytes words).length = 4*n := by
  simp [wordsBytes,List.length_flatMap,Nat.mul_comm]

/-- Eight words repacked as 32 bytes. -/
def hashFromWords (words : Vector UInt32 8) : Hash := ⟨⟨wordsBytes words⟩,by simp⟩

@[simp] theorem hashFromWords_toList (words : Vector UInt32 8) :
    (hashFromWords words).toList = wordsBytes words := rfl

theorem ofNat_ofLeBytes_wordBytes (w : UInt32) : UInt32.ofNat (ofLeBytes (wordBytes w)) = w := by
  rw [wordBytes,ofLeBytes_leBytes (by have := w.toNat_lt; omega)]
  exact UInt32.ofNat_toNat

theorem wordAt_flatMap (words : List UInt32) (i : ℕ) (h : i < words.length) :
    wordAt (words.flatMap wordBytes) i = words[i] := by
  induction words generalizing i with
  | nil => simp at h
  | cons w words ih =>
      cases i with
      | zero =>
          rw [wordAt,List.flatMap_cons,Nat.mul_zero,List.drop_zero,List.take_left' (wordBytes_length w)]
          exact ofNat_ofLeBytes_wordBytes w
      | succ i =>
          have hdrop : (wordBytes w++words.flatMap wordBytes).drop (4*(i+1)) =
              (words.flatMap wordBytes).drop (4*i) := by
            rw [Nat.mul_succ,Nat.add_comm,← List.drop_drop,List.drop_left' (wordBytes_length w)]
          rw [wordAt,List.flatMap_cons,hdrop]
          exact ih i (by simpa using h)

/-- Unpacking the bytes of words gives the words back. -/
theorem wordsAt_wordsBytes {n : ℕ} (words : Vector UInt32 n) :
    wordsAt n (wordsBytes words) = words := by
  apply Vector.ext
  intro i hi
  rw [wordsAt,Vector.getElem_ofFn,wordsBytes,wordAt_flatMap _ _ (by simpa using hi)]
  simp

theorem bytesOf_wordAt (n : ℕ) (bytes : Bytes) (h : bytes.length = 4*n) :
    (List.ofFn fun i : Fin n => wordAt bytes i).flatMap wordBytes = bytes := by
  induction n generalizing bytes with
  | zero =>
      have hnil : bytes = [] := List.length_eq_zero_iff.mp (by omega)
      rw [hnil]
      rfl
  | succ n ih =>
      have hfour : (bytes.take 4).length = 4 := by rw [List.length_take]; omega
      have hlt := ofLeBytes_lt (bytes.take 4)
      have hhead : wordBytes (wordAt bytes 0) = bytes.take 4 := by
        rw [hfour,show 256^4 = 2^32 by norm_num] at hlt
        rw [wordBytes,wordAt,Nat.mul_zero,List.drop_zero,UInt32.toNat_ofNat',Nat.mod_eq_of_lt hlt]
        nth_rewrite 1 [← hfour]
        exact leBytes_ofLeBytes _
      have hshift : ∀ i : Fin n, wordAt bytes i.succ = wordAt (bytes.drop 4) i := by
        intro i
        rw [wordAt,wordAt,List.drop_drop,Fin.val_succ,Nat.mul_succ,Nat.add_comm]
      rw [List.ofFn_succ,List.flatMap_cons,Fin.val_zero,hhead]
      simp only [hshift]
      rw [ih (bytes.drop 4) (by rw [List.length_drop]; omega),List.take_append_drop]

/-- Packing the words of a byte string of the right length gives the string back. -/
theorem wordsBytes_wordsAt {n : ℕ} {bytes : Bytes} (h : bytes.length = 4*n) :
    wordsBytes (wordsAt n bytes) = bytes := by
  rw [wordsBytes,wordsAt,Vector.toList_ofFn]
  exact bytesOf_wordAt n bytes h

/-- Zero padding does not change the words. -/
theorem wordsAt_append_zeros (n : ℕ) (bytes : Bytes) (k : ℕ) :
    wordsAt n (bytes++List.replicate k 0) = wordsAt n bytes := by
  apply Vector.ext
  intro i hi
  simp only [wordsAt,Vector.getElem_ofFn,wordAt,List.drop_append,List.take_append,
    List.drop_replicate,List.take_replicate,ofLeBytes_append_zeros]

/-- The chain through one chunk: `more` full blocks are followed by the closing
block, which carries the root flag. -/
def chunkCv : ℕ → Vector UInt32 8 → UInt32 → Bytes → Vector UInt32 8
  | 0,cv,start,data =>
      (compression (blockWords data) cv 0 (UInt32.ofNat data.length)
        (start ||| chunkEnd ||| rootFlag)).outputWords
  | more+1,cv,start,data =>
      chunkCv more (compression (blockWords (data.take blockBytes)) cv 0 64 start).outputWords 0
        (data.drop blockBytes)

/-- Blake3 with its default output length, on at most 1024 bytes. -/
def singleChunkHash (data : Bytes) : Hash :=
  hashFromWords (chunkCv ((data.length-1)/blockBytes) iv chunkStart data)

/-- The digest is Blake3 on every input which fits in one chunk. -/
def SingleChunk (blake3 : Bytes → Hash) : Prop :=
  ∀ data : Bytes, data.length ≤ 1024 → blake3 data = singleChunkHash data

theorem singleChunkHash_one {data : Bytes} (h : data.length ≤ 64) :
    singleChunkHash data = hashFromWords
      (compression (blockWords data) iv 0 (UInt32.ofNat data.length) leafFlags).outputWords := by
  have hblocks : (data.length-1)/blockBytes = 0 := by unfold blockBytes; omega
  rw [singleChunkHash,hblocks]
  rfl

theorem singleChunkHash_two {data : Bytes} (h : 64 < data.length) (h' : data.length ≤ 128) :
    singleChunkHash data = hashFromWords
      (compression (blockWords (data.drop 64))
        (compression (blockWords (data.take 64)) iv 0 64 nodeFirstFlags).outputWords 0
        (UInt32.ofNat (data.length-64)) nodeSecondFlags).outputWords := by
  have hblocks : (data.length-1)/blockBytes = 1 := by unfold blockBytes; omega
  rw [singleChunkHash,hblocks,chunkCv,chunkCv,List.length_drop]
  rfl

/-- The one compression behind a leaf hash whose preimage fits in a block. -/
def leafCompression (subTreeId : UInt8) (leafIndex : UInt64) (payload : Bytes) : Compression :=
  compression (blockWords (leafPreimage subTreeId leafIndex payload)) iv 0
    (UInt32.ofNat (domainLeaf.length+1+8+8+payload.length)) leafFlags

/-- The first of the two compressions behind a node hash. -/
def nodeFirstCompression (left right : Hash) : Compression :=
  compression (blockWords ((nodePreimage left right).take blockBytes)) iv 0 64 nodeFirstFlags

def nodeSecondCompression (left right : Hash) : Compression :=
  compression (blockWords ((nodePreimage left right).drop blockBytes))
    (nodeFirstCompression left right).outputWords 0
    (UInt32.ofNat ((nodePreimage left right).length-blockBytes)) nodeSecondFlags

theorem leafPreimage_length (s : UInt8) (i : UInt64) (payload : Bytes) :
    (leafPreimage s i payload).length = 30+payload.length := by
  simp only [leafPreimage,List.length_append,List.length_cons,domainLeaf_length,toBeBytes_length,
    beBytes_length]
  omega

theorem nodePreimage_length (left right : Hash) : (nodePreimage left right).length = 77 := by
  simp [nodePreimage]

section Digest
variable {blake3 : Bytes → Hash} (hchunk : SingleChunk blake3)

include hchunk

theorem leafHashV2_eq (s : UInt8) (i : UInt64) {payload : Bytes} (h : payload.length ≤ 34) :
    leafHashV2 blake3 s i payload = hashFromWords (leafCompression s i payload).outputWords := by
  have hlen := leafPreimage_length s i payload
  rw [leafHashV2,hchunk _ (by omega),singleChunkHash_one (by omega),hlen]
  rfl

theorem nodeHashV2_eq (left right : Hash) :
    nodeHashV2 blake3 left right =
      hashFromWords (nodeSecondCompression left right).outputWords := by
  have hlen := nodePreimage_length left right
  rw [nodeHashV2,hchunk _ (by omega),singleChunkHash_two (by omega) (by omega)]
  rfl

end Digest

/-- One lookup tuple between the two AIRs, as bytes. -/
def lookupBytes (c : Compression) : Bytes :=
  wordsBytes c.blockWords++(wordsBytes c.cvWords++(leBytes 8 c.counter.toNat++
    (leBytes 4 c.blockLen.toNat++(leBytes 4 c.flags.toNat++wordsBytes c.outputWords))))

end OmegaHarness.Blake3Compression
