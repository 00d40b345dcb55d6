import Mathlib.Tactic

/-!
# Blake3 on one chunk

The hash in the terms of its specification, for inputs which fit in one chunk and with the
default output of 32 bytes. The state is a square of four times four words. A round mixes
the four columns at once and then the four diagonals, which are the columns of the square
with its rows rotated. An input is cut into blocks of 64 bytes, the last one filled up with
zeros, and each block is compressed under the chaining value of the one before it. Trees of
several chunks, keys and longer outputs are left out.
-/
namespace OmegaHarness.Blake3Spec

/-- Words, counted from zero. -/
abbrev Words := ℕ → UInt32

/-- Rows, then columns. -/
abbrev Square := ℕ → ℕ → UInt32

def chunkStart : UInt32 := 1
def chunkEnd : UInt32 := 2
def root : UInt32 := 8

def iv : Words := fun k =>
  [0x6A09E667,0xBB67AE85,0x3C6EF372,0xA54FF53A,0x510E527F,0x9B05688C,0x1F83D9AB,0x5BE0CD19].getD k 0

def permutation (k : ℕ) : ℕ := [2,6,3,10,7,0,4,13,1,11,12,5,9,14,15,8].getD k 0

section Compression

def rotr (w : UInt32) (k : ℕ) : UInt32 := ⟨w.toBitVec.rotateRight k⟩

/-- The mixing function of one column. -/
def mix (v : Words) (x y : UInt32) : Words :=
  let a := v 0+v 1+x
  let d := rotr (v 3 ^^^ a) 16
  let c := v 2+d
  let b := rotr (v 1 ^^^ c) 12
  let a := a+b+y
  let d := rotr (d ^^^ a) 8
  let c := c+d
  let b := rotr (b ^^^ c) 7
  fun r => [a,b,c,d].getD r 0

def mixColumns (x y : Words) (v : Square) : Square :=
  fun r i => mix (fun r => v r i) (x i) (y i) r

/-- Each row rotated by its number, so that the diagonals stand in columns. -/
def shiftRows (v : Square) : Square := fun r i => v r ((i+r)%4)

def unshiftRows (v : Square) : Square := fun r i => v r ((i+4-r)%4)

def round (m : Words) (v : Square) : Square :=
  let columns := mixColumns (fun i => m (2*i)) (fun i => m (2*i+1)) v
  unshiftRows (mixColumns (fun i => m (8+2*i)) (fun i => m (9+2*i)) (shiftRows columns))

/-- Rounds, with the message permuted after each. -/
def rounds : ℕ → Words → Square → Square
  | 0,_,v => v
  | count+1,m,v => rounds count (m ∘ permutation) (round m v)

/-- The chaining value in the upper half, constants and parameters in the lower one. -/
def start (h : Words) (t : UInt64) (b d : UInt32) : Square := fun r i =>
  if r < 2 then h (4*r+i)
  else [iv 0,iv 1,iv 2,iv 3,t.toUInt32,(t >>> 32).toUInt32,b,d].getD (4*(r-2)+i) 0

/-- The sixteen output words: the upper half of the square over the lower one, and the lower
half over the chaining value. -/
def compress (h m : Words) (t : UInt64) (b d : UInt32) : Words :=
  let v := rounds 7 m (start h t b d)
  fun k => if k < 8 then v (k/4) (k%4) ^^^ v (k/4+2) (k%4) else v (k/4) (k%4) ^^^ h (k-8)

end Compression

section Chunk
variable (data : List UInt8)

/-- At least one block, also of the empty input. -/
def blockCount : ℕ := max 1 ((data.length+63)/64)

def block (k : ℕ) : List UInt8 := (data.drop (64*k)).take 64

def padded (bytes : List UInt8) : List UInt8 := bytes++List.replicate (64-bytes.length) 0

/-- Four bytes as a word, lowest first. -/
def word (bytes : List UInt8) : Words := fun k =>
  UInt32.ofNat (∑ j ∈ Finset.range 4, ((padded bytes).getD (4*k+j) 0).toNat*256^j)

/-- The first block starts the chunk. The last one ends it, and is the root of the tree. -/
def flags (k : ℕ) : UInt32 :=
  (if k = 0 then chunkStart else 0) ||| (if k+1 = blockCount data then chunkEnd ||| root else 0)

/-- The chaining value in front of a block. -/
def chain : ℕ → Words
  | 0 => iv
  | k+1 => compress (chain k) (word (block data k)) 0 (UInt32.ofNat (block data k).length)
      (flags data k)

/-- The first eight words of the last output, word by word and lowest byte first. -/
def hash : List UInt8 :=
  (List.range 8).flatMap fun i => (List.range 4).map fun j =>
    UInt8.ofNat ((chain data (blockCount data) i).toNat/256^j)

theorem blockCount_eq : blockCount data = (data.length-1)/64+1 := by
  unfold blockCount
  omega

theorem block_full {k : ℕ} (h : k+1 < blockCount data) : (block data k).length = 64 := by
  rw [blockCount_eq] at h
  rw [block,List.length_take,List.length_drop]
  omega

theorem block_last {k : ℕ} (h : k+1 = blockCount data) : block data k = data.drop (64*k) := by
  rw [blockCount_eq] at h
  apply List.take_of_length_le
  rw [List.length_drop]
  omega

/-- The zeros of the padding are what is read behind the end. -/
theorem padded_getD (bytes : List UInt8) (n : ℕ) : (padded bytes).getD n 0 = bytes.getD n 0 := by
  rw [padded,List.getD_eq_getElem?_getD,List.getD_eq_getElem?_getD,List.getElem?_append]
  split
  · rfl
  next h =>
    have hnone : bytes[n]? = none := List.getElem?_eq_none (by omega)
    rw [hnone,List.getElem?_replicate]
    split <;> rfl

end Chunk

end OmegaHarness.Blake3Spec
