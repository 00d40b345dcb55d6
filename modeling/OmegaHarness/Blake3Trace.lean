import OmegaHarness.AirCompleteness

/-!
# The hash trace

One row per compression, then rows of a dummy without flags up to a power of two. A
row holds every word as bits, and a second implementation of the compression fills
it: half rounds swept over the four columns and over the four diagonals of the state,
which is saved after each sweep. The lanes of a sweep share no word, so the sweeps
are the quarter rounds of the first implementation. The tuple which a row sends,
packed from its bits, is then the byte string of its compression.
-/
namespace OmegaHarness.Blake3Trace
open FixedWidthBytes MerkleTreeV1 BabyBearField Blake3Compression MembershipAir
open CellWrites MembershipTrace AirCompleteness

def dummyFlags : UInt32 := 0
def bitsPerWord : ℕ := 32

def b3InputsOffset : ℕ := 0
def b3ChainingValuesOffset : ℕ := b3InputsOffset+16*bitsPerWord
def b3CounterLowOffset : ℕ := b3ChainingValuesOffset+8*bitsPerWord
def b3CounterHiOffset : ℕ := b3CounterLowOffset+bitsPerWord
def b3BlockLenOffset : ℕ := b3CounterHiOffset+bitsPerWord
def b3FlagsOffset : ℕ := b3BlockLenOffset+bitsPerWord
def b3InitialRow0Offset : ℕ := b3FlagsOffset+bitsPerWord
def b3InitialRow2Offset : ℕ := b3InitialRow0Offset+8
def b3FullRoundsOffset : ℕ := b3InitialRow2Offset+8
def b3StateWidth : ℕ := 8+128+8+128
def b3FullRoundWidth : ℕ := b3StateWidth*4
def b3FinalHelpersOffset : ℕ := b3FullRoundsOffset+b3FullRoundWidth*7
def b3OutputsOffset : ℕ := b3FinalHelpersOffset+4*bitsPerWord
def expectedBlake3Cols : ℕ := b3OutputsOffset+16*bitsPerWord

section Rounds

def verifiableHalfRound (a b c d m : UInt32) (flag : Bool) : Vector UInt32 4 :=
  let rot1 := if flag then 8 else 16
  let rot2 := if flag then 7 else 12
  let a := a+b
  let a := a+m
  let d := rotateRight (d ^^^ a) rot1
  let c := c+d
  let b := rotateRight (b ^^^ c) rot2
  #v[a,b,c,d]

/-- The word of row `r` in lane `i`. The four rows of the state stand one after the
other; the lanes are the columns without a shift, and the diagonals with a shift of one. -/
def lane (shift i r : Fin 4) : Fin 16 := ⟨4*r.val+(i+r*shift).val,by omega⟩

def halfRoundAt (flag : Bool) (p : Fin 4 → Fin 16) (m : UInt32) (state : Vector UInt32 16) :
    Vector UInt32 16 :=
  let mixed := verifiableHalfRound (state.get (p 0)) (state.get (p 1)) (state.get (p 2))
    (state.get (p 3)) m flag
  (((state.set (p 0) (mixed.get 0)).set (p 1) (mixed.get 1)).set (p 2) (mixed.get 2)).set (p 3)
    (mixed.get 3)

/-- One half round in each lane. -/
def halfRounds (flag : Bool) (shift : Fin 4) (m : Fin 4 → UInt32) (state : Vector UInt32 16) :
    Vector UInt32 16 :=
  (List.finRange 4).foldl (fun state i => halfRoundAt flag (lane shift i) (m i) state) state

/-- `p3_air::utils::u32_to_bits_le`. -/
def u32ToBitsLe (value : UInt32) : List Val :=
  (List.range bitsPerWord).map fun k => boolVal (value.toNat.testBit k)

def writeBits (offset : ℕ) (value : UInt32) : Write Val := ⟨offset,u32ToBitsLe value⟩

def writeLimbs (offset : ℕ) (value : UInt32) : Write Val :=
  ⟨offset,[(value.toUInt16.toNat : Val),((value >>> 16).toUInt16.toNat : Val)]⟩

def saveState (offset : ℕ) (state : Vector UInt32 16) : List (Write Val) :=
  (List.finRange 4).flatMap fun i =>
    [writeLimbs (offset+i.val*2) state[i.val],
      writeBits (offset+8+i.val*bitsPerWord) state[4+i.val],
      writeLimbs (offset+8+128+i.val*2) state[8+i.val],
      writeBits (offset+8+128+8+i.val*bitsPerWord) state[12+i.val]]

/-- The cells of one round, and the state behind it. -/
def fillRound (roundOffset : ℕ) (state m : Vector UInt32 16) : List (Write Val) × Vector UInt32 16 :=
  let first := halfRounds false 0 (fun i => m[2*i.val]) state
  let second := halfRounds true 0 (fun i => m[2*i.val+1]) first
  let third := halfRounds false 1 (fun i => m[8+2*i.val]) second
  let fourth := halfRounds true 1 (fun i => m[9+2*i.val]) third
  (saveState roundOffset first++(saveState (roundOffset+b3StateWidth) second++
    (saveState (roundOffset+b3StateWidth*2) third++saveState (roundOffset+b3StateWidth*3) fourth)),
    fourth)

/-- `count` rounds from an offset on, each followed by the message permutation. -/
def fillRounds : ℕ → ℕ → Vector UInt32 16 → Vector UInt32 16 → List (Write Val) × Vector UInt32 16
  | 0,_,state,_ => ([],state)
  | count+1,offset,state,m =>
      let filled := fillRound offset state m
      let rest := fillRounds count (offset+b3FullRoundWidth) filled.2 (permute m)
      (filled.1++rest.1,rest.2)

theorem lane_inj : ∀ shift i j r t : Fin 4, lane shift i r = lane shift j t → i = j ∧ r = t := by
  decide

theorem lane_injective (shift i : Fin 4) : Function.Injective (lane shift i) := by
  intro r t h
  exact (lane_inj shift i i r t h).2

theorem eq_of_words {n : ℕ} {s t : Vector UInt32 n} (h : ∀ k, s.get k = t.get k) : s = t := by
  apply Vector.ext
  intro k hk
  exact h ⟨k,hk⟩

@[simp] theorem get_set {n : ℕ} (s : Vector UInt32 n) (j k : Fin n) (x : UInt32) :
    (s.set j x).get k = if j = k then x else s.get k := by
  change (s.set j x)[k.val] = if j = k then x else s[k.val]
  simp only [Vector.getElem_set,Fin.ext_iff]

theorem get_val {n : ℕ} (s : Vector UInt32 n) (k : Fin n) : s.get k = s[k.val] := rfl

theorem get_ofFn {n : ℕ} (f : Fin n → UInt32) (k : Fin n) : (Vector.ofFn f).get k = f k := by
  change (Vector.ofFn f)[k.val] = f k
  rw [Vector.getElem_ofFn]

section Lane
variable {p : Fin 4 → Fin 16} (hp : Function.Injective p) (flag : Bool) (m : UInt32)
  (state : Vector UInt32 16)

include hp in
/-- A half round leaves its mix in its own words. -/
theorem halfRoundAt_own (r : Fin 4) :
    (halfRoundAt flag p m state).get (p r) =
      (verifiableHalfRound (state.get (p 0)) (state.get (p 1)) (state.get (p 2)) (state.get (p 3)) m
        flag).get r := by
  unfold halfRoundAt
  match r with
  | 0 | 1 | 2 | 3 => simp [hp.eq_iff]

/-- It leaves every other word alone. -/
theorem halfRoundAt_other {k : Fin 16} (hk : ∀ r, p r ≠ k) :
    (halfRoundAt flag p m state).get k = state.get k := by
  simp [halfRoundAt,hk]

end Lane

/-- Half rounds in lanes without a common word commute. -/
theorem halfRoundAt_commute {p q : Fin 4 → Fin 16} (hp : Function.Injective p)
    (hq : Function.Injective q) (hpq : ∀ r t, p r ≠ q t) (flag flag' : Bool) (m m' : UInt32) :
    Function.Commute (halfRoundAt flag p m) (halfRoundAt flag' q m') := by
  intro state
  apply eq_of_words
  intro k
  have hqp : ∀ r, ∀ t, q t ≠ p r := fun r t => (hpq r t).symm
  by_cases hin : ∃ r, p r = k
  · obtain ⟨r,rfl⟩ := hin
    rw [halfRoundAt_own hp,halfRoundAt_other _ _ _ (hqp r),halfRoundAt_own hp]
    simp only [halfRoundAt_other _ _ _ (hqp _)]
  · have hout : ∀ r, p r ≠ k := fun r heq => hin ⟨r,heq⟩
    rw [halfRoundAt_other _ _ _ hout]
    by_cases hin' : ∃ t, q t = k
    · obtain ⟨t,rfl⟩ := hin'
      rw [halfRoundAt_own hq,halfRoundAt_own hq]
      simp only [halfRoundAt_other _ _ _ (fun r => hpq r _)]
    · have hout' : ∀ t, q t ≠ k := fun t heq => hin' ⟨t,heq⟩
      rw [halfRoundAt_other _ _ _ hout',halfRoundAt_other _ _ _ hout',
        halfRoundAt_other _ _ _ hout]

/-- Half of a quarter round, in the four assignments of the first implementation. -/
def assignHalf (state : Vector UInt32 16) (p : Fin 4 → Fin 16) (m : UInt32) (rot1 rot2 : ℕ) :
    Vector UInt32 16 :=
  let state := state.set (p 0) (state.get (p 0)+state.get (p 1)+m)
  let state := state.set (p 3) (rotateRight (state.get (p 3) ^^^ state.get (p 0)) rot1)
  let state := state.set (p 2) (state.get (p 2)+state.get (p 3))
  state.set (p 1) (rotateRight (state.get (p 1) ^^^ state.get (p 2)) rot2)

/-- Four assignments, each reading the ones before it, are one mix of the old words. -/
theorem assignHalf_eq {p : Fin 4 → Fin 16} (hp : Function.Injective p) (flag : Bool)
    (state : Vector UInt32 16) (m : UInt32) :
    assignHalf state p m (if flag then 8 else 16) (if flag then 7 else 12) =
      halfRoundAt flag p m state := by
  apply eq_of_words
  intro k
  by_cases hin : ∃ r, p r = k
  · obtain ⟨r,rfl⟩ := hin
    rw [halfRoundAt_own hp]
    match r with
    | 0 | 1 | 2 | 3 =>
        simp only [assignHalf,get_set,hp.eq_iff,reduceIte]
        rfl
  · have hout : ∀ r, p r ≠ k := fun r heq => hin ⟨r,heq⟩
    rw [halfRoundAt_other _ _ _ hout]
    simp [assignHalf,hout]

/-- A quarter round is its two half rounds. -/
theorem g_eq_halves {p : Fin 4 → Fin 16} (hp : Function.Injective p) (state : Vector UInt32 16)
    (mx my : UInt32) :
    g state (p 0) (p 1) (p 2) (p 3) mx my =
      halfRoundAt true p my (halfRoundAt false p mx state) := by
  rw [← assignHalf_eq hp true,← assignHalf_eq hp false]
  rfl

section Sweeps
variable {S I : Type} {first second : I → S → S}

theorem foldl_pass {f : S → S} {is : List I} (h : ∀ i ∈ is, Function.Commute f (first i)) (s : S) :
    f (is.foldl (fun s i => first i s) s) = is.foldl (fun s i => first i s) (f s) := by
  induction is generalizing s with
  | nil => rfl
  | cons i is ih =>
      rw [List.foldl_cons,List.foldl_cons,ih fun j hj => h j (List.mem_cons_of_mem _ hj),
        (h i List.mem_cons_self).eq]

/-- Two sweeps of operations which commute across lanes are one sweep. -/
theorem foldl_sweeps {is : List I} (hnodup : is.Nodup)
    (h : ∀ i j, i ≠ j → Function.Commute (second i) (first j)) (s : S) :
    is.foldl (fun s i => second i s) (is.foldl (fun s i => first i s) s) =
      is.foldl (fun s i => second i (first i s)) s := by
  induction is generalizing s with
  | nil => rfl
  | cons i is ih =>
      obtain ⟨hnot,hrest⟩ := List.nodup_cons.mp hnodup
      have hpass : ∀ j ∈ is, Function.Commute (second i) (first j) := by
        intro j hj
        exact h i j fun heq => hnot (heq ▸ hj)
      rw [List.foldl_cons,List.foldl_cons,List.foldl_cons,foldl_pass hpass,ih hrest]

end Sweeps

/-- One quarter round in each lane. -/
def quarterRounds (shift : Fin 4) (mx my : Fin 4 → UInt32) (state : Vector UInt32 16) :
    Vector UInt32 16 :=
  (List.finRange 4).foldl (fun state i => g state (lane shift i 0) (lane shift i 1) (lane shift i 2)
    (lane shift i 3) (mx i) (my i)) state

/-- Both sweeps of half rounds are one sweep of quarter rounds. -/
theorem halfRounds_eq_quarters (shift : Fin 4) (mx my : Fin 4 → UInt32) (state : Vector UInt32 16) :
    halfRounds true shift my (halfRounds false shift mx state) = quarterRounds shift mx my state := by
  have hcommute : ∀ i j : Fin 4, i ≠ j →
      Function.Commute (halfRoundAt true (lane shift i) (my i))
        (halfRoundAt false (lane shift j) (mx j)) := by
    intro i j hij
    apply halfRoundAt_commute (lane_injective shift i) (lane_injective shift j)
    intro r t heq
    exact hij (lane_inj shift i j r t heq).1
  unfold halfRounds quarterRounds
  rw [foldl_sweeps (List.nodup_finRange 4) hcommute]
  simp only [g_eq_halves (lane_injective shift _)]

/-- A round of the first implementation is a sweep over the columns and one over the diagonals. -/
theorem round_eq_quarters (state m : Vector UInt32 16) :
    round state m = quarterRounds 1 (fun i => m[8+2*i.val]) (fun i => m[9+2*i.val])
      (quarterRounds 0 (fun i => m[2*i.val]) (fun i => m[2*i.val+1]) state) := by
  have hlanes : List.finRange 4 = [0,1,2,3] := by decide
  unfold quarterRounds Blake3Compression.round
  rw [hlanes]
  simp only [List.foldl_cons,List.foldl_nil]
  rfl

/-- The second implementation of a round is the first. -/
theorem fillRound_state (offset : ℕ) (state m : Vector UInt32 16) :
    (fillRound offset state m).2 = round state m := by
  rw [round_eq_quarters,← halfRounds_eq_quarters,← halfRounds_eq_quarters]
  rfl

theorem fillRounds_state (count offset : ℕ) (state m : Vector UInt32 16) :
    (fillRounds count offset state m).2 = rounds count state m := by
  induction count generalizing offset state m with
  | zero => rfl
  | succ count ih => rw [fillRounds,rounds,ih,fillRound_state]

end Rounds

section Row

def wordWrites {n : ℕ} (offset : ℕ) (words : Vector UInt32 n) : List (Write Val) :=
  (List.finRange n).map fun i => writeBits (offset+i.val*bitsPerWord) words[i]

/-- The four words behind the chaining value. -/
def scalarWrites (c : Compression) : List (Write Val) :=
  [writeBits b3CounterLowOffset c.counter.toUInt32,
    writeBits b3CounterHiOffset (c.counter >>> 32).toUInt32,
    writeBits b3BlockLenOffset c.blockLen,
    writeBits b3FlagsOffset c.flags]

/-- The words which go into the compression. -/
def inputWrites (c : Compression) : List (Write Val) :=
  wordWrites b3InputsOffset c.blockWords++(wordWrites b3ChainingValuesOffset c.cvWords++
    scalarWrites c)

def initialWrites (c : Compression) : List (Write Val) :=
  (List.finRange 4).flatMap fun i =>
    [writeLimbs (b3InitialRow0Offset+i.val*2) c.cvWords[i.val],
      writeLimbs (b3InitialRow2Offset+i.val*2) iv[i.val]]

def initialState (c : Compression) : Vector UInt32 16 :=
  c.cvWords ++ #v[iv.get 0,iv.get 1,iv.get 2,iv.get 3,c.counter.toUInt32,
    (c.counter >>> 32).toUInt32,c.blockLen,c.flags]

def helperWrites (state : Vector UInt32 16) : List (Write Val) :=
  (List.finRange 4).map fun i => writeBits (b3FinalHelpersOffset+i.val*bitsPerWord) state[8+i.val]

/-- One pass of the output loop. -/
def outputGroup (c : Compression) (state : Vector UInt32 16) (i : Fin 4) : List (Write Val) :=
  [writeBits (b3OutputsOffset+i.val*bitsPerWord) (state[i.val] ^^^ state[8+i.val]),
    writeBits (b3OutputsOffset+(4+i.val)*bitsPerWord) (state[4+i.val] ^^^ state[12+i.val]),
    writeBits (b3OutputsOffset+(8+i.val)*bitsPerWord) (state[8+i.val] ^^^ c.cvWords[i.val]),
    writeBits (b3OutputsOffset+(12+i.val)*bitsPerWord) (state[12+i.val] ^^^ c.cvWords[4+i.val])]

def outputWrites (c : Compression) (state : Vector UInt32 16) : List (Write Val) :=
  (List.finRange 4).flatMap (outputGroup c state)

/-- Every cell of one row, in source order. -/
def fillTraceRow (row : Row) (c : Compression) : Row :=
  let filled := fillRounds 7 b3FullRoundsOffset (initialState c) c.blockWords
  applyAll row (inputWrites c++(initialWrites c++(filled.1++(helperWrites filled.2++
    outputWrites c filled.2))))

@[simp] theorem u32ToBitsLe_length (value : UInt32) : (u32ToBitsLe value).length = 32 := by
  simp [u32ToBitsLe,bitsPerWord]

@[simp] theorem writeBits_offset (offset : ℕ) (value : UInt32) :
    (writeBits offset value).offset = offset := rfl

@[simp] theorem writeBits_length (offset : ℕ) (value : UInt32) :
    (writeBits offset value).values.length = 32 := u32ToBitsLe_length value

@[simp] theorem writeLimbs_offset (offset : ℕ) (value : UInt32) :
    (writeLimbs offset value).offset = offset := rfl

@[simp] theorem writeLimbs_length (offset : ℕ) (value : UInt32) :
    (writeLimbs offset value).values.length = 2 := rfl

section Layout
variable (c : Compression) (state : Vector UInt32 16)

theorem saveState_laid (offset : ℕ) : Laid offset (offset+b3StateWidth) (saveState offset state) := by
  apply passes_laid [⟨offset,2⟩,⟨offset+8,32⟩,⟨offset+136,2⟩,⟨offset+144,32⟩]
  · exact Nat.le_add_right _ _
  · simp [b3StateWidth]
  · simp [Track.Before]
  · intro i
    simp only [List.forall₂_cons,List.Forall₂.nil,and_true,Track.Holds,writeBits_offset,
      writeBits_length,writeLimbs_offset,writeLimbs_length,bitsPerWord]

theorem fillRound_laid (offset : ℕ) (m : Vector UInt32 16) :
    Laid offset (offset+b3FullRoundWidth) (fillRound offset state m).1 :=
  (saveState_laid _ _).append ((saveState_laid _ _).append ((saveState_laid _ _).append
    (saveState_laid _ _)))

theorem fillRounds_laid (count offset : ℕ) (m : Vector UInt32 16) :
    Laid offset (offset+b3FullRoundWidth*count) (fillRounds count offset state m).1 := by
  induction count generalizing offset state m with
  | zero => exact Laid.nil offset
  | succ count ih =>
      have hwidth : offset+b3FullRoundWidth*(count+1) =
          offset+b3FullRoundWidth+b3FullRoundWidth*count := by
        rw [Nat.mul_succ]
        omega
      rw [fillRounds,hwidth]
      exact (fillRound_laid _ _ _).append (ih _ _ _)

/-- Words one after the other. -/
theorem words_laid {n : ℕ} (offset : ℕ) (word : Fin n → UInt32) : Laid offset (offset+n*bitsPerWord)
    ((List.finRange n).map fun i => writeBits (offset+i.val*bitsPerWord) (word i)) := by
  rw [List.map_eq_flatMap]
  apply passes_laid [⟨offset,32⟩]
  · exact Nat.le_add_right _ _
  · simp [bitsPerWord]
  · exact List.pairwise_singleton _ _
  · intro i
    simp only [List.forall₂_cons,List.Forall₂.nil,and_true,Track.Holds,writeBits_offset,
      writeBits_length,bitsPerWord]

theorem scalarWrites_laid : Laid b3CounterLowOffset b3InitialRow0Offset (scalarWrites c) := by
  refine ⟨by decide,?_,Ascending.apart (ascending_of_chain ?_)⟩
  · unfold scalarWrites
    simp only [between_cons,between_nil,and_true,writeBits_offset,writeBits_length,
      b3InitialRow0Offset,b3FlagsOffset,b3BlockLenOffset,b3CounterHiOffset,bitsPerWord]
    omega
  · simp [scalarWrites,b3FlagsOffset,b3BlockLenOffset,b3CounterHiOffset,bitsPerWord]

theorem inputWrites_laid : Laid b3InputsOffset b3InitialRow0Offset (inputWrites c) :=
  (words_laid b3InputsOffset _).append
    ((words_laid b3ChainingValuesOffset _).append (scalarWrites_laid c))

theorem initialWrites_laid : Laid b3InitialRow0Offset b3FullRoundsOffset (initialWrites c) := by
  apply passes_laid [⟨b3InitialRow0Offset,2⟩,⟨b3InitialRow2Offset,2⟩]
  · decide
  · simp [b3FullRoundsOffset,b3InitialRow2Offset]
  · simp [Track.Before,b3InitialRow2Offset]
  · intro i
    simp only [List.forall₂_cons,List.Forall₂.nil,and_true,Track.Holds,writeLimbs_offset,
      writeLimbs_length]

/-- Each pass of the output loop writes one word of each of the four rows. -/
theorem outputWrites_laid : Laid b3OutputsOffset expectedBlake3Cols (outputWrites c state) := by
  apply passes_laid [⟨b3OutputsOffset,32⟩,⟨b3OutputsOffset+128,32⟩,⟨b3OutputsOffset+256,32⟩,
    ⟨b3OutputsOffset+384,32⟩]
  · decide
  · simp [expectedBlake3Cols,bitsPerWord]
  · simp [Track.Before]
  · intro i
    simp only [outputGroup,List.forall₂_cons,List.Forall₂.nil,and_true,true_and,Track.Holds,
      writeBits_offset,writeBits_length,bitsPerWord]
    omega

/-- Every write of one row, in source order. -/
def rowWrites : List (Write Val) :=
  let filled := fillRounds 7 b3FullRoundsOffset (initialState c) c.blockWords
  inputWrites c++(initialWrites c++(filled.1++(helperWrites filled.2++outputWrites c filled.2)))

theorem fillTraceRow_eq (row : Row) : fillTraceRow row c = applyAll row (rowWrites c) := rfl

/-- They follow the layout of the row: no cell is written twice, and none outside. -/
theorem rowWrites_laid : Laid 0 expectedBlake3Cols (rowWrites c) :=
  (inputWrites_laid c).append ((initialWrites_laid c).append ((fillRounds_laid _ 7 _ _).append
    ((words_laid b3FinalHelpersOffset _).append (outputWrites_laid c _))))

end Layout

/-- The bits of a word, from an offset on. -/
def WordAt (row : Row) (offset : ℕ) (word : UInt32) : Prop :=
  ∀ k < 32, row (offset+k) = boolVal (word.toNat.testBit k)

theorem wordAt_of_writes (row : Row) {writes : List (Write Val)} (hapart : writes.Pairwise Apart)
    {offset : ℕ} {word : UInt32} (hmem : writeBits offset word ∈ writes) :
    WordAt (applyAll row writes) offset word := by
  intro k hk
  have hcell := applyAll_inside_of_apart row hapart hmem (by simpa using hk) 0
  rw [writeBits_offset] at hcell
  rw [hcell,writeBits,u32ToBitsLe]
  simp [List.getD_eq_getElem?_getD,bitsPerWord,hk]

theorem boolVal_injective : Function.Injective boolVal := by
  intro a b h
  rw [Bool.eq_iff_iff,← boolVal_one,← boolVal_one,h]

/-- A word is known from its bits. -/
theorem WordAt.unique {row : Row} {offset : ℕ} {word other : UInt32} (h : WordAt row offset word)
    (hother : WordAt row offset other) : word = other := by
  apply UInt32.toNat_inj.mp
  apply Nat.eq_of_testBit_eq
  intro k
  by_cases hk : k < 32
  · apply boolVal_injective
    rw [← h k hk,← hother k hk]
  · have hpow : 2^32 ≤ 2^k := Nat.pow_le_pow_right (by decide) (by omega)
    rw [Nat.testBit_lt_two_pow (word.toNat_lt.trans_le hpow),
      Nat.testBit_lt_two_pow (other.toNat_lt.trans_le hpow)]

/-- What a filled row holds of the words which its tuple is packed from. -/
structure FilledHashRow (c : Compression) (row : Row) : Prop where
  block : ∀ i, WordAt row (b3InputsOffset+i.val*32) (c.blockWords.get i)
  chaining : ∀ i, WordAt row (b3ChainingValuesOffset+i.val*32) (c.cvWords.get i)
  counterLow : WordAt row b3CounterLowOffset c.counter.toUInt32
  counterHi : WordAt row b3CounterHiOffset (c.counter >>> 32).toUInt32
  blockLen : WordAt row b3BlockLenOffset c.blockLen
  flags : WordAt row b3FlagsOffset c.flags
  outputs : ∀ i, WordAt row (b3OutputsOffset+i.val*32)
    ((compression c.blockWords c.cvWords c.counter c.blockLen c.flags).outputWords.get i)

section Fill
variable (row : Row) (c : Compression)

/-- A word which is written stays. -/
theorem fill_word {offset : ℕ} {word : UInt32} (hmem : writeBits offset word ∈ rowWrites c) :
    WordAt (fillTraceRow row c) offset word := by
  rw [fillTraceRow_eq]
  exact wordAt_of_writes row (rowWrites_laid c).apart hmem

theorem fill_input {offset : ℕ} {word : UInt32} (hmem : writeBits offset word ∈ inputWrites c) :
    WordAt (fillTraceRow row c) offset word := fill_word row c (List.mem_append_left _ hmem)

/-- The upper words of the first implementation, from its last state. -/
theorem compress_upper {i j : Fin 16} (hi : i.val < 8) (hj : j.val = i.val+8) :
    (compress c.blockWords c.cvWords c.counter c.blockLen c.flags).get i =
      (rounds 7 (initialState c) c.blockWords).get i ^^^
        (rounds 7 (initialState c) c.blockWords).get j := by
  have hpartner : i.val+8 < 16 := by omega
  obtain rfl : j = ⟨i.val+8,hpartner⟩ := Fin.ext hj
  unfold compress
  dsimp only
  rw [get_ofFn,dif_pos hi]
  rfl

theorem compress_lower {i : Fin 16} {j : Fin 8} (hj : i.val = j.val+8) :
    (compress c.blockWords c.cvWords c.counter c.blockLen c.flags).get i =
      (rounds 7 (initialState c) c.blockWords).get i ^^^ c.cvWords.get j := by
  have hword : j.val+8 < 16 := by omega
  obtain rfl : i = ⟨j.val+8,hword⟩ := Fin.ext hj
  unfold compress
  dsimp only
  rw [get_ofFn,dif_neg (by simp)]
  rfl

/-- Every word of the compression is among the outputs: the upper rows from their own row and
the one two below, the lower rows from their own row and the chaining value. -/
theorem output_written (i : Fin 16) :
    writeBits (b3OutputsOffset+i.val*32)
        ((compress c.blockWords c.cvWords c.counter c.blockLen c.flags).get i) ∈
      outputWrites c (rounds 7 (initialState c) c.blockWords) := by
  have hlt := i.isLt
  by_cases hupper : i.val < 8
  · rw [compress_upper c (j := ⟨i.val+8,by omega⟩) hupper rfl]
    by_cases hfirst : i.val < 4
    · refine List.mem_flatMap.mpr ⟨⟨i.val,hfirst⟩,List.mem_finRange _,?_⟩
      simp [outputGroup,bitsPerWord,Nat.add_comm,get_val]
    · refine List.mem_flatMap.mpr ⟨⟨i.val-4,by omega⟩,List.mem_finRange _,?_⟩
      have hrow : 4+(i.val-4) = i.val := by omega
      have hpartner : 12+(i.val-4) = i.val+8 := by omega
      simp [outputGroup,bitsPerWord,hrow,hpartner,get_val]
  · rw [compress_lower c (j := ⟨i.val-8,by omega⟩) (Nat.sub_add_cancel (by omega)).symm]
    by_cases hthird : i.val < 12
    · refine List.mem_flatMap.mpr ⟨⟨i.val-8,by omega⟩,List.mem_finRange _,?_⟩
      have hrow : 8+(i.val-8) = i.val := by omega
      simp [outputGroup,bitsPerWord,hrow,get_val]
    · refine List.mem_flatMap.mpr ⟨⟨i.val-12,by omega⟩,List.mem_finRange _,?_⟩
      have hrow : 12+(i.val-12) = i.val := by omega
      have hword : 4+(i.val-12) = i.val-8 := by omega
      simp [outputGroup,bitsPerWord,hrow,hword,get_val]

theorem fill_output (i : Fin 16) :
    WordAt (fillTraceRow row c) (b3OutputsOffset+i.val*32)
      ((compress c.blockWords c.cvWords c.counter c.blockLen c.flags).get i) := by
  apply fill_word
  unfold rowWrites
  dsimp only
  rw [fillRounds_state]
  simp only [List.mem_append]
  exact Or.inr (Or.inr (Or.inr (Or.inr (output_written c i))))

theorem filled_hash_row : FilledHashRow c (fillTraceRow row c) := by
  constructor
  · intro i
    apply fill_input
    exact List.mem_append_left _ (List.mem_map.mpr ⟨i,List.mem_finRange i,rfl⟩)
  · intro i
    apply fill_input
    exact List.mem_append_right _ (List.mem_append_left _
      (List.mem_map.mpr ⟨i,List.mem_finRange i,rfl⟩))
  · apply fill_input
    simp [inputWrites,scalarWrites]
  · apply fill_input
    simp [inputWrites,scalarWrites]
  · apply fill_input
    simp [inputWrites,scalarWrites]
  · apply fill_input
    simp [inputWrites,scalarWrites]
  · intro i
    have hword : (compression c.blockWords c.cvWords c.counter c.blockLen c.flags).outputWords.get i =
        (compress c.blockWords c.cvWords c.counter c.blockLen c.flags).get ⟨i.val,by omega⟩ := by
      unfold compression
      rw [get_ofFn]
      rfl
    rw [hword]
    exact fill_output row c ⟨i.val,by omega⟩

/-- The sixteen words at the outputs of a filled row are those of the first implementation,
each of the words which went in stands in its own bits, and no write of the row reaches the
cells of another. -/
theorem trace_row_compression (blockWords : Vector UInt32 16) (cvWords : Vector UInt32 8)
    (counter : UInt64) (blockLen flags : UInt32) (outputWords : Vector UInt32 8) :
    let c : Compression := ⟨blockWords,cvWords,counter,blockLen,flags,outputWords⟩
    let filled := fillTraceRow row c
    (∀ (i : Fin 16) (word : UInt32), WordAt filled (b3OutputsOffset+i.val*bitsPerWord) word ↔
      word = (compress blockWords cvWords counter blockLen flags).get i) ∧
    (∀ i : Fin 16, WordAt filled (b3InputsOffset+i.val*bitsPerWord) (blockWords.get i)) ∧
    (∀ i : Fin 8, WordAt filled (b3ChainingValuesOffset+i.val*bitsPerWord) (cvWords.get i)) ∧
    WordAt filled b3CounterLowOffset counter.toUInt32 ∧
    WordAt filled b3CounterHiOffset (counter >>> 32).toUInt32 ∧
    WordAt filled b3BlockLenOffset blockLen ∧
    WordAt filled b3FlagsOffset flags ∧
    filled = applyAll row (rowWrites c) ∧
    (rowWrites c).Pairwise Apart ∧
    Between 0 expectedBlake3Cols (rowWrites c) := by
  intro c filled
  have hrow : FilledHashRow c filled := filled_hash_row row c
  have hlaid := rowWrites_laid c
  refine ⟨?_,hrow.block,hrow.chaining,hrow.counterLow,hrow.counterHi,hrow.blockLen,hrow.flags,
    fillTraceRow_eq c row,hlaid.apart,hlaid.between⟩
  intro i word
  have hown := fill_output row c i
  constructor
  · intro hword
    exact hword.unique hown
  · intro hword
    rw [hword]
    exact hown

end Fill

end Row

section Tuple

def byteExprFromBits (row : Row) (offset : ℕ) : Val :=
  ∑ bit ∈ Finset.range 8, row (offset+bit)*((2^bit : ℕ) : Val)

/-- The four bytes of a word, from its bits. -/
def wordCells (row : Row) (offset : ℕ) : List Val :=
  (List.range 4).map fun byte => byteExprFromBits row (offset+byte*8)

def wordsCells (row : Row) (offset count : ℕ) : List Val :=
  (List.finRange count).flatMap fun word => wordCells row (offset+word.val*32)

def blake3TableLookupCells (row : Row) : List Val :=
  wordsCells row b3InputsOffset 16++(wordsCells row b3ChainingValuesOffset 8++
    (wordCells row b3CounterLowOffset++(wordCells row b3CounterHiOffset++
      (wordCells row b3BlockLenOffset++(wordCells row b3FlagsOffset++
        wordsCells row b3OutputsOffset 8)))))

/-- The tuple one row sends, with the arithmetic or of its two lowest flag bits. -/
def sends (row : Row) : List (List Val × Val) :=
  let flag0 := row b3FlagsOffset
  let flag1 := row (b3FlagsOffset+1)
  [(blake3TableLookupCells row,flag0+flag1-flag0*flag1)]

variable {row : Row} {offset : ℕ}

theorem byteExprFromBits_eq {word : UInt32} (h : WordAt row offset word) {byte : ℕ}
    (hbyte : byte < 4) :
    byteExprFromBits row (offset+byte*8) = byteVal (UInt8.ofNat (word.toNat/256^byte)) := by
  have hbits : ∀ bit ∈ Finset.range 8, row (offset+byte*8+bit)*(2^bit : Val) =
      boolVal ((word.toNat/256^byte % 256).testBit bit)*(2^bit : Val) := by
    intro bit hbit
    have hlt := Finset.mem_range.mp hbit
    have hpow : 256^byte = 2^(byte*8) := by rw [Nat.mul_comm,pow_mul,show 2^8 = 256 by rfl]
    rw [Nat.add_assoc,h _ (by omega),hpow,show 256 = 2^8 by rfl,Nat.testBit_mod_two_pow,
      Nat.testBit_div_two_pow,Nat.add_comm bit,decide_eq_true hlt,Bool.true_and]
  simp only [byteExprFromBits,Nat.cast_pow,Nat.cast_ofNat]
  rw [Finset.sum_congr rfl hbits,pack_testBit (Nat.mod_lt _ (by norm_num)),byteVal,
    toNat_ofNat_byte]

theorem wordCells_eq {word : UInt32} (h : WordAt row offset word) :
    wordCells row offset = (wordBytes word).map byteVal := by
  rw [wordCells,wordBytes,leBytes_eq_map,List.map_map]
  apply List.map_congr_left
  intro byte hbyte
  exact byteExprFromBits_eq h (List.mem_range.mp hbyte)

theorem toList_eq_map {n : ℕ} (words : Vector UInt32 n) :
    words.toList = (List.finRange n).map fun i => words[i] := by
  rw [← List.ofFn_eq_map,← Vector.toList_ofFn]
  congr 1
  exact Vector.ext fun i hi => by simp

theorem wordsCells_eq {n : ℕ} {words : Vector UInt32 n}
    (h : ∀ i, WordAt row (offset+i.val*32) (words.get i)) :
    wordsCells row offset n = (wordsBytes words).map byteVal := by
  rw [wordsCells,wordsBytes,toList_eq_map,List.flatMap_map,List.map_flatMap]
  apply List.flatMap_congr
  intro i _
  exact wordCells_eq (h i)

/-- The two halves of the counter. -/
theorem counter_bytes (counter : UInt64) :
    wordBytes counter.toUInt32++wordBytes (counter >>> 32).toUInt32 = leBytes 8 counter.toNat := by
  have hlt := counter.toNat_lt
  have hhigh : (counter >>> 32).toUInt32.toNat = counter.toNat/256^4 := by
    rw [UInt64.toNat_toUInt32,UInt64.toNat_shiftRight,Nat.shiftRight_eq_div_pow]
    change counter.toNat/2^32 % 2^32 = counter.toNat/256^4
    omega
  have hlow : leBytes 4 counter.toUInt32.toNat = leBytes 4 counter.toNat := by
    rw [UInt64.toNat_toUInt32]
    simp only [leBytes,List.cons.injEq,ofNat_eq_iff,and_true]
    omega
  rw [wordBytes,wordBytes,hlow,hhigh,← leBytes_add]

/-- The tuple of a filled row is the byte string of its compression. -/
theorem tableLookupCells_eq {c : Compression} (h : FilledHashRow c row) (hc : Genuine c) :
    blake3TableLookupCells row = (lookupBytes c).map byteVal := by
  have houtputs := h.outputs
  unfold Genuine at hc
  rw [← hc] at houtputs
  rw [blake3TableLookupCells,wordsCells_eq h.block,wordsCells_eq h.chaining,wordCells_eq h.counterLow,
    wordCells_eq h.counterHi,wordCells_eq h.blockLen,wordCells_eq h.flags,wordsCells_eq houtputs,
    lookupBytes,← counter_bytes]
  simp only [List.map_append,List.append_assoc]
  rfl

/-- The arithmetic or of two bits. -/
theorem boolVal_or (a b : Bool) : boolVal a+boolVal b-boolVal a*boolVal b = boolVal (a || b) := by
  cases a <;> cases b <;> simp [boolVal]

theorem filled_sends {c : Compression} (hc : Genuine c) (row : Row) :
    sends (fillTraceRow row c) = [((lookupBytes c).map byteVal,
      boolVal (c.flags.toNat.testBit 0 || c.flags.toNat.testBit 1))] := by
  have hfilled := filled_hash_row row c
  have hflag0 := hfilled.flags 0 (by norm_num)
  have hflag1 := hfilled.flags 1 (by norm_num)
  rw [Nat.add_zero] at hflag0
  rw [sends,tableLookupCells_eq hfilled hc,hflag0,hflag1,boolVal_or]

end Tuple

section Trace

def dummyCompression : Compression := compression (Vector.replicate 16 0) iv 0 0 dummyFlags

/-- One row for each compression, then dummies. Without compressions the first row
stays zero: it counts as real, and nothing fills it. -/
def buildBlake3Trace (compressions : List Compression) : Trace :=
  let realRows := max compressions.length 1
  { height := nextPowerOfTwo realRows
    row := fun r => match compressions[r]? with
      | some c => fillTraceRow zeroRow c
      | none => if realRows ≤ r then fillTraceRow zeroRow dummyCompression else zeroRow }

variable {compressions : List Compression}

theorem compressions_le_height :
    compressions.length ≤ (buildBlake3Trace compressions).height := by
  have hpow : max compressions.length 1 ≤ nextPowerOfTwo (max compressions.length 1) :=
    Nat.le_pow_clog (by omega) _
  exact le_trans (le_max_left _ _) hpow

theorem hash_row_real {r : ℕ} {c : Compression} (h : compressions[r]? = some c) :
    (buildBlake3Trace compressions).row r = fillTraceRow zeroRow c := by
  simp only [buildBlake3Trace,h]

/-- Nothing is sent behind the last compression. -/
theorem hash_row_padding {r : ℕ} (h : compressions.length ≤ r) {send : List Val × Val}
    (hmem : send ∈ sends ((buildBlake3Trace compressions).row r)) : send.2 = 0 := by
  have hnone : compressions[r]? = none := List.getElem?_eq_none h
  have hgenuine : Genuine dummyCompression := rfl
  simp only [buildBlake3Trace,hnone] at hmem
  split at hmem
  · rw [filled_sends hgenuine,List.mem_singleton] at hmem
    rw [hmem]
    rfl
  · rw [sends,List.mem_singleton] at hmem
    rw [hmem]
    simp [zeroRow]

end Trace

end OmegaHarness.Blake3Trace
