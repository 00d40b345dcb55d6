import OmegaHarness.ByteDecoders
import OmegaHarness.FixedWidthBytes

/-!
# CBOR items of definite length

A CBOR item starts with a head: three bits of major type and five which hold a
small argument or the width of the argument behind it. RFC 8949 lets a decoder
accept an argument at any width it fits, and calls the shortest one preferred.
A library reader and a library writer are parameters of everything which uses
them; the laws they are assumed to keep are stated here, and a plain reader and
writer which keep them are given, so that the laws are known to be consistent.
-/
namespace OmegaHarness.CborHeads
open FixedWidthBytes ByteDecoders

/-- The major types in use. -/
inductive Major where
  | unsigned
  | bytes
  | array
  | map
  deriving DecidableEq, Repr

def Major.code : Major → ℕ
  | .unsigned => 0
  | .bytes => 2
  | .array => 4
  | .map => 5

/-- Where the argument of a head stands: in the first byte, or in so many bytes
behind it. -/
inductive Width where
  | direct
  | one
  | two
  | four
  | eight
  deriving DecidableEq, Repr

namespace Width

def count : Width → ℕ
  | direct => 0
  | one => 1
  | two => 2
  | four => 4
  | eight => 8

/-- The arguments of a width are those below this limit. -/
def limit : Width → ℕ
  | direct => 24
  | one => 2^8
  | two => 2^16
  | four => 2^32
  | eight => 2^64

/-- The low five bits of the first byte. -/
def info : Width → ℕ → ℕ
  | direct,n => n
  | one,_ => 24
  | two,_ => 25
  | four,_ => 26
  | eight,_ => 27

def ofInfo (i : ℕ) : Option Width :=
  if i < 24 then some direct
  else if i = 24 then some one
  else if i = 25 then some two
  else if i = 26 then some four
  else if i = 27 then some eight
  else none

theorem info_lt {w : Width} {n : ℕ} (h : n < w.limit) : w.info n < 28 := by
  cases w with
  | direct => exact Nat.lt_of_lt_of_le h (by decide)
  | one | two | four | eight => simp [info]

theorem ofInfo_info {w : Width} {n : ℕ} (h : n < w.limit) : ofInfo (w.info n) = some w := by
  cases w with
  | direct => exact if_pos h
  | one | two | four | eight => rfl

theorem limit_eq_pow {w : Width} (h : w ≠ direct) : w.limit = 256^w.count := by
  cases w with
  | direct => exact (h rfl).elim
  | one | two | four | eight => decide

theorem limit_mono {v w : Width} (h : v.count ≤ w.count) : v.limit ≤ w.limit := by
  revert h
  cases v <;> cases w <;> decide

theorem count_inj {v w : Width} (h : v.count = w.count) : v = w := by
  revert h
  cases v <;> cases w <;> decide

/-- The least width which holds the argument. -/
def minimal (n : ℕ) : Width :=
  if n < 24 then direct
  else if n < 2^8 then one
  else if n < 2^16 then two
  else if n < 2^32 then four
  else eight

theorem lt_minimal_limit {n : ℕ} (h : n < 2^64) : n < (minimal n).limit := by
  unfold minimal
  split_ifs with h1 h2 h3 h4
  all_goals assumption

theorem minimal_count_le {n : ℕ} {w : Width} (h : n < w.limit) : (minimal n).count ≤ w.count := by
  unfold minimal
  cases w with
  | direct | one | two | four | eight =>
      unfold limit at h
      split_ifs
      all_goals decide

end Width

def head (m : Major) (w : Width) (n : ℕ) : List UInt8 :=
  UInt8.ofNat (32*m.code+w.info n)::beBytes w.count n

@[simp] theorem head_length (m : Major) (w : Width) (n : ℕ) :
    (head m w n).length = 1+w.count := by
  simp [head,Nat.add_comm]

theorem Major.code_lt (m : Major) : m.code < 8 := by
  cases m <;> decide

theorem Major.code_inj {m k : Major} (h : m.code = k.code) : m = k := by
  revert h
  cases m <;> cases k <;> decide

theorem first_byte {m : Major} {w : Width} {n : ℕ} (h : n < w.limit) :
    (UInt8.ofNat (32*m.code+w.info n)).toNat = 32*m.code+w.info n := by
  have hm := m.code_lt
  have hi := Width.info_lt h
  rw [toNat_ofNat_byte]
  omega

/-- Heads are free of common beginnings: one head is read off a string in at
most one way. -/
theorem head_append_inj {m k : Major} {v w : Width} {a b : ℕ} {x y : List UInt8}
    (ha : a < v.limit) (hb : b < w.limit) (h : head m v a++x = head k w b++y) :
    m = k ∧ v = w ∧ a = b ∧ x = y := by
  rw [head,head,List.cons_append,List.cons_append,List.cons.injEq] at h
  obtain ⟨hfirst,hrest⟩ := h
  have hbyte := congrArg UInt8.toNat hfirst
  rw [first_byte ha,first_byte hb] at hbyte
  have hinfo := Width.info_lt ha
  have hinfo' := Width.info_lt hb
  have hmajor : m = k := Major.code_inj (by omega)
  have hsame : v.info a = w.info b := by
    rw [hmajor] at hbyte
    omega
  have hwidth : v = w := by
    have hv := Width.ofInfo_info ha
    rw [hsame,Width.ofInfo_info hb] at hv
    exact (Option.some.inj hv).symm
  subst hmajor hwidth
  obtain ⟨hargument,hx⟩ := List.append_inj hrest (by simp)
  refine ⟨rfl,rfl,?_,hx⟩
  by_cases hd : v = .direct
  · subst hd
    exact hsame
  · rw [Width.limit_eq_pow hd] at ha hb
    exact beBytes_inj ha hb hargument

/-- The head of the least width. -/
def minimalHead (m : Major) (n : ℕ) : List UInt8 := head m (Width.minimal n) n

/-- The heads of an argument, at every width it fits. -/
def anyHead (m : Major) (n : ℕ) : Language UInt8 := {x | ∃ w : Width, n < w.limit ∧ x = head m w n}

theorem minimalHead_mem {m : Major} {n : ℕ} (h : n < 2^64) : minimalHead m n ∈ anyHead m n :=
  ⟨Width.minimal n,Width.lt_minimal_limit h,rfl⟩

theorem lt_of_mem_anyHead {m : Major} {n : ℕ} {x : List UInt8} (h : x ∈ anyHead m n) :
    n < 2^64 := by
  obtain ⟨w,hw,-⟩ := h
  have hle : w.limit ≤ Width.eight.limit := Width.limit_mono (by cases w <;> decide)
  exact Nat.lt_of_lt_of_le hw hle

/-! ## Items, readers and writers -/

/-- The byte strings which stand for each value. -/
structure Items where
  u8 : UInt8 → Language UInt8
  u64 : UInt64 → Language UInt8
  bytes : List UInt8 → Language UInt8
  array : UInt64 → Language UInt8

/-- Every form RFC 8949 gives a value of definite length. -/
def Items.rfc : Items where
  u8 v := anyHead .unsigned v.toNat
  u64 v := anyHead .unsigned v.toNat
  bytes v := anyHead .bytes v.length*{v}
  array n := anyHead .array n.toNat

theorem mem_rfc_bytes {v x : List UInt8} (h : x ∈ Items.rfc.bytes v) :
    ∃ w : Width, v.length < w.limit ∧ x = head .bytes w v.length++v := by
  obtain ⟨y,⟨w,hw,rfl⟩,z,hz,rfl⟩ := Language.mem_mul.mp h
  cases hz
  exact ⟨w,hw,rfl⟩

theorem minimalBytes_mem {v : List UInt8} (h : v.length < 2^64) :
    minimalHead .bytes v.length++v ∈ Items.rfc.bytes v :=
  Language.append_mem_mul (minimalHead_mem h) rfl

/-- What a library decoder offers: each call takes the rest of the input and
returns a value with what it leaves. An array of indefinite length has no count. -/
structure Reader where
  u8 : List UInt8 → Except String (UInt8 × List UInt8)
  u64 : List UInt8 → Except String (UInt64 × List UInt8)
  bytes : List UInt8 → Except String (List UInt8 × List UInt8)
  array : List UInt8 → Except String (Option UInt64 × List UInt8)

/-- Each form of a value is read as the value. -/
structure Reader.Reads (r : Reader) (F : Items) : Prop where
  u8 : ∀ v, ∀ x ∈ F.u8 v, ∀ rest, r.u8 (x++rest) = .ok (v,rest)
  u64 : ∀ v, ∀ x ∈ F.u64 v, ∀ rest, r.u64 (x++rest) = .ok (v,rest)
  bytes : ∀ v, ∀ x ∈ F.bytes v, ∀ rest, r.bytes (x++rest) = .ok (v,rest)
  array : ∀ n, ∀ x ∈ F.array n, ∀ rest, r.array (x++rest) = .ok (some n,rest)

/-- The reader accepts the definite forms at every width, and nothing else as a
value. -/
structure Reader.FollowsRfc (r : Reader) : Prop extends r.Reads Items.rfc where
  u8_inverts : ∀ {s v t}, r.u8 s = .ok (v,t) → ∃ x ∈ Items.rfc.u8 v, s = x++t
  u64_inverts : ∀ {s v t}, r.u64 s = .ok (v,t) → ∃ x ∈ Items.rfc.u64 v, s = x++t
  bytes_inverts : ∀ {s v t}, r.bytes s = .ok (v,t) → ∃ x ∈ Items.rfc.bytes v, s = x++t
  array_inverts : ∀ {s n t}, r.array s = .ok (some n,t) → ∃ x ∈ Items.rfc.array n, s = x++t

/-- What a library encoder offers. -/
structure Writer where
  u8 : UInt8 → List UInt8
  u64 : UInt64 → List UInt8
  bytes : List UInt8 → List UInt8
  array : UInt64 → List UInt8

/-- What the writer puts out. A byte string in memory has no more than `isizeMax` bytes. -/
def Items.written (w : Writer) : Items where
  u8 v := {w.u8 v}
  u64 v := {w.u64 v}
  bytes v := {x | v.length ≤ isizeMax ∧ x = w.bytes v}
  array n := {w.array n}

/-- Preferred heads throughout. A length is cast to 64 bits, which changes none
in memory. -/
structure Writer.WritesMinimal (w : Writer) : Prop where
  u8 : ∀ v, w.u8 v = minimalHead .unsigned v.toNat
  u64 : ∀ v, w.u64 v = minimalHead .unsigned v.toNat
  bytes : ∀ v, w.bytes v = minimalHead .bytes v.length++v
  array : ∀ n, w.array n = minimalHead .array n.toNat

/-- What a writer of preferred heads puts out is a form of the value. -/
theorem Writer.WritesMinimal.reads {r : Reader} {w : Writer} (hw : w.WritesMinimal)
    (h : r.Reads Items.rfc) : r.Reads (Items.written w) where
  u8 v := by
    rintro x rfl rest
    rw [hw.u8]
    exact h.u8 v _ (minimalHead_mem (by have := v.toNat_lt; omega)) rest
  u64 v := by
    rintro x rfl rest
    rw [hw.u64]
    exact h.u64 v _ (minimalHead_mem v.toNat_lt) rest
  bytes v := by
    rintro x ⟨hlen,rfl⟩ rest
    rw [hw.bytes]
    have hlt : v.length < 2^64 := Nat.lt_of_le_of_lt hlen (by decide)
    exact h.bytes v _ (minimalBytes_mem hlt) rest
  array n := by
    rintro x rfl rest
    rw [hw.array]
    exact h.array n _ (minimalHead_mem n.toNat_lt) rest

section
variable {E : Type} {r : Reader} (onError : String → E)
open Decode

theorem Reader.Reads.u8_item {F : Items} (h : r.Reads F) (v : UInt8) :
    Decode.Reads (item onError r.u8) v (F.u8 v) :=
  fun x hx rest => item_ok.mpr (h.u8 v x hx rest)

theorem Reader.Reads.u64_item {F : Items} (h : r.Reads F) (v : UInt64) :
    Decode.Reads (item onError r.u64) v (F.u64 v) :=
  fun x hx rest => item_ok.mpr (h.u64 v x hx rest)

theorem Reader.Reads.bytes_item {F : Items} (h : r.Reads F) (v : List UInt8) :
    Decode.Reads (item onError r.bytes) v (F.bytes v) :=
  fun x hx rest => item_ok.mpr (h.bytes v x hx rest)

theorem Reader.Reads.array_item {F : Items} (h : r.Reads F) (n : UInt64) :
    Decode.Reads (item onError r.array) (some n) (F.array n) :=
  fun x hx rest => item_ok.mpr (h.array n x hx rest)

theorem Reader.FollowsRfc.u8_exact (h : r.FollowsRfc) :
    Decode.Exact (item onError r.u8) Items.rfc.u8 :=
  ⟨h.u8_item onError,fun hread => h.u8_inverts (item_ok.mp hread)⟩

theorem Reader.FollowsRfc.u64_exact (h : r.FollowsRfc) :
    Decode.Exact (item onError r.u64) Items.rfc.u64 :=
  ⟨h.u64_item onError,fun hread => h.u64_inverts (item_ok.mp hread)⟩

theorem Reader.FollowsRfc.bytes_exact (h : r.FollowsRfc) :
    Decode.Exact (item onError r.bytes) Items.rfc.bytes :=
  ⟨h.bytes_item onError,fun hread => h.bytes_inverts (item_ok.mp hread)⟩

end

/-- A decoder which also offers maps and the null item. -/
structure MapReader extends Reader where
  map : List UInt8 → Except String (Option UInt64 × List UInt8)
  isNull : List UInt8 → Except String Bool
  null : List UInt8 → Except String (Unit × List UInt8)

structure MapReader.FollowsRfc (r : MapReader) : Prop extends r.toReader.FollowsRfc where
  map_inverts : ∀ {s n t}, r.map s = .ok (some n,t) → ∃ x ∈ anyHead .map n.toNat, s = x++t
  null_inverts : ∀ {s t}, r.null s = .ok ((),t) → s = 0xf6::t

/-- Maps of definite length are read at every width of their heads. -/
def MapReader.ReadsMaps (r : MapReader) : Prop :=
  ∀ (n : UInt64), ∀ x ∈ anyHead .map n.toNat, ∀ rest, r.map (x++rest) = .ok (some n,rest)

/-! ## A reader and a writer -/

/-- The argument behind a first byte with the low bits `info`. -/
def Width.readArgument (w : Width) (info : ℕ) (s : List UInt8) : Option (ℕ × List UInt8) :=
  if w = .direct then some (info,s)
  else if s.length < w.count then none
  else some (ofBeBytes (s.take w.count),s.drop w.count)

/-- The argument of a head of the given major type. -/
def readHead (m : Major) : List UInt8 → Option (ℕ × List UInt8)
  | [] => none
  | b::s =>
      if b.toNat/32 = m.code then
        (Width.ofInfo (b.toNat % 32)).bind fun w => w.readArgument (b.toNat % 32) s
      else none

namespace Width

theorem ofInfo_direct {i : ℕ} (h : ofInfo i = some direct) : i < 24 := by
  unfold ofInfo at h
  split_ifs at h
  all_goals first | assumption | cases h

theorem ofInfo_some {i : ℕ} {w : Width} (h : ofInfo i = some w) (hw : w ≠ direct) (n : ℕ) :
    i = w.info n := by
  unfold ofInfo at h
  split_ifs at h
  all_goals
    cases h
    first | assumption | exact (hw rfl).elim

theorem readArgument_inverts {w : Width} {i n : ℕ} {s t : List UInt8} (hi : ofInfo i = some w)
    (h : w.readArgument i s = some (n,t)) : n < w.limit ∧ i = w.info n ∧ s = beBytes w.count n++t := by
  unfold readArgument at h
  split_ifs at h with hdirect hlen
  · cases h
    rw [hdirect] at hi ⊢
    exact ⟨ofInfo_direct hi,rfl,rfl⟩
  · cases h
    have htake : (s.take w.count).length = w.count := by
      rw [List.length_take]
      omega
    have hlt := ofBeBytes_lt (s.take w.count)
    have hbytes := beBytes_ofBeBytes (s.take w.count)
    rw [htake] at hlt hbytes
    rw [limit_eq_pow hdirect,hbytes,List.take_append_drop]
    exact ⟨hlt,ofInfo_some hi hdirect _,rfl⟩

theorem readArgument_reads {w : Width} {n : ℕ} (hn : n < w.limit) (rest : List UInt8) :
    w.readArgument (w.info n) (beBytes w.count n++rest) = some (n,rest) := by
  unfold readArgument
  by_cases hdirect : w = direct
  · subst hdirect
    rfl
  · rw [limit_eq_pow hdirect] at hn
    simp [hdirect,hn]

end Width

theorem readHead_inverts {m : Major} {s t : List UInt8} {n : ℕ} (h : readHead m s = some (n,t)) :
    ∃ x ∈ anyHead m n, s = x++t := by
  cases s with
  | nil => cases h
  | cons b s =>
      rw [readHead] at h
      split_ifs at h with hmajor
      obtain ⟨w,hw,hread⟩ := Option.bind_eq_some_iff.mp h
      obtain ⟨hn,hinfo,rfl⟩ := Width.readArgument_inverts hw hread
      refine ⟨_,⟨w,hn,rfl⟩,?_⟩
      rw [head,← hinfo,← hmajor,Nat.div_add_mod,UInt8.ofNat_toNat,List.cons_append]

theorem readHead_reads {m : Major} {n : ℕ} {x : List UInt8} (hx : x ∈ anyHead m n)
    (rest : List UInt8) : readHead m (x++rest) = some (n,rest) := by
  obtain ⟨w,hn,rfl⟩ := hx
  have hi := Width.info_lt hn
  have hdiv : (32*m.code+w.info n)/32 = m.code := by omega
  have hmod : (32*m.code+w.info n) % 32 = w.info n := by omega
  rw [head,List.cons_append,readHead,first_byte hn,hdiv,hmod,if_pos rfl,Width.ofInfo_info hn]
  exact Width.readArgument_reads hn rest

/-- The byte which opens a collection without a count. -/
def readMark (indefinite : UInt8) : List UInt8 → Except String (Option UInt64 × List UInt8)
  | [] => .error "end of input bytes"
  | b::t => if b = indefinite then .ok (none,t) else .error "unexpected type"

def readCount (m : Major) (indefinite : UInt8) (s : List UInt8) :
    Except String (Option UInt64 × List UInt8) :=
  match readHead m s with
  | some (n,t) => .ok (some (UInt64.ofNat n),t)
  | none => readMark indefinite s

def reference : MapReader where
  u8 s := match readHead .unsigned s with
    | some (n,t) => if n < 2^8 then .ok (UInt8.ofNat n,t) else .error "u8 overflow"
    | none => .error "unexpected type"
  u64 s := match readHead .unsigned s with
    | some (n,t) => .ok (UInt64.ofNat n,t)
    | none => .error "unexpected type"
  bytes s := match readHead .bytes s with
    | some (n,t) => if n ≤ t.length then .ok (t.take n,t.drop n) else .error "end of input bytes"
    | none => .error "unexpected type"
  array := readCount .array 0x9f
  map := readCount .map 0xbf
  isNull s := match s with
    | [] => .error "end of input bytes"
    | b::_ => .ok (b = 0xf6)
  null s := match s with
    | [] => .error "end of input bytes"
    | b::t => if b = 0xf6 then .ok ((),t) else .error "unexpected type"

def referenceWriter : Writer where
  u8 v := minimalHead .unsigned v.toNat
  u64 v := minimalHead .unsigned v.toNat
  bytes v := minimalHead .bytes v.length++v
  array n := minimalHead .array n.toNat

theorem referenceWriter_minimal : referenceWriter.WritesMinimal where
  u8 _ := rfl
  u64 _ := rfl
  bytes _ := rfl
  array _ := rfl

theorem readCount_reads {m : Major} {indefinite : UInt8} {n : UInt64} {x : List UInt8}
    (hx : x ∈ anyHead m n.toNat) (rest : List UInt8) :
    readCount m indefinite (x++rest) = .ok (some n,rest) := by
  rw [readCount,readHead_reads hx]
  simp

theorem readMark_none {indefinite : UInt8} {n : UInt64} {s t : List UInt8} :
    readMark indefinite s ≠ .ok (some n,t) := by
  intro h
  cases s with
  | nil => cases h
  | cons b s =>
      rw [readMark] at h
      split_ifs at h
      cases h

theorem readCount_inverts {m : Major} {indefinite : UInt8} {n : UInt64} {s t : List UInt8}
    (h : readCount m indefinite s = .ok (some n,t)) : ∃ x ∈ anyHead m n.toNat, s = x++t := by
  unfold readCount at h
  split at h
  · rename_i k u hread
    cases h
    obtain ⟨x,hx,hs⟩ := readHead_inverts hread
    refine ⟨x,?_,hs⟩
    rwa [UInt64.toNat_ofNat',Nat.mod_eq_of_lt (lt_of_mem_anyHead hx)]
  · exact (readMark_none h).elim

theorem reference_reads : reference.Reads Items.rfc where
  u8 v x hx rest := by
    have hv := v.toNat_lt
    simp [reference,readHead_reads hx,hv]
  u64 v x hx rest := by simp [reference,readHead_reads hx]
  bytes v x hx rest := by
    obtain ⟨y,hy,z,hz,rfl⟩ := Language.mem_mul.mp hx
    cases hz
    simp [reference,readHead_reads hy]
  array _ _ hx rest := readCount_reads hx rest

theorem reference_u8_inverts {s t : List UInt8} {v : UInt8} (h : reference.u8 s = .ok (v,t)) :
    ∃ x ∈ Items.rfc.u8 v, s = x++t := by
  unfold reference at h
  dsimp only at h
  split at h
  · rename_i n u hread
    split_ifs at h with hn
    cases h
    obtain ⟨x,hx,hs⟩ := readHead_inverts hread
    refine ⟨x,?_,hs⟩
    change x ∈ anyHead .unsigned (UInt8.ofNat n).toNat
    rwa [UInt8.toNat_ofNat',Nat.mod_eq_of_lt hn]
  · cases h

theorem reference_u64_inverts {s t : List UInt8} {v : UInt64} (h : reference.u64 s = .ok (v,t)) :
    ∃ x ∈ Items.rfc.u64 v, s = x++t := by
  unfold reference at h
  dsimp only at h
  split at h
  · rename_i n u hread
    cases h
    obtain ⟨x,hx,hs⟩ := readHead_inverts hread
    refine ⟨x,?_,hs⟩
    change x ∈ anyHead .unsigned (UInt64.ofNat n).toNat
    rwa [UInt64.toNat_ofNat',Nat.mod_eq_of_lt (lt_of_mem_anyHead hx)]
  · cases h

theorem reference_bytes_inverts {s t v : List UInt8} (h : reference.bytes s = .ok (v,t)) :
    ∃ x ∈ Items.rfc.bytes v, s = x++t := by
  unfold reference at h
  dsimp only at h
  split at h
  · rename_i n u hread
    split_ifs at h with hn
    cases h
    obtain ⟨x,hx,rfl⟩ := readHead_inverts hread
    refine ⟨x++u.take n,Language.append_mem_mul ?_ rfl,by simp⟩
    rwa [List.length_take,Nat.min_eq_left hn]
  · cases h

theorem reference_null_inverts {s t : List UInt8} (h : reference.null s = .ok ((),t)) :
    s = 0xf6::t := by
  unfold reference at h
  dsimp only at h
  split at h
  · cases h
  · split_ifs at h with hb
    cases h
    rw [hb]

theorem reference_follows : reference.FollowsRfc where
  toReads := reference_reads
  u8_inverts := reference_u8_inverts
  u64_inverts := reference_u64_inverts
  bytes_inverts := reference_bytes_inverts
  array_inverts := readCount_inverts
  map_inverts := readCount_inverts
  null_inverts := reference_null_inverts

theorem reference_readsMaps : reference.ReadsMaps := fun _ _ hx rest => readCount_reads hx rest

end OmegaHarness.CborHeads
