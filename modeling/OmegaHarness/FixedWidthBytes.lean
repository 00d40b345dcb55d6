import Mathlib.Tactic

/-!
# Fixed-width byte strings of natural numbers

Both byte orders, as plain lists. A width keeps the low bytes of its number, as
a cast to a narrower machine integer does, so encoding is injective exactly on
the numbers which fit.
-/
namespace OmegaHarness.FixedWidthBytes

/-- Little-endian bytes, lowest first. -/
def leBytes : ℕ → ℕ → List UInt8
  | 0,_ => []
  | width+1,n => UInt8.ofNat n::leBytes width (n/256)

/-- Big-endian bytes, highest first. -/
def beBytes (width n : ℕ) : List UInt8 := (leBytes width n).reverse

@[simp] theorem leBytes_length (width n : ℕ) : (leBytes width n).length = width := by
  induction width generalizing n with
  | zero => rfl
  | succ width ih => simp [leBytes,ih]

@[simp] theorem beBytes_length (width n : ℕ) : (beBytes width n).length = width := by
  simp [beBytes]

theorem leBytes_get (width n k : ℕ) (h : k < width) :
    (leBytes width n)[k]? = some (UInt8.ofNat (n/256^k)) := by
  induction width generalizing n k with
  | zero => omega
  | succ width ih =>
      cases k with
      | zero => simp [leBytes]
      | succ k =>
          rw [leBytes,List.getElem?_cons_succ,ih _ _ (by omega),Nat.div_div_eq_div_mul,pow_succ,
            Nat.mul_comm]

theorem leBytes_eq_map (width n : ℕ) :
    leBytes width n = (List.range width).map fun k => UInt8.ofNat (n/256^k) := by
  apply List.ext_getElem?
  intro k
  rw [List.getElem?_map]
  by_cases hk : k < width
  · rw [leBytes_get _ _ _ hk,List.getElem?_range hk,Option.map_some]
  · rw [List.getElem?_eq_none (by simpa using hk),List.getElem?_eq_none (by simpa using hk)]
    rfl

theorem beBytes_get (width n k : ℕ) (h : k < width) :
    (beBytes width n)[k]? = some (UInt8.ofNat (n/256^(width-1-k))) := by
  rw [beBytes,List.getElem?_reverse (by simpa using h),leBytes_length,leBytes_get _ _ _ (by omega)]

theorem toNat_ofNat_byte (n : ℕ) : (UInt8.ofNat n).toNat = n % 256 := UInt8.toNat_ofNat'

theorem ofNat_eq_iff (m n : ℕ) : UInt8.ofNat m = UInt8.ofNat n ↔ m % 256 = n % 256 := by
  rw [← UInt8.toNat_inj,toNat_ofNat_byte,toNat_ofNat_byte]

theorem leBytes_inj {width m n : ℕ} (hm : m < 256^width) (hn : n < 256^width)
    (h : leBytes width m = leBytes width n) : m = n := by
  induction width generalizing m n with
  | zero => simp only [pow_zero,Nat.lt_one_iff] at hm hn; omega
  | succ width ih =>
      simp only [leBytes,List.cons.injEq,ofNat_eq_iff] at h
      rw [pow_succ,Nat.mul_comm] at hm hn
      have hdiv := ih (Nat.div_lt_of_lt_mul hm) (Nat.div_lt_of_lt_mul hn) h.2
      omega

theorem beBytes_inj {width m n : ℕ} (hm : m < 256^width) (hn : n < 256^width)
    (h : beBytes width m = beBytes width n) : m = n :=
  leBytes_inj hm hn (List.reverse_injective h)

theorem leBytes_add (low high n : ℕ) :
    leBytes (low+high) n = leBytes low n++leBytes high (n/256^low) := by
  induction low generalizing n with
  | zero => simp [leBytes]
  | succ low ih =>
      rw [Nat.add_right_comm,leBytes,ih,leBytes,List.cons_append,Nat.div_div_eq_div_mul,pow_succ,
        Nat.mul_comm 256]

/-- The high bytes are those of the quotient. -/
theorem beBytes_add (high low n : ℕ) :
    beBytes (high+low) n = beBytes high (n/256^low)++beBytes low n := by
  rw [beBytes,Nat.add_comm,leBytes_add,List.reverse_append,beBytes,beBytes]

/-- The number a little-endian byte string denotes. -/
def ofLeBytes : List UInt8 → ℕ
  | [] => 0
  | b::bs => b.toNat+256*ofLeBytes bs

theorem ofLeBytes_lt (bs : List UInt8) : ofLeBytes bs < 256^bs.length := by
  induction bs with
  | nil => simp [ofLeBytes]
  | cons b bs ih =>
      have hb := b.toNat_lt
      rw [ofLeBytes,List.length_cons,pow_succ]
      omega

/-- Zero bytes at the high end do not count. -/
theorem ofLeBytes_append_zeros (bs : List UInt8) (k : ℕ) :
    ofLeBytes (bs++List.replicate k 0) = ofLeBytes bs := by
  induction bs with
  | nil =>
      induction k with
      | zero => rfl
      | succ k ih => simpa [List.replicate_succ,ofLeBytes] using ih
  | cons b bs ih => rw [List.cons_append,ofLeBytes,ih,ofLeBytes]

@[simp] theorem ofLeBytes_leBytes {width n : ℕ} (h : n < 256^width) :
    ofLeBytes (leBytes width n) = n := by
  induction width generalizing n with
  | zero => simp only [pow_zero,Nat.lt_one_iff] at h; simp [leBytes,ofLeBytes,h]
  | succ width ih =>
      rw [pow_succ,Nat.mul_comm] at h
      rw [leBytes,ofLeBytes,ih (Nat.div_lt_of_lt_mul h),toNat_ofNat_byte]
      omega

theorem leBytes_ofLeBytes (bs : List UInt8) : leBytes bs.length (ofLeBytes bs) = bs := by
  induction bs with
  | nil => rfl
  | cons b bs ih =>
      have hb := b.toNat_lt
      have hdiv : (b.toNat+256*ofLeBytes bs)/256 = ofLeBytes bs := by omega
      have hlow : UInt8.ofNat (b.toNat+256*ofLeBytes bs) = b := by
        rw [← UInt8.toNat_inj,toNat_ofNat_byte]
        omega
      rw [List.length_cons,leBytes,ofLeBytes,hdiv,ih,hlow]

/-- The number a big-endian byte string denotes. -/
def ofBeBytes (bs : List UInt8) : ℕ := ofLeBytes bs.reverse

theorem ofBeBytes_lt (bs : List UInt8) : ofBeBytes bs < 256^bs.length := by
  have h := ofLeBytes_lt bs.reverse
  rwa [List.length_reverse] at h

@[simp] theorem ofBeBytes_beBytes {width n : ℕ} (h : n < 256^width) :
    ofBeBytes (beBytes width n) = n := by
  rw [ofBeBytes,beBytes,List.reverse_reverse,ofLeBytes_leBytes h]

theorem beBytes_ofBeBytes (bs : List UInt8) : beBytes bs.length (ofBeBytes bs) = bs := by
  have h := leBytes_ofLeBytes bs.reverse
  rw [List.length_reverse] at h
  rw [beBytes,ofBeBytes,h,List.reverse_reverse]

def hexChar (n : ℕ) : Char := Char.ofNat (if n < 10 then 48+n else 87+n)

/-- Two lower-case digits for each byte. -/
def hexEncode (bs : List UInt8) : String :=
  String.ofList (bs.flatMap fun b => [hexChar (b.toNat/16),hexChar (b.toNat % 16)])

theorem hexChar_injective {m n : ℕ} (hm : m < 16) (hn : n < 16) (h : hexChar m = hexChar n) :
    m = n := by
  have hdigits : ∀ i < 16, ∀ j < 16, hexChar i = hexChar j → i = j := by decide
  exact hdigits m hm n hn h

theorem hexEncode_injective : Function.Injective hexEncode := by
  intro as bs h
  have hchars := String.ofList_injective h
  induction as generalizing bs with
  | nil => cases bs with
    | nil => rfl
    | cons b bs => cases hchars
  | cons a as ih => cases bs with
    | nil => cases hchars
    | cons b bs =>
        simp only [List.flatMap_cons,List.cons_append,List.nil_append,List.cons.injEq] at hchars
        have hhigh := hexChar_injective (Nat.div_lt_of_lt_mul a.toNat_lt) (Nat.div_lt_of_lt_mul b.toNat_lt)
          hchars.1
        have hlow := hexChar_injective (Nat.mod_lt _ (by decide)) (Nat.mod_lt _ (by decide)) hchars.2.1
        have hbyte : a = b := UInt8.toNat_inj.mp (by omega)
        rw [hbyte,ih (congrArg String.ofList hchars.2.2) hchars.2.2]

end OmegaHarness.FixedWidthBytes
