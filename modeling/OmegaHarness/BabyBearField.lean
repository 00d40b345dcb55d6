import Mathlib.NumberTheory.LucasPrimality
import Mathlib.Tactic.ReduceModChar
import Mathlib.Tactic

/-!
# The BabyBear field and its byte values

The trace field is the integers modulo a 31-bit prime. Bytes embed in it without
loss, and so does every natural number below the prime; these two facts turn
field equations of byte columns and small counters back into equations of bytes
and naturals.
-/
namespace OmegaHarness.BabyBearField

def babyBearPrime : ℕ := 2013265921

/-- `p3_baby_bear::BabyBear`. -/
abbrev Val := ZMod 2013265921

/-- Lucas' criterion with generator 31; the prime minus one is 2^27 * 3 * 5. -/
theorem babyBear_prime : Nat.Prime 2013265921 := by
  apply lucas_primality _ (31 : ZMod 2013265921)
  · reduce_mod_char
  · intro q hq hdvd
    have hfactor : 2013265921-1 = 2^27*(3*5) := by norm_num
    rw [hfactor,hq.dvd_mul,hq.dvd_mul] at hdvd
    have hcases : q = 2 ∨ q = 3 ∨ q = 5 := by
      rcases hdvd with h | h | h
      · exact Or.inl ((Nat.prime_dvd_prime_iff_eq hq Nat.prime_two).mp (hq.dvd_of_dvd_pow h))
      · exact Or.inr (Or.inl ((Nat.prime_dvd_prime_iff_eq hq Nat.prime_three).mp h))
      · exact Or.inr (Or.inr ((Nat.prime_dvd_prime_iff_eq hq Nat.prime_five).mp h))
    rcases hcases with rfl | rfl | rfl <;> norm_num only <;> reduce_mod_char <;> decide

instance babyBear_fact : Fact (Nat.Prime 2013265921) := ⟨babyBear_prime⟩

theorem natCast_inj {m n : ℕ} (hm : m < babyBearPrime) (hn : n < babyBearPrime)
    (h : (m : Val) = (n : Val)) : m = n := by
  unfold babyBearPrime at hm hn
  rw [ZMod.natCast_eq_natCast_iff'] at h
  rwa [Nat.mod_eq_of_lt hm,Nat.mod_eq_of_lt hn] at h

/-- `Val::from_u8`. -/
def byteVal (b : UInt8) : Val := (b.toNat : Val)

theorem byteVal_inj {a b : UInt8} (h : byteVal a = byteVal b) : a = b := by
  have ha := a.toNat_lt
  have hb := b.toNat_lt
  exact UInt8.toNat_inj.mp
    (natCast_inj (by unfold babyBearPrime; omega) (by unfold babyBearPrime; omega) h)

@[simp] theorem byteVal_zero : byteVal 0 = 0 := by simp [byteVal]

/-- `Val::from_bool`. -/
def boolVal (b : Bool) : Val := if b then 1 else 0

end OmegaHarness.BabyBearField
