import OmegaHarness.FallibleSteps
import OmegaHarness.FixedWidthBytes
import OmegaHarness.TextFiles

/-!
# Bytes as hexadecimal texts

Encoding writes two lower-case digits for each byte. Decoding looks at the bytes of a text,
two at a time, and takes digits of both cases. What it accepts is the encoding of what it
returns, up to case.
-/
namespace OmegaHarness.HexTexts
open FallibleSteps FixedWidthBytes TextFiles

/-- `to_ascii_lowercase`. -/
def lower (c : UInt8) : UInt8 :=
  if 65 ≤ c.toNat ∧ c.toNat ≤ 90 then UInt8.ofNat (c.toNat+32) else c

end OmegaHarness.HexTexts
