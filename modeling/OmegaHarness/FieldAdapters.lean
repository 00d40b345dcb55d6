import OmegaHarness.DomainHashes
import OmegaHarness.HexTexts
import OmegaHarness.SeparatedTexts

/-!
# Fields of JSON files

Hashes are hexadecimal texts in the files of the tools, and 128-bit numbers are decimal
texts, as not every reader of JSON has numbers of that size. The adapters see a value which
the JSON library has parsed; its numbers come in several widths.
-/
namespace OmegaHarness.FieldAdapters
open FallibleSteps FixedWidthBytes DomainHashes TextFiles SeparatedTexts HexTexts

inductive Json where
  | null
  | bool (b : Bool)
  | u64 (n : UInt64)
  | i64 (n : Int64)
  | u128 (n : BitVec 128)
  | i128 (n : BitVec 128)
  | f64 (bits : UInt64)
  | str (text : String)
  | seq (items : List Json)
  | map (entries : List (String × Json))

namespace HexVecHash

def serialize (v : List Hash) : Json := .seq (v.map fun h => .str (hexEncode h.toList))

end HexVecHash

namespace OptHex

def serialize : Option Hash → Json
  | none => .null
  | some bytes => .str (hexEncode bytes.toList)

end OptHex

namespace U128Dec

def serialize (v : BitVec 128) : Json := .str v.toNat.repr

end U128Dec

section Adapters

end Adapters

end OmegaHarness.FieldAdapters
