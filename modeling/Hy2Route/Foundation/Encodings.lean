import Hy2Route.Foundation.Json

/-!
# Hexadecimal digits and base64

Text forms of byte strings: pairs of hexadecimal digits, and base64 in the alphabet for
URLs without padding, whose reader skips line ends.
-/

namespace Hy2Route.Foundation

/-- Pairs of digits; a digit that is left over is an error. -/
def hexDecode : Bytes → Option Bytes
  | [] => some []
  | [_] => none
  | high :: low :: rest => do
      let h ← Json.hexValue high
      let l ← Json.hexValue low
      let bytes ← hexDecode rest
      return UInt8.ofNat (h * 16 + l) :: bytes

/-- `[A-Za-z0-9_-]` -/
def isBase64URL (c : UInt8) : Bool :=
  (0x41 ≤ c && c ≤ 0x5A) || (0x61 ≤ c && c ≤ 0x7A) || (0x30 ≤ c && c ≤ 0x39) || c == 0x2D ||
    c == 0x5F

/-- How many bytes a text without padding stands for. -/
def rawURLDecodedLen (s : Bytes) : Option Nat :=
  let digits := s.filter fun c => c != 0x0A && c != 0x0D
  if digits.all isBase64URL && digits.length % 4 != 1 then some (digits.length * 6 / 8) else none

end Hy2Route.Foundation
