import Mathlib.Data.List.Basic
import Mathlib.Tactic.Common

/-!
# Byte strings, runes, lower-casing and trimming

A string is its list of bytes, with no promise that the bytes are valid
UTF-8. Ranging over a string decodes one rune at a time; a byte that starts
no valid sequence is read as the replacement rune and consumes one byte.
Lower-casing maps every rune by the Unicode simple lower-case mapping and
encodes the result again, so an invalid byte comes back as three bytes.
Trimming decodes white space from the front and, backwards, from the end.
-/

namespace Hy2Route.Foundation

abbrev Bytes := List UInt8

/-- The bytes of an ASCII literal. -/
def ascii (text : String) : Bytes := text.toList.map fun c => UInt8.ofNat c.toNat

/-- Remove the given suffix once, when it is there. -/
def trimSuffix (s suffix : Bytes) : Bytes :=
  if suffix.isSuffixOf s then s.take (s.length - suffix.length) else s

/-- Split at every occurrence of one byte; the empty string has one empty part. -/
def split (s : Bytes) (sep : UInt8) : List Bytes := s.splitOn sep

def runeError : Nat := 0xFFFD

/-- The least second byte accepted after the first byte `x`. -/
def acceptLow (x : Nat) : Nat :=
  if x = 0xE0 then 0xA0 else if x = 0xF0 then 0x90 else 0x80

/-- The greatest second byte accepted after the first byte `x`. -/
def acceptHigh (x : Nat) : Nat :=
  if x = 0xED then 0x9F else if x = 0xF4 then 0x8F else 0xBF

/-- The first rune of a string and its width in bytes. -/
def decodeRune : Bytes → Nat × Nat
  | [] => (runeError, 0)
  | b₀ :: rest₀ =>
      let x := b₀.toNat
      if x < 0x80 then (x, 1)
      else if x < 0xC2 ∨ 0xF4 < x then (runeError, 1)
      else match rest₀ with
        | [] => (runeError, 1)
        | b₁ :: rest₁ =>
            let y := b₁.toNat
            if y < acceptLow x ∨ acceptHigh x < y then (runeError, 1)
            else if x < 0xE0 then (x % 0x20 * 0x40 + y % 0x40, 2)
            else match rest₁ with
              | [] => (runeError, 1)
              | b₂ :: rest₂ =>
                  let z := b₂.toNat
                  if z < 0x80 ∨ 0xBF < z then (runeError, 1)
                  else if x < 0xF0 then
                    (x % 0x10 * 0x1000 + y % 0x40 * 0x40 + z % 0x40, 3)
                  else match rest₂ with
                    | [] => (runeError, 1)
                    | b₃ :: _ =>
                        let w := b₃.toNat
                        if w < 0x80 ∨ 0xBF < w then (runeError, 1)
                        else (x % 0x08 * 0x40000 + y % 0x40 * 0x1000 +
                          z % 0x40 * 0x40 + w % 0x40, 4)

/-- Decode a string whose first `skip` bytes belong to a rune already read. -/
def runesFrom : Nat → Bytes → List Nat
  | _, [] => []
  | skip + 1, _ :: rest => runesFrom skip rest
  | 0, b :: rest =>
      let (rune, width) := decodeRune (b :: rest)
      rune :: runesFrom (width - 1) rest

/-- The runes a range loop over the string visits. -/
def runes (s : Bytes) : List Nat := runesFrom 0 s

/-- The UTF-8 encoding of a rune; values outside Unicode become the replacement rune. -/
def encodeRune (r : Nat) : Bytes :=
  let r := if (0xD800 ≤ r ∧ r ≤ 0xDFFF) ∨ 0x10FFFF < r then runeError else r
  if r < 0x80 then [UInt8.ofNat r]
  else if r < 0x800 then
    [UInt8.ofNat (0xC0 + r / 0x40), UInt8.ofNat (0x80 + r % 0x40)]
  else if r < 0x10000 then
    [UInt8.ofNat (0xE0 + r / 0x1000), UInt8.ofNat (0x80 + r / 0x40 % 0x40),
      UInt8.ofNat (0x80 + r % 0x40)]
  else
    [UInt8.ofNat (0xF0 + r / 0x40000), UInt8.ofNat (0x80 + r / 0x1000 % 0x40),
      UInt8.ofNat (0x80 + r / 0x40 % 0x40), UInt8.ofNat (0x80 + r % 0x40)]

/-- The runes `low`, `low + stride`, ..., `high` all move by `delta`. -/
structure CaseRange where
  low : Nat
  high : Nat
  stride : Nat
  delta : Int

def CaseRange.holds (range : CaseRange) (r : Nat) : Bool :=
  range.low ≤ r && r ≤ range.high && (r - range.low) % range.stride == 0

/-- The non-ASCII runes with a simple lower-case mapping (Unicode 15). -/
def lowerRanges : List CaseRange := [
    ⟨0xC0, 0xD6, 1, 32⟩, ⟨0xD8, 0xDE, 1, 32⟩, ⟨0x100, 0x12E, 2, 1⟩, ⟨0x130, 0x130, 1, -199⟩,
    ⟨0x132, 0x136, 2, 1⟩, ⟨0x139, 0x147, 2, 1⟩, ⟨0x14A, 0x176, 2, 1⟩, ⟨0x178, 0x178, 1, -121⟩,
    ⟨0x179, 0x17D, 2, 1⟩, ⟨0x181, 0x181, 1, 210⟩, ⟨0x182, 0x184, 2, 1⟩, ⟨0x186, 0x186, 1, 206⟩,
    ⟨0x187, 0x187, 1, 1⟩, ⟨0x189, 0x18A, 1, 205⟩, ⟨0x18B, 0x18B, 1, 1⟩, ⟨0x18E, 0x18E, 1, 79⟩,
    ⟨0x18F, 0x18F, 1, 202⟩, ⟨0x190, 0x190, 1, 203⟩, ⟨0x191, 0x191, 1, 1⟩, ⟨0x193, 0x193, 1, 205⟩,
    ⟨0x194, 0x194, 1, 207⟩, ⟨0x196, 0x196, 1, 211⟩, ⟨0x197, 0x197, 1, 209⟩, ⟨0x198, 0x198, 1, 1⟩,
    ⟨0x19C, 0x19C, 1, 211⟩, ⟨0x19D, 0x19D, 1, 213⟩, ⟨0x19F, 0x19F, 1, 214⟩, ⟨0x1A0, 0x1A4, 2, 1⟩,
    ⟨0x1A6, 0x1A6, 1, 218⟩, ⟨0x1A7, 0x1A7, 1, 1⟩, ⟨0x1A9, 0x1A9, 1, 218⟩, ⟨0x1AC, 0x1AC, 1, 1⟩,
    ⟨0x1AE, 0x1AE, 1, 218⟩, ⟨0x1AF, 0x1AF, 1, 1⟩, ⟨0x1B1, 0x1B2, 1, 217⟩, ⟨0x1B3, 0x1B5, 2, 1⟩,
    ⟨0x1B7, 0x1B7, 1, 219⟩, ⟨0x1B8, 0x1B8, 1, 1⟩, ⟨0x1BC, 0x1BC, 1, 1⟩, ⟨0x1C4, 0x1C4, 1, 2⟩,
    ⟨0x1C5, 0x1C5, 1, 1⟩, ⟨0x1C7, 0x1C7, 1, 2⟩, ⟨0x1C8, 0x1C8, 1, 1⟩, ⟨0x1CA, 0x1CA, 1, 2⟩,
    ⟨0x1CB, 0x1DB, 2, 1⟩, ⟨0x1DE, 0x1EE, 2, 1⟩, ⟨0x1F1, 0x1F1, 1, 2⟩, ⟨0x1F2, 0x1F4, 2, 1⟩,
    ⟨0x1F6, 0x1F6, 1, -97⟩, ⟨0x1F7, 0x1F7, 1, -56⟩, ⟨0x1F8, 0x21E, 2, 1⟩, ⟨0x220, 0x220, 1, -130⟩,
    ⟨0x222, 0x232, 2, 1⟩, ⟨0x23A, 0x23A, 1, 10795⟩, ⟨0x23B, 0x23B, 1, 1⟩, ⟨0x23D, 0x23D, 1, -163⟩,
    ⟨0x23E, 0x23E, 1, 10792⟩, ⟨0x241, 0x241, 1, 1⟩, ⟨0x243, 0x243, 1, -195⟩,
    ⟨0x244, 0x244, 1, 69⟩, ⟨0x245, 0x245, 1, 71⟩, ⟨0x246, 0x24E, 2, 1⟩, ⟨0x370, 0x372, 2, 1⟩,
    ⟨0x376, 0x376, 1, 1⟩, ⟨0x37F, 0x37F, 1, 116⟩, ⟨0x386, 0x386, 1, 38⟩, ⟨0x388, 0x38A, 1, 37⟩,
    ⟨0x38C, 0x38C, 1, 64⟩, ⟨0x38E, 0x38F, 1, 63⟩, ⟨0x391, 0x3A1, 1, 32⟩, ⟨0x3A3, 0x3AB, 1, 32⟩,
    ⟨0x3CF, 0x3CF, 1, 8⟩, ⟨0x3D8, 0x3EE, 2, 1⟩, ⟨0x3F4, 0x3F4, 1, -60⟩, ⟨0x3F7, 0x3F7, 1, 1⟩,
    ⟨0x3F9, 0x3F9, 1, -7⟩, ⟨0x3FA, 0x3FA, 1, 1⟩, ⟨0x3FD, 0x3FF, 1, -130⟩, ⟨0x400, 0x40F, 1, 80⟩,
    ⟨0x410, 0x42F, 1, 32⟩, ⟨0x460, 0x480, 2, 1⟩, ⟨0x48A, 0x4BE, 2, 1⟩, ⟨0x4C0, 0x4C0, 1, 15⟩,
    ⟨0x4C1, 0x4CD, 2, 1⟩, ⟨0x4D0, 0x52E, 2, 1⟩, ⟨0x531, 0x556, 1, 48⟩, ⟨0x10A0, 0x10C5, 1, 7264⟩,
    ⟨0x10C7, 0x10C7, 1, 7264⟩, ⟨0x10CD, 0x10CD, 1, 7264⟩, ⟨0x13A0, 0x13EF, 1, 38864⟩,
    ⟨0x13F0, 0x13F5, 1, 8⟩, ⟨0x1C90, 0x1CBA, 1, -3008⟩, ⟨0x1CBD, 0x1CBF, 1, -3008⟩,
    ⟨0x1E00, 0x1E94, 2, 1⟩, ⟨0x1E9E, 0x1E9E, 1, -7615⟩, ⟨0x1EA0, 0x1EFE, 2, 1⟩,
    ⟨0x1F08, 0x1F0F, 1, -8⟩, ⟨0x1F18, 0x1F1D, 1, -8⟩, ⟨0x1F28, 0x1F2F, 1, -8⟩,
    ⟨0x1F38, 0x1F3F, 1, -8⟩, ⟨0x1F48, 0x1F4D, 1, -8⟩, ⟨0x1F59, 0x1F5F, 2, -8⟩,
    ⟨0x1F68, 0x1F6F, 1, -8⟩, ⟨0x1F88, 0x1F8F, 1, -8⟩, ⟨0x1F98, 0x1F9F, 1, -8⟩,
    ⟨0x1FA8, 0x1FAF, 1, -8⟩, ⟨0x1FB8, 0x1FB9, 1, -8⟩, ⟨0x1FBA, 0x1FBB, 1, -74⟩,
    ⟨0x1FBC, 0x1FBC, 1, -9⟩, ⟨0x1FC8, 0x1FCB, 1, -86⟩, ⟨0x1FCC, 0x1FCC, 1, -9⟩,
    ⟨0x1FD8, 0x1FD9, 1, -8⟩, ⟨0x1FDA, 0x1FDB, 1, -100⟩, ⟨0x1FE8, 0x1FE9, 1, -8⟩,
    ⟨0x1FEA, 0x1FEB, 1, -112⟩, ⟨0x1FEC, 0x1FEC, 1, -7⟩, ⟨0x1FF8, 0x1FF9, 1, -128⟩,
    ⟨0x1FFA, 0x1FFB, 1, -126⟩, ⟨0x1FFC, 0x1FFC, 1, -9⟩, ⟨0x2126, 0x2126, 1, -7517⟩,
    ⟨0x212A, 0x212A, 1, -8383⟩, ⟨0x212B, 0x212B, 1, -8262⟩, ⟨0x2132, 0x2132, 1, 28⟩,
    ⟨0x2160, 0x216F, 1, 16⟩, ⟨0x2183, 0x2183, 1, 1⟩, ⟨0x24B6, 0x24CF, 1, 26⟩,
    ⟨0x2C00, 0x2C2F, 1, 48⟩, ⟨0x2C60, 0x2C60, 1, 1⟩, ⟨0x2C62, 0x2C62, 1, -10743⟩,
    ⟨0x2C63, 0x2C63, 1, -3814⟩, ⟨0x2C64, 0x2C64, 1, -10727⟩, ⟨0x2C67, 0x2C6B, 2, 1⟩,
    ⟨0x2C6D, 0x2C6D, 1, -10780⟩, ⟨0x2C6E, 0x2C6E, 1, -10749⟩, ⟨0x2C6F, 0x2C6F, 1, -10783⟩,
    ⟨0x2C70, 0x2C70, 1, -10782⟩, ⟨0x2C72, 0x2C72, 1, 1⟩, ⟨0x2C75, 0x2C75, 1, 1⟩,
    ⟨0x2C7E, 0x2C7F, 1, -10815⟩, ⟨0x2C80, 0x2CE2, 2, 1⟩, ⟨0x2CEB, 0x2CED, 2, 1⟩,
    ⟨0x2CF2, 0x2CF2, 1, 1⟩, ⟨0xA640, 0xA66C, 2, 1⟩, ⟨0xA680, 0xA69A, 2, 1⟩,
    ⟨0xA722, 0xA72E, 2, 1⟩, ⟨0xA732, 0xA76E, 2, 1⟩, ⟨0xA779, 0xA77B, 2, 1⟩,
    ⟨0xA77D, 0xA77D, 1, -35332⟩, ⟨0xA77E, 0xA786, 2, 1⟩, ⟨0xA78B, 0xA78B, 1, 1⟩,
    ⟨0xA78D, 0xA78D, 1, -42280⟩, ⟨0xA790, 0xA792, 2, 1⟩, ⟨0xA796, 0xA7A8, 2, 1⟩,
    ⟨0xA7AA, 0xA7AA, 1, -42308⟩, ⟨0xA7AB, 0xA7AB, 1, -42319⟩, ⟨0xA7AC, 0xA7AC, 1, -42315⟩,
    ⟨0xA7AD, 0xA7AD, 1, -42305⟩, ⟨0xA7AE, 0xA7AE, 1, -42308⟩, ⟨0xA7B0, 0xA7B0, 1, -42258⟩,
    ⟨0xA7B1, 0xA7B1, 1, -42282⟩, ⟨0xA7B2, 0xA7B2, 1, -42261⟩, ⟨0xA7B3, 0xA7B3, 1, 928⟩,
    ⟨0xA7B4, 0xA7C2, 2, 1⟩, ⟨0xA7C4, 0xA7C4, 1, -48⟩, ⟨0xA7C5, 0xA7C5, 1, -42307⟩,
    ⟨0xA7C6, 0xA7C6, 1, -35384⟩, ⟨0xA7C7, 0xA7C9, 2, 1⟩, ⟨0xA7D0, 0xA7D0, 1, 1⟩,
    ⟨0xA7D6, 0xA7D8, 2, 1⟩, ⟨0xA7F5, 0xA7F5, 1, 1⟩, ⟨0xFF21, 0xFF3A, 1, 32⟩,
    ⟨0x10400, 0x10427, 1, 40⟩, ⟨0x104B0, 0x104D3, 1, 40⟩, ⟨0x10570, 0x1057A, 1, 39⟩,
    ⟨0x1057C, 0x1058A, 1, 39⟩, ⟨0x1058C, 0x10592, 1, 39⟩, ⟨0x10594, 0x10595, 1, 39⟩,
    ⟨0x10C80, 0x10CB2, 1, 64⟩, ⟨0x118A0, 0x118BF, 1, 32⟩, ⟨0x16E40, 0x16E5F, 1, 32⟩,
    ⟨0x1E900, 0x1E921, 1, 34⟩]

/-- The simple lower-case mapping of one rune. -/
def toLowerRune (r : Nat) : Nat :=
  if r < 0x80 then (if 0x41 ≤ r ∧ r ≤ 0x5A then r + 0x20 else r)
  else match lowerRanges.find? (·.holds r) with
    | some range => ((r : Int) + range.delta).toNat
    | none => r

/-- Lower-case every rune of a string. -/
def toLower (s : Bytes) : Bytes := (runes s).flatMap fun r => encodeRune (toLowerRune r)

/-- Unicode white space. -/
def isSpace (r : Nat) : Bool :=
  (0x09 ≤ r && r ≤ 0x0D) || r == 0x20 || r == 0x85 || r == 0xA0 || r == 0x1680 ||
    (0x2000 ≤ r && r ≤ 0x200A) || r == 0x2028 || r == 0x2029 || r == 0x202F || r == 0x205F ||
    r == 0x3000

/-- Remove white space runes in front; the first `skip` bytes belong to one already read. -/
def trimLeftFrom : Nat → Bytes → Bytes
  | _, [] => []
  | skip + 1, _ :: rest => trimLeftFrom skip rest
  | 0, b :: rest =>
      let (rune, width) := decodeRune (b :: rest)
      if isSpace rune then trimLeftFrom (width - 1) rest else b :: rest

/-- A byte that is no continuation of a sequence. -/
def runeStart (b : UInt8) : Bool := b.toNat < 0x80 || 0xC0 ≤ b.toNat

/-- The last rune of a string, given last byte first, and its width. The search for
its first byte goes back at most three bytes. -/
def decodeLastRune : Bytes → Nat × Nat
  | [] => (runeError, 0)
  | b :: before =>
      if b.toNat < 0x80 then (b.toNat, 1)
      else
        let width := match (before.take 3).findIdx? runeStart with
          | some back => back + 2
          | none => min (before.length + 1) 5
        let (rune, size) := decodeRune ((b :: before).take width).reverse
        if size = width then (rune, size) else (runeError, 1)

/-- Remove white space runes at the end of a string that is given last byte first. -/
def trimRightFrom : Nat → Bytes → Bytes
  | _, [] => []
  | skip + 1, _ :: before => trimRightFrom skip before
  | 0, b :: before =>
      let (rune, width) := decodeLastRune (b :: before)
      if isSpace rune then trimRightFrom (width - 1) before else b :: before

def trimSpace (s : Bytes) : Bytes := (trimRightFrom 0 (trimLeftFrom 0 s).reverse).reverse

theorem decodeRune_ascii {b : UInt8} (h : b.toNat < 0x80) (rest : Bytes) :
    decodeRune (b :: rest) = (b.toNat, 1) := by
  simp [decodeRune, h]

/-- The second byte of a long sequence is never so low that the rune would fit a
shorter one. -/
theorem le_of_acceptLow {x y : Nat} (h : ¬ (y < acceptLow x ∨ acceptHigh x < y)) :
    (x = 0xE0 → 0x20 ≤ y % 0x40) ∧ (x = 0xF0 → 0x10 ≤ y % 0x40) := by
  obtain ⟨hlow, hhigh⟩ := not_or.mp h
  have hle : acceptHigh x ≤ 0xBF := by
    unfold acceptHigh
    split_ifs <;> omega
  constructor
  · rintro rfl
    have hE0 : acceptLow 0xE0 = 0xA0 := rfl
    omega
  · rintro rfl
    have hF0 : acceptLow 0xF0 = 0x90 := rfl
    omega

/-- A sequence that starts outside ASCII never decodes to an ASCII rune. -/
theorem decodeRune_not_ascii {b : UInt8} (h : 0x80 ≤ b.toNat) (rest : Bytes) :
    0x80 ≤ (decodeRune (b :: rest)).1 := by
  have herror : 0x80 ≤ runeError := by decide
  simp only [decodeRune, if_neg (Nat.not_lt.mpr h)]
  by_cases hlead : b.toNat < 0xC2 ∨ 0xF4 < b.toNat
  · simpa only [if_pos hlead] using herror
  simp only [if_neg hlead]
  cases rest with
  | nil => exact herror
  | cons b₁ rest =>
      by_cases hsecond : b₁.toNat < acceptLow b.toNat ∨ acceptHigh b.toNat < b₁.toNat
      · simpa only [if_pos hsecond] using herror
      obtain ⟨hE0, hF0⟩ := le_of_acceptLow hsecond
      by_cases htwo : b.toNat < 0xE0
      · simp only [if_neg hsecond, if_pos htwo]
        omega
      simp only [if_neg hsecond, if_neg htwo]
      cases rest with
      | nil => exact herror
      | cons b₂ rest =>
          by_cases hthird : b₂.toNat < 0x80 ∨ 0xBF < b₂.toNat
          · simpa only [if_pos hthird] using herror
          by_cases hthree : b.toNat < 0xF0
          · simp only [if_neg hthird, if_pos hthree]
            omega
          simp only [if_neg hthird, if_neg hthree]
          cases rest with
          | nil => exact herror
          | cons b₃ rest =>
              by_cases hfourth : b₃.toNat < 0x80 ∨ 0xBF < b₃.toNat
              · simpa only [if_pos hfourth] using herror
              · simp only [if_neg hfourth]
                omega

/-- A predicate confined to ASCII holds of every rune exactly when it holds of every byte. -/
theorem runes_all_iff {p : Nat → Bool} (hp : ∀ r, p r = true → r < 0x80) (s : Bytes) :
    (runes s).all p = true ↔ s.all (fun b => p b.toNat) = true := by
  induction s with
  | nil => simp [runes, runesFrom]
  | cons b rest ih =>
      by_cases hb : b.toNat < 0x80
      · simp only [runes, runesFrom, decodeRune_ascii hb, List.all_cons, Bool.and_eq_true]
        exact and_congr_right fun _ => ih
      · -- Both sides fail on the first rune, which is not ASCII.
        have hrune := decodeRune_not_ascii (Nat.not_lt.mp hb) rest
        have hfirst : p (decodeRune (b :: rest)).1 = false := by
          by_contra hne
          exact absurd (hp _ (Bool.not_eq_false _ ▸ hne)) (Nat.not_lt.mpr hrune)
        have hbyte : p b.toNat = false := by
          by_contra hne
          exact hb (hp _ (Bool.not_eq_false _ ▸ hne))
        simp [runes, runesFrom, hfirst, hbyte]

theorem toLower_cons_ascii {b : UInt8} (h : b.toNat < 0x80) (rest : Bytes) :
    toLower (b :: rest) = UInt8.ofNat (toLowerRune b.toNat) :: toLower rest := by
  have hlower : toLowerRune b.toNat < 0x80 := by
    unfold toLowerRune
    split_ifs <;> omega
  have hencode : encodeRune (toLowerRune b.toNat) = [UInt8.ofNat (toLowerRune b.toNat)] := by
    have hvalid : ¬ ((0xD800 ≤ toLowerRune b.toNat ∧ toLowerRune b.toNat ≤ 0xDFFF) ∨
        0x10FFFF < toLowerRune b.toNat) := by omega
    simp only [encodeRune, if_neg hvalid, if_pos hlower]
  simp only [toLower, runes, runesFrom, decodeRune_ascii h, List.flatMap_cons, hencode]
  rfl

/-- ASCII text without capitals is its own lower case. -/
theorem toLower_eq_self {s : Bytes}
    (h : ∀ b ∈ s, b.toNat < 0x80 ∧ ¬ (0x41 ≤ b.toNat ∧ b.toNat ≤ 0x5A)) : toLower s = s := by
  induction s with
  | nil => rfl
  | cons b rest ih =>
      obtain ⟨⟨hascii, hsmall⟩, hrest⟩ := List.forall_mem_cons.mp h
      rw [toLower_cons_ascii hascii, ih hrest, toLowerRune, if_pos hascii, if_neg hsmall]
      simp

/-- Every byte of a text is the separator or in one of its parts. -/
theorem mem_split_or_eq {s : Bytes} {b : UInt8} (sep : UInt8) (h : b ∈ s) :
    b = sep ∨ ∃ part ∈ split s sep, b ∈ part := by
  induction s with
  | nil => cases h
  | cons first rest ih =>
      obtain ⟨head, tail, hsplit⟩ := List.exists_cons_of_ne_nil (List.splitOn_ne_nil sep rest)
      unfold split at ih ⊢
      rw [List.splitOn_cons_eq_if_modifyHead]
      by_cases hsep : first = sep
      · rcases List.mem_cons.mp h with rfl | hrest
        · exact Or.inl hsep
        · apply (ih hrest).imp_right
          rintro ⟨part, hpart, hb⟩
          simp only [hsep, beq_self_eq_true, if_true]
          exact ⟨part, List.mem_cons_of_mem _ hpart, hb⟩
      · have hne : (first == sep) = false := beq_false_of_ne hsep
        simp only [hne, Bool.false_eq_true, if_false, hsplit, List.modifyHead_cons,
          List.mem_cons] at ih ⊢
        rcases List.mem_cons.mp h with rfl | hrest
        · exact Or.inr ⟨_, Or.inl rfl, List.mem_cons_self⟩
        · rcases ih hrest with heq | ⟨part, rfl | htail, hb⟩
          · exact Or.inl heq
          · exact Or.inr ⟨_, Or.inl rfl, List.mem_cons_of_mem _ hb⟩
          · exact Or.inr ⟨part, Or.inr htail, hb⟩

/-- A part has only bytes of the text, and no separator. -/
theorem mem_of_mem_split {s part : Bytes} {b sep : UInt8} (hpart : part ∈ split s sep)
    (hb : b ∈ part) : b ∈ s ∧ b ≠ sep := by
  induction s generalizing part with
  | nil =>
      simp only [split, List.splitOn_nil, List.mem_singleton] at hpart
      simp [hpart] at hb
  | cons first rest ih =>
      obtain ⟨head, tail, hsplit⟩ := List.exists_cons_of_ne_nil (List.splitOn_ne_nil sep rest)
      unfold split at ih hpart
      rw [List.splitOn_cons_eq_if_modifyHead] at hpart
      have hrest : ∀ {p : Bytes}, p ∈ List.splitOn sep rest → b ∈ p → b ∈ first :: rest ∧ b ≠ sep :=
        fun hp hin => (ih hp hin).imp_left (List.mem_cons_of_mem first)
      by_cases hsep : first = sep
      · simp only [hsep, beq_self_eq_true, if_true, List.mem_cons] at hpart
        rcases hpart with rfl | hpart
        · cases hb
        · exact hrest hpart hb
      · have hne : (first == sep) = false := beq_false_of_ne hsep
        simp only [hne, Bool.false_eq_true, if_false, hsplit, List.modifyHead_cons,
          List.mem_cons] at hpart hrest
        rcases hpart with rfl | htail
        · rcases List.mem_cons.mp hb with rfl | hin
          · exact ⟨List.mem_cons_self, hsep⟩
          · simpa using hrest (Or.inl rfl) hin
        · simpa using hrest (Or.inr htail) hb

/-- Changing bytes other than the separator changes the parts one by one. -/
theorem split_map {f : UInt8 → UInt8} {sep : UInt8} (hf : ∀ b, f b = sep ↔ b = sep) (s : Bytes) :
    split (s.map f) sep = (split s sep).map (List.map f) := by
  induction s with
  | nil => simp [split]
  | cons first rest ih =>
      obtain ⟨head, tail, hsplit⟩ := List.exists_cons_of_ne_nil (List.splitOn_ne_nil sep rest)
      unfold split at ih ⊢
      rw [List.map_cons, List.splitOn_cons_eq_if_modifyHead, List.splitOn_cons_eq_if_modifyHead, ih,
        hsplit]
      by_cases hsep : first = sep
      · simp [hsep, (hf sep).mpr rfl]
      · have hfirst : f first ≠ sep := fun h => hsep ((hf first).mp h)
        simp [hsep, hfirst]

/-- What stands before and after the first separator is determined. -/
theorem append_sep_inj {sep : UInt8} {a a' b b' : Bytes} (ha : sep ∉ a) (ha' : sep ∉ a')
    (h : a ++ sep :: b = a' ++ sep :: b') : a = a' ∧ b = b' := by
  induction a generalizing a' with
  | nil =>
      cases a' with
      | nil => simpa using h
      | cons x a' =>
          rw [List.nil_append, List.cons_append, List.cons.injEq] at h
          exact absurd (h.1 ▸ List.mem_cons_self) ha'
  | cons x a ih =>
      cases a' with
      | nil =>
          rw [List.nil_append, List.cons_append, List.cons.injEq] at h
          exact absurd (h.1 ▸ List.mem_cons_self) ha
      | cons y a' =>
          rw [List.cons_append, List.cons_append, List.cons.injEq] at h
          obtain ⟨rfl, h⟩ := h
          obtain ⟨rfl, rfl⟩ := ih (List.not_mem_of_not_mem_cons ha)
            (List.not_mem_of_not_mem_cons ha') h
          exact ⟨rfl, rfl⟩

theorem eq_trimSuffix_singleton (s : Bytes) (b : UInt8) :
    s = trimSuffix s [b] ++ [b] ∨ s = trimSuffix s [b] := by
  unfold trimSuffix
  split_ifs with h
  · obtain ⟨t, rfl⟩ := List.isSuffixOf_iff_suffix.mp h
    exact Or.inl (by simp)
  · exact Or.inr rfl

/-! ## Searching -/

/-- The first place where the separator stands. -/
def indexOf (sep : Bytes) : Bytes → Option Nat
  | [] => if sep = [] then some 0 else none
  | b :: rest => if sep.isPrefixOf (b :: rest) then some 0 else (indexOf sep rest).map (· + 1)

/-- The separator is inside the text. -/
theorem indexOf_le {sep s : Bytes} {i : Nat} (h : indexOf sep s = some i) :
    i + sep.length ≤ s.length := by
  induction s generalizing i with
  | nil =>
      rw [indexOf] at h
      split_ifs at h with hsep
      cases h
      simp [hsep]
  | cons b rest ih =>
      rw [indexOf] at h
      split_ifs at h with hfound
      · cases h
        simpa using (List.isPrefixOf_iff_prefix.mp hfound).length_le
      · obtain ⟨j, hj, rfl⟩ := Option.map_eq_some_iff.mp h
        have hle := ih hj
        rw [List.length_cons]
        omega

/-- More text does not move the first place. -/
theorem indexOf_append {sep s : Bytes} {i : Nat} (h : indexOf sep s = some i) (more : Bytes) :
    indexOf sep (s ++ more) = some i := by
  induction s generalizing i with
  | nil =>
      rw [indexOf] at h
      split_ifs at h with hsep
      cases h
      subst hsep
      cases more <;> simp [indexOf]
  | cons b rest ih =>
      rw [indexOf] at h
      rw [List.cons_append, indexOf]
      split_ifs at h with hfound
      · have hmore : sep.isPrefixOf (b :: (rest ++ more)) = true :=
          List.isPrefixOf_iff_prefix.mpr
            ((List.isPrefixOf_iff_prefix.mp hfound).trans (List.prefix_append (b :: rest) more))
        rw [if_pos hmore, h]
      · obtain ⟨j, hj, rfl⟩ := Option.map_eq_some_iff.mp h
        -- The separator fits into what is left, so a match at the front would be one before.
        have hnot : ¬ sep.isPrefixOf (b :: (rest ++ more)) = true := by
          intro hmore
          refine hfound (List.isPrefixOf_iff_prefix.mpr ?_)
          refine List.prefix_of_prefix_length_le (List.isPrefixOf_iff_prefix.mp hmore)
            (List.prefix_append (b :: rest) more) ?_
          have hle := indexOf_le hj
          rw [List.length_cons]
          omega
        rw [if_neg hnot, ih hj]
        rfl

/-- The part stands somewhere in the text. -/
def contains (s part : Bytes) : Bool := (indexOf part s).isSome

theorem contains_iff {s part : Bytes} : contains s part = true ↔ part <:+: s := by
  unfold contains
  induction s with
  | nil =>
      rw [indexOf, List.infix_nil]
      split_ifs with hnil
      · simp [hnil]
      · simp [hnil]
  | cons b rest ih =>
      rw [indexOf, List.infix_cons_iff]
      split_ifs with hfront
      · simp [List.isPrefixOf_iff_prefix.mp hfront]
      · have hnot : ¬ part <+: b :: rest := fun h => hfront (List.isPrefixOf_iff_prefix.mpr h)
        rw [Option.isSome_map, ih]
        simp [hnot]

end Hy2Route.Foundation
