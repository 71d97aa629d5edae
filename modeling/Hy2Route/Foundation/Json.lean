import Hy2Route.Foundation.NetIP
import Hy2Route.Foundation.Utf8
import Mathlib.Data.Nat.Digits.Lemmas

/-!
# JSON objects of simple members

Objects whose members are strings, natural numbers and booleans. The encoder escapes
control characters and the characters of markup, so the width of a string depends on
its runes. The decoder first looks for the end of the object and then reads it: it
gives the members back, with their strings recoded, when the whole object is there,
and nothing when a part of it is missing.

## Implementation notes

The encoder writes no white space, and the decoder reads none inside an object.
Pairs of surrogates, which the encoder does not write, are not joined.
-/

namespace Hy2Route.Foundation.Json

inductive Value where
  | text (s : Bytes)
  | number (n : Nat)
  | bool (b : Bool)
  deriving DecidableEq

/-- What `omitempty` leaves out. -/
def Value.isEmpty : Value → Bool
  | .text s => s.isEmpty
  | .number n => n == 0
  | .bool b => !b

/-- The empty value of the same type. -/
def Value.empty : Value → Value
  | .text _ => .text []
  | .number _ => .number 0
  | .bool _ => .bool false

/-- A key with its value. -/
abbrev Member := Bytes × Value

/-! ## The encoder -/

def hexDigit (n : Nat) : UInt8 := UInt8.ofNat (if n < 10 then 0x30 + n else 0x57 + n)

/-- A backslash, the letter `u` and four digits. -/
def unicodeEscape (r : Nat) : Bytes :=
  [0x5C, 0x75, hexDigit (r / 0x1000), hexDigit (r / 0x100 % 0x10), hexDigit (r / 0x10 % 0x10),
    hexDigit (r % 0x10)]

/-- The characters that are written as a backslash and a letter. -/
def letters : List (Nat × UInt8) :=
  [(0x22, 0x22), (0x5C, 0x5C), (0x08, 0x62), (0x0C, 0x66), (0x0A, 0x6E), (0x0D, 0x72), (0x09, 0x74)]

def letter (r : Nat) : Option UInt8 := (letters.find? fun p => p.1 == r).map Prod.snd

/-- Control characters, the characters of markup, and the line separators. -/
def isEscaped (r : Nat) : Bool :=
  r < 0x20 || r == 0x3C || r == 0x3E || r == 0x26 || r == 0x2028 || r == 0x2029

/-- How a rune that takes the given number of bytes is written. -/
def escape (rune : Nat × Nat) : Bytes :=
  if rune = (runeError, 1) then unicodeEscape runeError
  else
    match letter rune.1 with
    | some c => [0x5C, c]
    | none => if isEscaped rune.1 then unicodeEscape rune.1 else encodeRune rune.1

def quote (s : Bytes) : Bytes := 0x22 :: ((runeWidths s).flatMap escape ++ [0x22])

/-- A number in decimal. -/
def numeral (n : Nat) : Bytes :=
  if n = 0 then [digit 0] else ((Nat.digits 10 n).map digit).reverse

def encodeValue : Value → Bytes
  | .text s => quote s
  | .number n => numeral n
  | .bool true => ascii "true"
  | .bool false => ascii "false"

def encodeMember (m : Member) : Bytes := quote m.1 ++ 0x3A :: encodeValue m.2

def encodeMembers : List Member → Bytes
  | [] => []
  | m :: ms => encodeMember m ++ ms.flatMap fun m => 0x2C :: encodeMember m

def encodeObject (ms : List Member) : Bytes := 0x7B :: (encodeMembers ms ++ [0x7D])

/-! ## The decoder -/

def hexValue (b : UInt8) : Option Nat :=
  if 0x30 ≤ b ∧ b ≤ 0x39 then some (b.toNat - 0x30)
  else if 0x61 ≤ b ∧ b ≤ 0x66 then some (b.toNat - 0x57)
  else if 0x41 ≤ b ∧ b ≤ 0x46 then some (b.toNat - 0x37)
  else none

/-- The character that a letter after a backslash stands for. -/
def unescape (c : UInt8) : Option UInt8 :=
  if c = 0x2F then some 0x2F
  else (letters.find? fun p => p.2 == c).map fun p => UInt8.ofNat p.1

inductive StringMode where
  | plain
  | escape
  | hex (left value : Nat)
  deriving DecidableEq

/-- Put a text in front of one that was read. -/
def prepend (text : Bytes) (read : Bytes × Bytes) : Bytes × Bytes := (text ++ read.1, read.2)

/-- Read a string up to its closing quotation mark, and what follows it. -/
def readString : StringMode → Bytes → Option (Bytes × Bytes)
  | _, [] => none
  | .plain, b :: rest =>
      if b = 0x22 then some ([], rest)
      else if b = 0x5C then readString .escape rest
      else if b.toNat < 0x20 then none
      else (readString .plain rest).map (prepend [b])
  | .escape, b :: rest =>
      if b = 0x75 then readString (.hex 3 0) rest
      else
        match unescape b with
        | none => none
        | some c => (readString .plain rest).map (prepend [c])
  | .hex left value, b :: rest =>
      match hexValue b with
      | none => none
      | some d =>
          match left with
          | 0 => (readString .plain rest).map (prepend (encodeRune (value * 0x10 + d)))
          | left + 1 => readString (.hex left (value * 0x10 + d)) rest

/-- Read a string with its quotation marks. -/
def readQuoted : Bytes → Option (Bytes × Bytes)
  | [] => none
  | b :: rest =>
      if b = 0x22 then (readString .plain rest).map fun (s, rest) => (recode s, rest) else none

/-- Read a number without leading zeros. -/
def readNumber (s : Bytes) : Option (Nat × Bytes) :=
  let digits := s.takeWhile isDigit
  if digits = [] ∨ digits.head? = some 0x30 ∧ digits.length ≠ 1 then none
  else some (digits.foldl (fun n d => n * 10 + digitValue d) 0, s.dropWhile isDigit)

def readValue (s : Bytes) : Option (Value × Bytes) :=
  if s.head? = some 0x22 then (readQuoted s).map fun (s, rest) => (.text s, rest)
  else if (ascii "true").isPrefixOf s then some (.bool true, s.drop 4)
  else if (ascii "false").isPrefixOf s then some (.bool false, s.drop 5)
  else (readNumber s).map fun (n, rest) => (.number n, rest)

def readMember (s : Bytes) : Option (Member × Bytes) :=
  match readQuoted s with
  | some (key, 0x3A :: rest) => (readValue rest).map fun (v, rest) => ((key, v), rest)
  | _ => none

/-- Read the members after the first one, up to the end of the text. -/
def readTail : Nat → Bytes → Option (List Member)
  | fuel + 1, b :: rest =>
      if b = 0x7D then if rest = [] then some [] else none
      else if b = 0x2C then
        match readMember rest with
        | none => none
        | some (m, rest) => (readTail fuel rest).map (m :: ·)
      else none
  | _, _ => none

def readObject : Bytes → Option (List Member)
  | [] => none
  | b :: rest =>
      if b ≠ 0x7B then none
      else if rest = [0x7D] then some []
      else
        match readMember rest with
        | none => none
        | some (m, rest) => (readTail rest.length rest).map (m :: ·)

inductive ScanMode where
  | plain
  | quoted
  | escaped
  deriving DecidableEq

/-- Whether a value goes on after a byte: how many brackets are open then, and whether
a string is. -/
def advance : Nat × ScanMode → UInt8 → Option (Nat × ScanMode)
  | (depth, .plain), b =>
      if b = 0x22 then some (depth, .quoted)
      else if b = 0x7B ∨ b = 0x5B then some (depth + 1, .plain)
      else if b = 0x7D ∨ b = 0x5D then if depth ≤ 1 then none else some (depth - 1, .plain)
      else some (depth, .plain)
  | (depth, .quoted), b =>
      if b = 0x22 then some (depth, .plain)
      else if b = 0x5C then some (depth, .escaped)
      else some (depth, .quoted)
  | (depth, .escaped), _ => some (depth, .quoted)

/-- The length of the value at the front of a text, if it is complete. -/
def scan : Nat × ScanMode → Bytes → Option Nat
  | _, [] => none
  | state, b :: rest =>
      match advance state b with
      | none => some 1
      | some state => (scan state rest).map (· + 1)

def decode (s : Bytes) : Option (List Member) :=
  match scan (0, .plain) s with
  | none => none
  | some n => readObject (s.take n)

/-! ## Strings -/

theorem hexValue_hexDigit : ∀ n < 0x10, hexValue (hexDigit n) = some n := by
  decide

theorem readString_unicodeEscape {r : Nat} (h : r < 0x10000) (rest : Bytes) :
    readString .plain (unicodeEscape r ++ rest) =
      (readString .plain rest).map (prepend (encodeRune r)) := by
  have hvalue : (((0 * 0x10 + r / 0x1000) * 0x10 + r / 0x100 % 0x10) * 0x10 + r / 0x10 % 0x10) *
      0x10 + r % 0x10 = r := by omega
  simp only [unicodeEscape, List.cons_append, List.nil_append, readString,
    hexValue_hexDigit _ (show r / 0x1000 < 0x10 by omega),
    hexValue_hexDigit _ (Nat.mod_lt _ (show 0 < 0x10 by decide)), hvalue]
  rfl

theorem readString_append {text : Bytes} (rest : Bytes)
    (h : ∀ b ∈ text, b ≠ 0x22 ∧ b ≠ 0x5C ∧ 0x20 ≤ b.toNat) :
    readString .plain (text ++ rest) = (readString .plain rest).map (prepend text) := by
  induction text with
  | nil =>
      cases hread : readString .plain rest with
      | none => simp [hread]
      | some read => simp [hread, prepend]
  | cons b text ih =>
      obtain ⟨⟨hquote, hslash, hlow⟩, htext⟩ := List.forall_mem_cons.mp h
      rw [List.cons_append, readString, if_neg hquote, if_neg hslash, if_neg (Nat.not_lt.mpr hlow),
        ih htext, Option.map_map]
      rfl

theorem letters_spec : ∀ p ∈ letters,
    p.2 ≠ 0x75 ∧ unescape p.2 = some (UInt8.ofNat p.1) ∧ p.1 < 0x80 := by
  decide

theorem letter_eq_some {r : Nat} {c : UInt8} (h : letter r = some c) : (r, c) ∈ letters := by
  obtain ⟨p, hp, rfl⟩ := Option.map_eq_some_iff.mp h
  have hr : p.1 = r := by simpa using List.find?_some hp
  rw [← hr]
  exact List.mem_of_find?_eq_some hp

theorem letter_eq_none {r : Nat} (h : letter r = none) : r ≠ 0x22 ∧ r ≠ 0x5C := by
  constructor <;> rintro rfl <;> cases h

theorem lt_of_isEscaped {r : Nat} (h : isEscaped r = true) : r < 0x10000 := by
  simp only [isEscaped, Bool.or_eq_true, decide_eq_true_eq, beq_iff_eq] at h
  omega

/-- The bytes of a rune that needs no escape are none of the string's own marks. -/
theorem plain_of_not_isEscaped {r : Nat} (hscalar : IsScalar r) (hletter : letter r = none)
    (hescaped : ¬ isEscaped r = true) :
    ∀ b ∈ encodeRune r, b ≠ 0x22 ∧ b ≠ 0x5C ∧ 0x20 ≤ b.toNat := by
  obtain ⟨hquote, hslash⟩ := letter_eq_none hletter
  simp only [isEscaped, Bool.or_eq_true, decide_eq_true_eq, beq_iff_eq] at hescaped
  intro b hb
  have hbyte : b.toNat ≠ 0x22 ∧ b.toNat ≠ 0x5C ∧ 0x20 ≤ b.toNat := by
    by_cases hone : r < 0x80
    · rw [encodeRune_one hone, List.mem_singleton] at hb
      rw [hb, toNat_ofNat_of_lt (by omega)]
      omega
    · have hlow := le_of_mem_encodeRune hscalar (by omega) b hb
      omega
  refine ⟨?_, ?_, hbyte.2.2⟩
  · rintro rfl
    exact hbyte.1 rfl
  · rintro rfl
    exact hbyte.2.1 rfl

/-- An escaped rune is read as its encoding. -/
theorem readString_escape {rune : Nat × Nat} (h : IsScalar rune.1) (rest : Bytes) :
    readString .plain (escape rune ++ rest) =
      (readString .plain rest).map (prepend (encodeRune rune.1)) := by
  unfold escape
  by_cases herror : rune = (runeError, 1)
  · rw [if_pos herror, herror]
    exact readString_unicodeEscape (by decide) rest
  rw [if_neg herror]
  cases hletter : letter rune.1 with
  | some c =>
      obtain ⟨hu, hunescape, hascii⟩ := letters_spec _ (letter_eq_some hletter)
      rw [encodeRune_one hascii]
      simp only [List.cons_append, List.nil_append, readString, if_neg hu, hunescape]
      rfl
  | none =>
      by_cases hescaped : isEscaped rune.1 = true
      · simp only [if_pos hescaped]
        exact readString_unicodeEscape (lt_of_isEscaped hescaped) rest
      · simp only [if_neg hescaped]
        exact readString_append rest (plain_of_not_isEscaped h hletter hescaped)

theorem readString_flatMap_escape {ps : List (Nat × Nat)} (h : ∀ p ∈ ps, IsScalar p.1)
    (rest : Bytes) :
    readString .plain (ps.flatMap escape ++ 0x22 :: rest) =
      some (encodeRunes (ps.map Prod.fst), rest) := by
  induction ps with
  | nil => rfl
  | cons p ps ih =>
      obtain ⟨hp, hps⟩ := List.forall_mem_cons.mp h
      rw [List.flatMap_cons, List.append_assoc, readString_escape hp, ih hps]
      rfl

theorem isScalar_of_mem_runeWidths {s : Bytes} : ∀ p ∈ runeWidths s, IsScalar p.1 := by
  intro p hp
  rcases eq_or_of_mem_runeWidths p hp with rfl | ⟨hscalar, -⟩
  · exact isScalar_runeError
  · exact hscalar

/-- A string comes back recoded. -/
theorem readQuoted_quote (s rest : Bytes) :
    readQuoted (quote s ++ rest) = some (recode s, rest) := by
  have hread : readString .plain ((runeWidths s).flatMap escape ++ 0x22 :: rest) =
      some (recode s, rest) := by
    rw [readString_flatMap_escape isScalar_of_mem_runeWidths, map_fst_runeWidths]
    rfl
  simp only [quote, List.cons_append, List.append_assoc, List.nil_append, readQuoted, if_true,
    hread, Option.map_some, recode_recode]

/-! ## Numbers -/

theorem isDigit_of_mem_numeral {n : Nat} : ∀ d ∈ numeral n, isDigit d = true := by
  intro d hd
  unfold numeral at hd
  split_ifs at hd with hzero
  · rw [List.mem_singleton.mp hd]
    exact (isDigit_digit 0 (by decide)).1
  · rw [List.mem_reverse] at hd
    obtain ⟨k, hk, rfl⟩ := List.mem_map.mp hd
    exact (isDigit_digit k (Nat.digits_lt_base (by decide) hk)).1

theorem numeral_ne_nil (n : Nat) : numeral n ≠ [] := by
  unfold numeral
  split_ifs with hzero
  · exact List.cons_ne_nil _ _
  · simpa [Nat.digits_ne_nil_iff_ne_zero] using hzero

theorem foldl_digits {ds : List Nat} (h : ∀ d ∈ ds, d < 10) :
    ((ds.map digit).reverse).foldl (fun n d => n * 10 + digitValue d) 0 = Nat.ofDigits 10 ds := by
  induction ds with
  | nil => rfl
  | cons d ds ih =>
      obtain ⟨hd, hds⟩ := List.forall_mem_cons.mp h
      rw [List.map_cons, List.reverse_cons, List.foldl_append, ih hds, Nat.ofDigits_cons,
        List.foldl_cons, List.foldl_nil, (isDigit_digit d hd).2]
      omega

theorem foldl_numeral (n : Nat) :
    (numeral n).foldl (fun n d => n * 10 + digitValue d) 0 = n := by
  unfold numeral
  split_ifs with hzero
  · rw [hzero]
    decide
  · rw [foldl_digits fun d hd => Nat.digits_lt_base (by decide) hd, Nat.ofDigits_digits]

/-- A number that starts with a zero is zero. -/
theorem length_numeral_of_head {n : Nat} (h : (numeral n).head? = some 0x30) :
    (numeral n).length = 1 := by
  unfold numeral at h ⊢
  split_ifs at h ⊢ with hzero
  · rfl
  · have hne : Nat.digits 10 n ≠ [] := Nat.digits_ne_nil_iff_ne_zero.mpr hzero
    have hlast := Nat.getLast_digit_ne_zero 10 hzero
    have hlt := Nat.digits_lt_base (by decide : 1 < 10) (List.getLast_mem hne)
    rw [List.head?_reverse, List.getLast?_map, List.getLast?_eq_some_getLast hne] at h
    have hdigit := congrArg digitValue (Option.some.inj h)
    rw [(isDigit_digit _ hlt).2] at hdigit
    exact absurd hdigit hlast

/-- A number comes back when no digit follows it. -/
theorem readNumber_numeral (n : Nat) {sep : UInt8} (hsep : isDigit sep = false) (rest : Bytes) :
    readNumber (numeral n ++ sep :: rest) = some (n, sep :: rest) := by
  have htake : (numeral n ++ sep :: rest).takeWhile isDigit = numeral n := by
    rw [List.takeWhile_append_of_pos isDigit_of_mem_numeral,
      List.takeWhile_cons_of_neg (by simp [hsep]), List.append_nil]
  have hdrop : (numeral n ++ sep :: rest).dropWhile isDigit = sep :: rest := by
    rw [List.dropWhile_append_of_pos isDigit_of_mem_numeral,
      List.dropWhile_cons_of_neg (by simp [hsep])]
  have hshape : ¬ (numeral n = [] ∨
      (numeral n).head? = some 0x30 ∧ (numeral n).length ≠ 1) := by
    rintro (hnil | ⟨hhead, hlength⟩)
    · exact numeral_ne_nil n hnil
    · exact hlength (length_numeral_of_head hhead)
  simp only [readNumber, htake, hdrop, if_neg hshape, foldl_numeral]

/-! ## Members and objects -/

def Value.recode : Value → Value
  | .text s => .text (Foundation.recode s)
  | v => v

theorem Value.recode_of_isEmpty {v : Value} (h : v.isEmpty = true) : v.recode = v.empty := by
  cases v with
  | text s =>
      obtain rfl := List.isEmpty_iff.mp h
      rfl
  | number n => exact congrArg number (eq_of_beq h)
  | bool b =>
      cases b with
      | false => rfl
      | true => cases h

def recodeMember (m : Member) : Member := (Foundation.recode m.1, m.2.recode)

theorem head_quote (s rest : Bytes) : (quote s ++ rest).head? = some 0x22 := rfl

/-- A digit starts neither a string nor a boolean. -/
theorem not_isPrefixOf_of_isDigit {b : UInt8} (h : isDigit b = true) (rest : Bytes) :
    b ≠ 0x22 ∧ ¬ (ascii "true").isPrefixOf (b :: rest) = true ∧
      ¬ (ascii "false").isPrefixOf (b :: rest) = true := by
  obtain ⟨d, hd, rfl⟩ := exists_digit h
  have hdigit : ∀ d < 10, digit d ≠ 0x22 ∧ (0x74 == digit d) = false ∧
      (0x66 == digit d) = false := by decide
  obtain ⟨hquote, ht, hf⟩ := hdigit d hd
  refine ⟨hquote, fun htrue => ?_, fun hfalse => ?_⟩
  · change (0x74 == digit d && _) = true at htrue
    rw [ht] at htrue
    cases htrue
  · change (0x66 == digit d && _) = true at hfalse
    rw [hf] at hfalse
    cases hfalse

theorem readValue_encodeValue (v : Value) {sep : UInt8} (hsep : isDigit sep = false)
    (rest : Bytes) :
    readValue (encodeValue v ++ sep :: rest) = some (v.recode, sep :: rest) := by
  cases v with
  | text s =>
      rw [readValue, encodeValue, if_pos (head_quote s _), readQuoted_quote]
      rfl
  | number n =>
      obtain ⟨b, more, hnumeral⟩ := List.exists_cons_of_ne_nil (numeral_ne_nil n)
      have hb : isDigit b = true := isDigit_of_mem_numeral b (hnumeral ▸ List.mem_cons_self)
      obtain ⟨hquote, htrue, hfalse⟩ := not_isPrefixOf_of_isDigit hb (more ++ sep :: rest)
      have hread := readNumber_numeral n hsep rest
      rw [encodeValue]
      rw [hnumeral, List.cons_append] at hread ⊢
      rw [readValue, List.head?_cons, if_neg (fun h => hquote (Option.some.inj h)), if_neg htrue,
        if_neg hfalse, hread]
      rfl
  | bool b => cases b <;> rfl

theorem readMember_encodeMember (m : Member) {sep : UInt8} (hsep : isDigit sep = false)
    (rest : Bytes) :
    readMember (encodeMember m ++ sep :: rest) = some (recodeMember m, sep :: rest) := by
  rw [readMember, encodeMember, List.append_assoc, readQuoted_quote, List.cons_append]
  simp only [readValue_encodeValue m.2 hsep rest]
  rfl

/-- What stands after the first member of an object. -/
def encodeTail (ms : List Member) : Bytes :=
  ms.flatMap (fun m => 0x2C :: encodeMember m) ++ [0x7D]

theorem encodeObject_cons (m : Member) (ms : List Member) :
    encodeObject (m :: ms) = 0x7B :: (encodeMember m ++ encodeTail ms) := by
  rw [encodeObject, encodeMembers, List.append_assoc, encodeTail]

theorem encodeTail_cons (m : Member) (ms : List Member) :
    encodeTail (m :: ms) = 0x2C :: (encodeMember m ++ encodeTail ms) := by
  rw [encodeTail, List.flatMap_cons, List.cons_append, List.cons_append, List.append_assoc,
    encodeTail]

theorem length_lt_encodeTail (ms : List Member) : ms.length < (encodeTail ms).length := by
  induction ms with
  | nil => decide
  | cons m ms ih =>
      rw [encodeTail_cons, List.length_cons, List.length_cons, List.length_append]
      omega

theorem readMember_encodeTail (m : Member) (ms : List Member) :
    readMember (encodeMember m ++ encodeTail ms) = some (recodeMember m, encodeTail ms) := by
  cases ms with
  | nil => exact readMember_encodeMember m (by decide) _
  | cons m' ms =>
      rw [encodeTail_cons]
      exact readMember_encodeMember m (by decide) _

theorem readTail_encodeTail (ms : List Member) {fuel : Nat} (hfuel : ms.length < fuel) :
    readTail fuel (encodeTail ms) = some (ms.map recodeMember) := by
  induction ms generalizing fuel with
  | nil =>
      cases fuel with
      | zero => cases hfuel
      | succ fuel => rfl
  | cons m ms ih =>
      cases fuel with
      | zero => cases hfuel
      | succ fuel =>
          rw [encodeTail_cons, readTail, if_neg (by decide), if_pos rfl, readMember_encodeTail]
          simp only [ih (Nat.lt_of_succ_lt_succ hfuel), Option.map_some, List.map_cons]

/-- The members of an object come back recoded. -/
theorem readObject_encodeObject (ms : List Member) :
    readObject (encodeObject ms) = some (ms.map recodeMember) := by
  cases ms with
  | nil => rfl
  | cons m ms =>
      have hne : encodeMember m ++ encodeTail ms ≠ [0x7D] := by
        intro heq
        have hhead := congrArg List.head? heq
        rw [encodeMember, List.append_assoc, head_quote] at hhead
        revert hhead
        decide
      rw [encodeObject_cons, readObject, if_neg (not_not.mpr rfl), if_neg hne,
        readMember_encodeTail]
      simp only [readTail_encodeTail ms (length_lt_encodeTail ms), Option.map_some, List.map_cons]

/-! ## The end of an object -/

/-- A text that goes through the scanner without ending a value is put in front of the
value that follows. -/
theorem scan_append {text : Bytes} {state state' : Nat × ScanMode}
    (h : text.foldlM advance state = some state') (rest : Bytes) :
    scan state (text ++ rest) = (scan state' rest).map (· + text.length) := by
  induction text generalizing state with
  | nil =>
      cases h
      simp
  | cons b text ih =>
      rw [List.foldlM_cons] at h
      obtain ⟨middle, hb, htext⟩ := Option.bind_eq_some_iff.mp h
      rw [List.cons_append, scan, hb]
      simp only [ih htext, Option.map_map, List.length_cons]
      rfl

theorem scan_eq_none {text : Bytes} {state state' : Nat × ScanMode}
    (h : text.foldlM advance state = some state') : scan state text = none := by
  have hscan := scan_append h []
  rwa [List.append_nil, scan, Option.map_none] at hscan

theorem foldlM_advance_append {text more : Bytes} {state state' state'' : Nat × ScanMode}
    (htext : text.foldlM advance state = some state')
    (hmore : more.foldlM advance state' = some state'') :
    (text ++ more).foldlM advance state = some state'' := by
  rw [List.foldlM_append, htext]
  exact hmore

section Pieces

variable {depth : Nat}

theorem foldlM_quoted {text : Bytes} (h : ∀ b ∈ text, b ≠ 0x22 ∧ b ≠ 0x5C) :
    text.foldlM advance (depth, .quoted) = some (depth, .quoted) := by
  induction text with
  | nil => rfl
  | cons b text ih =>
      obtain ⟨⟨hquote, hslash⟩, htext⟩ := List.forall_mem_cons.mp h
      rw [List.foldlM_cons, advance, if_neg hquote, if_neg hslash]
      exact ih htext

theorem foldlM_unicodeEscape {r : Nat} (h : r < 0x10000) :
    (unicodeEscape r).foldlM advance (depth, .quoted) = some (depth, .quoted) := by
  have hhex : ∀ n < 0x10, hexDigit n ≠ 0x22 ∧ hexDigit n ≠ 0x5C := by decide
  change [hexDigit (r / 0x1000), hexDigit (r / 0x100 % 0x10), hexDigit (r / 0x10 % 0x10),
    hexDigit (r % 0x10)].foldlM advance (depth, .quoted) = some (depth, .quoted)
  refine foldlM_quoted ?_
  simp only [List.forall_mem_cons, List.not_mem_nil, false_implies, implies_true, and_true]
  exact ⟨hhex _ (by omega), hhex _ (by omega), hhex _ (by omega), hhex _ (by omega)⟩

theorem foldlM_escape {rune : Nat × Nat} (h : IsScalar rune.1) :
    (escape rune).foldlM advance (depth, .quoted) = some (depth, .quoted) := by
  unfold escape
  by_cases herror : rune = (runeError, 1)
  · rw [if_pos herror]
    exact foldlM_unicodeEscape (by decide)
  rw [if_neg herror]
  cases hletter : letter rune.1 with
  | some c => rfl
  | none =>
      by_cases hescaped : isEscaped rune.1 = true
      · simp only [if_pos hescaped]
        exact foldlM_unicodeEscape (lt_of_isEscaped hescaped)
      · simp only [if_neg hescaped]
        refine foldlM_quoted fun b hb => ?_
        obtain ⟨hquote, hslash, -⟩ := plain_of_not_isEscaped h hletter hescaped b hb
        exact ⟨hquote, hslash⟩

theorem foldlM_quote (s : Bytes) :
    (quote s).foldlM advance (depth, .plain) = some (depth, .plain) := by
  have hrunes : ∀ ps : List (Nat × Nat), (∀ p ∈ ps, IsScalar p.1) →
      (ps.flatMap escape).foldlM advance (depth, .quoted) = some (depth, .quoted) := by
    intro ps hps
    induction ps with
    | nil => rfl
    | cons p ps ih =>
        obtain ⟨hp, hps⟩ := List.forall_mem_cons.mp hps
        rw [List.flatMap_cons]
        exact foldlM_advance_append (foldlM_escape hp) (ih hps)
  exact foldlM_advance_append (hrunes (runeWidths s) isScalar_of_mem_runeWidths) rfl

theorem foldlM_numeral (n : Nat) :
    (numeral n).foldlM advance (depth, .plain) = some (depth, .plain) := by
  have hdigit : ∀ d < 10, digit d ≠ 0x22 ∧ ¬ (digit d = 0x7B ∨ digit d = 0x5B) ∧
      ¬ (digit d = 0x7D ∨ digit d = 0x5D) := by decide
  have hdigits : ∀ text : Bytes, (∀ b ∈ text, isDigit b = true) →
      text.foldlM advance (depth, .plain) = some (depth, .plain) := by
    intro text htext
    induction text with
    | nil => rfl
    | cons b text ih =>
        obtain ⟨hb, hrest⟩ := List.forall_mem_cons.mp htext
        obtain ⟨d, hd, rfl⟩ := exists_digit hb
        obtain ⟨hquote, hopen, hclose⟩ := hdigit d hd
        rw [List.foldlM_cons, advance, if_neg hquote, if_neg hopen, if_neg hclose]
        exact ih hrest
  exact hdigits (numeral n) isDigit_of_mem_numeral

theorem foldlM_encodeMember (m : Member) :
    (encodeMember m).foldlM advance (depth, .plain) = some (depth, .plain) := by
  have hvalue : ∀ v, (encodeValue v).foldlM advance (depth, .plain) = some (depth, .plain) := by
    intro v
    cases v with
    | text s => exact foldlM_quote s
    | number n => exact foldlM_numeral n
    | bool b => cases b <;> rfl
  exact foldlM_advance_append (foldlM_quote m.1) (hvalue m.2)

theorem foldlM_encodeMembers (ms : List Member) :
    (encodeMembers ms).foldlM advance (depth, .plain) = some (depth, .plain) := by
  have htail : ∀ ms : List Member,
      (ms.flatMap fun m => 0x2C :: encodeMember m).foldlM advance (depth, .plain) =
        some (depth, .plain) := by
    intro ms
    induction ms with
    | nil => rfl
    | cons m ms ih =>
        rw [List.flatMap_cons]
        exact foldlM_advance_append (foldlM_encodeMember m) ih
  cases ms with
  | nil => rfl
  | cons m ms => exact foldlM_advance_append (foldlM_encodeMember m) (htail ms)

end Pieces

/-- An object is a text that ends no value, and its closing bracket. -/
theorem exists_body (ms : List Member) : ∃ body : Bytes, encodeObject ms = body ++ [0x7D] ∧
    body.foldlM advance (0, .plain) = some (1, .plain) :=
  ⟨0x7B :: encodeMembers ms, rfl, foldlM_encodeMembers ms⟩

theorem scan_encodeObject (ms : List Member) (more : Bytes) :
    scan (0, .plain) (encodeObject ms ++ more) = some (encodeObject ms).length := by
  obtain ⟨body, htext, hbody⟩ := exists_body ms
  rw [htext, List.append_assoc, scan_append hbody, List.length_append]
  exact congrArg some (Nat.add_comm _ _)

theorem scan_take_encodeObject (ms : List Member) (more : Bytes) {limit : Nat}
    (h : limit < (encodeObject ms).length) :
    scan (0, .plain) ((encodeObject ms ++ more).take limit) = none := by
  obtain ⟨body, htext, hbody⟩ := exists_body ms
  rw [htext, List.length_append, List.length_singleton] at h
  rw [htext, List.append_assoc, List.take_append_of_le_length (Nat.le_of_lt_succ h)]
  rw [← List.take_append_drop limit body, List.foldlM_append] at hbody
  obtain ⟨state, hstate, -⟩ := Option.bind_eq_some_iff.mp hbody
  exact scan_eq_none hstate

/-- What is read through a limit: the members, recoded, when the object is within it,
and nothing otherwise. -/
theorem decode_take_encodeObject (ms : List Member) (more : Bytes) (limit : Nat) :
    decode ((encodeObject ms ++ more).take limit) =
      if (encodeObject ms).length ≤ limit then some (ms.map recodeMember) else none := by
  split_ifs with hfits
  · rw [List.take_append, List.take_of_length_le hfits, decode, scan_encodeObject]
    simp only [List.take_left]
    exact readObject_encodeObject ms
  · rw [decode, scan_take_encodeObject ms more (Nat.not_le.mp hfits)]

/-! ## Widths -/

/-- The bytes that a rune takes inside a string. -/
def runeWidth (rune : Nat × Nat) : Nat :=
  if rune = (runeError, 1) then 6
  else if (letter rune.1).isSome then 2
  else if isEscaped rune.1 then 6
  else rune.2

def textWidth (s : Bytes) : Nat := ((runeWidths s).map runeWidth).sum + 2

def valueWidth : Value → Nat
  | .text s => textWidth s
  | .number n => (numeral n).length
  | .bool true => 4
  | .bool false => 5

/-- A member, with the comma or bracket in front of it. -/
def memberWidth (m : Member) : Nat := textWidth m.1 + valueWidth m.2 + 2

/-- The bytes of an object that has members. -/
def objectWidth (ms : List Member) : Nat := (ms.map memberWidth).sum + 1

theorem length_escape {s : Bytes} : ∀ p ∈ runeWidths s, (escape p).length = runeWidth p := by
  intro p hp
  unfold escape runeWidth
  by_cases herror : p = (runeError, 1)
  · rw [if_pos herror, if_pos herror]
    rfl
  obtain ⟨-, hwidth⟩ := (eq_or_of_mem_runeWidths p hp).resolve_left herror
  rw [if_neg herror, if_neg herror]
  cases hletter : letter p.1 with
  | some c => rfl
  | none =>
      by_cases hescaped : isEscaped p.1 = true
      · simp only [if_pos hescaped]
        rfl
      · simp only [if_neg hescaped]
        exact hwidth.symm

theorem length_quote (s : Bytes) : (quote s).length = textWidth s := by
  rw [quote, textWidth, List.length_cons, List.length_append, List.length_flatMap,
    List.map_congr_left length_escape]
  rfl

theorem length_encodeValue (v : Value) : (encodeValue v).length = valueWidth v := by
  cases v with
  | text s => exact length_quote s
  | number n => rfl
  | bool b => cases b <;> rfl

theorem length_encodeMember (m : Member) : (encodeMember m).length + 1 = memberWidth m := by
  rw [encodeMember, memberWidth, List.length_append, List.length_cons, length_quote,
    length_encodeValue]
  omega

theorem length_encodeTail (ms : List Member) :
    (encodeTail ms).length = (ms.map memberWidth).sum + 1 := by
  induction ms with
  | nil => rfl
  | cons m ms ih =>
      rw [encodeTail_cons, List.length_cons, List.length_append, ih, List.map_cons, List.sum_cons,
        ← length_encodeMember]
      omega

theorem length_encodeObject {ms : List Member} (h : ms ≠ []) :
    (encodeObject ms).length = objectWidth ms := by
  obtain ⟨m, ms, rfl⟩ := List.exists_cons_of_ne_nil h
  rw [encodeObject_cons, List.length_cons, List.length_append, length_encodeTail, objectWidth,
    List.map_cons, List.sum_cons, ← length_encodeMember]
  omega

end Hy2Route.Foundation.Json
