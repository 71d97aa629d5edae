import Hy2Route.Foundation.Strings
import Mathlib.Data.List.Range

/-!
# IP addresses and IPv4 prefixes

An address is invalid, IPv4 or IPv6, and a valid IPv4 prefix carries the bound
on its length. Prefixes are read as bit paths from the most significant bit:
an address is inside a prefix exactly when the prefix's path starts its own.
Different prefixes have different texts, and a text is parsed exactly when it is
the text of a prefix.
-/

namespace Hy2Route.Foundation

inductive Addr where
  | invalid
  | v4 (bits : BitVec 32)
  | v6 (bits : BitVec 128) (zone : Bytes)
  deriving DecidableEq

namespace Addr

def is4 : Addr → Bool
  | v4 _ => true
  | _ => false

/-- An IPv4 address mapped into IPv6. -/
def is4In6 : Addr → Bool
  | v6 bits _ => bits >>> 32 == 0xFFFF#128
  | _ => false

theorem eq_v4_of_is4 {a : Addr} (h : a.is4 = true) : ∃ bits, a = v4 bits := by
  cases a with
  | v4 bits => exact ⟨bits, rfl⟩
  | invalid => simp [is4] at h
  | v6 bits zone => simp [is4] at h

/-- Four bytes give an IPv4 address, sixteen an IPv6 one, and no other length an address. -/
def fromSlice (raw : Bytes) : Option Addr :=
  match raw with
  | [a, b, c, d] => some (v4 (a.toBitVec ++ b.toBitVec ++ c.toBitVec ++ d.toBitVec))
  | _ => if raw.length = 16 then
      some (v6 (raw.foldl (fun acc b => acc <<< 8 ||| b.toBitVec.setWidth 128) 0#128) [])
    else none

theorem is4_fromSlice {raw : Bytes} {addr : Addr} (h : fromSlice raw = some addr) :
    addr.is4 = true ↔ raw.length = 4 := by
  unfold fromSlice at h
  split at h
  · cases h
    simp [is4]
  · split_ifs at h with hlen
    cases h
    simp [is4, hlen]

/-- The IPv4 address of four bytes. -/
def from4 (a b c d : UInt8) : BitVec 32 :=
  a.toBitVec ++ b.toBitVec ++ c.toBitVec ++ d.toBitVec

/-- The byte of an IPv4 address that starts at a bit, counted from the last. -/
def octet (a : BitVec 32) (start : Nat) : UInt8 := UInt8.ofBitVec (a.extractLsb' start 8)

def as4 (a : BitVec 32) : Bytes := [octet a 24, octet a 16, octet a 8, octet a 0]

theorem from4_octets (a : BitVec 32) :
    from4 (octet a 24) (octet a 16) (octet a 8) (octet a 0) = a := by
  apply BitVec.eq_of_getLsbD_eq
  intro i hi
  simp only [from4, octet, BitVec.getLsbD_append, BitVec.getLsbD_extractLsb']
  grind

theorem as4_from4 (a b c d : UInt8) : as4 (from4 a b c d) = [a, b, c, d] := by
  have hbyte : ∀ (start : Nat) (x : UInt8),
      (∀ i < 8, (from4 a b c d).getLsbD (start + i) = x.toBitVec.getLsbD i) →
        octet (from4 a b c d) start = x := by
    intro start x h
    apply UInt8.toBitVec_inj.mp
    apply BitVec.eq_of_getLsbD_eq
    intro i hi
    simp only [octet, BitVec.getLsbD_extractLsb', hi, decide_true, Bool.true_and, h i hi]
  rw [as4, hbyte 24 a, hbyte 16 b, hbyte 8 c, hbyte 0 d] <;>
    · intro i hi
      simp only [from4, BitVec.getLsbD_append]
      grind

end Addr

/-- A valid IPv4 prefix. -/
structure IPv4Prefix where
  addr : BitVec 32
  bits : Nat
  bits_le : bits ≤ 32
  deriving DecidableEq

/-- A prefix value: without a usable length, IPv4, or IPv6. -/
inductive Prefix where
  | invalid (addr : Addr)
  | ipv4 (prefix4 : IPv4Prefix)
  | ipv6 (bits : BitVec 128) (length : Nat)

/-- The bits of an address, most significant first. -/
def addrBits (a : BitVec 32) : List Bool := (List.range 32).map a.getMsbD

namespace IPv4Prefix

/-- The address with everything after the prefix length cleared. -/
def masked (p : IPv4Prefix) : BitVec 32 := p.addr &&& (BitVec.allOnes 32 <<< (32 - p.bits))

/-- The prefix's own bits, read from the masked address. -/
def path (p : IPv4Prefix) : List Bool := (List.range p.bits).map p.masked.getMsbD

/-- The top `bits` bits of the two addresses agree. -/
def contains (p : IPv4Prefix) (a : BitVec 32) : Bool := (p.addr ^^^ a) >>> (32 - p.bits) == 0#32

@[simp] theorem length_path (p : IPv4Prefix) : p.path.length = p.bits := by
  simp [path]

theorem masked_getMsbD (p : IPv4Prefix) {i : Nat} (h : i < p.bits) :
    p.masked.getMsbD i = p.addr.getMsbD i := by
  have hp := p.bits_le
  have h₁ : i + (32 - p.bits) < 32 := by omega
  rw [masked, BitVec.getMsbD_and, BitVec.getMsbD_shiftLeft, BitVec.getMsbD_allOnes,
    decide_eq_true h₁, Bool.and_true]

theorem masked_getMsbD_of_le (p : IPv4Prefix) {i : Nat} (h : p.bits ≤ i) :
    p.masked.getMsbD i = false := by
  have hp := p.bits_le
  have h₁ : ¬ i + (32 - p.bits) < 32 := by omega
  rw [masked, BitVec.getMsbD_and, BitVec.getMsbD_shiftLeft, BitVec.getMsbD_allOnes,
    decide_eq_false h₁, Bool.and_false]

theorem contains_iff_getMsbD (p : IPv4Prefix) (a : BitVec 32) :
    p.contains a = true ↔ ∀ i < p.bits, p.addr.getMsbD i = a.getMsbD i := by
  have hp := p.bits_le
  simp only [contains, beq_iff_eq]
  constructor
  · intro h i hi
    have hbit := congrArg (fun v => v.getMsbD (i + (32 - p.bits))) h
    have hge : ¬ i + (32 - p.bits) < 32 - p.bits := by omega
    have hlt : i + (32 - p.bits) < 32 := by omega
    simpa [BitVec.getMsbD_ushiftRight, hge, hlt] using hbit
  · intro h
    apply BitVec.eq_of_getMsbD_eq
    intro i hi
    by_cases hlt : i < 32 - p.bits
    · simp [BitVec.getMsbD_ushiftRight, hlt]
    · have hj := h (i - (32 - p.bits)) (by omega)
      simp [BitVec.getMsbD_ushiftRight, hlt, hj]

/-- An address is inside a prefix exactly when the prefix's path starts the address's bits. -/
theorem path_prefix_iff (p : IPv4Prefix) (a : BitVec 32) :
    p.path <+: addrBits a ↔ p.contains a = true := by
  have hp := p.bits_le
  rw [contains_iff_getMsbD, List.prefix_iff_eq_take, length_path, addrBits, ← List.map_take,
    List.take_range, Nat.min_eq_left hp, path, List.map_inj_left]
  simp only [List.mem_range]
  constructor
  · intro h i hi
    rw [← masked_getMsbD p hi, h i hi]
  · intro h i hi
    rw [masked_getMsbD p hi, h i hi]

/-- Two prefixes of the same length that contain one address have the same path. -/
theorem path_eq_of_contains {p q : IPv4Prefix} {a : BitVec 32} (hp : p.contains a = true)
    (hq : q.contains a = true) (hlen : p.bits = q.bits) : p.path = q.path := by
  have h₁ := List.prefix_iff_eq_take.mp ((path_prefix_iff p a).mpr hp)
  have h₂ := List.prefix_iff_eq_take.mp ((path_prefix_iff q a).mpr hq)
  rw [h₁, h₂, length_path, length_path, hlen]

/-- The prefix with its host bits cleared. -/
def maskedPrefix (p : IPv4Prefix) : IPv4Prefix := ⟨p.masked, p.bits, p.bits_le⟩

theorem contains_maskedPrefix (p : IPv4Prefix) (a : BitVec 32) :
    p.maskedPrefix.contains a = true ↔ p.contains a = true := by
  rw [contains_iff_getMsbD, contains_iff_getMsbD]
  refine forall₂_congr fun i hi => ?_
  rw [show p.maskedPrefix.addr = p.masked from rfl, masked_getMsbD p hi]

/-- Prefixes have the same path exactly when they differ only in their host bits. -/
theorem maskedPrefix_eq_iff (p q : IPv4Prefix) : p.maskedPrefix = q.maskedPrefix ↔
    p.path = q.path := by
  constructor
  · intro h
    have haddr : p.masked = q.masked := congrArg addr h
    have hbits : p.maskedPrefix.bits = q.maskedPrefix.bits := by rw [h]
    rw [path, path, haddr, show p.bits = q.bits from hbits]
  · intro h
    have hbits : p.bits = q.bits := by simpa using congrArg List.length h
    have hmasked : p.masked = q.masked := by
      apply BitVec.eq_of_getMsbD_eq
      intro i hi
      by_cases hlt : i < p.bits
      · have hget := congrArg (·[i]?) h
        simpa [path, hlt, hbits ▸ hlt] using hget
      · have hle : p.bits ≤ i := Nat.le_of_not_lt hlt
        rw [masked_getMsbD_of_le p hle, masked_getMsbD_of_le q (hbits ▸ hle)]
    simp only [maskedPrefix, hmasked, hbits]

end IPv4Prefix

def isDigit (c : UInt8) : Bool := 0x30 ≤ c && c ≤ 0x39

def digitValue (c : UInt8) : Nat := c.toNat - 0x30

/-- The octet loop of the dotted-decimal parser: the value and the number of
digits of the current octet, and the octets already complete. An octet has no
leading zero, at least one digit and a value of at most 255. -/
def parseIPv4Fields : Bytes → Nat → Nat → List Nat → Option (List Nat)
  | [], val, _, fields => if fields.length < 3 then none else some (fields ++ [val])
  | c :: rest, val, digLen, fields =>
      if isDigit c then
        if digLen = 1 ∧ val = 0 then none
        else
          let val := val * 10 + digitValue c
          if 255 < val then none else parseIPv4Fields rest val (digLen + 1) fields
      else if c = 0x2E then
        if digLen = 0 ∨ rest = [] then none
        else if fields.length = 3 then none
        else parseIPv4Fields rest 0 0 (fields ++ [val])
      else none

/-- A dotted-decimal IPv4 address. A text whose first separator is a colon or a
percent sign is never one. -/
def parseIPv4 (s : Bytes) : Option (BitVec 32) :=
  match parseIPv4Fields s 0 0 [] with
  | some [a, b, c, d] =>
      some (BitVec.ofNat 8 a ++ BitVec.ofNat 8 b ++ BitVec.ofNat 8 c ++ BitVec.ofNat 8 d)
  | _ => none

/-- A prefix length: decimal, with no sign and no leading zero. -/
def parsePrefixBits (s : Bytes) : Option Nat :=
  match s with
  | [] => none
  | c :: rest =>
      if rest ≠ [] ∧ (c < 0x31 ∨ 0x39 < c) then none
      else if s.all isDigit then some (s.foldl (fun n d => n * 10 + digitValue d) 0)
      else none

/-- Parse a prefix at its last slash and keep it only when its address is IPv4. -/
def parseIPv4Prefix (s : Bytes) : Option IPv4Prefix :=
  match (s.splitOn 0x2F).reverse with
  | last :: first :: others =>
      match parseIPv4 (List.intercalate [0x2F] (first :: others).reverse),
        parsePrefixBits last with
      | some addr, some bits => if h : bits ≤ 32 then some ⟨addr, bits, h⟩ else none
      | _, _ => none
  | _ => none

/-! ## Texts of addresses and prefixes -/

def digit (n : Nat) : UInt8 := UInt8.ofNat (0x30 + n)

/-- A number of at most three digits. -/
def decimal (x : Nat) : Bytes :=
  (if 100 ≤ x then [digit (x / 100)] else []) ++
    (if 10 ≤ x then [digit (x / 10 % 10)] else []) ++ [digit (x % 10)]

def Addr.text4 (a : BitVec 32) : Bytes :=
  decimal (octet a 24).toNat ++ 0x2E :: (decimal (octet a 16).toNat ++
    0x2E :: (decimal (octet a 8).toNat ++ 0x2E :: decimal (octet a 0).toNat))

def IPv4Prefix.text (p : IPv4Prefix) : Bytes := Addr.text4 p.addr ++ 0x2F :: decimal p.bits

theorem isDigit_digit : ∀ d < 10, isDigit (digit d) = true ∧ digitValue (digit d) = d := by
  decide

theorem decimal_value : ∀ x < 256, (decimal x).foldl (fun n d => n * 10 + digitValue d) 0 = x := by
  intro x hx
  have hhundreds := (isDigit_digit (x / 100) (by omega)).2
  have htens := (isDigit_digit (x / 10 % 10) (by omega)).2
  have hones := (isDigit_digit (x % 10) (by omega)).2
  unfold decimal
  split_ifs <;> simp only [List.nil_append, List.cons_append, List.foldl_cons, List.foldl_nil,
    hhundreds, htens, hones] <;> omega

theorem isDigit_of_mem_decimal : ∀ x < 256, ∀ d ∈ decimal x, isDigit d = true := by
  intro x hx d hd
  have hdigit : ∃ n < 10, d = digit n := by
    unfold decimal at hd
    simp only [List.mem_append, List.mem_ite_nil_right, List.mem_singleton] at hd
    obtain (⟨-, hd⟩ | ⟨-, hd⟩) | hd := hd
    · exact ⟨x / 100, by omega, hd⟩
    · exact ⟨x / 10 % 10, by omega, hd⟩
    · exact ⟨x % 10, by omega, hd⟩
  obtain ⟨n, hn, rfl⟩ := hdigit
  exact (isDigit_digit n hn).1

theorem decimal_inj {x y : Nat} (hx : x < 256) (hy : y < 256) (h : decimal x = decimal y) :
    x = y := by
  rw [← decimal_value x hx, h, decimal_value y hy]

theorem not_mem_decimal {sep : UInt8} (hsep : isDigit sep = false) {x : Nat} (hx : x < 256) :
    sep ∉ decimal x := by
  intro hmem
  rw [isDigit_of_mem_decimal x hx sep hmem] at hsep
  cases hsep

theorem Addr.text4_injective : Function.Injective Addr.text4 := by
  intro a b h
  have hdot : ∀ x : UInt8, (0x2E : UInt8) ∉ decimal x.toNat :=
    fun x => not_mem_decimal rfl x.toNat_lt
  have hinj : ∀ {x y : UInt8}, decimal x.toNat = decimal y.toNat → x = y :=
    fun {x y} h => UInt8.toNat_inj.mp (decimal_inj x.toNat_lt y.toNat_lt h)
  obtain ⟨h₁, h⟩ := append_sep_inj (hdot _) (hdot _) h
  obtain ⟨h₂, h⟩ := append_sep_inj (hdot _) (hdot _) h
  obtain ⟨h₃, h₄⟩ := append_sep_inj (hdot _) (hdot _) h
  rw [← from4_octets a, ← from4_octets b, hinj h₁, hinj h₂, hinj h₃, hinj h₄]

theorem Addr.not_mem_text4 {sep : UInt8} (hdigit : isDigit sep = false) (hdot : sep ≠ 0x2E)
    (a : BitVec 32) : sep ∉ Addr.text4 a := by
  have hsep : ∀ x : UInt8, sep ∉ decimal x.toNat :=
    fun x => not_mem_decimal hdigit x.toNat_lt
  simp [text4, hsep, hdot]

theorem Addr.slash_not_mem_text4 (a : BitVec 32) : (0x2F : UInt8) ∉ Addr.text4 a :=
  not_mem_text4 rfl (by decide) a

theorem IPv4Prefix.text_injective : Function.Injective IPv4Prefix.text := by
  rintro ⟨a, m, hm⟩ ⟨b, n, hn⟩ h
  obtain ⟨haddr, hbits⟩ := append_sep_inj (Addr.slash_not_mem_text4 a)
    (Addr.slash_not_mem_text4 b) h
  cases Addr.text4_injective haddr
  cases decimal_inj (Nat.lt_of_le_of_lt hm (by decide)) (Nat.lt_of_le_of_lt hn (by decide)) hbits
  rfl

/-! ## Reading texts back -/

theorem digit_of_isDigit : ∀ c < 256, isDigit (UInt8.ofNat c) = true →
    digitValue (UInt8.ofNat c) < 10 ∧ digit (digitValue (UInt8.ofNat c)) = UInt8.ofNat c := by
  intro c hc h
  have hnat : (UInt8.ofNat c).toNat = c := by rw [UInt8.toNat_ofNat', Nat.mod_eq_of_lt hc]
  have hrange : 0x30 ≤ c ∧ c ≤ 0x39 := by
    simpa [isDigit, UInt8.le_iff_toNat_le, hnat] using h
  rw [digitValue, hnat, digit, Nat.add_sub_cancel' hrange.1]
  exact ⟨by omega, rfl⟩

theorem decimal_of_lt : ∀ d < 10, decimal d = [digit d] := by
  decide

/-- One more digit after a number that does not start with zero. -/
theorem decimal_snoc : ∀ x < 26, ∀ d < 10, x ≠ 0 → x * 10 + d ≤ 255 →
    decimal (x * 10 + d) = decimal x ++ [digit d] := by
  intro x hx d hd hne _
  have hhundreds : (x * 10 + d) / 100 = x / 10 % 10 := by omega
  have htens : (x * 10 + d) / 10 % 10 = x % 10 := by omega
  have hones : (x * 10 + d) % 10 = d := by omega
  unfold decimal
  rw [if_pos (show 10 ≤ x * 10 + d by omega), if_neg (show ¬ 100 ≤ x by omega), hhundreds, htens,
    hones]
  by_cases hten : 10 ≤ x
  · rw [if_pos hten, if_pos (show 100 ≤ x * 10 + d by omega)]
    rfl
  · rw [if_neg hten, if_neg (show ¬ 100 ≤ x * 10 + d by omega)]
    rfl

theorem exists_digit {c : UInt8} (h : isDigit c = true) : ∃ d < 10, c = digit d := by
  have hdigit := digit_of_isDigit c.toNat c.toNat_lt
  rw [UInt8.ofNat_toNat] at hdigit
  exact ⟨digitValue c, (hdigit h).1, (hdigit h).2.symm⟩

/-- Numbers in decimal, separated by dots. -/
def dotted : List Nat → Bytes
  | [] => []
  | [x] => decimal x
  | x :: rest => decimal x ++ 0x2E :: dotted rest

theorem dotted_cons (x : Nat) {rest : List Nat} (h : rest ≠ []) :
    dotted (x :: rest) = decimal x ++ 0x2E :: dotted rest := by
  cases rest with
  | nil => exact absurd rfl h
  | cons y rest => rfl

section Fields

variable {val digLen : Nat} {fields : List Nat}

@[simp] theorem parseIPv4Fields_nil : parseIPv4Fields [] val digLen fields =
    if fields.length < 3 then none else some (fields ++ [val]) := rfl

theorem parseIPv4Fields_digit {d : Nat} (hd : d < 10) (rest : Bytes) :
    parseIPv4Fields (digit d :: rest) val digLen fields =
      if digLen = 1 ∧ val = 0 then none
      else if 255 < val * 10 + d then none
      else parseIPv4Fields rest (val * 10 + d) (digLen + 1) fields := by
  obtain ⟨hdigit, hvalue⟩ := isDigit_digit d hd
  rw [parseIPv4Fields, if_pos hdigit]
  simp only [hvalue]

theorem parseIPv4Fields_dot (rest : Bytes) :
    parseIPv4Fields (0x2E :: rest) val digLen fields =
      if digLen = 0 ∨ rest = [] then none
      else if fields.length = 3 then none
      else parseIPv4Fields rest 0 0 (fields ++ [val]) := by
  rfl

/-- A number of at most 255 is read to its end. -/
theorem parseIPv4Fields_decimal {x : Nat} (hx : x < 256) (rest : Bytes) (fields : List Nat) :
    ∃ n ≠ 0, parseIPv4Fields (decimal x ++ rest) 0 0 fields = parseIPv4Fields rest x n fields := by
  induction x using Nat.strongRecOn generalizing rest with
  | ind x ih =>
      by_cases hten : x < 10
      · have hle : ¬ 255 < 0 * 10 + x := by omega
        refine ⟨1, by decide, ?_⟩
        rw [decimal_of_lt x hten, List.singleton_append, parseIPv4Fields_digit hten,
          if_neg (by simp), if_neg hle, Nat.zero_mul, Nat.zero_add]
      · have hsplit : x = x / 10 * 10 + x % 10 := by omega
        have hsnoc : decimal x = decimal (x / 10) ++ [digit (x % 10)] := by
          conv_lhs => rw [hsplit]
          exact decimal_snoc _ (by omega) _ (by omega) (by omega) (by omega)
        obtain ⟨n, hn, hread⟩ := ih (x / 10) (by omega) (by omega) (digit (x % 10) :: rest)
        have hzero : ¬ (n = 1 ∧ x / 10 = 0) := by omega
        have hle : ¬ 255 < x / 10 * 10 + x % 10 := by omega
        refine ⟨n + 1, by omega, ?_⟩
        rw [hsnoc, List.append_assoc, List.singleton_append, hread,
          parseIPv4Fields_digit (by omega), if_neg hzero, if_neg hle, ← hsplit]

/-- The loop reads numbers in dotted form. -/
theorem parseIPv4Fields_dotted {more : List Nat} (hmore : more ≠ []) (hlt : ∀ x ∈ more, x < 256)
    (hlen : fields.length + more.length = 4) :
    parseIPv4Fields (dotted more) 0 0 fields = some (fields ++ more) := by
  induction more generalizing fields with
  | nil => exact absurd rfl hmore
  | cons x rest ih =>
      obtain ⟨hx, hrest⟩ := List.forall_mem_cons.mp hlt
      rw [List.length_cons] at hlen
      by_cases hnil : rest = []
      · subst hnil
        obtain ⟨n, -, hread⟩ := parseIPv4Fields_decimal hx [] fields
        have hfull : ¬ fields.length < 3 := by simpa using hlen.ge
        rw [dotted, ← List.append_nil (decimal x), hread, parseIPv4Fields_nil, if_neg hfull]
      · obtain ⟨n, hn, hread⟩ := parseIPv4Fields_decimal hx (0x2E :: dotted rest) fields
        have hlen' : 0 < rest.length := List.length_pos_iff.mpr hnil
        have hne : dotted rest ≠ [] := by
          cases rest with
          | nil => exact absurd rfl hnil
          | cons y ys => cases ys <;> simp [dotted, decimal]
        rw [dotted_cons x hnil, hread, parseIPv4Fields_dot, if_neg (by simp [hn, hne]),
          if_neg (by omega), ih hnil hrest (by simp; omega), List.append_assoc,
          List.singleton_append]

/-- What the octet loop accepts: the digits of the current octet, if it has any,
and the rest of the text are the numbers that it adds. -/
theorem parseIPv4Fields_some {rest : Bytes} {out : List Nat}
    (h : parseIPv4Fields rest val digLen fields = some out) (hval : val < 256)
    (hstart : digLen = 0 → val = 0 ∧ (rest = [] → fields.length < 3))
    (hmore : 2 ≤ digLen → val ≠ 0) (hfields : fields.length ≤ 3) :
    ∃ more, out = fields ++ more ∧ more ≠ [] ∧ out.length = 4 ∧ (∀ x ∈ more, x < 256) ∧
      (if digLen = 0 then [] else decimal val) ++ rest = dotted more := by
  induction rest generalizing val digLen fields with
  | nil =>
      rw [parseIPv4Fields_nil] at h
      split_ifs at h with hlen
      cases h
      have hne : digLen ≠ 0 := fun h0 => hlen ((hstart h0).2 rfl)
      refine ⟨[val], rfl, by simp, by simp; omega, by simpa using hval, by simp [hne, dotted]⟩
  | cons c rest ih =>
      by_cases hdigit : isDigit c = true
      · obtain ⟨d, hd, rfl⟩ := exists_digit hdigit
        rw [parseIPv4Fields_digit hd] at h
        split_ifs at h with hzero hbig
        have hnext : (if digLen = 0 then [] else decimal val) ++ [digit d] =
            decimal (val * 10 + d) := by
          by_cases hlen : digLen = 0
          · rw [if_pos hlen, (hstart hlen).1, Nat.zero_mul, Nat.zero_add, decimal_of_lt d hd,
              List.nil_append]
          · rw [if_neg hlen, decimal_snoc val (by omega) d hd (by omega) (by omega)]
        obtain ⟨more, hout, hne, hfour, hall, htext⟩ :=
          ih h (by omega) (by omega) (by omega) hfields
        refine ⟨more, hout, hne, hfour, hall, ?_⟩
        rw [← htext, if_neg (Nat.succ_ne_zero _), ← hnext, List.append_assoc,
          List.singleton_append]
      · by_cases hdot : c = 0x2E
        · subst hdot
          rw [parseIPv4Fields_dot] at h
          split_ifs at h with hempty hthree
          push Not at hempty
          obtain ⟨more, rfl, hne, hfour, hall, htext⟩ :=
            ih h (by decide) (by simp [hempty.2]) (by decide) (by simp; omega)
          refine ⟨val :: more, by simp, by simp, hfour, ?_, ?_⟩
          · exact List.forall_mem_cons.mpr ⟨hval, hall⟩
          · rw [dotted_cons val hne, if_neg hempty.1, ← htext]
            rfl
        · rw [parseIPv4Fields, if_neg hdigit, if_neg hdot] at h
          cases h

end Fields

namespace Addr

def octets (a : BitVec 32) : List Nat := (as4 a).map UInt8.toNat

theorem text4_eq_dotted (a : BitVec 32) : text4 a = dotted (octets a) := rfl

theorem octets_lt (a : BitVec 32) : ∀ x ∈ octets a, x < 256 := by
  intro x hx
  obtain ⟨b, -, rfl⟩ := List.mem_map.mp hx
  exact b.toNat_lt

theorem octets_from4 {w x y z : Nat} (hw : w < 256) (hx : x < 256) (hy : y < 256) (hz : z < 256) :
    octets (BitVec.ofNat 8 w ++ BitVec.ofNat 8 x ++ BitVec.ofNat 8 y ++ BitVec.ofNat 8 z) =
      [w, x, y, z] := by
  have hfour := as4_from4 (UInt8.ofNat w) (UInt8.ofNat x) (UInt8.ofNat y) (UInt8.ofNat z)
  refine (congrArg (List.map UInt8.toNat) hfour).trans ?_
  simp [UInt8.toNat_ofNat', Nat.mod_eq_of_lt, hw, hx, hy, hz]

end Addr

/-- The text of an address is read back, and no other text is read. -/
theorem parseIPv4_iff {s : Bytes} {a : BitVec 32} : parseIPv4 s = some a ↔ s = Addr.text4 a := by
  constructor
  · intro h
    unfold parseIPv4 at h
    split at h
    · rename_i w x y z hread
      cases h
      obtain ⟨more, hout, -, -, hlt, htext⟩ :=
        parseIPv4Fields_some hread (by decide) (by simp) (by decide) (by decide)
      rw [List.nil_append] at hout
      subst hout
      simp only [List.forall_mem_cons] at hlt
      rw [Addr.text4_eq_dotted, Addr.octets_from4 hlt.1 hlt.2.1 hlt.2.2.1 hlt.2.2.2.1]
      simpa using htext
    · cases h
  · rintro rfl
    have hread : parseIPv4Fields (dotted (Addr.octets a)) 0 0 [] = some ([] ++ Addr.octets a) :=
      parseIPv4Fields_dotted (by simp [Addr.octets, Addr.as4]) (Addr.octets_lt a) rfl
    rw [parseIPv4, Addr.text4_eq_dotted, hread]
    refine congrArg some (Eq.trans ?_ (Addr.from4_octets a))
    simp only [Addr.from4, UInt8.toNat, BitVec.ofNat_toNat, BitVec.setWidth_eq]

theorem foldl_digits_ge (s : Bytes) (n : Nat) :
    n ≤ s.foldl (fun n d => n * 10 + digitValue d) n := by
  induction s generalizing n with
  | nil => exact Nat.le_refl n
  | cons c rest ih => exact Nat.le_trans (by omega) (ih (n * 10 + digitValue c))

theorem parsePrefixBits_decimal : ∀ n ≤ 32, parsePrefixBits (decimal n) = some n := by
  decide

theorem digit_lt_one_iff : ∀ d < 10, digit d < 0x31 ↔ d = 0 := by
  decide

/-- A prefix length of at most 32 is read from its decimal text only. -/
theorem parsePrefixBits_iff {s : Bytes} {n : Nat} (hn : n ≤ 32) :
    parsePrefixBits s = some n ↔ s = decimal n := by
  constructor
  · intro h
    cases s with
    | nil => cases h
    | cons c rest =>
        rw [parsePrefixBits] at h
        split_ifs at h with hlead hdigits
        rw [List.all_cons, Bool.and_eq_true] at hdigits
        obtain ⟨d, hd, rfl⟩ := exists_digit hdigits.1
        rw [List.foldl_cons, Nat.zero_mul, Nat.zero_add, (isDigit_digit d hd).2,
          Option.some.injEq] at h
        cases rest with
        | nil =>
            rw [← h, List.foldl_nil, decimal_of_lt d hd]
        | cons c₂ rest =>
            rw [List.all_cons, Bool.and_eq_true] at hdigits
            obtain ⟨e, he, rfl⟩ := exists_digit hdigits.2.1
            have hpos : d ≠ 0 := fun h0 => hlead
              ⟨by simp, Or.inl ((digit_lt_one_iff d hd).mpr h0)⟩
            rw [List.foldl_cons, (isDigit_digit e he).2] at h
            cases rest with
            | nil =>
                rw [← h, List.foldl_nil, decimal_snoc d (by omega) e he hpos (by omega),
                  decimal_of_lt d hd, List.singleton_append]
            | cons c₃ rest =>
                -- Three digits without a leading zero make at least one hundred.
                have hge := foldl_digits_ge rest ((d * 10 + e) * 10 + digitValue c₃)
                rw [List.foldl_cons] at h
                omega
  · rintro rfl
    exact parsePrefixBits_decimal n hn

theorem intercalate_concat (sep last : Bytes) {parts : List Bytes} (h : parts ≠ []) :
    sep.intercalate (parts ++ [last]) = sep.intercalate parts ++ (sep ++ last) := by
  induction parts with
  | nil => exact absurd rfl h
  | cons part rest ih =>
      by_cases hnil : rest = []
      · subst hnil
        simp [List.intercalate_cons_of_ne_nil]
      · rw [List.cons_append, List.intercalate_cons_of_ne_nil (by simp), ih hnil,
          List.intercalate_cons_of_ne_nil hnil]
        simp

/-- The text of a prefix is read back, and no other text is read. -/
theorem parseIPv4Prefix_iff {s : Bytes} {p : IPv4Prefix} :
    parseIPv4Prefix s = some p ↔ s = p.text := by
  constructor
  · intro h
    unfold parseIPv4Prefix at h
    split at h
    · rename_i last first others hparts
      split at h
      · rename_i addr bits haddr hbits
        split_ifs at h with hle
        cases h
        have hsplit : s.splitOn 0x2F = (first :: others).reverse ++ [last] := by
          rw [← List.reverse_reverse (s.splitOn 0x2F), hparts, List.reverse_cons]
        have hs : [0x2F].intercalate (s.splitOn 0x2F) = s := List.intercalate_splitOn _
        rw [hsplit, intercalate_concat _ _ (by simp), parseIPv4_iff.mp haddr,
          (parsePrefixBits_iff hle).mp hbits] at hs
        exact hs.symm
      · cases h
    · cases h
  · rintro rfl
    have hslash : (0x2F : UInt8) ∉ decimal p.bits :=
      not_mem_decimal rfl (Nat.lt_of_le_of_lt p.bits_le (by decide))
    have hsplit : p.text.splitOn 0x2F = [Addr.text4 p.addr, decimal p.bits] := by
      rw [IPv4Prefix.text, List.splitOn_append_cons_self_of_not_mem (Addr.slash_not_mem_text4 _),
        List.splitOn_eq_singleton hslash]
    rw [parseIPv4Prefix, hsplit]
    simp [parseIPv4_iff.mpr rfl, (parsePrefixBits_iff p.bits_le).mpr rfl, p.bits_le]

end Hy2Route.Foundation
