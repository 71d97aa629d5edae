import Hy2Route.Foundation.Binary
import Hy2Route.Policy.Classifier

/-!
# The dataset file

A file is a payload and its checksum. The payload is the magic, then the
domains and the prefixes, each list behind its length. The checksum is any
fixed function to 32 bytes. Offsets into the payload are modelled by the bytes
that are left.
-/

namespace Hy2Route.Dataset

open Foundation Policy

inductive FormatError where
  /-- dataset has too many entries -/
  | tooManyEntries
  /-- dataset domain length is invalid -/
  | domainLength
  /-- dataset domain is not lower-case ASCII -/
  | domainText (name : Bytes)
  /-- invalid IPv4 prefix -/
  | invalidPrefix (pre : Prefix)
  /-- dataset is too short -/
  | tooShort
  /-- dataset checksum mismatch -/
  | checksumMismatch
  /-- dataset magic mismatch -/
  | magicMismatch
  /-- dataset domain count is truncated -/
  | domainCountTruncated
  /-- dataset domain is truncated -/
  | domainTruncated
  /-- dataset domain entry is invalid -/
  | domainEntry
  /-- dataset prefix count is truncated -/
  | prefixCountTruncated
  /-- dataset prefix is truncated -/
  | prefixTruncated
  /-- dataset prefix bits are invalid -/
  | prefixBits
  /-- dataset has trailing payload -/
  | trailingPayload

/-- A function to sums of 32 bytes. -/
structure Checksum where
  sum : Bytes → Bytes
  length_sum : ∀ payload, (sum payload).length = 32

def magic : Bytes := ascii "H2RDATA1"

def maxUint32 : Nat := 2 ^ 32 - 1

def nameRune (char : Nat) : Bool :=
  (0x61 ≤ char && char ≤ 0x7A) || (0x30 ≤ char && char ≤ 0x39) || char == 0x2E || char == 0x2D

def validateDomain (domain : DatasetDomain) : Except FormatError Unit :=
  if domain.name.length = 0 ∨ 65535 < domain.name.length then .error .domainLength
  else if (runes domain.name).all nameRune then .ok ()
  else .error (.domainText domain.name)

def writeUint16 (value : Nat) : Bytes := bigEndian 2 value

def writeUint32 (value : Nat) : Bytes := bigEndian 4 value

/-! ## Writing -/

def kind (domain : DatasetDomain) : UInt8 := if domain.exact then 1 else 0

def writeDomain (domain : DatasetDomain) : Except FormatError Bytes :=
  match validateDomain domain with
  | .error err => .error err
  | .ok () => .ok (kind domain :: writeUint16 domain.name.length ++ domain.name)

def writePrefix (pre : Prefix) : Except FormatError Bytes :=
  match pre with
  | .ipv4 pre => .ok (Addr.as4 pre.addr ++ [UInt8.ofNat pre.bits])
  | pre => .error (.invalidPrefix pre)

def writePayload (data : Dataset) : Except FormatError Bytes :=
  if maxUint32 < data.domains.length ∨ maxUint32 < data.prefixes.length then
    .error .tooManyEntries
  else
    match encodeAll writeDomain data.domains with
    | .error err => .error err
    | .ok domains =>
        match encodeAll writePrefix data.prefixes with
        | .error err => .error err
        | .ok prefixes =>
            .ok (magic ++ writeUint32 data.domains.length ++ domains ++
              writeUint32 data.prefixes.length ++ prefixes)

def write (sha256 : Checksum) (data : Dataset) : Except FormatError Bytes :=
  match writePayload data with
  | .error err => .error err
  | .ok payload => .ok (payload ++ sha256.sum payload)

/-! ## Reading -/

def readUint32 (truncated : FormatError) : Decoder FormatError Nat := takeNumber 4 truncated

/-- The part of a domain after its kind and length. -/
def readName (kind : UInt8) (length : Nat) : Decoder FormatError DatasetDomain := fun rest =>
  if (kind ≠ 0 ∧ kind ≠ 1) ∨ length = 0 ∨ rest.length < length then .error .domainEntry
  else
    match validateDomain ⟨rest.take length, kind == 1⟩ with
    | .error err => .error err
    | .ok () => .ok (⟨rest.take length, kind == 1⟩, rest.drop length)

def readDomain : Decoder FormatError DatasetDomain
  | kind :: high :: low :: rest => readName kind (ofBigEndian [high, low]) rest
  | _ => .error .domainTruncated

def readPrefix : Decoder FormatError Prefix
  | a :: b :: c :: d :: bits :: rest =>
      if h : bits.toNat ≤ 32 then .ok (.ipv4 ⟨Addr.from4 a b c d, bits.toNat, h⟩, rest)
      else .error .prefixBits
  | _ => .error .prefixTruncated

/-- The two lists after the magic. -/
def readEntries (entries : Bytes) : Except FormatError Dataset :=
  match readUint32 .domainCountTruncated entries with
  | .error err => .error err
  | .ok (domainCount, rest) =>
      match times readDomain domainCount rest with
      | .error err => .error err
      | .ok (domains, rest) =>
          match readUint32 .prefixCountTruncated rest with
          | .error err => .error err
          | .ok (prefixCount, rest) =>
              match times readPrefix prefixCount rest with
              | .error err => .error err
              | .ok (prefixes, rest) =>
                  if rest ≠ [] then .error .trailingPayload else .ok ⟨domains, prefixes⟩

def readPayload (payload : Bytes) : Except FormatError Dataset :=
  if payload.take magic.length ≠ magic then .error .magicMismatch
  else readEntries (payload.drop magic.length)

def read (sha256 : Checksum) (raw : Bytes) : Except FormatError Dataset :=
  if raw.length < magic.length + 4 + 4 + 32 then .error .tooShort
  else
    let payload := raw.take (raw.length - 32)
    let expectedSum := raw.drop (raw.length - 32)
    if sha256.sum payload ≠ expectedSum then .error .checksumMismatch else readPayload payload

/-! ## What is accepted -/

/-- One to 65535 bytes, each a lower-case letter, a digit, a dot or a hyphen. -/
structure ValidName (name : Bytes) : Prop where
  nonempty : 1 ≤ name.length
  short : name.length ≤ 65535
  bytes : ∀ b ∈ name, nameRune b.toNat = true

/-- Every name is valid and every prefix is a valid IPv4 prefix. -/
structure WellFormed (data : Dataset) : Prop where
  names : ∀ domain ∈ data.domains, ValidName domain.name
  prefixes : ∀ pre ∈ data.prefixes, ∃ pre4, pre = .ipv4 pre4

theorem nameRune_ascii (r : Nat) (h : nameRune r = true) : r < 0x80 := by
  simp only [nameRune, Bool.or_eq_true, Bool.and_eq_true, decide_eq_true_eq, beq_iff_eq] at h
  omega

theorem validateDomain_ok_iff (domain : DatasetDomain) :
    validateDomain domain = .ok () ↔ ValidName domain.name := by
  unfold validateDomain
  constructor
  · intro h
    split_ifs at h with hlen hrunes
    rw [runes_all_iff nameRune_ascii, List.all_eq_true] at hrunes
    exact ⟨by omega, by omega, hrunes⟩
  · intro h
    have hlen : ¬ (domain.name.length = 0 ∨ 65535 < domain.name.length) := by
      have := h.nonempty
      have := h.short
      omega
    have hrunes := (runes_all_iff nameRune_ascii domain.name).mpr (List.all_eq_true.mpr h.bytes)
    rw [if_neg hlen, if_pos hrunes]

theorem writeDomain_ok_iff (domain : DatasetDomain) (raw : Bytes) :
    writeDomain domain = .ok raw ↔ ValidName domain.name ∧
      raw = kind domain :: writeUint16 domain.name.length ++ domain.name := by
  rw [← validateDomain_ok_iff, writeDomain]
  cases validateDomain domain with
  | error err => simp
  | ok u => simp [eq_comm]

/-! ## Reading inverts writing -/

theorem kind_valid (domain : DatasetDomain) : ¬ (kind domain ≠ 0 ∧ kind domain ≠ 1) := by
  unfold kind
  split_ifs <;> decide

theorem kind_eq_one (domain : DatasetDomain) : (kind domain == 1) = domain.exact := by
  unfold kind
  cases domain.exact <;> decide

theorem kind_of_code {code : UInt8} (h : ¬ (code ≠ 0 ∧ code ≠ 1)) (name : Bytes) :
    kind ⟨name, code == 1⟩ = code := by
  by_cases h₁ : code = 1
  · simp [kind, h₁]
  · have h₀ : code = 0 := by
      by_contra h₀
      exact h ⟨h₀, h₁⟩
    simp [kind, h₀]

theorem readName_kind (domain : DatasetDomain) (h : ValidName domain.name) (rest : Bytes) :
    readName (kind domain) domain.name.length (domain.name ++ rest) = .ok (domain, rest) := by
  have hgood : ¬ ((kind domain ≠ 0 ∧ kind domain ≠ 1) ∨ domain.name.length = 0 ∨
      (domain.name ++ rest).length < domain.name.length) := by
    have := h.nonempty
    simp only [kind_valid, List.length_append, false_or]
    omega
  have hcheck := (validateDomain_ok_iff domain).mpr h
  rw [readName, if_neg hgood, List.take_left, List.drop_left, kind_eq_one, hcheck]

theorem readName_ok {code : UInt8} {length : Nat} {raw rest : Bytes} {domain : DatasetDomain}
    (h : readName code length raw = .ok (domain, rest)) :
    ValidName domain.name ∧ kind domain = code ∧ domain.name.length = length ∧
      raw = domain.name ++ rest := by
  unfold readName at h
  split_ifs at h with hbad
  cases hcheck : validateDomain ⟨raw.take length, code == 1⟩ with
  | error err => simp [hcheck] at h
  | ok u =>
      simp only [hcheck, Except.ok.injEq, Prod.mk.injEq] at h
      obtain ⟨rfl, rfl⟩ := h
      obtain ⟨hcode, -, hlen⟩ := not_or.mp hbad |>.imp id not_or.mp
      refine ⟨(validateDomain_ok_iff _).mp hcheck, kind_of_code hcode _, ?_, ?_⟩
      · exact List.length_take_of_le (Nat.not_lt.mp hlen)
      · exact (List.take_append_drop length raw).symm

theorem readDomain_inverts : Inverts writeDomain readDomain where
  reads := by
    intro domain raw h rest
    obtain ⟨hvalid, rfl⟩ := (writeDomain_ok_iff domain raw).mp h
    have hlen : ofBigEndian (writeUint16 domain.name.length) = domain.name.length := by
      rw [writeUint16, ofBigEndian_bigEndian, Nat.mod_eq_of_lt]
      exact Nat.lt_succ_of_le hvalid.short
    obtain ⟨high, low, hbytes⟩ : ∃ high low, writeUint16 domain.name.length = [high, low] :=
      ⟨_, _, rfl⟩
    rw [hbytes] at hlen
    simp only [hbytes, List.cons_append, List.nil_append, readDomain, hlen,
      readName_kind domain hvalid]
  accepts := by
    intro raw domain rest h
    unfold readDomain at h
    split at h
    · rename_i code high low tail
      obtain ⟨hvalid, hkind, hlen, rfl⟩ := readName_ok h
      refine ⟨_, (writeDomain_ok_iff domain _).mpr ⟨hvalid, rfl⟩, ?_⟩
      have hbytes : writeUint16 domain.name.length = [high, low] := by
        rw [hlen]
        exact bigEndian_ofBigEndian [high, low]
      simp [hkind, hbytes]
    · cases h

theorem readPrefix_inverts : Inverts writePrefix readPrefix where
  reads := by
    intro pre raw h rest
    cases pre with
    | invalid addr => cases h
    | ipv6 bits length => cases h
    | ipv4 pre =>
        cases h
        have hbits : (UInt8.ofNat pre.bits).toNat = pre.bits := by
          have := pre.bits_le
          rw [UInt8.toNat_ofNat', Nat.mod_eq_of_lt]
          omega
        simp only [Addr.as4, List.cons_append, List.nil_append, readPrefix, Addr.from4_octets,
          hbits, pre.bits_le, dite_true]
  accepts := by
    intro raw pre rest h
    unfold readPrefix at h
    split at h
    · split_ifs at h
      cases h
      refine ⟨_, rfl, ?_⟩
      simp [Addr.as4_from4]
    · cases h

theorem writePayload_ok_iff (data : Dataset) (payload : Bytes) :
    writePayload data = .ok payload ↔
      data.domains.length < 2 ^ 32 ∧ data.prefixes.length < 2 ^ 32 ∧
        ∃ domains prefixes, encodeAll writeDomain data.domains = .ok domains ∧
          encodeAll writePrefix data.prefixes = .ok prefixes ∧
          payload = magic ++ (writeUint32 data.domains.length ++ (domains ++
            (writeUint32 data.prefixes.length ++ prefixes))) := by
  have hcount : (maxUint32 < data.domains.length ∨ maxUint32 < data.prefixes.length) ↔
      ¬ (data.domains.length < 2 ^ 32 ∧ data.prefixes.length < 2 ^ 32) := by
    simp only [maxUint32]
    omega
  unfold writePayload
  split_ifs with hmany
  · have hnot := hcount.mp hmany
    refine ⟨nofun, ?_⟩
    rintro ⟨h₁, h₂, -⟩
    exact absurd ⟨h₁, h₂⟩ hnot
  · obtain ⟨h₁, h₂⟩ := not_not.mp (mt hcount.mpr hmany)
    cases encodeAll writeDomain data.domains with
    | error err => simp
    | ok domains =>
        cases encodeAll writePrefix data.prefixes with
        | error err => simp
        | ok prefixes =>
            simp only [List.append_assoc, Except.ok.injEq]
            constructor
            · rintro rfl
              exact ⟨h₁, h₂, domains, prefixes, rfl, rfl, rfl⟩
            · rintro ⟨-, -, _, _, rfl, rfl, rfl⟩
              rfl

theorem readUint32_write {n : Nat} (h : n < 2 ^ 32) (truncated : FormatError) (rest : Bytes) :
    readUint32 truncated (writeUint32 n ++ rest) = .ok (n, rest) :=
  @takeNumber_bigEndian _ 4 n h truncated rest

theorem readUint32_ok {n : Nat} {truncated : FormatError} {raw rest : Bytes}
    (h : readUint32 truncated raw = .ok (n, rest)) :
    n < 2 ^ 32 ∧ raw = writeUint32 n ++ rest :=
  @takeNumber_ok _ 4 n truncated raw rest h

theorem readPayload_ok_iff (payload : Bytes) (data : Dataset) :
    readPayload payload = .ok data ↔
      ∃ entries, payload = magic ++ entries ∧ readEntries entries = .ok data := by
  unfold readPayload
  constructor
  · intro h
    split_ifs at h with hmagic
    have hpayload := List.take_append_drop magic.length payload
    rw [not_not.mp hmagic] at hpayload
    exact ⟨_, hpayload.symm, h⟩
  · rintro ⟨entries, rfl, h⟩
    rw [List.take_left, List.drop_left, if_neg (not_not.mpr rfl), h]

/-- The four steps of a successful read. -/
theorem readEntries_ok_iff (entries : Bytes) (data : Dataset) :
    readEntries entries = .ok data ↔ ∃ domainCount prefixCount rest₁ rest₂ rest₃,
      readUint32 .domainCountTruncated entries = .ok (domainCount, rest₁) ∧
      times readDomain domainCount rest₁ = .ok (data.domains, rest₂) ∧
      readUint32 .prefixCountTruncated rest₂ = .ok (prefixCount, rest₃) ∧
      times readPrefix prefixCount rest₃ = .ok (data.prefixes, []) := by
  constructor
  · intro h
    unfold readEntries at h
    cases h₁ : readUint32 .domainCountTruncated entries with
    | error err => simp [h₁] at h
    | ok first =>
        obtain ⟨domainCount, rest₁⟩ := first
        simp only [h₁] at h
        cases h₂ : times readDomain domainCount rest₁ with
        | error err => simp [h₂] at h
        | ok second =>
            obtain ⟨domains, rest₂⟩ := second
            simp only [h₂] at h
            cases h₃ : readUint32 .prefixCountTruncated rest₂ with
            | error err => simp [h₃] at h
            | ok third =>
                obtain ⟨prefixCount, rest₃⟩ := third
                simp only [h₃] at h
                cases h₄ : times readPrefix prefixCount rest₃ with
                | error err => simp [h₄] at h
                | ok fourth =>
                    obtain ⟨prefixes, rest₄⟩ := fourth
                    simp only [h₄] at h
                    split_ifs at h with hrest
                    cases h
                    cases not_not.mp hrest
                    exact ⟨domainCount, prefixCount, rest₁, rest₂, rest₃, rfl, h₂, h₃, h₄⟩
  · rintro ⟨domainCount, prefixCount, rest₁, rest₂, rest₃, h₁, h₂, h₃, h₄⟩
    unfold readEntries
    simp only [h₁, h₂, h₃, h₄]
    rw [if_neg (not_not.mpr rfl)]

theorem readEntries_iff_write (entries : Bytes) (data : Dataset) :
    readEntries entries = .ok data ↔
      data.domains.length < 2 ^ 32 ∧ data.prefixes.length < 2 ^ 32 ∧
        ∃ domains prefixes, encodeAll writeDomain data.domains = .ok domains ∧
          encodeAll writePrefix data.prefixes = .ok prefixes ∧
          entries = writeUint32 data.domains.length ++ (domains ++
            (writeUint32 data.prefixes.length ++ prefixes)) := by
  rw [readEntries_ok_iff]
  constructor
  · rintro ⟨domainCount, prefixCount, rest₁, rest₂, rest₃, h₁, h₂, h₃, h₄⟩
    obtain ⟨hd, rfl⟩ := readUint32_ok h₁
    obtain ⟨rfl, domains, hdomains, rfl⟩ := readDomain_inverts.accepts_all h₂
    obtain ⟨hp, rfl⟩ := readUint32_ok h₃
    obtain ⟨rfl, prefixes, hprefixes, rfl⟩ := readPrefix_inverts.accepts_all h₄
    exact ⟨hd, hp, domains, prefixes, hdomains, hprefixes, by rw [List.append_nil]⟩
  · rintro ⟨hd, hp, domains, prefixes, hdomains, hprefixes, rfl⟩
    have hall := readPrefix_inverts.reads_all hprefixes []
    rw [List.append_nil] at hall
    exact ⟨_, _, _, _, _, readUint32_write hd _ _, readDomain_inverts.reads_all hdomains _,
      readUint32_write hp _ _, hall⟩

theorem writePayload_iff_readPayload (data : Dataset) (payload : Bytes) :
    writePayload data = .ok payload ↔ readPayload payload = .ok data := by
  rw [writePayload_ok_iff, readPayload_ok_iff]
  simp only [readEntries_iff_write]
  constructor
  · rintro ⟨hd, hp, domains, prefixes, hdomains, hprefixes, rfl⟩
    exact ⟨_, rfl, hd, hp, domains, prefixes, hdomains, hprefixes, rfl⟩
  · rintro ⟨entries, rfl, hd, hp, domains, prefixes, hdomains, hprefixes, rfl⟩
    exact ⟨hd, hp, domains, prefixes, hdomains, hprefixes, rfl⟩

theorem writePayload_isOk_iff {data : Dataset} (hd : data.domains.length < 2 ^ 32)
    (hp : data.prefixes.length < 2 ^ 32) :
    (∃ payload, writePayload data = .ok payload) ↔ WellFormed data := by
  have hdomain : ∀ domain, (∃ raw, writeDomain domain = .ok raw) ↔ ValidName domain.name := by
    intro domain
    simp [writeDomain_ok_iff]
  have hprefix : ∀ pre, (∃ raw, writePrefix pre = .ok raw) ↔ ∃ pre4, pre = .ipv4 pre4 := by
    intro pre
    cases pre <;> simp [writePrefix]
  have hdomains : (∃ raw, encodeAll writeDomain data.domains = .ok raw) ↔
      ∀ domain ∈ data.domains, ValidName domain.name := by
    simp only [encodeAll_isOk_iff, hdomain]
  have hprefixes : (∃ raw, encodeAll writePrefix data.prefixes = .ok raw) ↔
      ∀ pre ∈ data.prefixes, ∃ pre4, pre = .ipv4 pre4 := by
    simp only [encodeAll_isOk_iff, hprefix]
  constructor
  · rintro ⟨payload, h⟩
    obtain ⟨-, -, domains, prefixes, h₁, h₂, -⟩ := (writePayload_ok_iff data payload).mp h
    exact ⟨hdomains.mp ⟨domains, h₁⟩, hprefixes.mp ⟨prefixes, h₂⟩⟩
  · intro h
    obtain ⟨domains, h₁⟩ := hdomains.mpr h.names
    obtain ⟨prefixes, h₂⟩ := hprefixes.mpr h.prefixes
    exact ⟨_, (writePayload_ok_iff data _).mpr ⟨hd, hp, domains, prefixes, h₁, h₂, rfl⟩⟩

/-! ## The whole file -/

theorem write_ok_iff (sha256 : Checksum) (data : Dataset) (raw : Bytes) :
    write sha256 data = .ok raw ↔
      ∃ payload, writePayload data = .ok payload ∧ raw = payload ++ sha256.sum payload := by
  unfold write
  cases writePayload data with
  | error err => simp
  | ok payload => simp [eq_comm]

theorem read_append_sum (sha256 : Checksum) {payload : Bytes}
    (hlen : magic.length + 4 + 4 ≤ payload.length) :
    read sha256 (payload ++ sha256.sum payload) = readPayload payload := by
  have hraw : (payload ++ sha256.sum payload).length - 32 = payload.length := by
    rw [List.length_append, sha256.length_sum, Nat.add_sub_cancel]
  have hlong : ¬ (payload ++ sha256.sum payload).length < magic.length + 4 + 4 + 32 := by
    rw [List.length_append, sha256.length_sum]
    omega
  simp only [read, if_neg hlong, hraw, List.take_left, List.drop_left, ne_eq, not_true_eq_false,
    if_false]

theorem read_ok {sha256 : Checksum} {raw : Bytes} {data : Dataset}
    (h : read sha256 raw = .ok data) :
    ∃ payload, raw = payload ++ sha256.sum payload ∧ readPayload payload = .ok data := by
  simp only [read] at h
  split_ifs at h with hlen hsum
  refine ⟨_, ?_, h⟩
  rw [not_not.mp hsum, List.take_append_drop]

theorem read_write {sha256 : Checksum} {data : Dataset} {raw : Bytes}
    (h : write sha256 data = .ok raw) : read sha256 raw = .ok data := by
  obtain ⟨payload, hpayload, rfl⟩ := (write_ok_iff sha256 data raw).mp h
  have hlen : magic.length + 4 + 4 ≤ payload.length := by
    obtain ⟨-, -, domains, prefixes, -, -, rfl⟩ := (writePayload_ok_iff data payload).mp hpayload
    simp only [writeUint32, List.length_append, length_bigEndian]
    omega
  rw [read_append_sum sha256 hlen, (writePayload_iff_readPayload data payload).mp hpayload]

theorem write_read {sha256 : Checksum} {data : Dataset} {raw : Bytes}
    (h : read sha256 raw = .ok data) : write sha256 data = .ok raw := by
  obtain ⟨payload, rfl, hpayload⟩ := read_ok h
  have hwrite := (writePayload_iff_readPayload data payload).mpr hpayload
  exact (write_ok_iff sha256 data _).mpr ⟨payload, hwrite, rfl⟩

theorem write_isOk_iff (sha256 : Checksum) {data : Dataset}
    (hd : data.domains.length < 2 ^ 32) (hp : data.prefixes.length < 2 ^ 32) :
    (∃ raw, write sha256 data = .ok raw) ↔ WellFormed data := by
  rw [← writePayload_isOk_iff hd hp]
  simp only [write_ok_iff]
  constructor
  · rintro ⟨raw, payload, h, -⟩
    exact ⟨payload, h⟩
  · rintro ⟨payload, h⟩
    exact ⟨_, payload, h, rfl⟩

/-- Writing succeeds exactly on well-formed data, reading inverts it, and every
accepted file is the one that its data is written to. -/
theorem format_bijection (sha256 : Checksum) :
    (∀ data : Dataset, data.domains.length < 2 ^ 32 → data.prefixes.length < 2 ^ 32 →
      ((∃ raw, write sha256 data = .ok raw) ↔ WellFormed data) ∧
        ∀ raw, write sha256 data = .ok raw → read sha256 raw = .ok data) ∧
      ∀ raw data, read sha256 raw = .ok data → write sha256 data = .ok raw :=
  ⟨fun _ hd hp => ⟨write_isOk_iff sha256 hd hp, fun _ h => read_write h⟩, fun _ _ h => write_read h⟩

/-- A stand-in checksum: the parity of all bytes, 32 times. -/
def paritySum : Checksum where
  sum payload := List.replicate 32 (payload.foldl (· ^^^ ·) 0)
  length_sum := by simp

/-- Two domains and the prefix 120.232.0.0/12. -/
def sampleData : Dataset where
  domains := [⟨ascii "wechat.com", false⟩, ⟨ascii "wx.qq.com", true⟩]
  prefixes := [.ipv4 ⟨0x78E80000, 12, by decide⟩]

theorem format_bijection_sample :
    WellFormed sampleData ∧
      ∃ raw, write paritySum sampleData = .ok raw ∧ read paritySum raw = .ok sampleData := by
  have hnames : ∀ domain ∈ sampleData.domains, ValidName domain.name := by
    intro domain hmem
    rcases List.mem_pair.mp hmem with rfl | rfl <;> exact (validateDomain_ok_iff _).mp rfl
  have hwell : WellFormed sampleData := ⟨hnames, by simp [sampleData]⟩
  obtain ⟨hwrite, hread⟩ := (format_bijection paritySum).1 sampleData (by decide) (by decide)
  obtain ⟨raw, hraw⟩ := hwrite.mpr hwell
  exact ⟨hwell, raw, hraw, hread raw hraw⟩

end Hy2Route.Dataset
