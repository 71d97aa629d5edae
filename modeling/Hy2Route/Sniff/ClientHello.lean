import Hy2Route.Sniff.TLS

/-!
# The ClientHello grammar

The parser completes exactly on the encodings of the messages of the grammar,
whatever follows them. Each loop is inverted on its own: an entry of a server name
list, an extension, then the vectors of the body, the handshake message and the
record.
-/

namespace Hy2Route.Sniff

open Foundation Policy

/-! ## Server names -/

theorem serverNameEntries_nil : serverNameEntries [] = [] := by
  rw [serverNameEntries, if_pos rfl]

/-- One entry of the list. -/
theorem serverNameEntries_cons (nameType : UInt8) (tail : Bytes) :
    serverNameEntries (nameType :: tail) =
      match takeVector 2 tail with
      | none => []
      | some (name, rest) =>
          if nameType = 0 then
            match normalizeDomain name with
            | .ok domain => domain
            | .error _ => []
          else serverNameEntries rest := by
  rw [serverNameEntries, if_neg (List.cons_ne_nil _ _)]
  exact match_takeVector_drop (nameType :: tail) 1 (by decide : 0 < 2) [] fun name rest =>
    if nameType = 0 then
      match normalizeDomain name with
      | .ok domain => domain
      | .error _ => []
    else serverNameEntries rest

theorem normalizeDomain_ne_nil {value name : Bytes} (h : normalizeDomain value = .ok name) :
    name ≠ [] :=
  ((normalizeDomain_ok_iff value name).mp h).2.1

theorem serverNameEntries_list (sn : ServerName) : serverNameEntries sn.list = sn.domain := by
  obtain ⟨others, name, tail, domain, hne, hlt, hname, hnormal⟩ := sn
  simp only [ServerName.list]
  induction others with
  | nil =>
      have htake := takeVector_vector hname tail
      simp only [List.flatMap_nil, List.nil_append, nameEntry, List.cons_append,
        serverNameEntries_cons, htake, if_true, hnormal]
  | cons entry others ih =>
      obtain ⟨hentry, hothers⟩ := List.forall_mem_cons.mp hne
      obtain ⟨hentry', hothers'⟩ := List.forall_mem_cons.mp hlt
      have hrest := ih hothers hothers'
      simp only [List.flatMap_cons, nameEntry, List.cons_append, List.append_assoc,
        serverNameEntries_cons, takeVector_vector hentry', if_neg hentry] at hrest ⊢
      exact hrest

theorem serverNameEntries_eq {raw domain : Bytes} (h : serverNameEntries raw = domain)
    (hne : domain ≠ []) : ∃ sn : ServerName, raw = sn.list ∧ domain = sn.domain := by
  induction hlen : raw.length using Nat.strongRecOn generalizing raw with
  | ind n ih =>
      cases raw with
      | nil => exact absurd (serverNameEntries_nil.symm.trans h) hne.symm
      | cons nameType tail =>
          rw [serverNameEntries_cons] at h
          cases htake : takeVector 2 tail with
          | none => exact absurd (by simpa [htake] using h) hne.symm
          | some taken =>
              obtain ⟨name, rest⟩ := taken
              obtain ⟨hname, htail⟩ := takeVector_iff.mp htake
              simp only [htake] at h
              by_cases htype : nameType = 0
              · cases hnormal : normalizeDomain name with
                | error err => exact absurd (by simpa [htype, hnormal] using h) hne.symm
                | ok normal =>
                    obtain rfl : normal = domain := by simpa [htype, hnormal] using h
                    refine ⟨⟨[], name, rest, normal, by simp, by simp, hname, hnormal⟩, ?_, rfl⟩
                    simp [ServerName.list, nameEntry, htype, htail]
              · rw [if_neg htype] at h
                have hshort : rest.length < n := by
                  rw [← hlen, htail, List.length_cons, List.length_append, length_vector]
                  omega
                obtain ⟨sn, hrest, hdomain⟩ := ih rest.length hshort h rfl
                refine ⟨{ sn with
                  others := (nameType, name) :: sn.others
                  others_ne := List.forall_mem_cons.mpr ⟨htype, sn.others_ne⟩
                  others_lt := List.forall_mem_cons.mpr ⟨hname, sn.others_lt⟩ }, ?_, hdomain⟩
                simp [ServerName.list, nameEntry, htail, hrest]

/-- Two bytes that hold the length of what follows make a vector. -/
theorem vector_of_uint16 {raw : Bytes} (hlen : ¬ raw.length < 2)
    (hlist : uint16 raw 0 = raw.length - 2) :
    (raw.drop 2).length < 256 ^ 2 ∧ raw = vector 2 (raw.drop 2) := by
  have htake : (raw.take 2).length = 2 := by
    rw [List.length_take]
    omega
  have hnumber : ofBigEndian (raw.take 2) = (raw.drop 2).length := by
    rw [List.length_drop]
    exact hlist
  have hlt := ofBigEndian_lt (raw.take 2)
  have hbytes := bigEndian_ofBigEndian (raw.take 2)
  rw [htake, hnumber] at hlt hbytes
  refine ⟨hlt, ?_⟩
  rw [vector, hbytes, List.take_append_drop]

theorem uint16_vector {data : Bytes} (h : data.length < 256 ^ 2) :
    uint16 (vector 2 data) 0 = data.length := by
  rw [uint16, List.drop_zero, vector, List.take_left' (length_bigEndian 2 _),
    ofBigEndian_bigEndian, Nat.mod_eq_of_lt h]

theorem drop_vector (width : Nat) (data : Bytes) : (vector width data).drop width = data :=
  List.drop_left' (length_bigEndian width _)

theorem parseServerName_encode (sn : ServerName) (h : sn.list.length < 256 ^ 2) :
    parseServerName sn.encode = sn.domain := by
  have hlen : ¬ sn.encode.length < 2 := by
    rw [ServerName.encode, length_vector]
    omega
  have hlist : ¬ uint16 sn.encode 0 ≠ sn.encode.length - 2 := by
    rw [ServerName.encode, uint16_vector h, length_vector]
    omega
  simp only [parseServerName, if_neg hlen, if_neg hlist]
  rw [ServerName.encode, drop_vector, serverNameEntries_list]

theorem parseServerName_ne_nil {raw : Bytes} (h : parseServerName raw ≠ []) :
    ∃ sn : ServerName, sn.list.length < 256 ^ 2 ∧ raw = sn.encode ∧
      parseServerName raw = sn.domain := by
  have heq : parseServerName raw = parseServerName raw := rfl
  conv_lhs at heq => unfold parseServerName
  simp only at heq
  split_ifs at heq with hlen hlist
  · exact absurd heq.symm h
  · exact absurd heq.symm h
  · obtain ⟨hlt, hraw⟩ := vector_of_uint16 hlen (not_not.mp hlist)
    obtain ⟨sn, hsn, hdomain⟩ := serverNameEntries_eq heq h
    refine ⟨sn, hsn ▸ hlt, ?_, hdomain⟩
    rw [hraw, hsn, ServerName.encode]

/-! ## Extensions -/

/-- What the loop does with one extension. -/
def absorb (seenSNI : Bool) (result : Result) (ext : Extension) : Option (Bool × Result) :=
  if ext.typeID = 0 then
    if seenSNI then none
    else if parseServerName ext.data = [] then none
    else some (true, { result with domain := parseServerName ext.data })
  else some (seenSNI, { result with ech := result.ech || ext.typeID == 0xFE0D })

theorem parseExtensions_nil (seenSNI : Bool) (result : Result) :
    parseExtensions [] seenSNI result = some result := by
  rw [parseExtensions, if_pos rfl]

/-- One round of the loop: a type, and data behind its length. -/
theorem parseExtensions_ne_nil {raw : Bytes} (hne : raw ≠ []) (seenSNI : Bool) (result : Result) :
    parseExtensions raw seenSNI result =
      match takeVector 2 (raw.drop 2) with
      | none => none
      | some (data, rest) =>
          if uint16 raw 0 = 0 then
            if seenSNI then none
            else if parseServerName data = [] then none
            else parseExtensions rest true { result with domain := parseServerName data }
          else if uint16 raw 0 = 0xFE0D then
            parseExtensions rest seenSNI { result with ech := true }
          else parseExtensions rest seenSNI result := by
  rw [parseExtensions, if_neg hne]
  exact match_takeVector_drop raw 2 (by decide : 0 < 2) none fun data rest =>
    if uint16 raw 0 = 0 then
      if seenSNI then none
      else if parseServerName data = [] then none
      else parseExtensions rest true { result with domain := parseServerName data }
    else if uint16 raw 0 = 0xFE0D then
      parseExtensions rest seenSNI { result with ech := true }
    else parseExtensions rest seenSNI result

theorem uint16_encode (ext : Extension) (rest : Bytes) :
    uint16 (ext.encode ++ rest) 0 = ext.typeID := by
  rw [uint16, List.drop_zero, Extension.encode, List.append_assoc,
    List.take_left' (length_bigEndian 2 _), ofBigEndian_bigEndian, Nat.mod_eq_of_lt ext.typeID_lt]

theorem drop_encode (ext : Extension) (rest : Bytes) :
    (ext.encode ++ rest).drop 2 = vector 2 ext.data ++ rest := by
  rw [Extension.encode, List.append_assoc, List.drop_left' (length_bigEndian 2 _)]

theorem encode_ne_nil (ext : Extension) (rest : Bytes) : ext.encode ++ rest ≠ [] := by
  simp [Extension.encode, bigEndian]

/-- The loop absorbs an extension that stands at the front. -/
theorem parseExtensions_encode (ext : Extension) (rest : Bytes) (seenSNI : Bool)
    (result : Result) :
    parseExtensions (ext.encode ++ rest) seenSNI result =
      match absorb seenSNI result ext with
      | none => none
      | some (seenSNI, result) => parseExtensions rest seenSNI result := by
  rw [parseExtensions_ne_nil (encode_ne_nil ext rest), drop_encode, uint16_encode,
    takeVector_vector ext.data_lt, absorb]
  by_cases hzero : ext.typeID = 0
  · simp only [hzero, if_true]
    split_ifs <;> rfl
  · by_cases hech : ext.typeID = 0xFE0D
    · simp [hech]
    · have hbeq : (ext.typeID == 0xFE0D) = false := beq_false_of_ne hech
      simp only [hzero, hech, if_false, hbeq, Bool.or_false]

/-- The loop takes whole extensions. -/
theorem exists_extension {raw : Bytes} {seenSNI : Bool} {result found : Result} (hne : raw ≠ [])
    (h : parseExtensions raw seenSNI result = some found) :
    ∃ (ext : Extension) (rest : Bytes), raw = ext.encode ++ rest := by
  rw [parseExtensions_ne_nil hne] at h
  cases htake : takeVector 2 (raw.drop 2) with
  | none => simp [htake] at h
  | some taken =>
      obtain ⟨data, rest⟩ := taken
      obtain ⟨hdata, hdrop⟩ := takeVector_iff.mp htake
      have hlen : (raw.take 2).length = 2 := by
        have hshort := congrArg List.length hdrop
        simp only [List.length_drop, List.length_append, length_vector] at hshort
        rw [List.length_take]
        omega
      have hlt := ofBigEndian_lt (raw.take 2)
      have hbytes := bigEndian_ofBigEndian (raw.take 2)
      rw [hlen] at hlt hbytes
      refine ⟨⟨ofBigEndian (raw.take 2), data, hlt, hdata⟩, rest, ?_⟩
      rw [Extension.encode, hbytes, List.append_assoc, ← hdrop, List.take_append_drop]

/-- The rounds of the loop over a list of extensions. -/
def absorbAll (seenSNI : Bool) (result : Result) : List Extension → Option Result
  | [] => some result
  | ext :: rest =>
      match absorb seenSNI result ext with
      | none => none
      | some (seenSNI, result) => absorbAll seenSNI result rest

theorem parseExtensions_encodeExtensions (list : List Extension) (seenSNI : Bool)
    (result : Result) :
    parseExtensions (encodeExtensions list) seenSNI result = absorbAll seenSNI result list := by
  induction list generalizing seenSNI result with
  | nil => exact parseExtensions_nil seenSNI result
  | cons ext rest ih =>
      rw [encodeExtensions, List.flatMap_cons, parseExtensions_encode, absorbAll]
      cases absorb seenSNI result ext with
      | none => rfl
      | some next => exact ih next.1 next.2

/-- The block splits exactly into extensions. -/
theorem exists_extensions {raw : Bytes} {seenSNI : Bool} {result found : Result}
    (h : parseExtensions raw seenSNI result = some found) :
    ∃ list : List Extension, raw = encodeExtensions list := by
  induction hlen : raw.length using Nat.strongRecOn generalizing raw seenSNI result with
  | ind n ih =>
      by_cases hne : raw = []
      · exact ⟨[], hne⟩
      · obtain ⟨ext, rest, rfl⟩ := exists_extension hne h
        have hshort : rest.length < n := by
          rw [← hlen]
          simp [Extension.encode]
          omega
        rw [parseExtensions_encode] at h
        cases hround : absorb seenSNI result ext with
        | none => simp [hround] at h
        | some next =>
            simp only [hround] at h
            obtain ⟨list, hlist⟩ := ih rest.length hshort h rfl
            exact ⟨ext :: list, by rw [hlist, encodeExtensions, encodeExtensions,
              List.flatMap_cons]⟩

/-- Extensions of other types only leave their mark. -/
theorem absorbAll_append {before : List Extension} (h : ∀ ext ∈ before, ext.typeID ≠ 0)
    (after : List Extension) (seenSNI : Bool) (result : Result) :
    absorbAll seenSNI result (before ++ after) =
      absorbAll seenSNI
        { result with ech := result.ech || before.any (·.typeID == 0xFE0D) } after := by
  induction before generalizing result with
  | nil => simp
  | cons ext before ih =>
      obtain ⟨hext, hbefore⟩ := List.forall_mem_cons.mp h
      simp only [List.cons_append, absorbAll, absorb, if_neg hext, ih hbefore, List.any_cons,
        Bool.or_assoc]

theorem absorbAll_other {list : List Extension} (h : ∀ ext ∈ list, ext.typeID ≠ 0)
    (seenSNI : Bool) (result : Result) :
    absorbAll seenSNI result list =
      some { result with ech := result.ech || list.any (·.typeID == 0xFE0D) } := by
  have happend := absorbAll_append h [] seenSNI result
  rwa [List.append_nil] at happend

/-- After a server name no other one is accepted. -/
theorem other_of_absorbAll {list : List Extension} {result found : Result}
    (h : absorbAll true result list = some found) : ∀ ext ∈ list, ext.typeID ≠ 0 := by
  induction list generalizing result with
  | nil => simp
  | cons ext rest ih =>
      by_cases hzero : ext.typeID = 0
      · simp [absorbAll, absorb, hzero] at h
      · simp only [absorbAll, absorb, if_neg hzero] at h
        exact List.forall_mem_cons.mpr ⟨hzero, ih h⟩

/-- An accepted list has no server name, or one that is read. -/
theorem split_of_absorbAll {list : List Extension} {result found : Result}
    (h : absorbAll false result list = some found) :
    (∀ ext ∈ list, ext.typeID ≠ 0) ∨
      ∃ before ext after, list = before ++ ext :: after ∧ (∀ ext ∈ before, ext.typeID ≠ 0) ∧
        ext.typeID = 0 ∧ parseServerName ext.data ≠ [] ∧ ∀ ext ∈ after, ext.typeID ≠ 0 := by
  induction list generalizing result with
  | nil => exact Or.inl (by simp)
  | cons ext rest ih =>
      by_cases hzero : ext.typeID = 0
      · by_cases hname : parseServerName ext.data = []
        · simp [absorbAll, absorb, hzero, hname] at h
        · simp only [absorbAll, absorb, if_pos hzero, Bool.false_eq_true, if_false,
            if_neg hname] at h
          exact Or.inr ⟨[], ext, rest, rfl, by simp, hzero, hname, other_of_absorbAll h⟩
      · simp only [absorbAll, absorb, if_neg hzero] at h
        rcases ih h with hrest | ⟨before, found, after, rfl, hbefore, hfound, hname, hafter⟩
        · exact Or.inl (List.forall_mem_cons.mpr ⟨hzero, hrest⟩)
        · exact Or.inr ⟨ext :: before, found, after, rfl,
            List.forall_mem_cons.mpr ⟨hzero, hbefore⟩, hfound, hname, hafter⟩

theorem encodeExtensions_append (before after : List Extension) :
    encodeExtensions (before ++ after) = encodeExtensions before ++ encodeExtensions after :=
  List.flatMap_append

/-- The extension that carries a server name. -/
def ServerName.extension (sn : ServerName) (h : sn.encode.length < 256 ^ 2) : Extension :=
  ⟨0, sn.encode, by decide, h⟩

/-- The result before the first extension. -/
def helloResult : Result := { protocol := .tls, complete := true }

theorem parseExtensions_extensions (exts : Extensions) :
    parseExtensions exts.encode false helloResult =
      some { helloResult with domain := exts.domain, ech := exts.ech } := by
  obtain ⟨before, sni, after, hbefore, hsni, hafter⟩ := exts
  cases sni with
  | none =>
      have hall : ∀ ext ∈ before ++ after, ext.typeID ≠ 0 :=
        List.forall_mem_append.mpr ⟨hbefore, hafter⟩
      simp only [Extensions.encode, List.append_nil, ← encodeExtensions_append,
        parseExtensions_encodeExtensions, absorbAll_other hall]
      rfl
  | some sn =>
      have hlt := hsni sn rfl
      have hlist : sn.list.length < 256 ^ 2 := by
        simp only [ServerName.encode, length_vector] at hlt
        omega
      have hdomain : parseServerName sn.encode = sn.domain := parseServerName_encode sn hlist
      have hne := normalizeDomain_ne_nil sn.normal
      have hencode : Extensions.encode ⟨before, some sn, after, hbefore, hsni, hafter⟩ =
          encodeExtensions (before ++ sn.extension hlt :: after) := by
        rw [encodeExtensions_append, Extensions.encode, List.append_assoc]
        rfl
      rw [hencode, parseExtensions_encodeExtensions, absorbAll_append hbefore]
      simp only [absorbAll, absorb, ServerName.extension, if_true, Bool.false_eq_true, if_false,
        hdomain, if_neg hne, absorbAll_other hafter]
      simp [Extensions.domain, Extensions.ech, helloResult]

/-- The loop accepts exactly the blocks of extensions, and finds their name and mark. -/
theorem parseExtensions_iff {raw : Bytes} {found : Result} :
    parseExtensions raw false helloResult = some found ↔
      ∃ exts : Extensions, raw = exts.encode ∧
        found = { helloResult with domain := exts.domain, ech := exts.ech } := by
  constructor
  · intro h
    obtain ⟨list, rfl⟩ := exists_extensions h
    have hall := h
    rw [parseExtensions_encodeExtensions] at hall
    obtain ⟨exts, hexts⟩ : ∃ exts : Extensions, encodeExtensions list = exts.encode := by
      rcases split_of_absorbAll hall with hother | ⟨before, ext, after, rfl, hbefore, hzero, hname,
        hafter⟩
      · exact ⟨⟨list, none, [], hother, by simp, by simp⟩, by simp [Extensions.encode,
          encodeExtensions]⟩
      · obtain ⟨sn, -, hdata, -⟩ := parseServerName_ne_nil hname
        refine ⟨⟨before, some sn, after, hbefore, ?_, hafter⟩, ?_⟩
        · intro _ hmem
          cases hmem
          exact hdata ▸ ext.data_lt
        · rw [encodeExtensions_append, Extensions.encode, List.append_assoc]
          simp [encodeExtensions, Extension.encode, hzero, hdata]
    rw [hexts, parseExtensions_extensions] at h
    exact ⟨exts, hexts, (Option.some.inj h).symm⟩
  · rintro ⟨exts, rfl, rfl⟩
    exact parseExtensions_extensions exts

/-! ## The message -/

theorem skipVector_some {raw : Bytes} {pos width next : Nat} (hwidth : width = 1 ∨ width = 2)
    (h : skipVector raw pos width = some next) :
    ∃ data, data.length < 256 ^ width ∧ raw.drop pos = vector width data ++ raw.drop next := by
  obtain ⟨data, htake, -⟩ := (skipVector_iff hwidth).mp h
  exact ⟨data, takeVector_iff.mp htake⟩

theorem skipVector_vector {raw data rest : Bytes} {pos width : Nat}
    (hwidth : width = 1 ∨ width = 2) (hdata : data.length < 256 ^ width)
    (h : raw.drop pos = vector width data ++ rest) :
    ∃ next, skipVector raw pos width = some next ∧ raw.drop next = rest := by
  have hrest : raw.drop (pos + width + data.length) = rest := by
    rw [Nat.add_assoc, ← List.drop_drop, h]
    exact List.drop_left' (length_vector width data)
  refine ⟨_, (skipVector_iff hwidth).mpr ⟨data, ?_, rfl⟩, hrest⟩
  rw [hrest]
  exact takeVector_iff.mpr ⟨hdata, h⟩

/-- The block of extensions at a position of the body. -/
theorem extensionsBlock_eq (body : Bytes) (pos : Nat) :
    (if body.length < pos + 2 then none
      else
        let extensionsLength := uint16 body pos
        let pos := pos + 2
        if body.length - pos < extensionsLength then none
        else parseExtensions (slice body pos extensionsLength) false
          { protocol := .tls, complete := true }) =
      match takeVector 2 (body.drop pos) with
      | none => none
      | some (extensions, _) => parseExtensions extensions false helloResult :=
  match_takeVector_drop body pos (by decide : 0 < 2) none fun extensions _ =>
    parseExtensions extensions false helloResult

/-- A body is accepted exactly when it is the encoding of one. -/
theorem parseBody_iff {body : Bytes} {found : Result} :
    parseBody body = some found ↔
      ∃ hello : HelloBody, body = hello.encode ∧
        found = { helloResult with
          domain := hello.extensions.domain, ech := hello.extensions.ech } := by
  unfold parseBody
  simp only [extensionsBlock_eq]
  constructor
  · intro h
    split_ifs at h with hlen
    cases h₁ : skipVector body 34 1 with
    | none => simp [h₁] at h
    | some pos₁ =>
      cases h₂ : skipVector body pos₁ 2 with
      | none => simp [h₁, h₂] at h
      | some pos₂ =>
        cases h₃ : skipVector body pos₂ 1 with
        | none => simp [h₁, h₂, h₃] at h
        | some pos₃ =>
          cases h₄ : takeVector 2 (body.drop pos₃) with
          | none => simp [h₁, h₂, h₃, h₄] at h
          | some taken =>
            obtain ⟨block, tail⟩ := taken
            simp only [h₁, h₂, h₃, h₄] at h
            obtain ⟨sessionID, hsession, hdrop₁⟩ := skipVector_some (Or.inl rfl) h₁
            obtain ⟨cipherSuites, hciphers, hdrop₂⟩ := skipVector_some (Or.inr rfl) h₂
            obtain ⟨compressionMethods, hcompression, hdrop₃⟩ := skipVector_some (Or.inl rfl) h₃
            obtain ⟨hblock, hdrop₄⟩ := takeVector_iff.mp h₄
            obtain ⟨exts, rfl, hfound⟩ := parseExtensions_iff.mp h
            have hopening : (body.take 34).length = 34 := by
              rw [List.length_take]
              omega
            refine ⟨⟨body.take 34, sessionID, cipherSuites, compressionMethods, exts, tail,
              hopening, hsession, hciphers, hcompression, hblock⟩, ?_, hfound⟩
            rw [HelloBody.encode, ← hdrop₄, ← hdrop₃, ← hdrop₂, ← hdrop₁, List.take_append_drop]
  · rintro ⟨hello, rfl, rfl⟩
    have hlen : ¬ hello.encode.length < 34 := by
      simp [HelloBody.encode, hello.opening_length]
    have hdrop₁ : hello.encode.drop 34 = _ := List.drop_left' hello.opening_length
    obtain ⟨pos₁, h₁, hdrop₂⟩ := skipVector_vector (Or.inl rfl) hello.sessionID_lt hdrop₁
    obtain ⟨pos₂, h₂, hdrop₃⟩ := skipVector_vector (Or.inr rfl) hello.cipherSuites_lt hdrop₂
    obtain ⟨pos₃, h₃, hdrop₄⟩ := skipVector_vector (Or.inl rfl) hello.compressionMethods_lt hdrop₃
    simp only [if_neg hlen, h₁, h₂, h₃, hdrop₄, takeVector_vector hello.extensions_lt]
    exact parseExtensions_extensions hello.extensions

theorem shift_or_eq (a b c : UInt8) :
    a.toNat <<< 16 ||| b.toNat <<< 8 ||| c.toNat = ofBigEndian [a, b, c] := by
  have hb := b.toNat_lt
  have hc := c.toNat_lt
  have hlow : b.toNat <<< 8 ||| c.toNat = b.toNat * 256 + c.toNat := by
    rw [← Nat.shiftLeft_add_eq_or_of_lt hc, Nat.shiftLeft_eq]
  rw [Nat.or_assoc, hlow, ← Nat.shiftLeft_add_eq_or_of_lt (by omega), Nat.shiftLeft_eq]
  simp [ofBigEndian]

theorem shift_or_slice {record : Bytes} (h : 4 ≤ record.length) :
    (record.getD 1 0).toNat <<< 16 ||| (record.getD 2 0).toNat <<< 8 ||| (record.getD 3 0).toNat =
      ofBigEndian (slice record 1 3) := by
  match record, h with
  | first :: a :: b :: c :: rest, _ => exact shift_or_eq a b c

/-- A record is accepted exactly when it holds a whole message of type 1. -/
theorem parseRecord_iff {record : Bytes} {found : Result} :
    parseRecord record = some found ↔
      ∃ body tail, body.length < 256 ^ 3 ∧ record = 1 :: (vector 3 body ++ tail) ∧
        parseBody body = some found := by
  have htake : (if record.length < 4 then none
      else if record.length - 4 < ofBigEndian (slice record 1 3) then none
      else parseBody (slice record 4 (ofBigEndian (slice record 1 3)))) =
      match takeVector 3 (record.drop 1) with
      | none => none
      | some (body, _) => parseBody body :=
    match_takeVector_drop record 1 (by decide : 0 < 3) none fun body _ => parseBody body
  have hparse : parseRecord record = if record.getD 0 0 ≠ 1 then none
      else match takeVector 3 (record.drop 1) with
        | none => none
        | some (body, _) => parseBody body := by
    rw [parseRecord, ← htake]
    by_cases htype : record.getD 0 0 ≠ 1
    · rw [if_pos (Or.inl htype), if_pos htype]
    · by_cases hlen : record.length < 4
      · rw [if_pos (Or.inr hlen), if_neg htype, if_pos hlen]
      · rw [if_neg (by tauto), if_neg htype, if_neg hlen]
        simp only [shift_or_slice (Nat.le_of_not_lt hlen)]
  rw [hparse]
  constructor
  · intro h
    split_ifs at h with htype
    cases hbody : takeVector 3 (record.drop 1) with
    | none =>
        rw [hbody] at h
        cases h
    | some taken =>
        obtain ⟨body, tail⟩ := taken
        simp only [hbody] at h
        obtain ⟨hlt, hdrop⟩ := takeVector_iff.mp hbody
        refine ⟨body, tail, hlt, ?_, h⟩
        cases record with
        | nil => simp [vector, bigEndian] at hdrop
        | cons first rest =>
            obtain rfl : first = 1 := by simpa using htype
            rw [← hdrop]
            rfl
  · rintro ⟨body, tail, hlt, rfl, hbody⟩
    have hdrop : (1 :: (vector 3 body ++ tail) : Bytes).drop 1 = vector 3 body ++ tail := rfl
    rw [if_neg (by simp), hdrop, takeVector_vector hlt]
    exact hbody

theorem parseTLS_of_take {raw record rest : Bytes} {found : Result} (htype : raw.getD 0 0 = 22)
    (htake : takeVector 2 (raw.drop 3) = some (record, rest))
    (hfound : parseRecord record = some found) : parseTLS raw = (found, .complete) := by
  obtain ⟨hlen, hfits, hrecord, -⟩ := (takeVector_drop_iff (by decide)).mp htake
  have hlength : record.length = uint16 raw 3 := by
    rw [hrecord, length_slice _ (Nat.le_of_not_lt hfits)]
    rfl
  have hfour : 4 ≤ record.length := by
    obtain ⟨body, tail, -, rfl, -⟩ := parseRecord_iff.mp hfound
    simp
    omega
  have hwhole : ¬ raw.length < 5 + uint16 raw 3 := by
    change ¬ raw.length - 5 < uint16 raw 3 at hfits
    omega
  have hslice : slice raw 5 (uint16 raw 3) = record := hrecord.symm
  rw [parseTLS, if_neg hlen, if_neg (not_not.mpr htype)]
  simp only [if_neg (show ¬ uint16 raw 3 < 4 by omega), if_neg hwhole, hslice, hfound]

theorem take_of_parseTLS {raw : Bytes} {found : Result} (h : parseTLS raw = (found, .complete)) :
    raw.getD 0 0 = 22 ∧ ∃ record rest, takeVector 2 (raw.drop 3) = some (record, rest) ∧
      parseRecord record = some found := by
  unfold parseTLS at h
  simp only at h
  split_ifs at h with hlen htype hrecord hwhole <;> try cases h
  have hfits : ¬ raw.length - 5 < uint16 raw 3 := by omega
  refine ⟨not_not.mp htype, _, _,
    (takeVector_drop_iff (by decide)).mpr ⟨hlen, hfits, rfl, rfl⟩, ?_⟩
  change parseRecord (slice raw 5 (uint16 raw 3)) = some found
  cases hfound : parseRecord (slice raw 5 (uint16 raw 3)) with
  | none =>
      rw [hfound] at h
      cases h
  | some result =>
      rw [hfound] at h
      cases h
      rfl

/-- The parser completes exactly on the encoding of a ClientHello, whatever follows
it, and returns the name of its server and whether its hello is encrypted. -/
theorem parseTLS_complete_iff (raw : Bytes) (found : Result) :
    parseTLS raw = (found, .complete) ↔
      ∃ (hello : ClientHello) (rest : Bytes),
        raw = hello.encode ++ rest ∧ found = hello.result := by
  constructor
  · intro h
    obtain ⟨htype, record, rest, htake, hfound⟩ := take_of_parseTLS h
    obtain ⟨hlt, hdrop⟩ := takeVector_iff.mp htake
    obtain ⟨body, tail, -, rfl, hbody⟩ := parseRecord_iff.mp hfound
    obtain ⟨hello, rfl, rfl⟩ := parseBody_iff.mp hbody
    match raw, htype, hdrop with
    | first :: v :: w :: _, htype, hdrop =>
        obtain rfl : first = 22 := htype
        obtain rfl := hdrop
        refine ⟨⟨[v, w], hello, tail, rfl, hlt⟩, rest, ?_, rfl⟩
        simp [ClientHello.encode, ClientHello.record]
  · rintro ⟨hello, rest, rfl, rfl⟩
    have hbody : hello.body.encode.length < 256 ^ 3 := by
      have hlt := hello.record_lt
      simp only [List.length_cons, List.length_append, length_vector] at hlt
      omega
    have hfound : parseRecord hello.record = some hello.result :=
      parseRecord_iff.mpr ⟨_, _, hbody, rfl, parseBody_iff.mpr ⟨hello.body, rfl, rfl⟩⟩
    have hdrop : (hello.encode ++ rest).drop 3 = vector 2 hello.record ++ rest := by
      have hversion := hello.version_length
      rw [ClientHello.encode, List.cons_append, List.drop_succ_cons, List.append_assoc]
      exact List.drop_left' hversion
    exact parseTLS_of_take rfl (hdrop ▸ takeVector_vector hello.record_lt rest) hfound

end Hy2Route.Sniff
