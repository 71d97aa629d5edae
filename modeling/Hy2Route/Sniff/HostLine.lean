import Hy2Route.Sniff.HTTP

/-!
# The host line of a request

A domain is to be taken from a request only when the request names one host. The
parser remembers a host line by its value, so a host line with nothing after its colon
is forgotten, and a second one is taken for the first.
-/

namespace Hy2Route.Sniff

open Foundation Policy

/-- The lines after the request line, up to the first empty line. -/
def headerLines (raw : Bytes) : List Bytes :=
  match indexOf [0x0D, 0x0A, 0x0D, 0x0A] raw with
  | none => []
  | some stop => (splitLines (raw.take stop)).tail

/-- What stands before the first colon of a header line. -/
def lineName (line : Bytes) : Bytes := line.takeWhile (· != 0x3A)

/-- What stands behind the first colon of a header line. -/
def lineValue (line : Bytes) : Bytes := line.drop ((lineName line).length + 1)

def namesHost (line : Bytes) : Bool := equalFoldHost (lineName line)

/-- The value is the name, or the name with a port of 16 bits. -/
inductive HostPart (value name : Bytes) : Prop where
  | bare (text : trimSpace value = name) (whole : splitHostPort name = none)
  | withPort (port : Bytes) (text : trimSpace value = name ++ 0x3A :: port)
      (first : (0x3A : UInt8) ∉ name) (digits : port ≠ [] ∧ port.all isDigit = true)
      (small : port.foldl (fun n d => n * 10 + digitValue d) 0 ≤ 65535)

/-- One header line names the host, every header line has a name, and the domain is
the host that is named. -/
structure Unambiguous (raw domain : Bytes) : Prop where
  named : ∀ line ∈ headerLines raw, (0x3A : UInt8) ∈ line ∧ lineName line ≠ []
  host : ∃ line name, (headerLines raw).filter namesHost = [line] ∧
    HostPart (lineValue line) name ∧ normalizeDomain name = .ok domain

section Lines

variable {line : Bytes} {colon : Nat}

theorem lineName_of_indexByte (h : indexByte line 0x3A = some colon) :
    lineName line = line.take colon := by
  obtain ⟨hlt, hcolon, hbefore⟩ := List.findIdx?_eq_some_iff_getElem.mp h
  have hsplit : line = line.take colon ++ line.drop colon := (List.take_append_drop _ _).symm
  have hfront : ∀ b ∈ line.take colon, (b != 0x3A) = true := by
    intro b hb
    obtain ⟨i, hi, rfl⟩ := List.getElem_of_mem hb
    rw [List.length_take] at hi
    have hne := hbefore i (by omega)
    rw [List.getElem_take]
    simpa using hne
  have hdrop : line.drop colon = line.get ⟨colon, hlt⟩ :: line.drop (colon + 1) :=
    List.drop_eq_getElem_cons hlt
  calc lineName line
      = (line.take colon ++ line.drop colon).takeWhile (· != 0x3A) := by rw [← hsplit, lineName]
    _ = line.take colon ++ (line.drop colon).takeWhile (· != 0x3A) :=
        List.takeWhile_append_of_pos hfront
    _ = line.take colon := by
        rw [hdrop, List.takeWhile_cons_of_neg (by simpa using hcolon), List.append_nil]

theorem lineValue_of_indexByte (h : indexByte line 0x3A = some colon) :
    lineValue line = line.drop (colon + 1) := by
  have hlt := indexByte_lt h
  rw [lineValue, lineName_of_indexByte h, List.length_take, Nat.min_eq_left (by omega)]

/-- A line with a colon behind its first byte has a name. -/
theorem named_of_indexByte (h : indexByte line 0x3A = some (colon + 1)) :
    (0x3A : UInt8) ∈ line ∧ lineName line ≠ [] := by
  obtain ⟨hlt, hcolon, -⟩ := List.findIdx?_eq_some_iff_getElem.mp h
  have heq : line.get ⟨colon + 1, hlt⟩ = 0x3A := by simpa using hcolon
  refine ⟨heq ▸ List.get_mem _ _, ?_⟩
  rw [lineName_of_indexByte h]
  intro hnil
  have hlength := congrArg List.length hnil
  rw [List.length_take, Nat.min_eq_left (by omega)] at hlength
  cases hlength

end Lines

/-- The search returns a host only from the last host line; those before it have no
value. -/
theorem findHost_eq_some {lines : List Bytes} {host found : Bytes}
    (h : findHost lines host = some found) :
    (∀ line ∈ lines, (0x3A : UInt8) ∈ line ∧ lineName line ≠ []) ∧
      ((host = found ∧ lines.filter namesHost = []) ∨
        host = [] ∧ ∃ blank line, lines.filter namesHost = blank ++ [line] ∧
          (∀ l ∈ blank, lineValue l = []) ∧ lineValue line = found) := by
  induction lines generalizing host with
  | nil => exact ⟨fun _ hline => absurd hline List.not_mem_nil, Or.inl ⟨Option.some.inj h, rfl⟩⟩
  | cons line rest ih =>
      cases hcolon : indexByte line 0x3A with
      | none => simp [findHost, hcolon] at h
      | some colon =>
          cases colon with
          | zero => simp [findHost, hcolon] at h
          | succ colon =>
              have hname := lineName_of_indexByte hcolon
              have hvalue := lineValue_of_indexByte hcolon
              have hnamed := named_of_indexByte hcolon
              simp only [findHost, hcolon, ← hname, ← hvalue] at h
              split_ifs at h with hhost hfull
              · have hempty : host = [] := not_not.mp hfull
                obtain ⟨hrest, hfound⟩ := ih h
                have hfirst : namesHost line = true := hhost
                refine ⟨List.forall_mem_cons.mpr ⟨hnamed, hrest⟩, Or.inr ⟨hempty, ?_⟩⟩
                rw [List.filter_cons_of_pos hfirst]
                rcases hfound with ⟨hlast, hnone⟩ | ⟨hblank, blank, last, hlines, hall, hlast⟩
                · exact ⟨[], line, by rw [hnone, List.nil_append],
                    fun _ hl => absurd hl List.not_mem_nil, hlast⟩
                · refine ⟨line :: blank, last, by rw [hlines, List.cons_append], ?_, hlast⟩
                  exact List.forall_mem_cons.mpr ⟨hblank, hall⟩
              · obtain ⟨hrest, hfound⟩ := ih h
                have hfirst : ¬ namesHost line = true := hhost
                refine ⟨List.forall_mem_cons.mpr ⟨hnamed, hrest⟩, ?_⟩
                rwa [List.filter_cons_of_neg hfirst]

/-- Host and port of a text without brackets. -/
theorem splitHostPort_eq_some {host name port : Bytes} (hopen : (0x5B : UInt8) ∉ host)
    (h : splitHostPort host = some (name, port)) :
    host = name ++ 0x3A :: port ∧ (0x3A : UInt8) ∉ name := by
  have hplain : host ≠ bracketed name port := by
    rintro rfl
    exact hopen List.mem_cons_self
  have hjoin := (splitHostPort_eq_some_iff.mp h).2.resolve_right hplain
  unfold joinHostPort at hjoin
  split_ifs at hjoin with hcolon
  · exact absurd hjoin hplain
  · exact ⟨hjoin, hcolon⟩

theorem parsePort_isSome {port : Bytes} (h : (parsePort port).isSome = true) :
    (port ≠ [] ∧ port.all isDigit = true) ∧
      port.foldl (fun n d => n * 10 + digitValue d) 0 ≤ 65535 := by
  simp only [parsePort] at h
  split_ifs at h with hdigits hsmall
  · exact ⟨hdigits, hsmall⟩
  · cases h
  · cases h

/-- A domain that is not empty is the normalized host part. -/
theorem normalizeHTTPHost_hostPart {value : Bytes} (h : normalizeHTTPHost value ≠ []) :
    ∃ name, HostPart value name ∧ normalizeDomain name = .ok (normalizeHTTPHost value) := by
  have hnormal : ∀ {name : Bytes}, normalizedOrEmpty name ≠ [] →
      normalizeDomain name = .ok (normalizedOrEmpty name) := by
    intro name hname
    unfold normalizedOrEmpty at hname ⊢
    cases hdomain : normalizeDomain name with
    | ok domain => rfl
    | error err => simp [hdomain] at hname
  generalize hresult : normalizeHTTPHost value = domain at h ⊢
  simp only [normalizeHTTPHost] at hresult
  split_ifs at hresult with hbad
  · exact absurd hresult.symm h
  · cases hsplit : splitHostPort (trimSpace value) with
    | none =>
        simp only [hsplit] at hresult
        refine ⟨trimSpace value, .bare rfl hsplit, ?_⟩
        rw [← hresult]
        exact hnormal (hresult ▸ h)
    | some parts =>
        obtain ⟨name, port⟩ := parts
        simp only [hsplit] at hresult
        split_ifs at hresult with hport
        · exact absurd hresult.symm h
        · obtain ⟨htext, hfirst⟩ := splitHostPort_eq_some (fun h => hbad (by simp [h])) hsplit
          push Not at hport
          obtain ⟨hdigits, hsmall⟩ := parsePort_isSome
            (Option.isSome_iff_ne_none.mpr (by simpa using hport.1))
          refine ⟨name, .withPort port htext hfirst hdigits hsmall, ?_⟩
          rw [← hresult]
          exact hnormal (hresult ▸ h)

/-- The domain of a request with a whole header. -/
theorem parseHTTP_complete {raw : Bytes} (h : (parseHTTP raw).2 = .complete) :
    ∃ stop, indexOf [0x0D, 0x0A, 0x0D, 0x0A] raw = some stop ∧
      (parseHTTP raw).1 = httpResult (raw.take stop) := by
  unfold parseHTTP at h ⊢
  cases hspace : indexByte raw 0x20 with
  | none =>
      simp only [hspace] at h
      split_ifs at h
  | some space =>
      cases space with
      | zero =>
          simp only [hspace] at h
          cases h
      | succ space =>
          simp only [hspace] at h ⊢
          by_cases hmethod : (!(raw.take (space + 1)).all isHTTPMethodChar) = true
          · rw [if_pos hmethod] at h
            cases h
          · cases hend : indexOf [0x0D, 0x0A, 0x0D, 0x0A] raw with
            | none => simp [hmethod, hend] at h
            | some stop => exact ⟨stop, rfl, by rw [if_neg hmethod]⟩

theorem parseHTTP_domain {raw : Bytes} (hstate : (parseHTTP raw).2 = .complete)
    (hdomain : (parseHTTP raw).1.domain ≠ []) :
    ∃ host, findHost (headerLines raw) [] = some host ∧
      (parseHTTP raw).1.domain = normalizeHTTPHost host := by
  obtain ⟨stop, hend, hresult⟩ := parseHTTP_complete hstate
  have hlines : headerLines raw = (splitLines (raw.take stop)).tail := by
    simp only [headerLines, hend]
  rw [hresult, httpResult] at hdomain ⊢
  rw [hlines]
  cases hfind : findHost (splitLines (raw.take stop)).tail [] with
  | none =>
      rw [hfind] at hdomain
      exact absurd rfl hdomain
  | some host => exact ⟨host, rfl, rfl⟩

/-- A domain that was taken from a request is unambiguous exactly when no host line is
without a value. -/
theorem parseHTTP_unambiguous_iff (raw : Bytes) (hstate : (parseHTTP raw).2 = .complete)
    (hdomain : (parseHTTP raw).1.domain ≠ []) :
    Unambiguous raw (parseHTTP raw).1.domain ↔
      ∀ line ∈ headerLines raw, namesHost line = true → lineValue line ≠ [] := by
  obtain ⟨host, hfind, heq⟩ := parseHTTP_domain hstate hdomain
  obtain ⟨hnamed, hhost⟩ := findHost_eq_some hfind
  rw [heq] at hdomain ⊢
  have hne : host ≠ [] := by
    rintro rfl
    exact hdomain (by decide)
  obtain ⟨-, blank, last, hlines, hblank, hlast⟩ : _ ∧ _ :=
    hhost.resolve_left fun hfirst => hne hfirst.1.symm
  constructor
  · rintro ⟨-, line, -, hone, -, -⟩ other hother hnames
    -- the only host line is the last one, whose value was found
    obtain rfl : other = last := by
      have hmem : other ∈ (headerLines raw).filter namesHost := List.mem_filter.mpr ⟨hother, hnames⟩
      have hlength := congrArg List.length (hlines.symm.trans hone)
      rw [List.length_append, List.length_singleton, List.length_singleton] at hlength
      rw [hlines, List.eq_nil_of_length_eq_zero (by omega : blank.length = 0)] at hmem
      exact List.mem_singleton.mp hmem
    rwa [hlast]
  · intro hvalues
    have hnone : blank = [] := by
      refine List.eq_nil_iff_forall_not_mem.mpr fun line hline => ?_
      have hmem : line ∈ (headerLines raw).filter namesHost :=
        hlines ▸ List.mem_append_left _ hline
      obtain ⟨hin, hnames⟩ := List.mem_filter.mp hmem
      exact hvalues line hin hnames (hblank line hline)
    obtain ⟨name, hpart, hnormal⟩ := normalizeHTTPHost_hostPart hdomain
    refine ⟨hnamed, last, name, by rw [hlines, hnone, List.nil_append], ?_, hnormal⟩
    rwa [hlast]

/-- A request with one host line and a port. -/
theorem parseHTTP_unambiguous_with_port :
    Unambiguous (ascii "GET / HTTP/1.1\r\nHost: a.b:80\r\n\r\n") (ascii "a.b") := by
  have hdomain : (parseHTTP (ascii "GET / HTTP/1.1\r\nHost: a.b:80\r\n\r\n")).1.domain =
      ascii "a.b" := by decide
  have hunambiguous := (parseHTTP_unambiguous_iff
    (ascii "GET / HTTP/1.1\r\nHost: a.b:80\r\n\r\n") (by decide) (by rw [hdomain]; decide)).mpr
    (by decide)
  rwa [hdomain] at hunambiguous

/-- The first host line of the request has no value, and the second is taken. -/
theorem parseHTTP_takes_second_host :
    let raw := ascii "GET / HTTP/1.1\r\nHost:\r\nHost: a.b\r\n\r\n"
    parseHTTP raw = ({ domain := ascii "a.b", protocol := .http, complete := true }, .complete) ∧
      ¬ Unambiguous raw (ascii "a.b") := by
  refine ⟨by decide, ?_⟩
  rintro ⟨-, line, -, hone, -, -⟩
  have hlength := congrArg List.length hone
  rw [List.length_singleton] at hlength
  revert hlength
  decide

end Hy2Route.Sniff
