import Hy2Route.Sniff.HTTP
import Hy2Route.Sniff.Reader

/-!
# Peeking at a connection

The sniffer looks at one byte more with every round, through a buffered reader that
it hands on, and stops at the first verdict. Since a verdict on a prefix stands, the
result is the verdict on the whole stream up to the limit, however the stream was cut
into reads, and the reader still has every byte of it.
-/

namespace Hy2Route.Sniff

open Foundation

def parse (raw : Bytes) : Result × ParseState :=
  if raw.length = 0 then ({}, .incomplete)
  else if raw.getD 0 0 = 22 then parseTLS raw
  else parseHTTP raw

/-- The exported parser. -/
def parseResult (raw : Bytes) : Result := (parse raw).1

/-- A verdict on a prefix stands whatever follows. -/
theorem parse_append {raw : Bytes} (h : (parse raw).2 ≠ .incomplete) (more : Bytes) :
    parse (raw ++ more) = parse raw := by
  cases raw with
  | nil => exact absurd rfl h
  | cons first rest =>
      have hfirst : (first :: rest ++ more).getD 0 0 = first := rfl
      have hfirst' : (first :: rest).getD 0 0 = first := rfl
      have hlen : (first :: rest ++ more).length ≠ 0 := by simp
      have hlen' : (first :: rest).length ≠ 0 := by simp
      simp only [parse, if_neg hlen, if_neg hlen', hfirst, hfirst'] at h ⊢
      by_cases htls : first = 22
      · simp only [if_pos htls] at h ⊢
        exact parseTLS_append h more
      · simp only [if_neg htls] at h ⊢
        exact parseHTTP_append h more

/-! ## The sniffer -/

structure Limits where
  bytes : Int
  timeout : Int

inductive PeekError where
  /-- sniff connection is required -/
  | connection
  /-- sniff byte limit must be positive -/
  | byteLimit
  /-- sniff timeout must be positive -/
  | timeout
  /-- the read deadline could not be set -/
  | deadline
  /-- the context was cancelled -/
  | context
  deriving DecidableEq

def parseFromReader (r : Reader) : Result × Reader :=
  if r.buffered.length = 0 then ({}, r)
  else match r.peek r.buffered.length with
    | (_, true, r) => ({}, r)
    | (raw, false, r) => (parseResult raw, r)

/-- The rounds of the sniffer; `cancelled` answers the check of the context in the
round that wants that many bytes. -/
def peekLoop (cancelled : Nat → Bool) (limit wanted : Nat) (r : Reader) :
    Except PeekError Result × Reader :=
  if cancelled wanted then (.error .context, r)
  else if limit < wanted then
    let (result, r) := parseFromReader r
    (.ok result, r)
  else
    let (raw, short, r) := r.peek wanted
    let (result, state) := parse raw
    if state ≠ .incomplete ∨ limit ≤ raw.length then (.ok result, r)
    else if short then (.ok result, r)
    else peekLoop cancelled limit (wanted + 1) r
termination_by limit + 1 - wanted

/-- Sniff a connection; `settable` tells whether its read deadline can be set. -/
def peek (cancelled : Nat → Bool) (settable : Bool) (conn : Option Conn) (limits : Limits) :
    Except PeekError Result × Option Reader :=
  match conn with
  | none => (.error .connection, none)
  | some conn =>
      if limits.bytes < 1 then (.error .byteLimit, none)
      else if limits.timeout ≤ 0 then (.error .timeout, none)
      else
        let r := Reader.new conn limits.bytes.toNat
        if !settable then (.error .deadline, some r)
        else
          let (result, r) := peekLoop cancelled limits.bytes.toNat 1 r
          (result, some r)

/-! ## The arrival of the bytes does not matter -/

/-- A verdict on the first bytes is the verdict on those up to the limit. -/
theorem parse_take_of_verdict {s : Bytes} {wanted limit : Nat} (hle : wanted ≤ limit)
    (h : (parse (s.take wanted)).2 ≠ .incomplete) :
    parse (s.take wanted) = parse (s.take limit) := by
  have hsplit : s.take limit = s.take wanted ++ (s.take limit).drop wanted := by
    have htake : (s.take limit).take wanted = s.take wanted := by
      rw [List.take_take, Nat.min_eq_left hle]
    rw [← htake, List.take_append_drop]
  rw [hsplit, parse_append h]

/-- The rounds end with the verdict on the bytes up to the limit. -/
theorem peekLoop_eq {limit wanted size : Nat} {s : Bytes} {r : Reader} (h : r.Holds size s)
    (hlimit : limit ≤ size) (hwanted : wanted ≤ limit) :
    ∃ after : Reader, peekLoop (fun _ => false) limit wanted r =
      (.ok (parseResult (s.take limit)), after) ∧ after.Holds size s := by
  induction hrounds : limit - wanted using Nat.strongRecOn generalizing wanted r with
  | ind n ih =>
      obtain ⟨after, hpeek, hholds⟩ := h.peek (Nat.le_trans hwanted hlimit)
      rw [peekLoop]
      simp only [Bool.false_eq_true, if_false, if_neg (Nat.not_lt.mpr hwanted), hpeek,
        decide_eq_true_eq]
      split_ifs with hverdict hshort
      · refine ⟨after, ?_, hholds⟩
        by_cases hstate : (parse (s.take wanted)).2 = .incomplete
        · have hfull : s.take wanted = s.take limit := by
            have hlen : limit ≤ (s.take wanted).length := hverdict.resolve_left (not_not.mpr hstate)
            rw [List.length_take] at hlen
            rw [show wanted = limit by omega]
          rw [hfull, parseResult]
        · rw [parse_take_of_verdict hwanted hstate, parseResult]
      · refine ⟨after, ?_, hholds⟩
        rw [List.take_of_length_le (by omega), parseResult, List.take_of_length_le (by omega)]
      · have hmore : wanted + 1 ≤ limit := by
          have hlen := mt Or.inr hverdict
          rw [List.length_take] at hlen
          omega
        exact ih _ (by omega) hholds hmore rfl

/-- Without an error the sniffer returns the verdict on the bytes up to the limit, and a
reader that has still every byte. -/
theorem peek_eq (conn : Conn) {limits : Limits} (hbytes : 1 ≤ limits.bytes)
    (htimeout : 0 < limits.timeout) :
    ∃ r : Reader, peek (fun _ => false) true (some conn) limits =
        (.ok (parseResult (conn.stream.take limits.bytes.toNat)), some r) ∧
      r.Holds (max limits.bytes.toNat 16) conn.stream := by
  obtain ⟨r, hloop, hholds⟩ := peekLoop_eq (Reader.holds_new conn limits.bytes.toNat)
    (Nat.le_max_left _ _) (show 1 ≤ limits.bytes.toNat by omega)
  refine ⟨r, ?_, hholds⟩
  simp only [peek, if_neg (show ¬ limits.bytes < 1 by omega),
    if_neg (show ¬ limits.timeout ≤ 0 by omega), Bool.not_true, Bool.false_eq_true, if_false, hloop]

/-- Rounds that return a result were not cancelled. -/
theorem peekLoop_of_ok {cancelled : Nat → Bool} {limit wanted : Nat} {r after : Reader}
    {result : Result} (h : peekLoop cancelled limit wanted r = (.ok result, after)) :
    peekLoop (fun _ => false) limit wanted r = (.ok result, after) := by
  induction hrounds : limit + 1 - wanted using Nat.strongRecOn generalizing wanted r with
  | ind n ih =>
      rw [peekLoop] at h ⊢
      cases hcancelled : cancelled wanted with
      | true => simp [hcancelled] at h
      | false =>
          simp only [hcancelled, Bool.false_eq_true, if_false] at h ⊢
          split_ifs at h ⊢ with hlimit hverdict hshort
          · exact h
          · exact h
          · exact h
          · exact ih _ (by omega) h rfl

/-- A result of the sniffer is the verdict on the bytes up to the limit. -/
theorem peek_ok {cancelled : Nat → Bool} {settable : Bool} {conn : Conn} {limits : Limits}
    {result : Result} (h : (peek cancelled settable (some conn) limits).1 = .ok result) :
    result = parseResult (conn.stream.take limits.bytes.toNat) := by
  unfold peek at h
  simp only at h
  split_ifs at h with hbytes htimeout hsettable
  obtain ⟨after, hloop, -⟩ := peekLoop_eq (Reader.holds_new conn limits.bytes.toNat)
    (Nat.le_max_left _ _) (show 1 ≤ limits.bytes.toNat by omega)
  cases hrun : peekLoop cancelled limits.bytes.toNat 1 (Reader.new conn limits.bytes.toNat) with
  | mk found last =>
      rw [hrun] at h
      obtain rfl : found = .ok result := h
      rw [peekLoop_of_ok hrun] at hloop
      exact Except.ok.inj (Prod.ext_iff.mp hloop).1

/-- Sniffing does not depend on how the bytes arrive. A verdict on a prefix stands,
and for every way in which a connection delivers its stream the sniffer returns the
verdict on the bytes up to the limit, with a reader that delivers the stream. -/
theorem sniffing_independent_of_arrival :
    (∀ p q : Bytes, (parse p).2 ≠ .incomplete → parse (p ++ q) = parse p) ∧
    ∀ (conn : Conn) (limits : Limits), 1 ≤ limits.bytes → 0 < limits.timeout →
      ∃ r : Reader, peek (fun _ => false) true (some conn) limits =
          (.ok (parseResult (conn.stream.take limits.bytes.toNat)), some r) ∧
        ∀ sizes : List Nat, (∀ n ∈ sizes, 0 < n) →
          (r.reads sizes).1 <+: conn.stream ∧
          (conn.stream.length ≤ sizes.length →
            (r.reads sizes).1 = conn.stream ∧
              ∀ n, 0 < n → ((r.reads sizes).2.read n).1 = none) := by
  refine ⟨fun p q h => parse_append h q, fun conn limits hbytes htimeout => ?_⟩
  have hsize : 0 < max limits.bytes.toNat 16 := by omega
  obtain ⟨r, hpeek, hholds⟩ := peek_eq conn hbytes htimeout
  refine ⟨r, hpeek, fun sizes hpos => ?_⟩
  obtain ⟨rest, hrest, hafter, hall⟩ := hholds.reads hsize hpos
  refine ⟨⟨rest, hrest.symm⟩, fun hlen => ?_⟩
  obtain rfl := hall hlen
  refine ⟨by simpa using hrest.symm, fun n hn => ?_⟩
  rcases hafter.read hsize hn with ⟨-, last, hread, -⟩ | ⟨got, left, last, hnil, hne, -⟩
  · rw [hread]
  · exact absurd (List.append_eq_nil_iff.mp hnil.symm).1 hne

/-- A request in three reads, with a body behind its header. -/
theorem sniffing_request_in_pieces :
    let conn : Conn := ⟨[ascii "GET / HTTP/1.1\r\nHo", ascii "st: Example.com:8080\r\n",
      ascii "\r\nbody"], by decide⟩
    let found : Result := { domain := ascii "example.com", protocol := .http, complete := true }
    (∀ q, parse (ascii "GET / HTTP/1.1\r\nHost: Example.com:8080\r\n\r\n" ++ q) =
        (found, .complete)) ∧
      ∃ r : Reader, peek (fun _ => false) true (some conn) ⟨8192, 250000000⟩ = (.ok found, some r) ∧
        (r.reads (List.replicate 64 1)).1 = conn.stream := by
  intro conn found
  obtain ⟨hstable, hpeek⟩ := sniffing_independent_of_arrival
  have hparse : parse (ascii "GET / HTTP/1.1\r\nHost: Example.com:8080\r\n\r\n") =
      (found, .complete) := by decide +kernel
  refine ⟨fun q => ?_, ?_⟩
  · rw [hstable _ q (by rw [hparse]; decide), hparse]
  · obtain ⟨r, hresult, hreads⟩ := hpeek conn ⟨8192, 250000000⟩ (by decide) (by decide)
    have hfound : parseResult (conn.stream.take 8192) = found := by decide +kernel
    refine ⟨r, ?_, ((hreads _ ?_).2 (by decide)).1⟩
    · rw [hresult]
      exact congrArg (fun result => (Except.ok result, some r)) hfound
    · intro n hn
      rw [List.eq_of_mem_replicate hn]
      decide

end Hy2Route.Sniff
