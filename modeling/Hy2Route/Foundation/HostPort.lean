import Hy2Route.Foundation.Json

/-!
# Hosts and ports as text

A network address is a host and a port with a colon between them, and the host stands in
brackets when it has a colon of its own. Reading accepts brackets around any host;
writing puts them only where they are needed. How an IP address is read and written is
left open, up to the size of what is read.
-/

namespace Hy2Route.Foundation

/-! ## Cutting at a byte -/

/-- What stands before and after the first separator. -/
def cutFirst (sep : UInt8) (s : Bytes) : Option (Bytes × Bytes) :=
  if sep ∈ s then some (s.takeWhile (· ≠ sep), (s.dropWhile (· ≠ sep)).tail) else none

/-- What stands before and after the last separator. -/
def cutLast (sep : UInt8) (s : Bytes) : Option (Bytes × Bytes) :=
  (cutFirst sep s.reverse).map fun (after, before) => (before.reverse, after.reverse)

theorem cutFirst_eq_some_iff {sep : UInt8} {s before after : Bytes} :
    cutFirst sep s = some (before, after) ↔ s = before ++ sep :: after ∧ sep ∉ before := by
  constructor
  · intro h
    unfold cutFirst at h
    split_ifs at h with hmem
    obtain ⟨rfl, rfl⟩ := Prod.mk.injEq _ _ _ _ ▸ Option.some.inj h
    have hnot : sep ∉ s.takeWhile (· ≠ sep) := fun hin => by
      simpa using List.all_eq_true.mp List.all_takeWhile sep hin
    refine ⟨?_, hnot⟩
    cases hrest : s.dropWhile (· ≠ sep) with
    | nil =>
        have hall := List.takeWhile_append_dropWhile (p := (· ≠ sep)) (l := s)
        rw [hrest, List.append_nil] at hall
        rw [hall] at hnot
        exact absurd hmem hnot
    | cons first rest =>
        have hfirst : first = sep := by
          have hhead := List.head?_dropWhile_not (· ≠ sep) s
          rw [hrest] at hhead
          simpa using hhead
        rw [List.tail_cons, ← hfirst, ← hrest, hfirst]
        exact (List.takeWhile_append_dropWhile (p := (· ≠ sep)) (l := s)).symm
  · rintro ⟨rfl, hnot⟩
    have hall : ∀ b ∈ before, decide (b ≠ sep) = true := fun b hb =>
      decide_eq_true fun heq => hnot (heq ▸ hb)
    have hmem : sep ∈ before ++ sep :: after := by simp
    rw [cutFirst, if_pos hmem, List.takeWhile_append_of_pos hall,
      List.dropWhile_append_of_pos hall, List.takeWhile_cons_of_neg (by simp),
      List.dropWhile_cons_of_neg (by simp), List.append_nil, List.tail_cons]

theorem cutLast_eq_some_iff {sep : UInt8} {s before after : Bytes} :
    cutLast sep s = some (before, after) ↔ s = before ++ sep :: after ∧ sep ∉ after := by
  have hcut : cutLast sep s = some (before, after) ↔
      cutFirst sep s.reverse = some (after.reverse, before.reverse) := by
    unfold cutLast
    cases cutFirst sep s.reverse with
    | none => simp
    | some parts =>
        obtain ⟨a, b⟩ := parts
        simp only [Option.map_some, Option.some.injEq, Prod.mk.injEq]
        rw [List.reverse_eq_iff, List.reverse_eq_iff, and_comm]
  rw [hcut, cutFirst_eq_some_iff, List.mem_reverse]
  refine and_congr_left fun _ => ?_
  rw [List.reverse_eq_iff]
  simp

/-! ## Addresses -/

def splitHostPort (hostport : Bytes) : Option (Bytes × Bytes) :=
  match cutLast 0x3A hostport with
  | none => none
  | some (before, port) =>
      if hostport.head? = some 0x5B then
        -- the first closing bracket stands just before the last colon
        match cutFirst 0x5D hostport with
        | none => none
        | some (inside, after) =>
            if after ≠ 0x3A :: port ∨ (0x5B : UInt8) ∈ hostport.tail ∨ (0x5D : UInt8) ∈ after then
              none
            else some (inside.tail, port)
      else if (0x3A : UInt8) ∈ before ∨ (0x5B : UInt8) ∈ hostport ∨ (0x5D : UInt8) ∈ hostport then
        none
      else some (before, port)

def bracketed (host port : Bytes) : Bytes := 0x5B :: (host ++ 0x5D :: 0x3A :: port)

def joinHostPort (host port : Bytes) : Bytes :=
  if (0x3A : UInt8) ∈ host then bracketed host port else host ++ 0x3A :: port

/-- The pairs that an address can have: no brackets, and no colon in the port. -/
structure HostPort (host port : Bytes) : Prop where
  open_host : (0x5B : UInt8) ∉ host
  close_host : (0x5D : UInt8) ∉ host
  open_port : (0x5B : UInt8) ∉ port
  close_port : (0x5D : UInt8) ∉ port
  colon_port : (0x3A : UInt8) ∉ port

section Split

variable {s host port : Bytes}

theorem HostPort.split_bracketed (h : HostPort host port) :
    splitHostPort (bracketed host port) = some (host, port) := by
  have hlast : cutLast 0x3A (bracketed host port) = some (0x5B :: (host ++ [0x5D]), port) :=
    cutLast_eq_some_iff.mpr ⟨by simp [bracketed], h.colon_port⟩
  have hfirst : cutFirst 0x5D (bracketed host port) = some (0x5B :: host, 0x3A :: port) :=
    cutFirst_eq_some_iff.mpr ⟨by simp [bracketed], by simp [h.close_host]⟩
  have hhead : (bracketed host port).head? = some 0x5B := rfl
  have hgood : ¬ ((0x3A :: port) ≠ 0x3A :: port ∨ (0x5B : UInt8) ∈ (bracketed host port).tail ∨
      (0x5D : UInt8) ∈ 0x3A :: port) := by
    simp [bracketed, h.open_host, h.open_port, h.close_port]
  simp only [splitHostPort, hlast, hhead, if_true, hfirst, if_neg hgood, List.tail_cons]

theorem HostPort.split_join (h : HostPort host port) :
    splitHostPort (joinHostPort host port) = some (host, port) := by
  by_cases hcolon : (0x3A : UInt8) ∈ host
  · rw [joinHostPort, if_pos hcolon, h.split_bracketed]
  · rw [joinHostPort, if_neg hcolon]
    have hlast : cutLast 0x3A (host ++ 0x3A :: port) = some (host, port) :=
      cutLast_eq_some_iff.mpr ⟨rfl, h.colon_port⟩
    have hplain : ¬ ((0x3A : UInt8) ∈ host ∨ (0x5B : UInt8) ∈ host ++ 0x3A :: port ∨
        (0x5D : UInt8) ∈ host ++ 0x3A :: port) := by
      simp [hcolon, h.open_host, h.open_port, h.close_host, h.close_port]
    have hhead : (host ++ 0x3A :: port).head? ≠ some 0x5B := fun hhead =>
      hplain (Or.inr (Or.inl (List.mem_of_mem_head? hhead)))
    simp only [splitHostPort, hlast, if_neg hhead, if_neg hplain]

/-- What is accepted with a bracket in front. -/
theorem hostPort_of_bracket {inside : Bytes} (hopen : s.head? = some 0x5B)
    (hs : s = inside ++ 0x5D :: 0x3A :: port) (hinside : (0x5D : UInt8) ∉ inside)
    (hopen' : (0x5B : UInt8) ∉ s.tail) (hclose : (0x5D : UInt8) ∉ 0x3A :: port)
    (hport : (0x3A : UInt8) ∉ port) :
    HostPort inside.tail port ∧ s = bracketed inside.tail port := by
  cases inside with
  | nil =>
      rw [hs] at hopen
      simp at hopen
  | cons first host =>
      obtain rfl : first = 0x5B := by
        rw [hs] at hopen
        simpa using hopen
      rw [hs] at hopen'
      simp only [List.cons_append, List.tail_cons, List.mem_append, List.mem_cons,
        not_or] at hopen' hinside hclose
      exact ⟨⟨hopen'.1, hinside.2, hopen'.2.2.2, hclose.2, hport⟩, hs⟩

/-- Reading accepts the written form and brackets around any host. -/
theorem splitHostPort_eq_some_iff :
    splitHostPort s = some (host, port) ↔
      HostPort host port ∧ (s = joinHostPort host port ∨ s = bracketed host port) := by
  constructor
  · intro h
    unfold splitHostPort at h
    split at h
    · cases h
    · rename_i before port' hlast
      obtain ⟨hs, hport⟩ := cutLast_eq_some_iff.mp hlast
      split_ifs at h with hopen hplain
      · split at h
        · cases h
        · rename_i inside after hfirst
          obtain ⟨hs', hinside⟩ := cutFirst_eq_some_iff.mp hfirst
          split_ifs at h with hbad
          obtain ⟨rfl, rfl⟩ := Prod.mk.injEq _ _ _ _ ▸ Option.some.inj h
          obtain ⟨rfl, hopen', hclose⟩ : after = 0x3A :: port' ∧ (0x5B : UInt8) ∉ s.tail ∧
              (0x5D : UInt8) ∉ after := by simpa using hbad
          exact (hostPort_of_bracket hopen hs' hinside hopen' hclose hport).imp_right Or.inr
      · obtain ⟨rfl, rfl⟩ := Prod.mk.injEq _ _ _ _ ▸ Option.some.inj h
        simp only [not_or] at hplain
        obtain ⟨hcolon, hopen', hclose⟩ := hplain
        have hjoin : s = joinHostPort before port' := by rw [joinHostPort, if_neg hcolon, ← hs]
        rw [hs] at hopen' hclose
        simp only [List.mem_append, List.mem_cons, not_or] at hopen' hclose
        exact ⟨⟨hopen'.1, hclose.1, hopen'.2.2, hclose.2.2, hport⟩, Or.inl hjoin⟩
  · rintro ⟨hparts, rfl | rfl⟩
    · exact hparts.split_join
    · exact hparts.split_bracketed

/-- The port stands behind the last colon. -/
theorem exists_joinHostPort_eq (host port : Bytes) :
    ∃ before, joinHostPort host port = before ++ 0x3A :: port := by
  unfold joinHostPort
  split_ifs
  · exact ⟨0x5B :: (host ++ [0x5D]), by simp [bracketed]⟩
  · exact ⟨host, rfl⟩

theorem bracketed_inj {other : Bytes} (h : bracketed host port = bracketed other port) :
    host = other := by
  simpa [bracketed] using h

theorem eq_of_eq_bracketed {inner : Bytes} (h : host ++ 0x3A :: port = bracketed inner port) :
    host = 0x5B :: (inner ++ [0x5D]) := by
  refine (List.append_left_inj (0x3A :: port)).mp ?_
  simpa [bracketed] using h

/-- The port is read back as it was written, whatever the host is. -/
theorem port_of_splitHostPort_join {inner inner' port' : Bytes} (hport : (0x3A : UInt8) ∉ port)
    (h : splitHostPort (joinHostPort inner port) = some (inner', port')) : port' = port := by
  obtain ⟨hparts, hforms⟩ := splitHostPort_eq_some_iff.mp h
  obtain ⟨before, hbefore⟩ := exists_joinHostPort_eq inner port
  obtain ⟨before', hbefore'⟩ : ∃ before', joinHostPort inner port = before' ++ 0x3A :: port' := by
    rcases hforms with hjoin | hbracketed
    · rw [hjoin]
      exact exists_joinHostPort_eq inner' port'
    · rw [hbracketed]
      exact ⟨0x5B :: (inner' ++ [0x5D]), by simp [bracketed]⟩
  have hlast := cutLast_eq_some_iff.mpr ⟨hbefore, hport⟩
  rw [cutLast_eq_some_iff.mpr ⟨hbefore', hparts.colon_port⟩] at hlast
  exact (Prod.mk.injEq _ _ _ _ ▸ Option.some.inj hlast).2

/-- Another host than the written one is only read when brackets were written around it. -/
theorem eq_bracketed_of_splitHostPort_join {inner : Bytes}
    (h : splitHostPort (joinHostPort host port) = some (inner, port)) (hne : inner ≠ host) :
    joinHostPort host port = bracketed inner port ∧ (0x3A : UInt8) ∉ inner := by
  obtain ⟨hparts, hforms⟩ := splitHostPort_eq_some_iff.mp h
  by_cases hcolon : (0x3A : UInt8) ∈ host
  · -- With its own brackets the host is read as it is.
    have hjoin : joinHostPort host port = bracketed host port := if_pos hcolon
    rw [hjoin] at hforms
    rcases hforms with hother | hother
    · by_cases hinner : (0x3A : UInt8) ∈ inner
      · rw [joinHostPort, if_pos hinner] at hother
        exact absurd (bracketed_inj hother).symm hne
      · rw [joinHostPort, if_neg hinner] at hother
        have hopen : (0x5B : UInt8) ∈ inner ++ 0x3A :: port := by
          rw [← hother]
          exact List.mem_cons_self
        simp [hparts.open_host, hparts.open_port] at hopen
    · exact absurd (bracketed_inj hother).symm hne
  · have hjoin : joinHostPort host port = host ++ 0x3A :: port := if_neg hcolon
    have hbracketed : joinHostPort host port = bracketed inner port := by
      refine hforms.resolve_left fun hother => ?_
      rw [hjoin] at hother
      by_cases hinner : (0x3A : UInt8) ∈ inner
      · rw [joinHostPort, if_pos hinner] at hother
        exact hcolon (by simp [eq_of_eq_bracketed hother, hinner])
      · rw [joinHostPort, if_neg hinner] at hother
        exact hne (List.append_cancel_right hother).symm
    refine ⟨hbracketed, fun hinner => hcolon ?_⟩
    rw [hjoin] at hbracketed
    simp [eq_of_eq_bracketed hbracketed, hinner]

/-- What can be read can be written and read again. -/
theorem splitHostPort_join (h : splitHostPort s = some (host, port)) :
    splitHostPort (joinHostPort host port) = some (host, port) :=
  (splitHostPort_eq_some_iff.mp h).1.split_join

end Split

/-! ## Numbers -/

/-- A decimal number with an optional sign, within 64 bits. -/
def atoi (s : Bytes) : Option Int :=
  let digits := if s.head? = some 0x2D ∨ s.head? = some 0x2B then s.tail else s
  let value : Int := digits.foldl (fun n d => n * 10 + digitValue d) 0
  let number := if s.head? = some 0x2D then -value else value
  if digits = [] ∨ digits.any (fun d => !isDigit d) ∨ number < -2 ^ 63 ∨ 2 ^ 63 ≤ number then none
  else some number

theorem foldl_digits_cast (digits : Bytes) (n : Nat) :
    digits.foldl (fun n d => n * 10 + (digitValue d : Int)) (n : Int) =
      (digits.foldl (fun n d => n * 10 + digitValue d) n : Nat) := by
  induction digits generalizing n with
  | nil => rfl
  | cons d rest ih =>
      rw [List.foldl_cons, List.foldl_cons, ← ih]
      simp

theorem atoi_numeral {n : Nat} (hn : n < 2 ^ 63) : atoi (Json.numeral n) = some (n : Int) := by
  have hdigits := Json.isDigit_of_mem_numeral (n := n)
  have hvalue : (Json.numeral n).foldl (fun n d => n * 10 + (digitValue d : Int)) 0 = n :=
    (foldl_digits_cast (Json.numeral n) 0).trans (congrArg _ (Json.foldl_numeral n))
  have hne := Json.numeral_ne_nil n
  generalize Json.numeral n = s at hdigits hvalue hne
  -- a digit is not a sign
  have hsign : ∀ c, isDigit c = false → s.head? ≠ some c := fun c hc hhead => by
    simpa [hc] using hdigits c (List.mem_of_mem_head? hhead)
  have hbody : ¬ (s.head? = some 0x2D ∨ s.head? = some 0x2B) := by
    rintro (hminus | hplus)
    · exact hsign 0x2D (by decide) hminus
    · exact hsign 0x2B (by decide) hplus
  have hall : (s.any fun d => !isDigit d) = false := by
    rw [List.any_eq_false]
    intro d hd
    simp [hdigits d hd]
  have hgood : ¬ (s = [] ∨ (s.any fun d => !isDigit d) = true ∨ (n : Int) < -2 ^ 63 ∨
      2 ^ 63 ≤ (n : Int)) := by
    simp only [hne, hall, Bool.false_eq_true, false_or, not_or]
    omega
  simp only [atoi, if_neg hbody, if_neg (hsign 0x2D (by decide)), hvalue, if_neg hgood]

/-! ## IP addresses -/

/-- How IP addresses are read and written: reading gives sixteen bytes. -/
structure AddressText where
  parseIP : Bytes → Option Bytes
  ipString : Bytes → Bytes
  length_parseIP : ∀ {s ip}, parseIP s = some ip → ip.length = 16

def v4InV6Prefix : Bytes := List.replicate 10 0 ++ [0xFF, 0xFF]

/-- The four bytes of an IPv4 address, which may be written in sixteen. -/
def to4 (ip : Bytes) : Option Bytes :=
  if ip.length = 4 then some ip
  else if ip.length = 16 ∧ ip.take 12 = v4InV6Prefix then some (ip.drop 12)
  else none

theorem length_to4 {ip v4 : Bytes} (h : to4 ip = some v4) : v4.length = 4 := by
  unfold to4 at h
  split_ifs at h with hshort hmapped
  · cases h
    exact hshort
  · cases h
    rw [List.length_drop, hmapped.1]

/-- Dotted decimal addresses only. -/
def AddressText.dotted : AddressText where
  parseIP s := (parseIPv4 s).map fun a => v4InV6Prefix ++ Addr.as4 a
  ipString ip :=
    match to4 ip with
    | some [a, b, c, d] => Addr.text4 (Addr.from4 a b c d)
    | _ => []
  length_parseIP := by
    intro s ip h
    obtain ⟨a, -, rfl⟩ := Option.map_eq_some_iff.mp h
    rfl

end Hy2Route.Foundation
