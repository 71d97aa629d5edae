import Hy2Route.Foundation.Lines
import Hy2Route.HY2.Status

/-!
# Redaction of the HY2 diagnostics

A reason goes through three steps before it is stored and logged: the secrets are replaced,
the white space is collapsed, and the line is cut. The first step removes every secret. The
two later ones change the text once more, and which secrets can come back is said here in
terms of the secret alone.
-/

namespace Hy2Route.HY2

open Foundation

/-! ## The steps of a reason -/

def redact (secrets : List Bytes) (reason : Bytes) : Bytes :=
  secrets.foldl (fun reason secret =>
    if secret ≠ [] then replaceAll reason secret (ascii "[redacted]") else reason) reason

def collapse (reason : Bytes) : Bytes := [0x20].intercalate (fields reason)

def shorten (reason : Bytes) : Bytes :=
  if maxReasonRunes < (runes reason).length then
    encodeRunes ((runes reason).take maxReasonRunes) ++ ascii "..."
  else reason

theorem sanitize_eq (secrets : List Bytes) (reason : Bytes) :
    sanitize secrets reason = shorten (collapse (redact secrets reason)) := rfl

/-- A secret that cannot be mistaken for what the steps themselves write. -/
structure Redactable (secret : Bytes) : Prop where
  nonempty : secret ≠ []
  opening : 0x5B ∉ secret
  closing : 0x5D ∉ secret
  marker : ¬ secret <:+: ascii "[redacted]"
  dots : ¬ secret <:+: ascii "..."

section Steps

variable {secret reason : Bytes} {secrets : List Bytes}

theorem redact_concat (secrets : List Bytes) (last reason : Bytes) :
    redact (secrets ++ [last]) reason =
      if last ≠ [] then replaceAll (redact secrets reason) last (ascii "[redacted]")
      else redact secrets reason := by
  rw [redact, List.foldl_append]
  rfl

/-- No secret stands in a redacted reason, whatever other secrets are replaced. -/
theorem Redactable.not_infix_redact (h : Redactable secret) (hmem : secret ∈ secrets)
    (reason : Bytes) : ¬ secret <:+: redact secrets reason := by
  have hnew : ascii "[redacted]" = 0x5B :: ascii "redacted]" := rfl
  have hend : ascii "[redacted]" = ascii "[redacted" ++ [0x5D] := rfl
  induction secrets using List.reverseRecOn with
  | nil => exact absurd hmem List.not_mem_nil
  | append_singleton secrets last ih =>
      rw [redact_concat]
      rcases List.mem_append.mp hmem with hbefore | hlast
      · split_ifs with hne
        · intro hin
          rcases infix_of_infix_replaceAll hnew hend h.opening h.closing hin with hmarker | hin
          · exact h.marker hmarker
          · exact ih hbefore hin
        · exact ih hbefore
      · obtain rfl := List.mem_singleton.mp hlast
        rw [if_pos h.nonempty]
        exact not_infix_replaceAll hnew hend h.opening h.closing h.marker _

theorem redact_eq_self (h : ¬ secret <:+: reason) : redact [secret] reason = reason := by
  rw [redact, List.foldl_cons, List.foldl_nil, replaceAll_eq_self h, ite_self]

/-- A text without a space stands on the line only where it stood before. -/
theorem infix_of_infix_collapse (hne : secret ≠ []) (hspace : 0x20 ∉ secret)
    (h : secret <:+: collapse reason) : secret <:+: reason := by
  obtain ⟨field, hfield, hin⟩ := exists_infix_of_infix_intercalate hspace hne h
  exact hin.trans (word_of_mem_fields hfield).2

theorem collapse_tabs {F : List Bytes} (h : ∀ f ∈ F, Word f) :
    collapse ([0x09].intercalate F) = [0x20].intercalate F := by
  rw [collapse, fields_intercalate (by decide) (by decide) h]

end Steps

/-! ## Secrets that come back -/

/-- How a secret comes back. It has a space and stands on a line of words, between which other
white space stood before. Or it stands on a line that was cut, and is new there: it has a
space, or it needs the dots or a replacement rune that was an invalid byte. -/
inductive Leaks (secret : Bytes) : Prop where
  | joined (space : 0x20 ∈ secret) (F : List Bytes) (words : ∀ f ∈ F, Word f)
      (short : (runes ([0x20].intercalate F)).length ≤ maxReasonRunes)
      (shows : secret <:+: [0x20].intercalate F)
  | cut (rs : List Nat) (front : LineFront rs) (short : rs.length ≤ maxReasonRunes)
      (shows : secret <:+: encodeRunes rs ++ ascii "...")
      (made : 0x20 ∈ secret ∨ ¬ secret <:+: rawText rs)

section Leaking

variable {secret reason : Bytes} {secrets : List Bytes}

/-- A secret that stands in a stored reason leaks. -/
theorem Redactable.leaks_of_infix (h : Redactable secret) (hmem : secret ∈ secrets)
    (hin : secret <:+: sanitize secrets reason) : Leaks secret := by
  have hfree := h.not_infix_redact hmem reason
  have hwords : ∀ f ∈ fields (redact secrets reason), Word f := fun f hf =>
    (word_of_mem_fields hf).1
  rw [sanitize_eq, shorten] at hin
  split_ifs at hin with hlong
  · have hfront := lineFront_take hwords maxReasonRunes
    refine .cut _ hfront (List.length_take_le _ _) hin ?_
    by_cases hspace : 0x20 ∈ secret
    · exact Or.inl hspace
    · refine Or.inr fun hraw => hfree (infix_of_infix_collapse h.nonempty hspace ?_)
      refine infix_of_infix_rawText (fun hbyte => ?_) hraw
      rcases List.mem_append.mp (hin.subset hbyte) with hencoded | hdots
      · exact not_mem_encodeRunes hfront.scalar hencoded
      · exact absurd hdots (by decide)
  · by_cases hspace : 0x20 ∈ secret
    · exact .joined hspace _ hwords (Nat.not_lt.mp hlong) hin
    · exact absurd (infix_of_infix_collapse h.nonempty hspace hin) hfree

theorem not_mem_tabs {F : List Bytes} (h : ∀ f ∈ F, Word f) : 0x20 ∉ [0x09].intercalate F := by
  intro hmem
  rcases mem_intercalate hmem with heq | ⟨f, hf, hmem⟩
  · exact absurd heq (by decide)
  · exact (h f hf).not_mem (by decide) (by decide) hmem

/-- A secret that is made by the cut comes back from a reason with tabs and invalid bytes. -/
theorem Redactable.exists_cut (h : Redactable secret) {rs : List Nat} (hfront : LineFront rs)
    (hshort : rs.length ≤ maxReasonRunes) (hshows : secret <:+: encodeRunes rs ++ ascii "...")
    (hmade : 0x20 ∈ secret ∨ ¬ secret <:+: rawText rs) :
    ∃ reason, ¬ secret <:+: reason ∧ secret <:+: shorten (collapse reason) := by
  -- opening brackets fill the line up to the cut, and one more makes it too long
  obtain ⟨G, hG, hline⟩ := hfront.pad (r := 0x5B) (by decide) (by decide)
    (maxReasonRunes - rs.length)
  have hwords : ∀ f ∈ G.map rawText, Word f := fun f hf => by
    obtain ⟨g, hg, rfl⟩ := List.mem_map.mp hf
    exact (hG g hg).word_rawText
  have hraw : [0x20].intercalate (G.map rawText) =
      rawText (List.replicate (maxReasonRunes - rs.length) 0x5B ++ rs ++ [0x5B]) := by
    rw [hline, rawText_intercalate]
  refine ⟨[0x09].intercalate (G.map rawText), ?_, ?_⟩
  · rcases hmade with hspace | hmade
    · exact fun hin => not_mem_tabs hwords (hin.subset hspace)
    · intro hin
      have htab : 0x09 ∉ secret := fun hmem => by
        rcases List.mem_append.mp (hshows.subset hmem) with hencoded | hdots
        · have hrune := mem_of_mem_encodeRunes (by decide) hfront.scalar hencoded
          exact absurd (hfront.eq_of_isSpace hrune (by decide)) (by decide)
        · exact absurd hdots (by decide)
      obtain ⟨f, hf, hin⟩ := exists_infix_of_infix_intercalate htab h.nonempty hin
      have hpadded : secret <:+: [0x20].intercalate (G.map rawText) :=
        hin.trans (infix_intercalate_of_mem hf)
      rw [hraw] at hpadded
      exact hmade (infix_of_infix_rawText_pad (c := 0x5B) (by decide) h.opening h.nonempty hpadded)
  · have hscalar : ∀ r ∈ List.replicate (maxReasonRunes - rs.length) 0x5B ++ rs ++ [0x5B],
        IsScalar r := by
      rw [hline]
      exact LineFront.scalar ⟨G, hG, List.prefix_rfl⟩
    have hlength : (List.replicate (maxReasonRunes - rs.length) 0x5B ++ rs).length =
        maxReasonRunes := by
      rw [List.length_append, List.length_replicate]
      omega
    rw [collapse_tabs hwords, hraw, shorten, runes_rawText hscalar, List.length_append, hlength,
      if_pos (by simp), List.take_left' hlength, encodeRunes, List.flatMap_append,
      List.append_assoc]
    exact hshows.trans (List.suffix_append _ _).isInfix

/-- A secret that leaks comes back from a reason in which it does not stand. -/
theorem Redactable.exists_reason (h : Redactable secret) (hleaks : Leaks secret) :
    ∃ reason, secret <:+: sanitize [secret] reason := by
  have hfound : ∃ reason, ¬ secret <:+: reason ∧ secret <:+: shorten (collapse reason) := by
    cases hleaks with
    | joined hspace F hwords hshort hshows =>
        refine ⟨[0x09].intercalate F, fun hin => not_mem_tabs hwords (hin.subset hspace), ?_⟩
        rw [collapse_tabs hwords, shorten, if_neg (Nat.not_lt.mpr hshort)]
        exact hshows
    | cut rs hfront hshort hshows hmade => exact h.exists_cut hfront hshort hshows hmade
  obtain ⟨reason, hfree, hin⟩ := hfound
  refine ⟨reason, ?_⟩
  rw [sanitize_eq, redact_eq_self hfree]
  exact hin

/-- An ASCII secret without spaces that does not end in a dot does not leak. -/
theorem Redactable.not_leaks (h : Redactable secret)
    (hascii : secret.all (fun b => b.toNat < 0x80) = true) (hspace : 0x20 ∉ secret)
    (hdot : secret.getLast? ≠ some 0x2E) : ¬ Leaks secret := by
  have hbytes : ∀ b ∈ secret, b.toNat < 0x80 := fun b hb =>
    of_decide_eq_true (List.all_eq_true.mp hascii b hb)
  rintro (⟨hin, -⟩ | ⟨rs, hfront, -, hshows, hmade⟩)
  · exact hspace hin
  · have hraw := hmade.resolve_left hspace
    rcases List.infix_append_iff.mp hshows with hin | hin | ⟨front, dots, rfl, hfront, hdots⟩
    · exact hraw (infix_rawText_of_ascii hbytes hin)
    · exact h.dots hin
    · cases dots using List.reverseRecOn with
      | nil =>
          rw [List.append_nil] at hraw hbytes
          exact hraw (infix_rawText_of_ascii hbytes hfront.isInfix)
      | append_singleton dots last _ =>
          have hlast : last = 0x2E := by
            have hmem := hdots.subset (List.mem_append_right dots List.mem_cons_self)
            simpa [ascii] using hmem
          rw [← List.append_assoc, List.getLast?_concat, hlast] at hdot
          exact hdot rfl

end Leaking

/-! ## What the tracker shows -/

section Shown

variable {tracker : Hy2StatusTracker} {reading : Reading} {event : Event} {text : Bytes}

/-- The reason that is stored, and those that were logged. -/
def Hy2StatusTracker.shown (tracker : Hy2StatusTracker) : List Bytes :=
  tracker.snapshot.lastErrorReason :: tracker.logged.map Prod.snd

theorem secrets_log (tracker : Hy2StatusTracker) (now : Int) (stage : Stage) (reason : Bytes) :
    (tracker.log now stage reason).secrets = tracker.secrets := by
  simp only [Hy2StatusTracker.log]
  split_ifs <;> rfl

theorem mem_logged_log {now : Int} {stage : Stage} {reason : Bytes} {line : Stage × Bytes}
    (h : line ∈ (tracker.log now stage reason).logged) :
    line ∈ tracker.logged ∨ line = (stage, reason) := by
  simp only [Hy2StatusTracker.log] at h
  split_ifs at h
  · simpa using h
  · exact Or.inl h

theorem emit_cases (tracker : Hy2StatusTracker) (reading : Reading) (event : Event) :
    tracker.emit reading event = tracker ∨
      tracker.emit reading event = tracker.succeed reading event.sequence ∨
      tracker.emit reading event = tracker.fail reading event := by
  by_cases hother : event.stage = .other
  · exact Or.inl (by simp only [Hy2StatusTracker.emit, hother])
  · have hstep : EmitStep tracker reading event (tracker.emit reading event) := by
      refine emit_step ?_
      revert hother
      cases event.stage <;> simp [Stage.isFailure]
    generalize tracker.emit reading event = after at hstep
    cases hstep with
    | ignored => exact Or.inl rfl
    | succeeded => exact Or.inr (Or.inl rfl)
    | failed => exact Or.inr (Or.inr rfl)

theorem secrets_emit (tracker : Hy2StatusTracker) (reading : Reading) (event : Event) :
    (tracker.emit reading event).secrets = tracker.secrets := by
  rcases emit_cases tracker reading event with heq | heq | heq
  · rw [heq]
  · rw [heq]
    rfl
  · rw [heq]
    exact secrets_log ..

theorem lastErrorReason_fail (tracker : Hy2StatusTracker) (reading : Reading) (event : Event) :
    (tracker.fail reading event).snapshot.lastErrorReason =
      sanitize tracker.secrets event.reason := by
  simp only [Hy2StatusTracker.fail]

/-- The last failure that is accepted after this number: no event before it has a greater
one. -/
def lastFailure (number : Nat) : List Event → Option Event
  | [] => none
  | event :: rest =>
      if event.stage = .other ∨ event.sequence < number then lastFailure number rest
      else (lastFailure event.sequence rest).or (if event.stage.isFailure then some event else none)

/-- Its reason without secrets, on one line, and cut. -/
def lastReason (secrets : List Bytes) (events : List Event) : Bytes :=
  ((lastFailure 0 events).map fun event => sanitize secrets event.reason).getD []

theorem lastErrorReason_foldl (tracker : Hy2StatusTracker) (clock : Nat → Reading)
    (events : List Event) (k : Nat) :
    ((events.zipIdx k).foldl (fun tracker event => tracker.emit (clock event.2) event.1)
      tracker).snapshot.lastErrorReason =
      ((lastFailure tracker.sequence events).map fun event =>
        sanitize tracker.secrets event.reason).getD tracker.snapshot.lastErrorReason := by
  induction events generalizing tracker k with
  | nil => rfl
  | cons event rest ih =>
      rw [List.zipIdx_cons, List.foldl_cons, ih]
      by_cases hskip : event.stage = .other ∨ event.sequence < tracker.sequence
      · have hsame : tracker.emit (clock k) event = tracker := by
          rcases hskip with hother | hold
          · simp only [Hy2StatusTracker.emit, hother]
          · exact Hy2StatusTracker.emit_of_lt hold
        rw [hsame, lastFailure, if_pos hskip]
      · obtain ⟨hother, hnew⟩ := not_or.mp hskip
        have hstep : EmitStep tracker (clock k) event (tracker.emit (clock k) event) := by
          refine emit_step ?_
          revert hother
          cases event.stage <;> simp [Stage.isFailure]
        rw [lastFailure, if_neg hskip]
        generalize tracker.emit (clock k) event = after at hstep
        cases hstep with
        | ignored older => exact absurd older hnew
        | succeeded stage =>
            rw [if_neg (by simp [stage, Stage.isFailure]), Option.or_none]
            rfl
        | failed stage =>
            have hsecrets : (tracker.fail (clock k) event).secrets = tracker.secrets :=
              secrets_log ..
            rw [hsecrets, lastErrorReason_fail, if_pos stage]
            change ((lastFailure event.sequence rest).map _).getD _ = _
            cases lastFailure event.sequence rest <;> rfl

theorem lastErrorReason_emitAll (secrets : List Bytes) (logging : Bool) (clock : Nat → Reading)
    (events : List Event) :
    ((newHY2StatusTracker secrets logging).emitAll clock events).snapshot.lastErrorReason =
      lastReason secrets events :=
  lastErrorReason_foldl (newHY2StatusTracker secrets logging) clock events 0

theorem logged_fail (tracker : Hy2StatusTracker) (reading : Reading) (event : Event) :
    (tracker.fail reading event).logged =
      (tracker.log reading.now event.stage (sanitize tracker.secrets event.reason)).logged := by
  simp only [Hy2StatusTracker.fail]

theorem mem_shown_fail (h : text ∈ (tracker.fail reading event).shown) :
    text ∈ tracker.shown ∨ text = sanitize tracker.secrets event.reason := by
  rw [Hy2StatusTracker.shown, lastErrorReason_fail, logged_fail] at h
  rcases List.mem_cons.mp h with hstored | hlogged
  · exact Or.inr hstored
  · obtain ⟨line, hline, rfl⟩ := List.mem_map.mp hlogged
    rcases mem_logged_log hline with hbefore | hnew
    · exact Or.inl (List.mem_cons_of_mem _ (List.mem_map_of_mem hbefore))
    · exact Or.inr (by rw [hnew])

/-- An event adds no text but its own reason, sanitized. -/
theorem mem_shown_emit (h : text ∈ (tracker.emit reading event).shown) :
    text ∈ tracker.shown ∨ text = sanitize tracker.secrets event.reason := by
  rcases emit_cases tracker reading event with heq | heq | heq
  · exact Or.inl (heq ▸ h)
  · rw [heq] at h
    exact Or.inl h
  · rw [heq] at h
    exact mem_shown_fail h

theorem secrets_emitAll (tracker : Hy2StatusTracker) (clock : Nat → Reading)
    (events : List Event) : (tracker.emitAll clock events).secrets = tracker.secrets := by
  induction events using List.reverseRecOn with
  | nil => rfl
  | append_singleton events event ih => rw [Hy2StatusTracker.emitAll_concat, secrets_emit, ih]

/-- What is shown after a run is empty or the reason of one of its events, sanitized. -/
theorem mem_shown_emitAll {secrets : List Bytes} {logging : Bool} {clock : Nat → Reading}
    {events : List Event}
    (h : text ∈ ((newHY2StatusTracker secrets logging).emitAll clock events).shown) :
    text = [] ∨ ∃ event ∈ events, text = sanitize secrets event.reason := by
  induction events using List.reverseRecOn with
  | nil => exact Or.inl (List.mem_singleton.mp h)
  | append_singleton events event ih =>
      rw [Hy2StatusTracker.emitAll_concat] at h
      rcases mem_shown_emit h with hbefore | hnew
      · refine (ih hbefore).imp_right ?_
        rintro ⟨earlier, hmem, htext⟩
        exact ⟨earlier, List.mem_append_left _ hmem, htext⟩
      · rw [secrets_emitAll] at hnew
        exact Or.inr ⟨event, List.mem_append_right _ List.mem_cons_self, hnew⟩

end Shown

/-- A configured secret stays out of the status and the log, whatever else is configured
and whatever happens, exactly when it does not leak. -/
theorem secret_never_shown_iff {secret : Bytes} (h : Redactable secret) :
    (∀ secrets, secret ∈ secrets →
      ∀ (logging : Bool) (clock : Nat → Reading) (events : List Event),
        let tracker := (newHY2StatusTracker secrets logging).emitAll clock events
        ¬ secret <:+: tracker.snapshot.lastErrorReason ∧
          ∀ line ∈ tracker.logged, ¬ secret <:+: line.2) ↔ ¬ Leaks secret := by
  constructor
  · intro hnever hleaks
    obtain ⟨reason, hin⟩ := h.exists_reason hleaks
    let start := newHY2StatusTracker [secret] false
    let reading : Reading := ⟨0, .none⟩
    have hrun : start.emitAll (fun _ => reading) [⟨.tcp, reason, 0⟩] =
        start.fail reading ⟨.tcp, reason, 0⟩ := rfl
    refine (hnever [secret] List.mem_cons_self false (fun _ => reading) [⟨.tcp, reason, 0⟩]).1 ?_
    rw [hrun, lastErrorReason_fail]
    exact hin
  · intro hleaks secrets hmem logging clock events tracker
    have hshown : ∀ text ∈ tracker.shown, ¬ secret <:+: text := by
      intro text htext hin
      rcases mem_shown_emitAll htext with rfl | ⟨event, -, rfl⟩
      · exact h.nonempty (List.infix_nil.mp hin)
      · exact hleaks (h.leaks_of_infix hmem hin)
    refine ⟨hshown _ List.mem_cons_self, fun line hline => hshown _ ?_⟩
    exact List.mem_cons_of_mem _ (List.mem_map_of_mem hline)

/-- A secret of the tracker's test is never shown, with any others and in any run. -/
theorem relay_secret_never_shown :
    Redactable (ascii "relay-secret") ∧
      ∀ secrets, ascii "relay-secret" ∈ secrets →
        ∀ (logging : Bool) (clock : Nat → Reading) (events : List Event),
          let tracker := (newHY2StatusTracker secrets logging).emitAll clock events
          ¬ ascii "relay-secret" <:+: tracker.snapshot.lastErrorReason ∧
            ∀ line ∈ tracker.logged, ¬ ascii "relay-secret" <:+: line.2 := by
  have h : Redactable (ascii "relay-secret") :=
    ⟨by decide, by decide, by decide, by decide, by decide⟩
  exact ⟨h, (secret_never_shown_iff h).mpr (h.not_leaks (by decide) (by decide) (by decide))⟩

/-- The white space is collapsed after the secrets were replaced: a secret with a space is
stored and logged when a tab stood in its place. -/
theorem secret_with_space_shown :
    let secret := ascii "a b"
    let tracker := (newHY2StatusTracker [secret] true).emitAll (fun _ => ⟨0, .none⟩)
      [⟨.tcp, ascii "a\tb", 1⟩]
    Redactable secret ∧ tracker.snapshot.lastErrorReason = secret ∧
      tracker.logged = [(.tcp, secret)] :=
  ⟨⟨by decide, by decide, by decide, by decide, by decide⟩, by rfl, by rfl⟩

end Hy2Route.HY2
