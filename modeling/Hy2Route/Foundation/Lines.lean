import Hy2Route.Foundation.Utf8
import Mathlib.Data.List.Infix

/-!
# Replaced texts, words and lines

Three steps that turn a text into one line of bounded length: texts are replaced, white
space is collapsed, and the line is cut after a number of runes.

A replacement leaves no occurrence of the replaced text, and no other text arises that
keeps clear of its first and last byte. White space separates words, and words are the
fields of the line they are joined to. A cut line is decoded and encoded again, so it may
differ from the line it was cut from where that had invalid bytes, and only there.
-/

namespace Hy2Route.Foundation

/-! ## Parts of a text -/

section Parts

variable {α β : Type*} {s : List α} {sep : α}

/-- A part without the separator stands on one side of it. -/
theorem infix_of_infix_append_cons {a b : List α} (hsep : sep ∉ s)
    (h : s <:+: a ++ sep :: b) : s <:+: a ∨ s <:+: b := by
  rcases List.infix_append_iff.mp h with ha | hb | ⟨x, y, rfl, hx, hy⟩
  · exact Or.inl ha
  · rcases List.infix_cons_iff.mp hb with hfront | hb
    · rcases List.prefix_cons_iff.mp hfront with rfl | ⟨more, rfl, -⟩
      · exact Or.inl List.nil_infix
      · exact absurd List.mem_cons_self hsep
    · exact Or.inr hb
  · -- a part over the separator has it
    rcases List.prefix_cons_iff.mp hy with rfl | ⟨more, rfl, -⟩
    · rw [List.append_nil]
      exact Or.inl hx.isInfix
    · exact absurd (List.mem_append_right x List.mem_cons_self) hsep

/-- A part without the separator stands in one of the texts it joins. -/
theorem exists_infix_of_infix_intercalate (hsep : sep ∉ s) (hne : s ≠ [])
    {parts : List (List α)} (h : s <:+: [sep].intercalate parts) :
    ∃ part ∈ parts, s <:+: part := by
  induction parts with
  | nil => exact absurd (List.infix_nil.mp h) hne
  | cons part rest ih =>
      cases rest with
      | nil => exact ⟨part, List.mem_cons_self, by simpa using h⟩
      | cons next rest =>
          rw [List.intercalate_cons_cons, List.append_assoc, List.singleton_append] at h
          rcases infix_of_infix_append_cons hsep h with hpart | hrest
          · exact ⟨part, List.mem_cons_self, hpart⟩
          · obtain ⟨found, hmem, hfound⟩ := ih hrest
            exact ⟨found, List.mem_cons_of_mem _ hmem, hfound⟩

theorem mem_intercalate {x : α} {parts : List (List α)} (h : x ∈ [sep].intercalate parts) :
    x = sep ∨ ∃ part ∈ parts, x ∈ part := by
  induction parts with
  | nil => exact absurd h List.not_mem_nil
  | cons part rest ih =>
      cases rest with
      | nil => exact Or.inr ⟨part, List.mem_cons_self, by simpa using h⟩
      | cons next rest =>
          rw [List.intercalate_cons_cons, List.append_assoc, List.singleton_append] at h
          rcases List.mem_append.mp h with hpart | hrest
          · exact Or.inr ⟨part, List.mem_cons_self, hpart⟩
          · rcases List.mem_cons.mp hrest with rfl | hrest
            · exact Or.inl rfl
            · refine (ih hrest).imp_right ?_
              rintro ⟨found, hmem, hx⟩
              exact ⟨found, List.mem_cons_of_mem _ hmem, hx⟩

theorem infix_intercalate_of_mem {part : List α} {parts : List (List α)} (h : part ∈ parts) :
    part <:+: [sep].intercalate parts := by
  induction parts with
  | nil => exact absurd h List.not_mem_nil
  | cons first rest ih =>
      cases rest with
      | nil =>
          obtain rfl := List.mem_singleton.mp h
          simp
      | cons next rest =>
          rw [List.intercalate_cons_cons]
          rcases List.mem_cons.mp h with rfl | hrest
          · exact ((List.prefix_append _ _).trans (List.prefix_append _ _)).isInfix
          · exact (ih hrest).trans (List.suffix_append _ _).isInfix

theorem delimited_infix_intercalate (first word next : List α) (a b : List (List α)) :
    sep :: (word ++ [sep]) <:+: [sep].intercalate (first :: (a ++ word :: next :: b)) := by
  induction a generalizing first with
  | nil =>
      refine ⟨first, [sep].intercalate (next :: b), ?_⟩
      rw [List.nil_append, List.intercalate_cons_cons, List.intercalate_cons_cons]
      simp
  | cons second a ih =>
      rw [List.cons_append, List.intercalate_cons_cons]
      exact (ih second).trans (List.suffix_append _ _).isInfix

/-- A word stands between two separators exactly when it is a part of the text that is
neither the first nor the last. -/
theorem delimited_infix_iff [BEq α] [LawfulBEq α] {word : List α} (hsep : sep ∉ word) :
    sep :: (word ++ [sep]) <:+: s ↔ word ∈ (s.splitOn sep).tail.dropLast := by
  constructor
  · rintro ⟨before, after, rfl⟩
    have hsplit : (before ++ sep :: (word ++ [sep]) ++ after).splitOn sep =
        before.splitOn sep ++ word :: after.splitOn sep := by
      rw [List.append_assoc, List.cons_append, List.splitOn_append_cons_self, List.append_assoc,
        List.singleton_append, List.splitOn_append_cons_self_of_not_mem hsep]
    obtain ⟨head, tail, hbefore⟩ := List.exists_cons_of_ne_nil (List.splitOn_ne_nil sep before)
    rw [hsplit, hbefore, List.cons_append, List.tail_cons, List.dropLast_append_of_ne_nil (by simp),
      List.dropLast_cons_of_ne_nil (List.splitOn_ne_nil sep after)]
    exact List.mem_append_right tail List.mem_cons_self
  · intro hmem
    obtain ⟨head, tail, hsplit⟩ := List.exists_cons_of_ne_nil (List.splitOn_ne_nil sep s)
    rw [hsplit, List.tail_cons] at hmem
    have hne : tail ≠ [] := by
      rintro rfl
      exact absurd hmem List.not_mem_nil
    obtain ⟨a, c, hfront⟩ := List.append_of_mem hmem
    have htail : tail = a ++ word :: (c ++ [tail.getLast hne]) := by
      rw [← List.cons_append, ← List.append_assoc, ← hfront, List.dropLast_append_getLast]
    obtain ⟨next, b, hnext⟩ : ∃ next b, c ++ [tail.getLast hne] = next :: b :=
      List.exists_cons_of_ne_nil (List.append_ne_nil_of_right_ne_nil c (List.cons_ne_nil _ _))
    have hjoin : [sep].intercalate (s.splitOn sep) = s := List.intercalate_splitOn sep
    rw [← hjoin, hsplit, htail, hnext]
    exact delimited_infix_intercalate head word next a b

theorem flatMap_intercalate (f : α → List β) (parts : List (List α)) :
    ([sep].intercalate parts).flatMap f =
      (f sep).intercalate (parts.map fun part => part.flatMap f) := by
  induction parts with
  | nil => rfl
  | cons part rest ih =>
      cases rest with
      | nil => simp
      | cons next rest =>
          rw [List.map_cons] at ih ⊢
          rw [List.map_cons, List.intercalate_cons_cons, List.intercalate_cons_cons,
            List.flatMap_append, List.flatMap_append, List.flatMap_singleton, ih]

theorem prefix_append_cases {a b : List α} (h : s <+: a ++ b) :
    s <+: a ∨ ∃ t, s = a ++ t ∧ t <+: b := by
  rcases List.prefix_or_prefix_of_prefix h (List.prefix_append a b) with hs | ⟨t, rfl⟩
  · exact Or.inl hs
  · exact Or.inr ⟨t, rfl, (List.prefix_append_right_inj a).mp h⟩

variable {f g : β → List α} {xs : List β}

/-- Things are written in two ways. A text in front of the one, which keeps clear of what
is written differently, stands in front of the other. -/
theorem prefix_flatMap_of_clear (hclear : ∀ x ∈ xs, f x = g x ∨ f x ≠ [] ∧ ∀ a ∈ f x, a ∉ s)
    (h : s <+: xs.flatMap f) : s <+: xs.flatMap g := by
  induction xs generalizing s with
  | nil => exact h
  | cons x xs ih =>
      obtain ⟨hx, hxs⟩ := List.forall_mem_cons.mp hclear
      rw [List.flatMap_cons] at h ⊢
      rcases hx with heq | ⟨hne, hx⟩
      · rw [← heq]
        rcases prefix_append_cases h with hfront | ⟨t, rfl, ht⟩
        · exact hfront.trans (List.prefix_append _ _)
        · refine (List.prefix_append_right_inj _).mpr (ih (fun y hy => ?_) ht)
          exact (hxs y hy).imp_right fun ⟨hne, hy⟩ =>
            ⟨hne, fun a ha hmem => hy a ha (List.mem_append_right _ hmem)⟩
      · obtain ⟨b, more, hmore⟩ := List.exists_cons_of_ne_nil hne
        rw [hmore, List.cons_append] at h
        rcases List.prefix_cons_iff.mp h with rfl | ⟨t, rfl, -⟩
        · exact List.nil_prefix
        · exact absurd List.mem_cons_self (hx b (hmore ▸ List.mem_cons_self))

/-- The same for a text that stands anywhere. -/
theorem infix_flatMap_of_clear (hclear : ∀ x ∈ xs, f x = g x ∨ f x ≠ [] ∧ ∀ a ∈ f x, a ∉ s)
    (h : s <:+: xs.flatMap f) : s <:+: xs.flatMap g := by
  induction xs with
  | nil => exact h
  | cons x xs ih =>
      obtain ⟨hx, hxs⟩ := List.forall_mem_cons.mp hclear
      rw [List.flatMap_cons] at h ⊢
      have hlater : ∀ {t}, t <:+: xs.flatMap g → t <:+: g x ++ xs.flatMap g := fun ht =>
        ht.trans (List.suffix_append _ _).isInfix
      rcases List.infix_append_iff.mp h with hin | hin | ⟨t, u, rfl, ht, hu⟩
      · rcases hx with heq | ⟨-, hx⟩
        · exact (heq ▸ hin).trans (List.prefix_append _ _).isInfix
        · cases s with
          | nil => exact List.nil_infix
          | cons a s => exact absurd List.mem_cons_self (hx a (hin.subset List.mem_cons_self))
      · exact hlater (ih hxs hin)
      · have hu' : u <+: xs.flatMap g := prefix_flatMap_of_clear (fun y hy => (hxs y hy).imp_right
          fun ⟨hne, hy⟩ => ⟨hne, fun a ha hmem => hy a ha (List.mem_append_right _ hmem)⟩) hu
        rcases hx with heq | ⟨-, hx⟩
        · exact List.infix_append_iff.mpr (Or.inr (Or.inr ⟨t, u, rfl, heq ▸ ht, hu'⟩))
        · cases t with
          | nil => exact hlater hu'.isInfix
          | cons a t =>
              exact absurd (List.mem_append_left u List.mem_cons_self)
                (hx a (ht.subset List.mem_cons_self))

/-- A part between separators is a part of the list without separators. -/
theorem mem_splitOnP {p : β → Bool} {part : List β} (h : part ∈ xs.splitOnP p) :
    part <:+: xs ∧ ∀ x ∈ part, p x = false := by
  -- the first part stands in front, which the induction needs
  suffices hall : ∀ first rest, xs.splitOnP p = first :: rest →
      (first <+: xs ∧ ∀ x ∈ first, p x = false) ∧
        ∀ part ∈ rest, part <:+: xs ∧ ∀ x ∈ part, p x = false by
    obtain ⟨first, rest, hsplit⟩ := List.exists_cons_of_ne_nil (List.splitOnP_ne_nil p xs)
    obtain ⟨⟨hfront, hfirst⟩, hrest⟩ := hall first rest hsplit
    rw [hsplit] at h
    rcases List.mem_cons.mp h with rfl | hpart
    · exact ⟨hfront.isInfix, hfirst⟩
    · exact hrest part hpart
  clear h
  induction xs with
  | nil =>
      intro first rest hsplit
      obtain ⟨rfl, rfl⟩ := List.cons.inj hsplit
      exact ⟨⟨List.nil_prefix, fun _ hx => absurd hx List.not_mem_nil⟩,
        fun _ hpart => absurd hpart List.not_mem_nil⟩
  | cons x xs ih =>
      intro first rest hsplit
      obtain ⟨head, tail, hxs⟩ := List.exists_cons_of_ne_nil (List.splitOnP_ne_nil p xs)
      obtain ⟨⟨hfront, hhead⟩, htail⟩ := ih head tail hxs
      have hlater : ∀ {part}, part <:+: xs → part <:+: x :: xs := fun hpart =>
        hpart.trans (List.suffix_cons x xs).isInfix
      rw [List.splitOnP_cons_eq_if_modifyHead, hxs] at hsplit
      split_ifs at hsplit with hx
      · obtain ⟨rfl, rfl⟩ := List.cons.inj hsplit
        refine ⟨⟨List.nil_prefix, fun _ hx => absurd hx List.not_mem_nil⟩, ?_⟩
        exact List.forall_mem_cons.mpr ⟨⟨hlater hfront.isInfix, hhead⟩,
          fun part hpart => (htail part hpart).imp_left hlater⟩
      · obtain ⟨rfl, rfl⟩ := List.cons.inj hsplit
        refine ⟨⟨List.cons_prefix_cons.mpr ⟨rfl, hfront⟩, ?_⟩,
          fun part hpart => (htail part hpart).imp_left hlater⟩
        exact List.forall_mem_cons.mpr ⟨Bool.not_eq_true _ ▸ hx, hhead⟩

end Parts

/-! ## Replacement -/

section Replace

variable {old new s t front more : Bytes} {first last : UInt8}

theorem replaceFrom_eq_drop (old new : Bytes) (skip : Nat) (t : Bytes) :
    replaceFrom old new skip t = replaceAll (t.drop skip) old new := by
  induction t generalizing skip with
  | nil => simp [replaceAll, replaceFrom]
  | cons b rest ih =>
      cases skip with
      | zero => rfl
      | succ skip => exact ih skip

theorem replaceAll_found {b : UInt8} {rest : Bytes} (h : old <+: b :: rest) :
    replaceAll (b :: rest) old new = new ++ replaceAll (rest.drop (old.length - 1)) old new := by
  rw [← replaceFrom_eq_drop, replaceAll, replaceFrom, if_pos (List.isPrefixOf_iff_prefix.mpr h)]

theorem replaceAll_other {b : UInt8} {rest : Bytes} (h : ¬ old <+: b :: rest) :
    replaceAll (b :: rest) old new = b :: replaceAll rest old new := by
  have hfalse : ¬ old.isPrefixOf (b :: rest) = true := fun htrue =>
    h (List.isPrefixOf_iff_prefix.mp htrue)
  rw [replaceAll, replaceFrom, if_neg hfalse]
  rfl

/-- A replacement goes through the text: the old text stands in front, or one byte stays. -/
theorem replace_induction (old : Bytes) {P : Bytes → Prop} (nil : P [])
    (found : ∀ b rest, old <+: b :: rest → P (rest.drop (old.length - 1)) → P (b :: rest))
    (other : ∀ b rest, ¬ old <+: b :: rest → P rest → P (b :: rest)) (t : Bytes) : P t := by
  induction hlen : t.length using Nat.strongRecOn generalizing t with
  | _ n ih =>
      cases t with
      | nil => exact nil
      | cons b rest =>
          rw [List.length_cons] at hlen
          by_cases hold : old <+: b :: rest
          · refine found b rest hold (ih _ ?_ _ rfl)
            rw [List.length_drop]
            omega
          · exact other b rest hold (ih rest.length (by omega) rest rfl)

/-- A text that stands nowhere is not replaced. -/
theorem replaceAll_eq_self (h : ¬ old <:+: t) : replaceAll t old new = t := by
  induction t with
  | nil => rfl
  | cons b rest ih =>
      rw [List.infix_cons_iff, not_or] at h
      rw [replaceAll_other h.1, ih h.2]

/-- What stands in front of the result, without the first byte of the new text, stood
in front before. -/
theorem prefix_of_prefix_replaceAll (hnew : new = first :: more) (hfirst : first ∉ s)
    (h : s <+: replaceAll t old new) : s <+: t := by
  induction t generalizing s with
  | nil => exact h
  | cons b rest ih =>
      by_cases hold : old <+: b :: rest
      · rw [replaceAll_found hold, hnew, List.cons_append] at h
        rcases List.prefix_cons_iff.mp h with rfl | ⟨u, rfl, -⟩
        · exact List.nil_prefix
        · exact absurd List.mem_cons_self hfirst
      · rw [replaceAll_other hold] at h
        rcases List.prefix_cons_iff.mp h with rfl | ⟨u, rfl, hu⟩
        · exact List.nil_prefix
        · exact List.cons_prefix_cons.mpr
            ⟨rfl, ih (fun hmem => hfirst (List.mem_cons_of_mem _ hmem)) hu⟩

/-- What keeps clear of the end of the new text stands in it or after it. -/
theorem infix_of_infix_new_append (hend : new = front ++ [last]) (hlast : last ∉ s)
    (h : s <:+: new ++ t) : s <:+: new ∨ s <:+: t := by
  rw [hend, List.append_assoc, List.singleton_append] at h
  refine (infix_of_infix_append_cons hlast h).imp_left fun hin => ?_
  exact hend ▸ hin.trans (List.prefix_append _ _).isInfix

/-- A part of the result that keeps clear of both ends of the new text stands in the new text
or stood there before. -/
theorem infix_of_infix_replaceAll (hnew : new = first :: more) (hend : new = front ++ [last])
    (hfirst : first ∉ s) (hlast : last ∉ s) (h : s <:+: replaceAll t old new) :
    s <:+: new ∨ s <:+: t := by
  induction t using replace_induction old with
  | nil => exact Or.inr h
  | found b rest hold ih =>
      rw [replaceAll_found hold] at h
      rcases infix_of_infix_new_append hend hlast h with hin | hrest
      · exact Or.inl hin
      · refine (ih hrest).imp_right fun hbefore => ?_
        exact (hbefore.trans (List.drop_suffix _ _).isInfix).trans (List.suffix_cons b rest).isInfix
  | other b rest hold ih =>
      rw [replaceAll_other hold] at h
      rcases List.infix_cons_iff.mp h with hfront | hrest
      · rw [← replaceAll_other hold] at hfront
        exact Or.inr (prefix_of_prefix_replaceAll hnew hfirst hfront).isInfix
      · exact (ih hrest).imp_right fun hbefore => hbefore.trans (List.suffix_cons b rest).isInfix

/-- The old text does not stand in the result. -/
theorem not_infix_replaceAll (hnew : new = first :: more) (hend : new = front ++ [last])
    (hfirst : first ∉ old) (hlast : last ∉ old) (hnot : ¬ old <:+: new) (t : Bytes) :
    ¬ old <:+: replaceAll t old new := by
  induction t using replace_induction old with
  | nil =>
      intro h
      exact hnot (List.infix_nil.mp h ▸ List.nil_infix)
  | found b rest hold ih =>
      rw [replaceAll_found hold]
      exact fun h => (infix_of_infix_new_append hend hlast h).elim hnot ih
  | other b rest hold ih =>
      rw [replaceAll_other hold, List.infix_cons_iff, not_or]
      refine ⟨fun hfront => ?_, ih⟩
      -- what stands in front of the result stood in front of the text, and was replaced
      rw [← replaceAll_other hold] at hfront
      exact hold (prefix_of_prefix_replaceAll hnew hfirst hfront)

end Replace

/-! ## Pieces of a text -/

/-- The runes of a text, each with its bytes. -/
def pieces (s : Bytes) : List (Nat × Bytes) := piecesOf (runeWidths s) s

section Pieces

variable {s rest : Bytes} {b c : UInt8}

theorem pieces_invalid (h : decodeRune (b :: rest) = (runeError, 1)) :
    pieces (b :: rest) = (runeError, [b]) :: pieces rest := by
  rw [pieces, runeWidths_invalid h]
  rfl

theorem pieces_encodeRune {r : Nat} (h : IsScalar r) (rest : Bytes) :
    pieces (encodeRune r ++ rest) = (r, encodeRune r) :: pieces rest := by
  rw [pieces, runeWidths_encodeRune h, piecesOf, List.take_left, List.drop_left]
  rfl

theorem pieces_ascii (h : c.toNat < 0x80) (rest : Bytes) :
    pieces (c :: rest) = (c.toNat, [c]) :: pieces rest := by
  rw [eq_encodeRune h, pieces_encodeRune (isScalar_of_ascii h), encodeRune_one h,
    UInt8.ofNat_toNat]

theorem flatMap_snd_pieces (s : Bytes) : (pieces s).flatMap Prod.snd = s := by
  induction s using text_induction with
  | nil => rfl
  | invalid b rest h ih => rw [pieces_invalid h, List.flatMap_cons, ih, List.singleton_append]
  | valid r rest h ih => rw [pieces_encodeRune h, List.flatMap_cons, ih]

theorem map_fst_pieces (s : Bytes) : (pieces s).map Prod.fst = runes s := by
  induction s using text_induction with
  | nil => rfl
  | invalid b rest h ih => rw [pieces_invalid h, runes_invalid h, List.map_cons, ih]
  | valid r rest h ih => rw [pieces_encodeRune h, runes_encodeRune h, List.map_cons, ih]

/-- A piece is the encoding of its rune, or an invalid byte. -/
theorem eq_or_of_mem_pieces : ∀ p ∈ pieces s, p.2 = encodeRune p.1 ∨ p.1 = runeError := by
  induction s using text_induction with
  | nil => exact fun _ h => absurd h List.not_mem_nil
  | invalid b rest h ih =>
      rw [pieces_invalid h]
      exact List.forall_mem_cons.mpr ⟨Or.inr rfl, ih⟩
  | valid r rest h ih =>
      rw [pieces_encodeRune h]
      exact List.forall_mem_cons.mpr ⟨Or.inl rfl, ih⟩

theorem decodeRune_ne_invalid {r : Nat} (h : IsScalar r) (rest : Bytes) :
    decodeRune (encodeRune r ++ rest) ≠ (runeError, 1) := by
  rw [decodeRune_encodeRune h]
  rintro heq
  obtain ⟨rfl, hone⟩ := Prod.mk.inj heq
  revert hone
  decide

/-- A byte that is invalid stays so when the text ends earlier. -/
theorem decodeRune_invalid_of_append {more : Bytes}
    (h : decodeRune (b :: (rest ++ more)) = (runeError, 1)) :
    decodeRune (b :: rest) = (runeError, 1) := by
  cases decoded b rest with
  | invalid hdecode => exact hdecode
  | valid r tail hscalar htext _ =>
      rw [← List.cons_append, htext, List.append_assoc] at h
      exact absurd h (decodeRune_ne_invalid hscalar _)

/-- A byte that is invalid stays so when an ASCII character follows the text. -/
theorem decodeRune_invalid_append (h : decodeRune (b :: rest) = (runeError, 1))
    (hc : c.toNat < 0x80) (more : Bytes) :
    decodeRune (b :: (rest ++ c :: more)) = (runeError, 1) := by
  cases decoded b (rest ++ c :: more) with
  | invalid hdecode => exact hdecode
  | valid r tail hscalar htext _ =>
      rw [← List.cons_append] at htext
      rcases List.append_eq_append_iff.mp htext with ⟨as, hencode, htail⟩ | ⟨bs, hrest, -⟩
      · cases as with
        | nil =>
            rw [List.append_nil] at hencode
            rw [← hencode, ← List.append_nil (encodeRune r)] at h
            exact absurd h (decodeRune_ne_invalid hscalar _)
        | cons a as =>
            -- the encoding goes over the character, which no encoding of two bytes does
            obtain ⟨rfl, -⟩ := List.cons.inj htail
            have hlow : 0x80 ≤ r := by
              by_contra hone
              rw [encodeRune_one (Nat.not_le.mp hone)] at hencode
              simpa using congrArg List.length hencode
            have hmem : c ∈ encodeRune r := by simp [hencode]
            exact absurd (le_of_mem_encodeRune hscalar hlow c hmem) (Nat.not_le.mpr hc)
      · rw [hrest] at h
        exact absurd h (decodeRune_ne_invalid hscalar _)

/-- An ASCII character is a piece of its own, wherever it stands. -/
theorem pieces_append_ascii (hc : c.toNat < 0x80) (s rest : Bytes) :
    pieces (s ++ c :: rest) = pieces s ++ (c.toNat, [c]) :: pieces rest := by
  induction s using text_induction with
  | nil => exact pieces_ascii hc rest
  | invalid b tail h ih =>
      rw [List.cons_append, pieces_invalid (decodeRune_invalid_append h hc rest), ih,
        pieces_invalid h, List.cons_append]
  | valid r tail h ih =>
      rw [List.append_assoc, pieces_encodeRune h, ih, pieces_encodeRune h, List.cons_append]

theorem runes_append_ascii (hc : c.toNat < 0x80) (s rest : Bytes) :
    runes (s ++ c :: rest) = runes s ++ c.toNat :: runes rest := by
  simp only [← map_fst_pieces, pieces_append_ascii hc, List.map_append, List.map_cons]

theorem mem_runes_of_mem (hc : c.toNat < 0x80) (h : c ∈ s) : c.toNat ∈ runes s := by
  obtain ⟨front, rest, rfl⟩ := List.append_of_mem h
  rw [runes_append_ascii hc]
  exact List.mem_append_right _ List.mem_cons_self

/-- The first pieces of a text are the pieces of the text they make. -/
theorem pieces_of_prefix {part tail : List (Nat × Bytes)} (h : pieces s = part ++ tail) :
    pieces (part.flatMap Prod.snd) = part := by
  induction s using text_induction generalizing part with
  | nil =>
      obtain ⟨rfl, -⟩ := List.append_eq_nil_iff.mp h.symm
      rfl
  | invalid b rest hdecode ih =>
      rw [pieces_invalid hdecode] at h
      rcases List.cons_eq_append_iff.mp h with ⟨rfl, -⟩ | ⟨part, rfl, hrest⟩
      · rfl
      · -- the byte is still invalid when the text ends after the part
        have htext := flatMap_snd_pieces rest
        rw [hrest, List.flatMap_append] at htext
        rw [← htext] at hdecode
        rw [List.flatMap_cons, List.singleton_append,
          pieces_invalid (decodeRune_invalid_of_append hdecode), ih hrest]
  | valid r rest hscalar ih =>
      rw [pieces_encodeRune hscalar] at h
      rcases List.cons_eq_append_iff.mp h with ⟨rfl, -⟩ | ⟨part, rfl, hrest⟩
      · rfl
      · rw [List.flatMap_cons, pieces_encodeRune hscalar, ih hrest]

theorem exists_pieces_of_suffix {front tail : List (Nat × Bytes)} (h : pieces s = front ++ tail) :
    ∃ rest, pieces rest = tail := by
  induction s using text_induction generalizing front with
  | nil =>
      obtain ⟨-, rfl⟩ := List.append_eq_nil_iff.mp h.symm
      exact ⟨[], rfl⟩
  | invalid b rest hdecode ih =>
      rcases List.cons_eq_append_iff.mp (pieces_invalid hdecode ▸ h) with ⟨-, htail⟩ | ⟨_, -, hrest⟩
      · exact ⟨b :: rest, (pieces_invalid hdecode).trans htail.symm⟩
      · exact ih hrest
  | valid r rest hscalar ih =>
      rcases List.cons_eq_append_iff.mp (pieces_encodeRune hscalar rest ▸ h) with
        ⟨-, htail⟩ | ⟨_, -, hrest⟩
      · exact ⟨encodeRune r ++ rest, (pieces_encodeRune hscalar rest).trans htail.symm⟩
      · exact ih hrest

/-- Pieces of a text that stand together are the pieces of the text they make. -/
theorem pieces_of_infix {part : List (Nat × Bytes)} (h : part <:+: pieces s) :
    pieces (part.flatMap Prod.snd) = part := by
  obtain ⟨front, tail, hsplit⟩ := h
  rw [List.append_assoc] at hsplit
  obtain ⟨rest, hrest⟩ := exists_pieces_of_suffix hsplit.symm
  exact pieces_of_prefix hrest

end Pieces

/-! ## Words and lines -/

/-- A part of a text between white space. -/
structure Word (f : Bytes) : Prop where
  nonempty : f ≠ []
  unbroken : ∀ r ∈ runes f, isSpace r = false

section Words

variable {f s rest : Bytes} {F : List Bytes} {c : UInt8}

theorem fields_eq (s : Bytes) : fields s =
    (((pieces s).splitOnP fun piece => isSpace piece.1).map
      fun part => part.flatMap Prod.snd).filter (· ≠ []) := rfl

/-- A field is a word of the text. -/
theorem word_of_mem_fields (h : f ∈ fields s) : Word f ∧ f <:+: s := by
  rw [fields_eq] at h
  obtain ⟨hmem, hne⟩ := List.mem_filter.mp h
  obtain ⟨part, hpart, rfl⟩ := List.mem_map.mp hmem
  obtain ⟨hin, hspace⟩ := mem_splitOnP hpart
  refine ⟨⟨of_decide_eq_true hne, fun r hr => ?_⟩, ?_⟩
  · rw [← map_fst_pieces, pieces_of_infix hin] at hr
    obtain ⟨p, hp, rfl⟩ := List.mem_map.mp hr
    exact hspace p hp
  · have htext := hin.flatMap Prod.snd
    rwa [flatMap_snd_pieces] at htext

theorem fields_append_space (hc : c.toNat < 0x80) (hspace : isSpace c.toNat = true)
    (s rest : Bytes) : fields (s ++ c :: rest) = fields s ++ fields rest := by
  have hsplit := @List.splitOnP_append_cons _ (fun piece : Nat × Bytes => isSpace piece.1)
    (pieces s) (pieces rest) (c.toNat, [c]) hspace
  rw [fields_eq, pieces_append_ascii hc, hsplit, List.map_append, List.filter_append]
  rfl

theorem Word.fields_eq_singleton (h : Word f) : fields f = [f] := by
  have hpieces : ∀ p ∈ pieces f, isSpace p.1 = false := fun p hp => by
    refine h.unbroken p.1 ?_
    rw [← map_fst_pieces]
    exact List.mem_map_of_mem hp
  rw [fields_eq, List.splitOnP_eq_singleton hpieces, List.map_singleton, flatMap_snd_pieces]
  simp [h.nonempty]

/-- Words are the fields of the text they are joined to, whatever ASCII white space joins
them. -/
theorem fields_intercalate (hc : c.toNat < 0x80) (hspace : isSpace c.toNat = true)
    (h : ∀ f ∈ F, Word f) : fields ([c].intercalate F) = F := by
  induction F with
  | nil => rfl
  | cons f F ih =>
      obtain ⟨hf, hF⟩ := List.forall_mem_cons.mp h
      cases F with
      | nil => rw [List.intercalate_singleton, hf.fields_eq_singleton]
      | cons g F =>
          rw [List.intercalate_cons_cons, List.append_assoc, List.singleton_append,
            fields_append_space hc hspace, hf.fields_eq_singleton, ih hF, List.singleton_append]

theorem runes_intercalate (hc : c.toNat < 0x80) (F : List Bytes) :
    runes ([c].intercalate F) = [c.toNat].intercalate (F.map runes) := by
  induction F with
  | nil => rfl
  | cons f F ih =>
      cases F with
      | nil => simp
      | cons g F =>
          rw [List.map_cons] at ih ⊢
          rw [List.map_cons, List.intercalate_cons_cons, List.intercalate_cons_cons,
            List.append_assoc, List.append_assoc, List.singleton_append, List.singleton_append,
            runes_append_ascii hc, ih]

theorem Word.not_mem (h : Word f) (hc : c.toNat < 0x80) (hspace : isSpace c.toNat = true) :
    c ∉ f := by
  intro hmem
  have hnot := h.unbroken _ (mem_runes_of_mem hc hmem)
  rw [hspace] at hnot
  cases hnot

end Words

/-- The runes of a word. -/
structure RuneWord (g : List Nat) : Prop where
  nonempty : g ≠ []
  scalar : ∀ r ∈ g, IsScalar r
  unbroken : ∀ r ∈ g, isSpace r = false

/-- Runes with which a line can start: words with single spaces between them, cut anywhere. -/
def LineFront (rs : List Nat) : Prop :=
  ∃ G : List (List Nat), (∀ g ∈ G, RuneWord g) ∧ rs <+: [0x20].intercalate G

section LineFronts

variable {f : Bytes} {rs : List Nat} {G : List (List Nat)} {r : Nat}

theorem Word.runeWord (h : Word f) : RuneWord (runes f) where
  nonempty hnil := by
    have htext := flatMap_snd_pieces f
    rw [← map_fst_pieces, List.map_eq_nil_iff] at hnil
    rw [hnil] at htext
    exact h.nonempty htext.symm
  scalar := isScalar_of_mem_runes
  unbroken := h.unbroken

theorem lineFront_take {F : List Bytes} (h : ∀ f ∈ F, Word f) (n : Nat) :
    LineFront ((runes ([0x20].intercalate F)).take n) := by
  refine ⟨F.map runes, ?_, ?_⟩
  · intro g hg
    obtain ⟨f, hf, rfl⟩ := List.mem_map.mp hg
    exact (h f hf).runeWord
  · rw [runes_intercalate (by decide)]
    exact List.take_prefix _ _

theorem LineFront.scalar (h : LineFront rs) : ∀ r ∈ rs, IsScalar r := by
  obtain ⟨G, hG, hfront⟩ := h
  intro r hr
  rcases mem_intercalate (hfront.subset hr) with rfl | ⟨g, hg, hr⟩
  · decide
  · exact (hG g hg).scalar r hr

theorem LineFront.eq_of_isSpace (h : LineFront rs) (hr : r ∈ rs) (hspace : isSpace r = true) :
    r = 0x20 := by
  obtain ⟨G, hG, hfront⟩ := h
  rcases mem_intercalate (hfront.subset hr) with rfl | ⟨g, hg, hr⟩
  · rfl
  · rw [(hG g hg).unbroken r hr] at hspace
    cases hspace

theorem RuneWord.append_singleton {g : List Nat} (h : ∀ x ∈ g, IsScalar x ∧ isSpace x = false)
    (hr : IsScalar r) (hspace : isSpace r = false) : RuneWord (g ++ [r]) where
  nonempty := by simp
  scalar := List.forall_mem_append.mpr ⟨fun x hx => (h x hx).1, by simpa using hr⟩
  unbroken := List.forall_mem_append.mpr ⟨fun x hx => (h x hx).2, by simpa using hspace⟩

/-- A cut line is a line again when a character that is no white space follows. -/
theorem LineFront.close (h : LineFront rs) (hr : IsScalar r) (hspace : isSpace r = false) :
    ∃ G, (∀ g ∈ G, RuneWord g) ∧ G ≠ [] ∧ rs ++ [r] = [0x20].intercalate G := by
  obtain ⟨G, hG, hfront⟩ := h
  have hword : ∀ {g rs}, RuneWord g → rs <+: g → ∃ G, (∀ g ∈ G, RuneWord g) ∧ G ≠ [] ∧
      rs ++ [r] = [0x20].intercalate G := fun {g rs} hg hrs => by
    refine ⟨[rs ++ [r]], List.forall_mem_singleton.mpr ?_, List.cons_ne_nil _ _, by simp⟩
    exact RuneWord.append_singleton
      (fun x hx => ⟨hg.scalar x (hrs.subset hx), hg.unbroken x (hrs.subset hx)⟩) hr hspace
  induction G generalizing rs with
  | nil =>
      obtain rfl := List.prefix_nil.mp hfront
      refine ⟨[[r]], List.forall_mem_singleton.mpr ?_, List.cons_ne_nil _ _, by simp⟩
      exact RuneWord.append_singleton (fun _ hx => absurd hx List.not_mem_nil) hr hspace
  | cons g G ih =>
      obtain ⟨hg, hG⟩ := List.forall_mem_cons.mp hG
      cases G with
      | nil => exact hword hg (by simpa using hfront)
      | cons next G =>
          rw [List.intercalate_cons_cons, List.append_assoc, List.singleton_append] at hfront
          rcases prefix_append_cases hfront with hfront | ⟨t, rfl, ht⟩
          · exact hword hg hfront
          · rcases List.prefix_cons_iff.mp ht with rfl | ⟨u, rfl, hu⟩
            · exact hword hg (by simp)
            · obtain ⟨H, hH, hne, heq⟩ := ih hG hu
              refine ⟨g :: H, List.forall_mem_cons.mpr ⟨hg, hH⟩, List.cons_ne_nil _ _, ?_⟩
              obtain ⟨h, H, rfl⟩ := List.exists_cons_of_ne_nil hne
              rw [List.intercalate_cons_cons, ← heq]
              simp

/-- The same with the character in front as often as wanted. -/
theorem LineFront.pad (h : LineFront rs) (hr : IsScalar r) (hspace : isSpace r = false) (n : Nat) :
    ∃ G, (∀ g ∈ G, RuneWord g) ∧ List.replicate n r ++ rs ++ [r] = [0x20].intercalate G := by
  obtain ⟨G, hG, hne, heq⟩ := h.close hr hspace
  obtain ⟨g, G, rfl⟩ := List.exists_cons_of_ne_nil hne
  obtain ⟨hg, hG⟩ := List.forall_mem_cons.mp hG
  have hpadded : RuneWord (List.replicate n r ++ g) :=
    { nonempty := fun hnil => hg.nonempty (List.append_eq_nil_iff.mp hnil).2
      scalar := List.forall_mem_append.mpr
        ⟨fun x hx => (List.eq_of_mem_replicate hx).symm ▸ hr, hg.scalar⟩
      unbroken := List.forall_mem_append.mpr
        ⟨fun x hx => (List.eq_of_mem_replicate hx).symm ▸ hspace, hg.unbroken⟩ }
  refine ⟨(List.replicate n r ++ g) :: G, List.forall_mem_cons.mpr ⟨hpadded, hG⟩, ?_⟩
  rw [List.append_assoc, heq]
  cases G with
  | nil => simp
  | cons next G => simp only [List.intercalate_cons_cons, List.append_assoc]

end LineFronts

/-! ## Texts with given runes -/

/-- A text with the runes in which every replacement rune comes from an invalid byte. -/
def rawText (rs : List Nat) : Bytes :=
  rs.flatMap fun r => if r = runeError then [0xFF] else encodeRune r

section RawText

variable {s : Bytes} {rs : List Nat} {G : List (List Nat)} {r : Nat} {c : UInt8}

theorem runes_rawText (h : ∀ r ∈ rs, IsScalar r) : runes (rawText rs) = rs := by
  induction rs with
  | nil => rfl
  | cons r rs ih =>
      obtain ⟨hr, hrs⟩ := List.forall_mem_cons.mp h
      rw [rawText, List.flatMap_cons, ← rawText]
      split_ifs with herror
      · rw [List.singleton_append, runes_invalid (by rfl), ih hrs, herror]
      · rw [runes_encodeRune hr, ih hrs]

theorem RuneWord.word_rawText {g : List Nat} (h : RuneWord g) : Word (rawText g) where
  nonempty hnil := by
    have hrunes := runes_rawText h.scalar
    rw [hnil] at hrunes
    exact h.nonempty hrunes.symm
  unbroken := by
    rw [runes_rawText h.scalar]
    exact h.unbroken

theorem rawText_intercalate (G : List (List Nat)) :
    rawText ([0x20].intercalate G) = [0x20].intercalate (G.map rawText) :=
  flatMap_intercalate _ G

theorem rawText_append (rs more : List Nat) : rawText (rs ++ more) = rawText rs ++ rawText more :=
  List.flatMap_append

theorem rawText_ascii (hc : c.toNat < 0x80) (rs : List Nat) :
    rawText (c.toNat :: rs) = c :: rawText rs := by
  have hne : c.toNat ≠ runeError := Nat.ne_of_lt (Nat.lt_trans hc (by decide))
  rw [rawText, List.flatMap_cons, if_neg hne, eq_encodeRune hc]
  rfl

/-- What keeps clear of the padding stands between it. -/
theorem infix_of_infix_rawText_pad (hc : c.toNat < 0x80) (hs : c ∉ s) (hne : s ≠ []) {n : Nat}
    (h : s <:+: rawText (List.replicate n c.toNat ++ rs ++ [c.toNat])) : s <:+: rawText rs := by
  have hnil : ¬ s <:+: [] := fun hin => hne (List.infix_nil.mp hin)
  induction n with
  | zero =>
      rw [List.replicate_zero, List.nil_append, rawText_append, rawText_ascii hc] at h
      exact (infix_of_infix_append_cons hs h).resolve_right hnil
  | succ n ih =>
      rw [List.replicate_succ, List.cons_append, List.cons_append, rawText_ascii hc,
        ← List.nil_append (c :: _)] at h
      exact ih ((infix_of_infix_append_cons hs h).resolve_left hnil)

/-- A part of the raw text of some runes of a text, with no invalid byte, is a part of the
text. -/
theorem infix_of_infix_rawText {w : Bytes} {n : Nat} (hs : 0xFF ∉ s)
    (h : s <:+: rawText ((runes w).take n)) : s <:+: w := by
  have hall : s <:+: rawText (runes w) := h.trans ((List.take_prefix n _).flatMap _).isInfix
  rw [rawText, ← map_fst_pieces, List.flatMap_map] at hall
  rw [← flatMap_snd_pieces w]
  refine infix_flatMap_of_clear (fun p hp => ?_) hall
  by_cases herror : p.1 = runeError
  · rw [if_pos herror]
    exact Or.inr ⟨List.cons_ne_nil _ _, fun b hb => List.mem_singleton.mp hb ▸ hs⟩
  · rw [if_neg herror]
    exact Or.inl ((eq_or_of_mem_pieces p hp).resolve_right herror).symm

/-- An ASCII text in an encoding does not come from replacement runes. -/
theorem infix_rawText_of_ascii (hs : ∀ b ∈ s, b.toNat < 0x80) (h : s <:+: encodeRunes rs) :
    s <:+: rawText rs := by
  refine infix_flatMap_of_clear (fun r _ => ?_) h
  by_cases herror : r = runeError
  · refine Or.inr ⟨herror ▸ by decide, fun b hb hmem => ?_⟩
    rw [herror] at hb
    exact Nat.not_le.mpr (hs b hmem) (le_of_mem_encodeRune isScalar_runeError (by decide) b hb)
  · exact Or.inl (if_neg herror).symm

theorem mem_of_mem_encodeRunes (hc : c.toNat < 0x80) (hscalar : ∀ r ∈ rs, IsScalar r)
    (h : c ∈ encodeRunes rs) : c.toNat ∈ rs := by
  obtain ⟨r, hr, hmem⟩ := List.mem_flatMap.mp h
  by_cases hone : r < 0x80
  · rw [encodeRune_one hone, List.mem_singleton] at hmem
    rwa [hmem, toNat_ofNat_of_lt (by omega)]
  · have hlow := le_of_mem_encodeRune (hscalar r hr) (Nat.not_lt.mp hone) c hmem
    omega

/-- No encoding has the byte that stands for an invalid one. -/
theorem not_mem_encodeRunes (h : ∀ r ∈ rs, IsScalar r) : 0xFF ∉ encodeRunes rs := by
  intro hmem
  obtain ⟨r, hr, hmem⟩ := List.mem_flatMap.mp hmem
  by_cases hone : r < 0x80
  · rw [encodeRune_one hone, List.mem_singleton] at hmem
    have hbyte := congrArg UInt8.toNat hmem
    rw [toNat_ofNat_of_lt (by omega)] at hbyte
    exact absurd (hbyte ▸ hone) (by decide)
  · exact absurd (bounds_of_mem_encodeRune (h r hr) (Nat.not_lt.mp hone) _ hmem).2 (by decide)

end RawText

end Hy2Route.Foundation
