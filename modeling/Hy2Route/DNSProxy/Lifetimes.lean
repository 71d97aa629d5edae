import Hy2Route.DNSProxy.Provenance
import Mathlib.Data.List.DropRight

/-!
# Lifetimes of answers

The lifetime of an answer is to be the least positive lifetime of its address records.
The loop over the records uses zero for a lifetime that was not seen yet, so a record
with a lifetime of zero makes it start again. A stored answer is served as it was
received: its lifetime does not shrink while it is in the cache.
-/

namespace Hy2Route.DNSProxy

open Foundation Policy

/-! ## The least positive lifetime -/

/-- The address and lifetime of an address record of four bytes. -/
def RR.addressRecord : RR → Option (Addr × UInt32)
  | .a hdr raw => if raw.length = 4 then (Addr.fromSlice raw).map (·, hdr.ttl) else none
  | .other _ _ _ => none

def Msg.addressRecords (m : Msg) : List (Addr × UInt32) := m.answer.filterMap RR.addressRecord

def Msg.lifetimes (m : Msg) : List UInt32 := m.addressRecords.map Prod.snd

/-- The lifetime that the loop keeps. -/
def keepLess (minimum ttl : UInt32) : UInt32 :=
  if minimum = 0 ∨ ttl < minimum then ttl else minimum

theorem collectA_eq (answer : List RR) (addresses : List Addr) (minimum : UInt32) :
    collectA answer addresses minimum =
      (addresses ++ (answer.filterMap RR.addressRecord).map Prod.fst,
        ((answer.filterMap RR.addressRecord).map Prod.snd).foldl keepLess minimum) := by
  induction answer generalizing addresses minimum with
  | nil => simp [collectA]
  | cons record rest ih =>
      cases record with
      | other hdr rrtype rdata =>
          have hrecord : RR.addressRecord (.other hdr rrtype rdata) = none := rfl
          rw [List.filterMap_cons_none hrecord]
          exact ih addresses minimum
      | a hdr raw =>
          unfold collectA
          cases hraw : Addr.fromSlice raw with
          | none =>
              have hrecord : RR.addressRecord (.a hdr raw) = none := by
                simp [RR.addressRecord, hraw]
              rw [List.filterMap_cons_none hrecord]
              exact ih addresses minimum
          | some addr =>
              have h4 := Addr.is4_fromSlice hraw
              by_cases hlen : raw.length = 4
              · have hrecord : RR.addressRecord (.a hdr raw) = some (addr, hdr.ttl) := by
                  simp [RR.addressRecord, hraw, hlen]
                rw [List.filterMap_cons_some hrecord]
                simp [h4.mpr hlen, ih, keepLess]
              · have hrecord : RR.addressRecord (.a hdr raw) = none := by
                  simp [RR.addressRecord, hlen]
                rw [List.filterMap_cons_none hrecord]
                simp [Bool.eq_false_iff.mpr (mt h4.mp hlen), ih]

theorem responseARecords_eq (response : Msg) :
    responseARecords response =
      (response.addressRecords.map Prod.fst,
        (response.lifetimes.foldl keepLess 0).toNat * second) := by
  rw [responseARecords, collectA_eq, List.nil_append]
  rfl

section RunningMinimum

variable {ttls : List UInt32}

/-- The least positive lifetime, or zero when there is none. -/
def LeastPositive (ttls : List UInt32) (m : UInt32) : Prop :=
  (m = 0 ∧ ∀ t ∈ ttls, t = 0) ∨ m ≠ 0 ∧ m ∈ ttls ∧ ∀ t ∈ ttls, t ≠ 0 → m ≤ t

/-- The lifetimes after the last one that is zero. -/
def afterZero (ttls : List UInt32) : List UInt32 := ttls.rtakeWhile (· != 0)

/-- A lifetime of zero makes the loop start again. -/
theorem foldl_keepLess (ttls : List UInt32) :
    ttls.foldl keepLess 0 = (afterZero ttls).foldl keepLess 0 := by
  induction ttls using List.reverseRecOn with
  | nil => rfl
  | append_singleton rest t ih =>
      rw [afterZero, List.foldl_append]
      by_cases hzero : t = 0
      · subst hzero
        rw [List.rtakeWhile_concat_neg _ _ _ (by simp)]
        have hrestart : ∀ m, keepLess m 0 = 0 := by
          intro m
          unfold keepLess
          split_ifs with hm
          · rfl
          · exact UInt32.le_antisymm (UInt32.not_lt.mp (not_or.mp hm).2) UInt32.zero_le
        exact hrestart _
      · rw [List.rtakeWhile_concat_pos _ _ _ (by simpa using hzero), List.foldl_append, ih]
        rfl

/-- Without zeros the loop keeps the least of what it saw. -/
theorem foldl_keepLess_of_pos {ttls : List UInt32} (hpos : ∀ t ∈ ttls, t ≠ 0) {m : UInt32}
    (hm : m ≠ 0) :
    ttls.foldl keepLess m ∈ m :: ttls ∧ ∀ t ∈ m :: ttls, ttls.foldl keepLess m ≤ t := by
  induction ttls generalizing m with
  | nil => exact ⟨List.mem_cons_self, List.forall_mem_singleton.mpr (UInt32.le_refl _)⟩
  | cons t rest ih =>
      obtain ⟨ht, hrest⟩ := List.forall_mem_cons.mp hpos
      have hkeep : keepLess m t = if t < m then t else m := by simp [keepLess, hm]
      have hne : keepLess m t ≠ 0 := by
        rw [hkeep]
        split_ifs
        · exact ht
        · exact hm
      have hboth : keepLess m t ≤ m ∧ keepLess m t ≤ t := by
        rw [hkeep]
        split_ifs with hlt
        · exact ⟨UInt32.le_of_lt hlt, UInt32.le_refl _⟩
        · exact ⟨UInt32.le_refl _, UInt32.not_lt.mp hlt⟩
      obtain ⟨hmem, hle⟩ := ih hrest hne
      obtain ⟨hfirst, htail⟩ := List.forall_mem_cons.mp hle
      rw [List.foldl_cons]
      refine ⟨?_, List.forall_mem_cons.mpr ⟨UInt32.le_trans hfirst hboth.1,
        List.forall_mem_cons.mpr ⟨UInt32.le_trans hfirst hboth.2, htail⟩⟩⟩
      rcases List.mem_cons.mp hmem with heq | hin
      · rw [heq, hkeep]
        split_ifs
        · exact List.mem_cons_of_mem _ List.mem_cons_self
        · exact List.mem_cons_self
      · exact List.mem_cons_of_mem _ (List.mem_cons_of_mem _ hin)

/-- A least positive lifetime comes after the last zero, or there is none. -/
def SeenLast (ttls : List UInt32) : Prop :=
  (∀ t ∈ ttls, t = 0) ∨ ∃ m ∈ afterZero ttls, ∀ t ∈ ttls, t ≠ 0 → m ≤ t

theorem ne_zero_of_mem_afterZero {t : UInt32} (h : t ∈ afterZero ttls) : t ≠ 0 := by
  simpa using List.mem_rtakeWhile_imp h

theorem mem_of_mem_afterZero {t : UInt32} (h : t ∈ afterZero ttls) : t ∈ ttls :=
  List.IsSuffix.mem h (List.rtakeWhile_suffix _ _)

/-- The loop ends with zero when the last lifetime is zero, and else with the least
lifetime after the last zero. -/
theorem foldl_keepLess_cases (ttls : List UInt32) :
    (afterZero ttls = [] ∧ ttls.foldl keepLess 0 = 0) ∨
      ttls.foldl keepLess 0 ∈ afterZero ttls ∧
        ∀ t ∈ afterZero ttls, ttls.foldl keepLess 0 ≤ t := by
  rw [foldl_keepLess]
  cases hrun : afterZero ttls with
  | nil => exact Or.inl ⟨rfl, rfl⟩
  | cons first rest =>
      have hpos : ∀ t ∈ first :: rest, t ≠ 0 := fun t ht => ne_zero_of_mem_afterZero (hrun ▸ ht)
      obtain ⟨hfirst, hrest⟩ := List.forall_mem_cons.mp hpos
      have hstart : keepLess 0 first = first := if_pos (Or.inl rfl)
      rw [List.foldl_cons, hstart]
      exact Or.inr (foldl_keepLess_of_pos hrest hfirst)

theorem leastPositive_iff (ttls : List UInt32) :
    LeastPositive ttls (ttls.foldl keepLess 0) ↔ SeenLast ttls := by
  rcases foldl_keepLess_cases ttls with ⟨hrun, hzero⟩ | ⟨hmem, hle⟩
  · rw [hzero, LeastPositive, SeenLast, hrun]
    simp
  · have hne := ne_zero_of_mem_afterZero hmem
    have hin := mem_of_mem_afterZero hmem
    constructor
    · rintro (⟨hzero, -⟩ | ⟨-, -, hleast⟩)
      · exact absurd hzero hne
      · exact Or.inr ⟨_, hmem, hleast⟩
    · rintro (hzero | ⟨m, hm, hleast⟩)
      · exact absurd (hzero _ hin) hne
      · exact Or.inr ⟨hne, hin, fun t ht hpos => UInt32.le_trans (hle m hm) (hleast t ht hpos)⟩

theorem LeastPositive.unique {ttls' : List UInt32} {m m' : UInt32} (h : LeastPositive ttls m)
    (h' : LeastPositive ttls' m') (hsame : ∀ t, t ∈ ttls' ↔ t ∈ ttls) : m' = m := by
  rcases h with ⟨rfl, hzero⟩ | ⟨hne, hmem, hle⟩
  · rcases h' with ⟨rfl, -⟩ | ⟨hne', hmem', -⟩
    · rfl
    · exact absurd (hzero m' ((hsame m').mp hmem')) hne'
  · rcases h' with ⟨rfl, hzero'⟩ | ⟨hne', hmem', hle'⟩
    · exact absurd (hzero' m ((hsame m).mpr hmem)) hne
    · exact UInt32.le_antisymm (hle' m ((hsame m).mpr hmem) hne)
        (hle m' ((hsame m').mp hmem') hne')

/-- The lifetimes are all zero, or all positive. -/
def Uniform (ttls : List UInt32) : Prop := (∀ t ∈ ttls, t = 0) ∨ ∀ t ∈ ttls, t ≠ 0

theorem Uniform.seenLast (h : Uniform ttls) : SeenLast ttls := by
  rcases h with hzero | hpos
  · exact Or.inl hzero
  · have hall : afterZero ttls = ttls := List.rtakeWhile_eq_self_iff.mpr (by simpa using hpos)
    rcases foldl_keepLess_cases ttls with ⟨hrun, -⟩ | ⟨hmem, hle⟩
    · exact Or.inl (by simp [hall.symm.trans hrun])
    · exact Or.inr ⟨_, hmem, fun t ht _ => hle t (hall.symm ▸ ht)⟩

theorem foldl_keepLess_concat_eq_zero_iff (ttls : List UInt32) (t : UInt32) :
    (ttls ++ [t]).foldl keepLess 0 = 0 ↔ t = 0 := by
  rcases foldl_keepLess_cases (ttls ++ [t]) with ⟨hrun, hzero⟩ | ⟨hmem, -⟩
  · refine iff_of_true hzero (not_not.mp fun hne => ?_)
    rw [afterZero, List.rtakeWhile_concat_pos _ _ _ (by simpa using hne)] at hrun
    simp at hrun
  · refine iff_of_false (ne_zero_of_mem_afterZero hmem) fun hzero => ?_
    rw [afterZero, List.rtakeWhile_concat_neg _ _ _ (by simpa using hzero)] at hmem
    exact List.not_mem_nil hmem

end RunningMinimum

theorem clampDuration_mono {value value' minimum maximum : Int} (h : value ≤ value')
    (hbounds : minimum ≤ maximum) :
    clampDuration value minimum maximum ≤ clampDuration value' minimum maximum := by
  unfold clampDuration
  split_ifs <;> omega

/-- No lifetime that follows from the least positive one is longer than it should be. -/
theorem LeastPositive.clamped {response : Msg} {m t : UInt32}
    (hresponse : (responseARecords response).2 = m.toNat * second)
    (h : LeastPositive response.lifetimes m) (ht : t ∈ response.lifetimes) (hpos : t ≠ 0) :
    learnTTL response ≤ clampDuration (t.toNat * second) (30 * second) (24 * hour) ∧
      cacheTTL response ≤ clampDuration (t.toNat * second) (30 * second) (24 * hour) := by
  obtain ⟨-, hzero⟩ | ⟨hm, -, hle⟩ := h
  · exact absurd (hzero t ht) hpos
  · have hne : 0 < m.toNat := UInt32.lt_iff_toNat_lt.mp (UInt32.pos_iff_ne_zero.mpr hm)
    have hpositive : ¬ (responseARecords response).2 ≤ 0 := by
      rw [hresponse, second]
      omega
    have hmono : (responseARecords response).2 ≤ t.toNat * second := by
      have hnat : m.toNat ≤ t.toNat := hle t ht hpos
      rw [hresponse, second]
      omega
    rw [learnTTL, cacheTTL, if_neg hpositive]
    exact ⟨clampDuration_mono hmono (by decide), clampDuration_mono hmono (by decide)⟩

theorem lifetime_eq_iff (m m' : UInt32) :
    (m.toNat * second : Int) = m'.toNat * second ↔ m = m' := by
  rw [← UInt32.toNat_inj, second]
  omega

/-- The lifetime does not depend on the order of the records exactly when their
lifetimes are all zero or all positive. -/
theorem lifetime_perm_iff (response : Msg) :
    (∀ other : Msg, other.answer.Perm response.answer →
        (responseARecords other).2 = (responseARecords response).2) ↔
      Uniform response.lifetimes := by
  constructor
  · intro hperm
    by_contra hmixed
    obtain ⟨hzero, hpos⟩ := not_or.mp hmixed
    push Not at hzero hpos
    obtain ⟨t, ht, hne⟩ := hzero
    obtain ⟨z, hz, rfl⟩ := hpos
    -- a record that is moved to the end decides alone whether the lifetime is zero
    have hlast : ∀ u ∈ response.lifetimes, (responseARecords response).2 = 0 ↔ u = 0 := by
      intro u hu
      obtain ⟨⟨ip, u⟩, hrecord, rfl⟩ := List.mem_map.mp hu
      obtain ⟨record, hmem, haddress⟩ := List.mem_filterMap.mp hrecord
      let other : Msg := { answer := response.answer.erase record ++ [record] }
      have hother : other.lifetimes =
          ((response.answer.erase record).filterMap RR.addressRecord).map Prod.snd ++ [u] := by
        simp [other, Msg.lifetimes, Msg.addressRecords, haddress]
      have horder : other.answer.Perm response.answer :=
        List.perm_append_comm.trans (List.perm_cons_erase hmem).symm
      have hzero := lifetime_eq_iff (other.lifetimes.foldl keepLess 0) 0
      rw [← hperm other horder, responseARecords_eq]
      refine Iff.trans (by simpa using hzero) ?_
      rw [hother]
      exact foldl_keepLess_concat_eq_zero_iff _ u
    exact hne ((hlast t ht).mp ((hlast 0 hz).mpr rfl))
  · intro huniform other hperm
    have hsame : ∀ t, t ∈ other.lifetimes ↔ t ∈ response.lifetimes := fun t =>
      ((hperm.filterMap RR.addressRecord).map Prod.snd).mem_iff
    have huniform' : Uniform other.lifetimes := by
      refine huniform.imp (fun h t ht => ?_) fun h t ht => ?_
      · exact h t ((hsame t).mp ht)
      · exact h t ((hsame t).mp ht)
    have hleast := (leastPositive_iff _).mpr huniform.seenLast
    have hleast' := (leastPositive_iff _).mpr huniform'.seenLast
    rw [responseARecords_eq, responseARecords_eq]
    exact (lifetime_eq_iff _ _).mpr (hleast.unique hleast' hsame)

/-- The addresses are those of the records in order. The lifetime is the least positive
one exactly when that is seen after the last zero, and then nothing is kept for too long;
it depends on the order exactly when zero and positive lifetimes are mixed. -/
theorem responseARecords_least_iff (response : Msg) :
    (responseARecords response).1 = response.addressRecords.map Prod.fst ∧
    ((∃ m : UInt32, (responseARecords response).2 = m.toNat * second ∧
        LeastPositive response.lifetimes m) ↔ SeenLast response.lifetimes) ∧
    (SeenLast response.lifetimes → ∀ t ∈ response.lifetimes, t ≠ 0 →
      learnTTL response ≤ clampDuration (t.toNat * second) (30 * second) (24 * hour) ∧
        cacheTTL response ≤ clampDuration (t.toNat * second) (30 * second) (24 * hour)) ∧
    ((∀ other : Msg, other.answer.Perm response.answer →
        (responseARecords other).2 = (responseARecords response).2) ↔
      Uniform response.lifetimes) := by
  have hvalue : (responseARecords response).2 =
      (response.lifetimes.foldl keepLess 0).toNat * second := by rw [responseARecords_eq]
  have hleast := leastPositive_iff response.lifetimes
  refine ⟨by rw [responseARecords_eq], ⟨?_, fun hseen => ?_⟩, ?_, lifetime_perm_iff response⟩
  · rintro ⟨m, hm, hpositive⟩
    rw [(lifetime_eq_iff _ _).mp (hm.symm.trans hvalue)] at hpositive
    exact hleast.mp hpositive
  · exact ⟨_, hvalue, hleast.mpr hseen⟩
  · exact fun hseen t ht hpos => (hleast.mpr hseen).clamped hvalue ht hpos

/-- An answer with the lifetimes 20 and 50 is kept for the least time a lifetime may be
learned and stored. -/
theorem responseARecords_least_of_two :
    let response : Msg :=
      { answer := [.a ⟨[], 50⟩ [192, 0, 2, 1], .a ⟨[], 20⟩ [192, 0, 2, 2]] }
    SeenLast response.lifetimes ∧ learnTTL response ≤ 30 * second ∧
      cacheTTL response ≤ 30 * second := by
  intro response
  have hseen : SeenLast response.lifetimes := by
    refine Or.inr ⟨20, by decide, ?_⟩
    rw [show response.lifetimes = [50, 20] from rfl]
    exact List.forall_mem_cons.mpr ⟨fun _ => by decide, List.forall_mem_singleton.mpr fun _ =>
      by decide⟩
  obtain ⟨-, -, hclamped, -⟩ := responseARecords_least_iff response
  have hclamp : clampDuration ((20 : UInt32).toNat * second) (30 * second) (24 * hour) =
      30 * second := by decide
  obtain ⟨hlearn, hcache⟩ := hclamped hseen 20 (by decide) (by decide)
  rw [hclamp] at hlearn hcache
  exact ⟨hseen, hlearn, hcache⟩

/-- With a zero between them the lesser of two lifetimes is forgotten, and an answer
with a record for 5 seconds is stored for 300. -/
theorem responseARecords_forgets_least :
    let response : Msg := { answer := [.a ⟨[], 5⟩ [192, 0, 2, 1], .a ⟨[], 0⟩ [192, 0, 2, 2],
      .a ⟨[], 300⟩ [192, 0, 2, 3]] }
    response.lifetimes = [5, 0, 300] ∧ (responseARecords response).2 = 300 * second ∧
      ¬ (∃ m : UInt32, (responseARecords response).2 = m.toNat * second ∧
        LeastPositive response.lifetimes m) ∧
      cacheTTL response = 300 * second ∧
      clampDuration (5 * second) (30 * second) (24 * hour) = 30 * second := by
  intro response
  have hvalue : (responseARecords response).2 = 300 * second := by decide
  refine ⟨by decide, hvalue, ?_, by decide, by decide⟩
  rintro ⟨m, hm, hleast⟩
  obtain rfl : 300 = m := (lifetime_eq_iff _ _).mp (hvalue.symm.trans hm)
  obtain ⟨hzero, -⟩ | ⟨-, -, hle⟩ := hleast
  · exact absurd hzero (by decide)
  · exact absurd (hle 5 (by decide) (by decide)) (by decide)

/-! ## Serving a stored answer -/

section Served

variable {σ : Type} {observe : σ → Observation → σ} {clock : Nat → Int}

/-- The call took an answer from an upstream and stored it, at the time of its last
reading of the clock. -/
def Obtains (observe : σ → Observation → σ) (clock : Nat → Int) (r : Resolver σ)
    (input : ResolveInput) (item : CacheKey × CacheEntry) (time : Int) : Prop :=
  let o := r.resolve observe clock input
  ∃ request question m, input.query = some (request, question) ∧ o.action.isSome = true ∧
    o.result = .ok m ∧ time = clock (o.resolver.reads - 1) ∧
    item = (question.key, ⟨m, time + cacheTTL m⟩)

theorem obtains_of_mem_step {r : Resolver σ} (h : r.cache.Sound) {input : ResolveInput}
    {item : CacheKey × CacheEntry} (hmem : item ∈ (r.step observe clock input).cache.items) :
    item ∈ r.cache.items ∨ ∃ time, Obtains observe clock r input item time := by
  have hres := Resolver.resolve_spec observe clock h input
  have hkept := hres.kept observe clock h
  unfold Resolver.step at hmem
  unfold Obtains
  generalize r.resolve observe clock input = o at hres hkept hmem
  cases hres with
  | answered request question query missed cache items c configured asked response action chosen
      learned observed learns stored sound stores =>
      rcases Resolver.mem_stored items stores hmem with rfl | ⟨hold, -⟩
      · refine Or.inr ⟨clock learned.reads, request, question, _, query, rfl, rfl, rfl, ?_⟩
        rw [cacheTTL, cacheTTL, responseARecords_answerTo]
      · exact Or.inl hold
  | _ => exact Or.inl ((hkept rfl).items item hmem)

/-- The cache answers with a live entry of the key. -/
theorem resolve_of_mem_items {r : Resolver σ} (h : r.cache.Sound) {input : ResolveInput}
    {request : Msg} {question : Question} (hquery : input.query = some (request, question))
    {entry : CacheEntry} (hmem : (question.key, entry) ∈ r.cache.items)
    (hlive : clock r.reads < entry.expires) :
    (r.resolve observe clock input).asked = [] ∧
      (r.resolve observe clock input).result = .ok (entry.response.answerTo request) := by
  obtain ⟨-, hlookup⟩ := Cache.get_spec h question.name question.qtype (clock r.reads)
  have hserves : r.cache.Serves question.name question.qtype (clock r.reads) :=
    ⟨entry, h.ordered.mem_orderedItems.mp hmem, hlive⟩
  have hnone := r.cache.get_eq_none_iff question.name question.qtype (clock r.reads)
  rw [Resolver.resolve_of_query observe clock r hquery]
  generalize r.cache.get question.name question.qtype (clock r.reads) = looked at hlookup hnone
  obtain ⟨cache, found⟩ := looked
  rcases hlookup with ⟨entry', hmem', -, hfound, -⟩ | ⟨hfound, -⟩
  · have hsame : some entry' = some entry :=
      (h.ordered.mem_orderedItems.mp hmem').symm.trans (h.ordered.mem_orderedItems.mp hmem)
    obtain rfl := Option.some.inj hsame
    simp only at hfound
    subst hfound
    exact ⟨rfl, rfl⟩
  · exact absurd hserves (hnone.mp hfound)

/-- In every run, an answer from the cache was obtained by an earlier call. If its only
address record has a lifetime that is stored as it is, then the record is served with at
most what is left of the lifetime exactly when no time has passed since. -/
theorem served_ttl_within_iff (observe : σ → Observation → σ) (clock : Nat → Int)
    (classifier : Option Classifier) (domestic trusted : Bool) (learner : Option σ)
    (cacheEntries : Int) (calls : List ResolveInput) (input : ResolveInput) {request : Msg}
    {question : Question} (hquery : input.query = some (request, question)) {entry : CacheEntry} :
    let start := newResolver classifier domestic trusted learner cacheEntries
    let run := List.foldl (Resolver.step observe clock) start
    let now := clock (run calls).reads
    let o := (run calls).resolve observe clock input
    (question.key, entry) ∈ (run calls).cache.items → now < entry.expires →
    o.asked = [] ∧ o.result = .ok (entry.response.answerTo request) ∧
    (∃ earlier past later time, calls = earlier ++ past :: later ∧
      Obtains observe clock (run earlier) past (question.key, entry) time) ∧
    ∀ earlier past later time, calls = earlier ++ past :: later →
      Obtains observe clock (run earlier) past (question.key, entry) time →
      ∀ (ip : Addr) (ttl : UInt32), entry.response.addressRecords = [(ip, ttl)] →
      30 * second ≤ ttl.toNat * second → ttl.toNat * second ≤ 24 * hour →
      entry.expires = time + ttl.toNat * second ∧
      ((∀ served, o.result = .ok served → ∀ record ∈ served.addressRecords,
          (record.2.toNat * second : Int) ≤ ttl.toNat * second - (now - time)) ↔ now ≤ time) := by
  intro start run now o hmem hlive
  have hstep (r : Resolver σ) (input : ResolveInput) (h : r.cache.Sound) :
      (r.step observe clock input).cache.Sound := (r.step_sound observe clock h input).1
  have hstart : start.cache.Sound := Cache.newCache_sound cacheEntries
  have hsound : (run calls).cache.Sound := foldl_invariant hstep hstart calls
  obtain ⟨hasked, hresult⟩ : o.asked = [] ∧ o.result = .ok (entry.response.answerTo request) :=
    resolve_of_mem_items hsound hquery hmem hlive
  obtain ⟨earlier, past, later, hcalls, time, hobtains⟩ :=
    exists_call_of_held (fun r item => item ∈ Cache.items r.cache) hstep
      (fun r input item h => obtains_of_mem_step h) hstart (by simp [start, newResolver]) calls hmem
  refine ⟨hasked, hresult, ⟨earlier, past, later, time, hcalls, hobtains⟩, ?_⟩
  rintro - - - time - ⟨_, _, m, -, -, -, -, hitem⟩ ip ttl hrecord hlow hhigh
  obtain ⟨-, rfl⟩ := Prod.mk.inj hitem
  change m.addressRecords = [(ip, ttl)] at hrecord
  have httl : (responseARecords m).2 = ttl.toNat * second := by
    have hlifetimes : m.lifetimes = [ttl] := by rw [Msg.lifetimes, hrecord]; rfl
    rw [responseARecords_eq, hlifetimes]
    rfl
  have hexpires : cacheTTL m = ttl.toNat * second := by
    have hpositive : ¬ (ttl.toNat * second : Int) ≤ 0 := by
      rw [second] at hlow ⊢
      omega
    rw [cacheTTL, httl, if_neg hpositive, clampDuration, if_neg (not_lt.mpr hlow),
      if_neg (not_lt.mpr hhigh)]
  refine ⟨by rw [hexpires], ?_⟩
  have hserved : (m.answerTo request).addressRecords = [(ip, ttl)] := hrecord
  constructor
  · intro hall
    have hle := hall _ hresult (ip, ttl) (by rw [hserved]; exact List.mem_cons_self)
    simp only at hle
    omega
  · intro hnow served hok record hin
    obtain rfl := Except.ok.inj (hresult.symm.trans hok)
    rw [hserved, List.mem_singleton] at hin
    rw [hin]
    simp only
    omega

/-- A record with a lifetime of a minute that is served again at the time it was
obtained. -/
theorem served_ttl_at_once :
    let c := Classifier.ofRules ⟨[], []⟩ []
    let observe := fun (log : List Observation) observation => log ++ [observation]
    let clock := fun _ : Nat => (0 : Int)
    let start := newResolver (some c) true true (some []) 16
    let query := ResolveInput.address (ascii "a.b.") .empty
      (.address (ascii "a.b.") 60 [192, 0, 2, 1])
    let run := List.foldl (Resolver.step observe clock) start
    ∀ served, ((run [query]).resolve observe clock query).result = .ok served →
      ∀ record ∈ served.addressRecords, (record.2.toNat * second : Int) ≤ 60 * second := by
  intro c observe clock start query run
  let request : Msg := { recursionDesired := true, question := [⟨ascii "a.b.", typeA, classINET⟩] }
  let answer : Msg := { request with
    recursionDesired := false, response := true
    answer := [.a ⟨ascii "a.b.", 60⟩ [192, 0, 2, 1]] }
  have hitem : (cacheKey (ascii "a.b.") typeA, (⟨answer, 60 * second⟩ : CacheEntry)) ∈
      (run [query]).cache.items := List.mem_singleton.mpr rfl
  obtain ⟨-, -, ⟨earlier, past, later, time, hcalls, hobtains⟩, hall⟩ :=
    served_ttl_within_iff observe clock (some c) true true (some []) 16 [query] query
      (show query.query = some (request, _) from rfl) hitem (by decide)
  have htime : time = 0 := by
    obtain ⟨_, _, m, -, -, -, heq, -⟩ := hobtains
    exact heq
  subst htime
  have hwithin := (hall earlier past later 0 hcalls hobtains _ 60 rfl (by decide)
    (by decide)).2.mpr (Int.le_refl _)
  exact fun served hserved record hrecord => hwithin served hserved record hrecord

/-- A record with a lifetime of a minute is obtained at time zero and served with the
whole minute 50 seconds later. -/
theorem served_ttl_outlives_source :
    let c := Classifier.ofRules ⟨[], []⟩ []
    let observe := fun (log : List Observation) observation => log ++ [observation]
    let clock := fun reading => if reading < 3 then 0 else 50 * second
    let start := newResolver (some c) true true (some []) 16
    let query := ResolveInput.address (ascii "a.b.") .empty
      (.address (ascii "a.b.") 60 [192, 0, 2, 1])
    let run := List.foldl (Resolver.step observe clock) start
    let first := start.resolve observe clock query
    let again := (run [query]).resolve observe clock query
    first.asked = [.domestic, .trusted] ∧ clock (first.resolver.reads - 1) = 0 ∧
      again.asked = [] ∧ clock (run [query]).reads = 50 * second ∧
      ∃ served record, again.result = .ok served ∧ served.addressRecords = [record] ∧
        record.2 = 60 ∧ ¬ (record.2.toNat * second : Int) ≤ 60 * second - (50 * second - 0) := by
  intro c observe clock start query run first again
  have hserved : again.result = .ok
      { response := true
        question := [⟨ascii "a.b.", typeA, classINET⟩]
        answer := [.a ⟨ascii "a.b.", 60⟩ [192, 0, 2, 1]] } := rfl
  exact ⟨rfl, rfl, rfl, rfl, _, _, hserved, rfl, rfl, by decide⟩

end Served

end Hy2Route.DNSProxy
