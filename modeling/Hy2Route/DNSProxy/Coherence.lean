import Hy2Route.DNSProxy.Provenance
import Hy2Route.Policy.LearningRun

/-!
# The cache and the learned routes

An answer with addresses is learned and stored at once, each with its own expiry.
While every answer is learned for at least as long as it is stored, whatever the
cache still serves is reported by the learning table under the action its name
was resolved with. The two expiries differ for a lifetime of zero, which is
learned for half a minute and stored for a minute, and a name that does not
normalize is stored without being learned.
-/

namespace Hy2Route.DNSProxy

open Foundation Policy

/-- The learning table as the learner of a resolver. -/
def learnInto (table : LearningTable) (observation : Observation) : LearningTable :=
  (table.observe observation).1

/-- A resolver together with the action under which each name was last resolved. -/
structure Traced where
  resolver : Resolver LearningTable
  actions : CacheKey → Option Action

def newTraced (c : Classifier) (domestic trusted : Bool) (cacheEntries capacity : Int) :
    Traced where
  resolver := newResolver (some c) domestic trusted (some (newLearningTable capacity)) cacheEntries
  actions := fun _ => none

/-- The actions after a call, by its query and the action it resolved the name with. -/
def record (actions : CacheKey → Option Action) :
    Option (Msg × Question) → Option Action → CacheKey → Option Action
  | some (_, question), some action => Function.update actions question.key (some action)
  | _, _ => actions

@[simp] theorem record_none (actions : CacheKey → Option Action) (query : Option (Msg × Question)) :
    record actions query none = actions := by
  cases query <;> rfl

def Traced.step (clock : Nat → Int) (s : Traced) (input : ResolveInput) : Traced where
  resolver := s.resolver.step learnInto clock input
  actions := record s.actions input.query (s.resolver.resolve learnInto clock input).action

section Steady

variable (clock : Nat → Int) (c : Classifier) (r : Resolver LearningTable)

/-- The observation of an answer, at the second reading of the call. -/
def answerObservation (question : Question) (response : Msg) (action : Action) : Observation where
  domain := (c.domain question.name).domain
  action := action
  ips := (responseARecords response).1
  expires := clock (r.reads + 1) + learnTTL response

/-- What an answer with addresses needs to be learned as long as it is stored. -/
structure Lasting (table : LearningTable) (question : Question) (response : Msg)
    (action : Action) : Prop where
  /-- The name can be learned. -/
  normal : ∃ name, normalizeDomain question.name = .ok name
  /-- The lifetime is not zero. -/
  ttl_pos : 0 < (responseARecords response).2
  /-- The answer is learned and stored at the same time. -/
  instant : clock (r.reads + 2) = clock (r.reads + 1)
  /-- The observation does not expire at the zero time. -/
  expiry : clock (r.reads + 1) + learnTTL response ≠ 0
  /-- No other spelling of the name, with or without the final dot, is stored with
  one of the addresses for longer. -/
  spellings : ∀ key entry, (key, entry) ∈ r.cache.items → key ≠ question.key →
    trimSuffix key.name [dot] = trimSuffix (toLower question.name) [dot] →
    (∃ ip, entry.response.HasA ip ∧ response.HasA ip) →
    entry.expires ≤ clock (r.reads + 1) + learnTTL response
  /-- The table has room for all observed keys. -/
  room : ((table.items.map Prod.fst).toFinset ∪
    (answerObservation clock c r question response action).keys.toFinset).card ≤ table.capacity

/-- Every answer with addresses that the call takes from an upstream lasts. -/
def Steady (input : ResolveInput) : Prop :=
  ∀ request question table asked response action, input.query = some (request, question) →
    ¬ r.cache.Serves question.name question.qtype (clock r.reads) → r.learner = some table →
    choose c (c.domain question.name) input.domestic input.trusted =
      (asked, .ok (response, action)) →
    (responseARecords response).1 ≠ [] →
    Lasting clock c r table question response action

end Steady

/-! ## What is learned with an answer -/

theorem domain_of_normal {data : Dataset} {rules : List RuleConfig} {domain name : Bytes}
    (h : normalizeDomain domain = .ok name) :
    ((Classifier.ofRules data rules).domain domain).domain = name := by
  have hd := Classifier.domain_decision data rules domain
  generalize (Classifier.ofRules data rules).domain domain = decision at hd
  cases hd with
  | malformed err failed =>
      rw [failed] at h
      cases h
  | explicit name' normal _ _ _ _ => exact Except.ok.inj (normal.symm.trans h)
  | china name' normal _ _ => exact Except.ok.inj (normal.symm.trans h)
  | default name' normal _ _ => exact Except.ok.inj (normal.symm.trans h)

/-- An answer is taken under a known action. -/
theorem choose_action_known {data : Dataset} {rules : List RuleConfig} {name : Bytes}
    {domestic trusted : Reply} {asked : List Upstream} {response : Msg} {action : Action}
    (h : choose (.ofRules data rules) ((Classifier.ofRules data rules).domain name) domestic
      trusted = (asked, .ok (response, action))) :
    action = .direct ∨ action = .proxy := by
  cases haction : ((Classifier.ofRules data rules).domain name).action with
  | proxy => exact (choose_ok_of_proxy haction h).imp And.left And.left
  | direct =>
      have hd := Classifier.domain_decision data rules name
      generalize (Classifier.ofRules data rules).domain name = decision at hd h haction
      cases hd <;> cases haction
      all_goals
        simp only [choose, if_true] at h
        exact Or.inl (exchange_map_ok (Prod.mk.inj h).2).2
  | unknown =>
      have hd := Classifier.domain_decision data rules name
      generalize (Classifier.ofRules data rules).domain name = decision at hd h haction
      cases hd with
      | explicit name' normal action known covered proxy_iff => exact absurd haction known
      | malformed err failed => cases haction
      | china name' normal uncovered covered => cases haction
      | default name' normal uncovered foreign => cases haction

section Answer

variable {clock : Nat → Int} {data : Dataset} {rules : List RuleConfig}
  {r : Resolver LearningTable} {table : LearningTable} {question : Question} {response : Msg}
  {action : Action}

/-- The keys that a lasting answer touches are those of its addresses. -/
theorem Lasting.mem_keys
    (h : Lasting clock (.ofRules data rules) r table question response action)
    (hknown : action = .direct ∨ action = .proxy) (key : ObservationKey) :
    key ∈ (answerObservation clock (.ofRules data rules) r question response action).keys ↔
      key.domain = trimSuffix (toLower question.name) [dot] ∧ key.action = action ∧
        response.HasA key.ip := by
  obtain ⟨name, hname⟩ := h.normal
  have htrim := ((normalizeDomain_ok_iff _ _).mp hname).1
  have haction : ¬ (action ≠ .direct ∧ action ≠ .proxy) := by
    rintro ⟨h₁, h₂⟩
    exact hknown.elim h₁ h₂
  have hall (ip : Addr) (hip : ip ∈ (responseARecords response).1) :
      (!ip.is4 || ip.is4In6) = false := by
    obtain ⟨bits, rfl⟩ := Addr.eq_v4_of_is4 (mem_responseARecords.mp hip).is4
    rfl
  have hrecorded (ip : Addr) :
      ip ∈ recordedIPs (responseARecords response).1 [] ↔ response.HasA ip := by
    rw [← mem_responseARecords]
    exact ⟨mem_of_mem_recordedIPs, fun hip => mem_recordedIPs hall hip List.not_mem_nil⟩
  simp only [answerObservation, Observation.keys, if_neg haction, if_neg h.expiry,
    domain_of_normal hname, normalizeDomain_normal hname, List.mem_map, hrecorded, ← htrim]
  constructor
  · rintro ⟨ip, hip, rfl⟩
    exact ⟨rfl, rfl, hip⟩
  · rintro ⟨hdomain, haction, hip⟩
    exact ⟨key.ip, hip, by rw [← hdomain, ← haction]⟩

/-- After a lasting answer the table holds its addresses until its expiry, and
keeps every other key. -/
theorem Lasting.mem_items
    (h : Lasting clock (.ofRules data rules) r table question response action)
    (hsound : table.Sound) :
    let observation := answerObservation clock (.ofRules data rules) r question response action
    (∀ key ∈ observation.keys, (key, observation.expires) ∈ (learnInto table observation).items) ∧
      ∀ item ∈ table.items, item.1 ∉ observation.keys →
        item ∈ (learnInto table observation).items := by
  intro observation
  obtain ⟨-, -, -, hitems⟩ := LearningTable.observe_spec hsound observation
  rw [learnInto, hitems]
  exact mem_touchKeys_of_room observation.keys hsound.linked.nodup_items hsound.bounded h.room

/-- A lasting answer is learned for as long as it is stored. -/
theorem Lasting.cacheTTL_eq
    (h : Lasting clock (.ofRules data rules) r table question response action) :
    clock (r.reads + 2) + cacheTTL response =
      (answerObservation clock (.ofRules data rules) r question response action).expires := by
  calc clock (r.reads + 2) + cacheTTL response
      = clock (r.reads + 1) + cacheTTL response := by rw [h.instant]
    _ = clock (r.reads + 1) + learnTTL response := by
        rw [cacheTTL, if_neg (not_le.mpr h.ttl_pos)]
        rfl

end Answer

/-! ## The invariant -/

/-- The table holds an address of the name under the action until some time. -/
def Learned (table : LearningTable) (key : CacheKey) (action : Action) (ip : Addr)
    (expires : Int) : Prop :=
  ∃ later, (⟨trimSuffix key.name [dot], action, ip⟩, later) ∈ table.items ∧ expires ≤ later

/-- Every stored answer is learned, under the action of its name, for as long as
it is stored. -/
structure Carried (c : Classifier) (s : Traced) (table : LearningTable) : Prop where
  cache_sound : s.resolver.cache.Sound
  classifier : s.resolver.classifier = some c
  learner : s.resolver.learner = some table
  table_sound : table.Sound
  carried : ∀ key entry ip, (key, entry) ∈ s.resolver.cache.items → entry.response.HasA ip →
    ∃ action, s.actions key = some action ∧ (action = .direct ∨ action = .proxy) ∧
      Learned table key action ip entry.expires

theorem newTraced_carried (c : Classifier) (domestic trusted : Bool)
    (cacheEntries capacity : Int) :
    Carried c (newTraced c domestic trusted cacheEntries capacity) (newLearningTable capacity) where
  cache_sound := Cache.newCache_sound cacheEntries
  classifier := rfl
  learner := rfl
  table_sound := newLearningTable_sound capacity
  carried := by
    intro key entry ip hmem
    exact absurd hmem (by simp [newTraced, newResolver])

section Step

variable {clock : Nat → Int} {data : Dataset} {rules : List RuleConfig}

/-- The learner after an answer: unchanged without addresses, and otherwise the
table with the observation of the answer. -/
theorem learn_answer {r learned : Resolver LearningTable} {cache : Cache} {c : Classifier}
    {question : Question} {request response : Msg} {action : Action}
    {observed : Option Observation} {table : LearningTable} (hlearner : r.learner = some table)
    (hknown : action = .direct ∨ action = .proxy)
    (h : (r.looked cache).learn learnInto clock (c.domain question.name).domain action
      (response.answerTo request) = (learned, observed)) :
    ((responseARecords response).1 = [] → learned.learner = some table) ∧
      ((responseARecords response).1 ≠ [] → learned.reads = r.reads + 2 ∧
        learned.learner =
          some (learnInto table (answerObservation clock c r question response action))) := by
  have hunknown : action ≠ .unknown := by
    rintro rfl
    simp at hknown
  constructor
  · intro hnone
    simp only [Resolver.learn, Resolver.observation, responseARecords_answerTo, hnone, true_or,
      or_true, if_true, Prod.mk.injEq] at h
    rw [← h.1]
    exact hlearner
  · intro hsome
    simp only [Resolver.learn, Resolver.observation, responseARecords_answerTo, hsome, hunknown,
      Resolver.looked, hlearner, Option.isNone_some, Bool.false_eq_true, or_self, if_false,
      Option.map_some, Prod.mk.injEq] at h
    rw [← h.1]
    exact ⟨rfl, rfl⟩

/-- A call that neither stores nor learns keeps the invariant. -/
theorem Carried.of_kept {c : Classifier} {s : Traced} {table : LearningTable}
    (h : Carried c s table) {r : Resolver LearningTable} (hkept : s.resolver.Kept r)
    (query : Option (Msg × Question)) : Carried c ⟨r, record s.actions query none⟩ table where
  cache_sound := hkept.sound
  classifier := hkept.classifier.trans h.classifier
  learner := hkept.learner.trans h.learner
  table_sound := h.table_sound
  carried := by
    intro key entry ip hmem hip
    rw [record_none]
    exact h.carried key entry ip (hkept.items _ hmem) hip

/-- Learning a lasting answer keeps what is learned for the other stored answers. -/
theorem Carried.learned_of_lasting {s : Traced} {table : LearningTable}
    (h : Carried (.ofRules data rules) s table) {question : Question} {response : Msg}
    {action : Action} (hknown : action = .direct ∨ action = .proxy)
    (hlasting : Lasting clock (.ofRules data rules) s.resolver table question response action)
    {key : CacheKey} {entry : CacheEntry} {ip : Addr}
    (hmem : (key, entry) ∈ s.resolver.cache.items) (hkey : key ≠ question.key)
    (hip : entry.response.HasA ip) {stored : Action}
    (hlearned : Learned table key stored ip entry.expires) :
    Learned (learnInto table (answerObservation clock (.ofRules data rules) s.resolver question
      response action)) key stored ip entry.expires := by
  obtain ⟨later, hitem, hle⟩ := hlearned
  obtain ⟨htouched, hkept⟩ := hlasting.mem_items h.table_sound
  by_cases hin : (⟨trimSuffix key.name [dot], stored, ip⟩ : ObservationKey) ∈
      (answerObservation clock (.ofRules data rules) s.resolver question response action).keys
  · -- Another spelling of the name refreshes the key, with its own expiry.
    obtain ⟨hname, -, hanswer⟩ := (hlasting.mem_keys hknown _).mp hin
    exact ⟨_, htouched _ hin, hlasting.spellings key entry hmem hkey hname ⟨ip, hip, hanswer⟩⟩
  · exact ⟨later, hkept _ hitem hin, hle⟩

/-- The state after an answer: the answer is stored, if at all, under its own key,
and the other keys keep what they had. -/
theorem Carried.of_answer {s : Traced} {table after : LearningTable}
    (h : Carried (.ofRules data rules) s table) {learned : Resolver LearningTable} {stored : Cache}
    {request : Msg} {question : Question} {response : Msg} {action : Action} {expires : Int}
    (hclassifier : learned.classifier = some (.ofRules data rules))
    (hlearner : learned.learner = some after) (hafter : after.Sound) (hsound : stored.Sound)
    (hstored : ∀ item ∈ stored.items,
      item = (question.key, ⟨response.answerTo request, expires⟩) ∨
        item ∈ s.resolver.cache.items ∧ item.1 ≠ question.key)
    (hknown : action = .direct ∨ action = .proxy)
    (hanswer : ∀ ip, response.HasA ip → Learned after question.key action ip expires)
    (hother : ∀ key entry ip stored, (key, entry) ∈ s.resolver.cache.items →
      key ≠ question.key → entry.response.HasA ip → Learned table key stored ip entry.expires →
      Learned after key stored ip entry.expires) :
    Carried (.ofRules data rules)
      ⟨learned.looked stored, record s.actions (some (request, question)) (some action)⟩ after where
  cache_sound := hsound
  classifier := hclassifier
  learner := hlearner
  table_sound := hafter
  carried := by
    intro key entry ip hmem hip
    rcases hstored _ hmem with heq | ⟨hold, hne⟩
    · cases heq
      exact ⟨action, by simp [record], hknown, hanswer ip hip⟩
    · obtain ⟨action', haction, hknown', hlearned⟩ := h.carried key entry ip hold hip
      refine ⟨action', ?_, hknown', hother key entry ip action' hold hne hip hlearned⟩
      exact (Function.update_of_ne hne _ _).trans haction

/-- An answer that lasts, if it has addresses, keeps the invariant, and is learned
beyond the time at which it is stored. -/
theorem Carried.answered {s : Traced} {table : LearningTable}
    (h : Carried (.ofRules data rules) s table) {learned : Resolver LearningTable} {stored : Cache}
    {request : Msg} {question : Question} {response : Msg} {action : Action}
    (hclassifier : learned.classifier = some (.ofRules data rules)) (hsound : stored.Sound)
    (hstored : ∀ item ∈ stored.items,
      item = (question.key,
          ⟨response.answerTo request, clock learned.reads + cacheTTL response⟩) ∨
        item ∈ s.resolver.cache.items ∧ item.1 ≠ question.key)
    (hknown : action = .direct ∨ action = .proxy)
    (hlearn : ((responseARecords response).1 = [] → learned.learner = some table) ∧
      ((responseARecords response).1 ≠ [] → learned.reads = s.resolver.reads + 2 ∧
        learned.learner = some (learnInto table
          (answerObservation clock (.ofRules data rules) s.resolver question response action))))
    (hlasting : (responseARecords response).1 ≠ [] →
      Lasting clock (.ofRules data rules) s.resolver table question response action) :
    ∃ after, Carried (.ofRules data rules)
        ⟨learned.looked stored, record s.actions (some (request, question)) (some action)⟩ after ∧
      ∀ ip, response.HasA ip →
        Learned after question.key action ip (clock learned.reads + 1) := by
  by_cases haddresses : (responseARecords response).1 = []
  · have hempty (ip : Addr) : ¬ response.HasA ip := by
      rw [← mem_responseARecords, haddresses]
      exact List.not_mem_nil
    refine ⟨table, ?_, fun ip hip => absurd hip (hempty ip)⟩
    exact h.of_answer hclassifier (hlearn.1 haddresses) h.table_sound hsound hstored hknown
      (fun ip hip => absurd hip (hempty ip)) fun _ _ _ _ _ _ _ hlearned => hlearned
  · obtain ⟨hreads, hlearner⟩ := hlearn.2 haddresses
    have hlasts := hlasting haddresses
    obtain ⟨htouched, -⟩ := hlasts.mem_items h.table_sound
    obtain ⟨hafter, -⟩ := LearningTable.observe_spec h.table_sound
      (answerObservation clock (.ofRules data rules) s.resolver question response action)
    have hanswer (ip : Addr) (hip : response.HasA ip) {expires : Int}
        (hle : expires ≤ clock (s.resolver.reads + 1) + learnTTL response) :
        Learned (learnInto table (answerObservation clock (.ofRules data rules) s.resolver
          question response action)) question.key action ip expires :=
      ⟨_, htouched _ ((hlasts.mem_keys hknown _).mpr ⟨rfl, rfl, hip⟩), hle⟩
    refine ⟨_, h.of_answer hclassifier hlearner hafter hsound hstored hknown ?_ ?_,
      fun ip hip => hanswer ip hip ?_⟩
    · exact fun ip hip => hanswer ip hip (hreads ▸ hlasts.cacheTTL_eq.le)
    · exact fun _ _ _ _ hmem hkey hip => h.learned_of_lasting hknown hlasts hmem hkey hip
    · have hpos : 30 * second ≤ learnTTL response := le_clampDuration (by decide)
      have hone : 1 ≤ 30 * second := by decide
      calc clock learned.reads + 1
          = clock (s.resolver.reads + 1) + 1 := by rw [hreads, hlasts.instant]
        _ ≤ clock (s.resolver.reads + 1) + learnTTL response := by omega

/-- A steady call keeps the invariant, and what it returns is learned beyond the
last reading of the call. -/
theorem Carried.step {s : Traced} {table : LearningTable}
    (h : Carried (.ofRules data rules) s table) {input : ResolveInput}
    (hsteady : Steady clock (.ofRules data rules) s.resolver input) :
    ∃ after, Carried (.ofRules data rules) (s.step clock input) after ∧
      ∀ response ip, (s.resolver.resolve learnInto clock input).result = .ok response →
        response.HasA ip →
        ∃ request question action, input.query = some (request, question) ∧
          (s.step clock input).actions question.key = some action ∧
          (action = .direct ∨ action = .proxy) ∧
          Learned after question.key action ip
            (clock ((s.step clock input).resolver.reads - 1) + 1) := by
  have hres := Resolver.resolve_spec learnInto clock h.cache_sound input
  have hkept := hres.kept learnInto clock h.cache_sound
  unfold Traced.step Resolver.step
  generalize s.resolver.resolve learnInto clock input = o at hres hkept
  cases hres with
  | rejected rcode unasked =>
      refine ⟨table, h.of_kept (hkept rfl) input.query, ?_⟩
      rintro response ip hresult ⟨hdr, raw, hanswer, -⟩
      cases hresult
      rw [answer_errorReply] at hanswer
      exact absurd hanswer List.not_mem_nil
  | hit request question query cache sound entry mem live items =>
      refine ⟨table, h.of_kept (hkept rfl) input.query, ?_⟩
      intro response ip hresult hip
      cases hresult
      obtain ⟨action, haction, hknown, later, hitem, hle⟩ := h.carried _ _ ip mem hip
      refine ⟨request, question, action, query, by simpa using haction, hknown, later, hitem, ?_⟩
      change clock s.resolver.reads + 1 ≤ later
      omega
  | unconfigured request question query cache sound items absent =>
      refine ⟨table, h.of_kept (hkept rfl) input.query, ?_⟩
      intro response ip hresult
      cases hresult
  | failed request question query cache sound items c configured asked err chosen =>
      refine ⟨table, h.of_kept (hkept rfl) input.query, ?_⟩
      intro response ip hresult
      cases hresult
  | answered request question query missed cache items c configured asked response action chosen
      learned observed learns stored sound stores =>
      obtain rfl : c = .ofRules data rules :=
        Option.some.inj (configured.symm.trans h.classifier)
      have hknown := choose_action_known chosen
      have hclassifier : learned.classifier = some (.ofRules data rules) := by
        have hlearned := Resolver.learn_classifier learnInto clock (s.resolver.looked cache)
          ((Classifier.ofRules data rules).domain question.name).domain action
          (response.answerTo request)
        rw [learns] at hlearned
        exact hlearned.trans configured
      have hstored (item : CacheKey × CacheEntry) (hmem : item ∈ stored.items) :=
        Resolver.mem_stored items stores hmem
      obtain ⟨after, hafter, hreturned⟩ := h.answered hclassifier sound hstored hknown
        (learn_answer h.learner hknown learns)
        (hsteady request question table asked response action query missed h.learner chosen)
      rw [query]
      refine ⟨after, hafter, ?_⟩
      intro response' ip hresult hip
      cases hresult
      exact ⟨request, question, action, rfl, by simp [record], hknown, hreturned ip hip⟩

/-- In a run of steady calls, whenever a call returns an answer with an address,
from an upstream or from the cache, the learning table still reports the action
that the name was resolved with. -/
theorem cached_answers_stay_learned {c : Classifier} (hnew : new data rules = .ok c)
    (clock : Nat → Int) (domestic trusted : Bool) (cacheEntries capacity : Int)
    (calls : List ResolveInput) (input : ResolveInput)
    (hsteady : Allowed (Traced.step clock) (fun s input => Steady clock c s.resolver input)
      (newTraced c domestic trusted cacheEntries capacity) (calls ++ [input])) :
    let s := calls.foldl (Traced.step clock)
      (newTraced c domestic trusted cacheEntries capacity)
    let after := s.step clock input
    ∀ response ip, (s.resolver.resolve learnInto clock input).result = .ok response →
      response.HasA ip →
      ∃ request question action table, input.query = some (request, question) ∧
        after.actions question.key = some action ∧ after.resolver.learner = some table ∧
        (table.lookup ip (clock (after.resolver.reads - 1))).2.reports action = true := by
  obtain rfl := new_ok hnew
  intro s after response ip hresult hip
  obtain ⟨hcalls, hinput, -⟩ := allowed_append.mp hsteady
  have hstep (s : Traced) (input : ResolveInput)
      (hsteady : Steady clock (.ofRules data rules) s.resolver input)
      (h : ∃ table, Carried (.ofRules data rules) s table) :
      ∃ table, Carried (.ofRules data rules) (s.step clock input) table := by
    obtain ⟨table, hcarried⟩ := h
    obtain ⟨after, hafter, -⟩ := hcarried.step hsteady
    exact ⟨after, hafter⟩
  obtain ⟨table, hcarried⟩ := hcalls.invariant hstep
    ⟨_, newTraced_carried _ domestic trusted cacheEntries capacity⟩
  obtain ⟨table', hafter, hreturned⟩ := hcarried.step hinput
  obtain ⟨request, question, action, hquery, haction, hknown, later, hitem, hle⟩ :=
    hreturned response ip hresult hip
  refine ⟨request, question, action, table', hquery, haction, hafter.learner, ?_⟩
  exact LearningTable.lookup_reports hafter.table_sound hitem (Int.lt_of_add_one_le hle) hknown

/-- An answer with a lifetime of zero is served from the cache after its
observation has expired, and an answer for a name that does not normalize is
returned without being learned. -/
theorem served_answers_are_not_learned :
    let c := Classifier.ofRules ⟨[], []⟩ []
    let clock : Nat → Int := fun n => if n < 3 then second else 32 * second
    let start := newTraced c true true 16 16
    let call := fun name ttl =>
      ResolveInput.address name .empty (.address name ttl [203, 0, 113, 8])
    let zero := call (ascii "example.org.") 0
    let s := start.step clock zero
    let served := (s.resolver.resolve learnInto clock zero)
    let unnormal := call (ascii "_dns.example.org.") 60
    let fresh := (start.resolver.resolve learnInto clock unnormal)
    Nondecreasing clock ∧
      (served.result.toOption.map (·.answer) =
          some [.a ⟨ascii "example.org.", 0⟩ [203, 0, 113, 8]] ∧ served.asked = [] ∧
        (s.step clock zero).actions ⟨ascii "example.org.", typeA⟩ = some .proxy ∧
        served.resolver.learner.map (fun table =>
          (table.lookup (.v4 0xCB007108#32) (clock 3)).2.reports .proxy) = some false) ∧
      fresh.result.toOption.map (·.answer) =
          some [.a ⟨ascii "_dns.example.org.", 60⟩ [203, 0, 113, 8]] ∧ fresh.action = some .proxy ∧
        fresh.resolver.learner.map (fun table =>
          (table.lookup (.v4 0xCB007108#32) (clock 2)).2.reports .proxy) = some false := by
  intro c clock start call zero s served unnormal fresh
  refine ⟨?_, by decide +kernel⟩
  intro a b hab
  change (if a < 3 then second else 32 * second) ≤ (if b < 3 then second else 32 * second)
  have hsecond : second ≤ 32 * second := by decide
  split_ifs <;> omega

/-- An answer with a lifetime of five minutes, served from the cache after one. -/
theorem served_answer_is_learned :
    let c := Classifier.ofRules ⟨[], []⟩ []
    let clock : Nat → Int := fun n => if n < 3 then second else 61 * second
    let start := newTraced c true true 16 16
    let input := ResolveInput.address (ascii "example.org.") .empty
      (.address (ascii "example.org.") 300 [203, 0, 113, 8])
    let after := ([input].foldl (Traced.step clock) start).step clock input
    ∃ request question action table, input.query = some (request, question) ∧
      after.actions question.key = some action ∧ after.resolver.learner = some table ∧
      (table.lookup (.v4 0xCB007108#32) (clock (after.resolver.reads - 1))).2.reports action =
        true := by
  intro c clock start input after
  have hnew : new ⟨[], []⟩ [] = .ok c := rfl
  have hfirst : Steady clock c start.resolver input := by
    intro request question table asked response action hquery _ hlearner hchosen _
    cases hquery
    cases hlearner
    cases hchosen
    exact
      { normal := ⟨ascii "example.org", rfl⟩
        ttl_pos := by decide
        instant := rfl
        expiry := by decide
        spellings := fun key entry hmem => absurd hmem List.not_mem_nil
        room := by decide +kernel }
  have hsecond : Steady clock c (start.step clock input).resolver input := by
    intro request question table asked response action hquery hmissed
    cases hquery
    exact absurd ⟨_, rfl, by decide +kernel⟩ hmissed
  exact cached_answers_stay_learned hnew clock true true 16 16 [input] input
    ⟨hfirst, hsecond, trivial⟩ _ (.v4 0xCB007108#32) rfl
    ⟨_, _, List.mem_singleton_self _, rfl, rfl⟩

end Step

end Hy2Route.DNSProxy
