import Hy2Route.DNSProxy.Cache
import Hy2Route.Policy.Classifier
import Hy2Route.Policy.Learning

/-!
# The resolver

A query for an address is answered from the cache, or by the upstream that the
decision for its name selects; a name without a decision asks both upstreams,
and the domestic answer is taken only if all its addresses are in the dataset.
The clock is read once by each part that uses the time, so a call reads it up to
three times, and the replies of the upstreams are inputs of the call.
-/

namespace Hy2Route.DNSProxy

open Foundation Policy

inductive Upstream where
  | domestic
  | trusted
  deriving DecidableEq

/-- What an upstream returns: an error, nothing at all, or a message. -/
inductive Reply where
  | failed (err : String)
  | empty
  | answered (response : Msg)
  deriving DecidableEq

inductive ResolveError where
  /-- DNS resolver is not configured -/
  | notConfigured
  /-- unsupported DNS decision -/
  | unsupportedDecision
  /-- DNS upstream returned no response -/
  | noResponse
  | upstream (err : String)
  /-- The front of an empty list is dereferenced. -/
  | nilFront
  deriving DecidableEq

/-- The upstreams are only present or absent; the learner has any state. -/
structure Resolver (σ : Type) where
  classifier : Option Classifier
  domestic : Bool
  trusted : Bool
  learner : Option σ
  cache : Cache
  reads : Nat

structure ResolveInput where
  request : Option Msg
  domestic : Reply
  trusted : Reply

/-- The state and result of a call, the upstreams that it asked, the observation
that it made and the action under which it resolved the name. -/
structure Outcome (σ : Type) where
  resolver : Resolver σ
  result : Except ResolveError Msg
  asked : List Upstream
  observed : Option Observation
  action : Option Action

def newResolver {σ : Type} (classifier : Option Classifier) (domestic trusted : Bool)
    (learner : Option σ) (cacheEntries : Int) : Resolver σ where
  classifier := classifier
  domestic := domestic
  trusted := trusted
  learner := learner
  cache := newCache cacheEntries
  reads := 0

def exchange : Reply → Except ResolveError Msg
  | .failed err => .error (.upstream err)
  | .empty => .error .noResponse
  | .answered response => .ok response

def domesticAnswerIsChina (c : Classifier) (response : Msg) : Bool :=
  let addresses := (responseARecords response).1
  if addresses = [] then false
  else addresses.all fun address => (c.ip address).source = .chinaIP

/-- An exchange without an error has a message, so a trusted exchange that is not
usable always has its own error. -/
def resolveUnknown (c : Classifier) (domestic trusted : Reply) :
    Except ResolveError (Msg × Action) :=
  match exchange domestic, exchange trusted with
  | .ok response, trusted =>
      if domesticAnswerIsChina c response then .ok (response, .direct)
      else trusted.map (·, .proxy)
  | .error _, trusted => trusted.map (·, .proxy)

/-- The upstreams that a decision asks, and the message and action it takes. -/
def choose (c : Classifier) (decision : Decision) (domestic trusted : Reply) :
    List Upstream × Except ResolveError (Msg × Action) :=
  match decision.source with
  | .default => ([.domestic, .trusted], resolveUnknown c domestic trusted)
  | .explicitDomain | .chinaDomain =>
      if decision.action = .direct then
        ([.domestic], (exchange domestic).map (·, decision.action))
      else ([.trusted], (exchange trusted).map (·, decision.action))
  | .explicitIP | .chinaIP => ([], .error .unsupportedDecision)

def learnTTL (response : Msg) : Int :=
  clampDuration (responseARecords response).2 (30 * second) (24 * hour)

def cacheTTL (response : Msg) : Int :=
  let ttl := (responseARecords response).2
  if ttl ≤ 0 then 60 * second else clampDuration ttl (30 * second) (24 * hour)

namespace Resolver

variable {σ : Type} (observe : σ → Observation → σ) (clock : Nat → Int)

/-- The observation that an answer is worth, if there is a learner. -/
def observation (r : Resolver σ) (domain : Bytes) (action : Action) (response : Msg) :
    Option Observation :=
  let addresses := (responseARecords response).1
  if r.learner.isNone ∨ addresses = [] ∨ action = .unknown then none
  else
    some
      { domain := domain
        action := action
        ips := addresses
        expires := clock r.reads + learnTTL response }

/-- The learner's own error is ignored. -/
def learn (r : Resolver σ) (domain : Bytes) (action : Action) (response : Msg) :
    Resolver σ × Option Observation :=
  match r.observation clock domain action response with
  | none => (r, none)
  | some observation =>
      ({ r with learner := r.learner.map (observe · observation), reads := r.reads + 1 },
        some observation)

def cacheResponse (r : Resolver σ) (question : Question) (response : Msg) : Option (Resolver σ) :=
  match r.cache.put question.name question.qtype response (clock r.reads + cacheTTL response) with
  | none => none
  | some cache => some { r with cache := cache, reads := r.reads + 1 }

/-- A query that the cache does not answer. -/
def resolveMiss (r : Resolver σ) (request : Msg) (question : Question) (domestic trusted : Reply) :
    Outcome σ :=
  match r.classifier with
  | none => ⟨r, .error .notConfigured, [], none, none⟩
  | some c =>
      if !r.domestic || !r.trusted then ⟨r, .error .notConfigured, [], none, none⟩
      else
        let decision := c.domain question.name
        match choose c decision domestic trusted with
        | (asked, .error err) => ⟨r, .error err, asked, none, none⟩
        | (asked, .ok (response, action)) =>
            let response := response.answerTo request
            let (r, observed) := r.learn observe clock decision.domain action response
            match r.cacheResponse clock question response with
            | none => ⟨r, .error .nilFront, asked, observed, some action⟩
            | some r => ⟨r, .ok response, asked, observed, some action⟩

def resolve (r : Resolver σ) (input : ResolveInput) : Outcome σ :=
  match input.request with
  | none => ⟨r, .ok (errorReply none rcodeFormatError), [], none, none⟩
  | some request =>
      match request.question with
      | [question] =>
          if question.qclass ≠ classINET then
            ⟨r, .ok (errorReply request rcodeFormatError), [], none, none⟩
          else if question.qtype ≠ typeA ∧ question.qtype ≠ typeAAAA then
            ⟨r, .ok (errorReply request rcodeNotImplemented), [], none, none⟩
          else if question.qtype = typeAAAA then
            ⟨r, .ok (errorReply request rcodeSuccess), [], none, none⟩
          else
            let (cache, hit) := r.cache.get question.name question.qtype (clock r.reads)
            let r := { r with cache := cache, reads := r.reads + 1 }
            match hit with
            | some response => ⟨r, .ok (response.answerTo request), [], none, none⟩
            | none => r.resolveMiss observe clock request question input.domestic input.trusted
      | _ => ⟨r, .ok (errorReply request rcodeFormatError), [], none, none⟩

/-- The resolver after a call. -/
def step (r : Resolver σ) (input : ResolveInput) : Resolver σ :=
  (r.resolve observe clock input).resolver

end Resolver

/-! ## What a call does -/

/-- The message and question of a query for addresses. -/
def ResolveInput.query (input : ResolveInput) : Option (Msg × Question) :=
  match input.request with
  | none => none
  | some request =>
      match request.question with
      | [question] =>
          if question.qclass = classINET ∧ question.qtype = typeA then some (request, question)
          else none
      | _ => none

theorem ResolveInput.query_eq_some {input : ResolveInput} {request : Msg} {question : Question}
    (h : input.query = some (request, question)) :
    input.request = some request ∧ request.question = [question] ∧
      question.qclass = classINET ∧ question.qtype = typeA := by
  unfold ResolveInput.query at h
  split at h
  · cases h
  · split at h
    · split_ifs at h with hquery
      cases h
      exact ⟨‹_›, ‹_›, hquery⟩
    · cases h

/-- A query for the addresses of a name, and what the upstreams reply. -/
def ResolveInput.address (name : Bytes) (domestic trusted : Reply) : ResolveInput where
  request := some { recursionDesired := true, question := [⟨name, typeA, classINET⟩] }
  domestic := domestic
  trusted := trusted

/-- A reply with one address record. -/
def Reply.address (name : Bytes) (ttl : UInt32) (addr : Bytes) : Reply :=
  .answered { response := true, answer := [.a ⟨name, ttl⟩ addr] }

def Question.key (question : Question) : CacheKey := cacheKey question.name question.qtype

namespace Resolver

variable {σ : Type} (observe : σ → Observation → σ) (clock : Nat → Int)

/-- The resolver with the cache that a lookup leaves. -/
def looked (r : Resolver σ) (cache : Cache) : Resolver σ :=
  { r with cache := cache, reads := r.reads + 1 }

/-- The ways a call ends. -/
inductive Resolution (r : Resolver σ) (input : ResolveInput) : Outcome σ → Prop where
  | rejected (rcode : Nat) (unasked : input.query = none) :
      Resolution r input ⟨r, .ok (errorReply input.request rcode), [], none, none⟩
  | hit (request : Msg) (question : Question) (query : input.query = some (request, question))
      (cache : Cache) (sound : cache.Sound) (entry : CacheEntry)
      (mem : (question.key, entry) ∈ r.cache.items) (live : clock r.reads < entry.expires)
      (items : cache.items = removeKey question.key r.cache.items ++ [(question.key, entry)]) :
      Resolution r input
        ⟨r.looked cache, .ok (entry.response.answerTo request), [], none, none⟩
  | unconfigured (request : Msg) (question : Question)
      (query : input.query = some (request, question)) (cache : Cache) (sound : cache.Sound)
      (items : cache.items = removeKey question.key r.cache.items)
      (absent : r.classifier = none ∨ r.domestic = false ∨ r.trusted = false) :
      Resolution r input ⟨r.looked cache, .error .notConfigured, [], none, none⟩
  | failed (request : Msg) (question : Question) (query : input.query = some (request, question))
      (cache : Cache) (sound : cache.Sound)
      (items : cache.items = removeKey question.key r.cache.items)
      (c : Classifier) (configured : r.classifier = some c) (asked : List Upstream)
      (err : ResolveError)
      (chosen : choose c (c.domain question.name) input.domestic input.trusted =
        (asked, .error err)) :
      Resolution r input ⟨r.looked cache, .error err, asked, none, none⟩
  | answered (request : Msg) (question : Question) (query : input.query = some (request, question))
      (missed : ¬ r.cache.Serves question.name question.qtype (clock r.reads))
      (cache : Cache) (items : cache.items = removeKey question.key r.cache.items)
      (c : Classifier) (configured : r.classifier = some c) (asked : List Upstream)
      (response : Msg) (action : Action)
      (chosen : choose c (c.domain question.name) input.domestic input.trusted =
        (asked, .ok (response, action)))
      (learned : Resolver σ) (observed : Option Observation)
      (learns : (r.looked cache).learn observe clock (c.domain question.name).domain action
        (response.answerTo request) = (learned, observed))
      (stored : Cache) (sound : stored.Sound)
      (stores : stored.items =
        if 0 < clock learned.reads + cacheTTL response then
          touchItems cache.capacity question.key
            ⟨response.answerTo request, clock learned.reads + cacheTTL response⟩ cache.items
        else cache.items) :
      Resolution r input
        ⟨learned.looked stored, .ok (response.answerTo request), asked, observed, some action⟩

theorem learn_cache (r : Resolver σ) (domain : Bytes) (action : Action) (response : Msg) :
    (r.learn observe clock domain action response).1.cache = r.cache := by
  unfold learn
  split <;> rfl

theorem learn_classifier (r : Resolver σ) (domain : Bytes) (action : Action) (response : Msg) :
    (r.learn observe clock domain action response).1.classifier = r.classifier := by
  unfold learn
  split <;> rfl

theorem learn_observed (r : Resolver σ) (domain : Bytes) (action : Action) (response : Msg) :
    (r.learn observe clock domain action response).2 =
      r.observation clock domain action response := by
  unfold learn
  split <;> simp_all

theorem observation_eq_some {r : Resolver σ} {domain : Bytes} {action : Action} {response : Msg}
    {observation : Observation}
    (h : r.observation clock domain action response = some observation) :
    observation = ⟨domain, action, (responseARecords response).1,
      clock r.reads + learnTTL response⟩ := by
  simp only [Resolver.observation] at h
  split_ifs at h
  exact (Option.some.inj h).symm

/-- Storing an answer never fails. -/
theorem cacheResponse_spec {r : Resolver σ} (h : r.cache.Sound)
    (question : Question) (response : Msg) :
    ∃ stored, r.cacheResponse clock question response = some (r.looked stored) ∧ stored.Sound ∧
      stored.items =
        if 0 < clock r.reads + cacheTTL response then
          touchItems r.cache.capacity question.key
            ⟨response, clock r.reads + cacheTTL response⟩ r.cache.items
        else r.cache.items := by
  obtain ⟨stored, hput, hsound, hitems⟩ := Cache.put_spec h question.name question.qtype response
    (clock r.reads + cacheTTL response)
  exact ⟨stored, by simp only [cacheResponse, hput, looked], hsound, hitems⟩

theorem resolve_of_unasked (r : Resolver σ) {input : ResolveInput} (h : input.query = none) :
    ∃ rcode, r.resolve observe clock input =
      ⟨r, .ok (errorReply input.request rcode), [], none, none⟩ := by
  unfold ResolveInput.query at h
  unfold resolve
  cases hrequest : input.request with
  | none => exact ⟨_, rfl⟩
  | some request =>
      simp only [hrequest] at h ⊢
      split
      · rename_i question hquestion
        simp only [hquestion] at h
        split_ifs with hclass htype haaaa
        · exact ⟨_, rfl⟩
        · exact ⟨_, rfl⟩
        · exact ⟨_, rfl⟩
        · have ha : question.qtype = typeA := not_not.mp fun hne => htype ⟨hne, haaaa⟩
          simp [not_not.mp hclass, ha] at h
      · exact ⟨_, rfl⟩

theorem resolve_of_query (r : Resolver σ) {input : ResolveInput} {request : Msg}
    {question : Question} (h : input.query = some (request, question)) :
    r.resolve observe clock input =
      match r.cache.get question.name question.qtype (clock r.reads) with
      | (cache, some response) =>
          ⟨r.looked cache, .ok (response.answerTo request), [], none, none⟩
      | (cache, none) =>
          (r.looked cache).resolveMiss observe clock request question input.domestic
            input.trusted := by
  obtain ⟨hrequest, hquestion, hclass, htype⟩ := ResolveInput.query_eq_some h
  have haaaa : ¬ typeA = typeAAAA := by decide
  simp only [resolve, hrequest, hquestion, hclass, htype, ne_eq, not_true_eq_false, if_false,
    false_and, haaaa, looked]
  rcases r.cache.get question.name typeA (clock r.reads) with ⟨cache, _ | response⟩ <;> rfl

/-- Every call of a resolver with a sound cache ends in one of the ways. -/
theorem resolve_spec {r : Resolver σ} (h : r.cache.Sound) (input : ResolveInput) :
    r.Resolution observe clock input (r.resolve observe clock input) := by
  cases hquery : input.query with
  | none =>
      obtain ⟨rcode, hresolve⟩ := resolve_of_unasked observe clock r hquery
      rw [hresolve]
      exact .rejected rcode hquery
  | some asked =>
      obtain ⟨request, question⟩ := asked
      obtain ⟨hsound, hlookup⟩ := Cache.get_spec h question.name question.qtype (clock r.reads)
      have hserves := r.cache.get_eq_none_iff question.name question.qtype (clock r.reads)
      rw [resolve_of_query observe clock r hquery]
      generalize r.cache.get question.name question.qtype (clock r.reads) = looked
        at hsound hlookup hserves
      obtain ⟨cache, found⟩ := looked
      rcases hlookup with ⟨entry, hmem, hlive, hfound, hitems⟩ | ⟨hfound, hitems⟩
      · subst hfound
        exact .hit request question hquery cache hsound entry hmem hlive hitems
      · subst hfound
        have hmissed := hserves.mp rfl
        simp only [resolveMiss]
        cases hc : (r.looked cache).classifier with
        | none => exact .unconfigured request question hquery cache hsound hitems (Or.inl hc)
        | some c =>
            simp only
            split_ifs with habsent
            · refine .unconfigured request question hquery cache hsound hitems (Or.inr ?_)
              simpa [looked] using habsent
            · rcases hchosen : choose c (c.domain question.name) input.domestic input.trusted with
                ⟨asked, err | ⟨response, action⟩⟩
              · exact .failed request question hquery cache hsound hitems c hc asked err hchosen
              · rcases hlearn : (r.looked cache).learn observe clock (c.domain question.name).domain
                  action (response.answerTo request) with ⟨learned, observed⟩
                have hcache : learned.cache = cache := by
                  have hlooked := learn_cache observe clock (r.looked cache)
                    (c.domain question.name).domain action (response.answerTo request)
                  rwa [hlearn] at hlooked
                obtain ⟨stored, hstore, hstored, hstores⟩ := cacheResponse_spec clock
                  (r := learned) (hcache.symm ▸ hsound) question (response.answerTo request)
                simp only [hlearn, hstore]
                rw [hcache] at hstores
                exact .answered request question hquery hmissed cache hitems c hc asked response
                  action hchosen learned observed hlearn stored hstored hstores

/-- The second resolver has the parts of the first one, with at most fewer items
in its cache. -/
structure Kept (r after : Resolver σ) : Prop where
  sound : after.cache.Sound
  classifier : after.classifier = r.classifier
  learner : after.learner = r.learner
  items : ∀ item ∈ after.cache.items, item ∈ r.cache.items

/-- A call that takes no answer from an upstream stores and learns nothing. -/
theorem Resolution.kept {r : Resolver σ} (h : r.cache.Sound) {input : ResolveInput}
    {o : Outcome σ} (hres : r.Resolution observe clock input o) (hnone : o.action = none) :
    r.Kept o.resolver := by
  have hremoved {key : CacheKey} {cache : Cache} (sound : cache.Sound)
      (items : cache.items = removeKey key r.cache.items) : r.Kept (r.looked cache) := by
    refine ⟨sound, rfl, rfl, fun item hmem => ?_⟩
    exact List.mem_of_mem_filter (items ▸ hmem)
  cases hres with
  | rejected rcode unasked => exact ⟨h, rfl, rfl, fun item hmem => hmem⟩
  | hit request question query cache sound entry mem live items =>
      refine ⟨sound, rfl, rfl, fun item hmem => ?_⟩
      change item ∈ cache.items at hmem
      rw [items] at hmem
      rcases List.mem_append.mp hmem with hold | hlast
      · exact List.mem_of_mem_filter hold
      · exact List.mem_singleton.mp hlast ▸ mem
  | unconfigured request question query cache sound items absent => exact hremoved sound items
  | failed request question query cache sound items c configured asked err chosen =>
      exact hremoved sound items
  | answered request question query missed cache items c configured asked response action chosen
      learned observed learns stored sound stores => cases hnone

omit observe clock in
/-- After an answer is stored, an item is that of the answer or an old one under
another key. -/
theorem mem_stored {r : Resolver σ} {cache stored : Cache} {key : CacheKey} {entry : CacheEntry}
    {expires : Int} (items : cache.items = removeKey key r.cache.items)
    (stores : stored.items =
      if 0 < expires then touchItems cache.capacity key entry cache.items else cache.items)
    {item : CacheKey × CacheEntry} (hmem : item ∈ stored.items) :
    item = (key, entry) ∨ item ∈ r.cache.items ∧ item.1 ≠ key := by
  rw [stores] at hmem
  split_ifs at hmem
  · rcases mem_of_mem_touchItems hmem with ⟨hkey, hentry⟩ | ⟨hold, hne⟩
    · exact Or.inl (Prod.ext hkey hentry)
    · exact Or.inr ⟨List.mem_of_mem_filter (items ▸ hold), hne⟩
  · exact Or.inr (mem_removeKey.mp (items ▸ hmem))

/-- A call keeps the cache sound and the classifier. -/
theorem step_sound {r : Resolver σ} (h : r.cache.Sound) (input : ResolveInput) :
    (r.step observe clock input).cache.Sound ∧
      (r.step observe clock input).classifier = r.classifier := by
  have hres := resolve_spec observe clock h input
  have hkept := hres.kept observe clock h
  unfold step
  generalize r.resolve observe clock input = o at hres hkept
  cases hres with
  | answered request question query missed cache items c configured asked response action chosen
      learned observed learns stored sound stores =>
      refine ⟨sound, ?_⟩
      have hlearned := learn_classifier observe clock (r.looked cache)
        (c.domain question.name).domain action (response.answerTo request)
      rw [learns] at hlearned
      exact hlearned
  | _ => exact ⟨(hkept rfl).sound, (hkept rfl).classifier⟩

end Resolver

end Hy2Route.DNSProxy
