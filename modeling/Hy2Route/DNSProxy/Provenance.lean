import Hy2Route.DNSProxy.Resolver
import Hy2Route.Foundation.Runs
import Hy2Route.Policy.Decisions

/-!
# Where answers come from

For a name that no direct rule and no domain of the dataset covers, every answer
that is returned was given by the trusted upstream, or by the domestic one with
only addresses of the dataset. This includes the answers from the cache: its key
determines the decision, so an entry that was stored for one decision is never
served for another.
-/

namespace Hy2Route.DNSProxy

open Foundation Policy

/-- A message with address records, all of them for addresses of the dataset. -/
def Qualifies (c : Classifier) (m : Msg) : Prop :=
  (∃ ip, m.HasA ip) ∧ ∀ ip, m.HasA ip → (c.ip ip).source = .chinaIP

theorem domesticAnswerIsChina_iff {c : Classifier} {m : Msg} :
    domesticAnswerIsChina c m = true ↔ Qualifies c m := by
  have hempty : (responseARecords m).1 = [] ↔ ¬ ∃ ip, m.HasA ip := by
    simp only [List.eq_nil_iff_forall_not_mem, mem_responseARecords, not_exists]
  simp only [domesticAnswerIsChina, Qualifies]
  split_ifs with h
  · simp [hempty.mp h]
  · rw [hempty, not_not] at h
    simp [h, mem_responseARecords]

/-- An accepted exchange returns the reply's message. -/
theorem exchange_map_ok {reply : Reply} {action : Action} {taken : Msg × Action}
    (h : (exchange reply).map (·, action) = .ok taken) :
    reply = .answered taken.1 ∧ taken.2 = action := by
  cases reply <;> cases h
  exact ⟨rfl, rfl⟩

/-- Of two replies, the domestic one is taken if it qualifies. -/
theorem resolveUnknown_ok {c : Classifier} {domestic trusted : Reply} {response : Msg}
    {action : Action} (h : resolveUnknown c domestic trusted = .ok (response, action)) :
    action = .direct ∧ domestic = .answered response ∧ Qualifies c response ∨
      action = .proxy ∧ trusted = .answered response := by
  have htrusted (h : (exchange trusted).map (·, Action.proxy) = .ok (response, action)) :
      action = .proxy ∧ trusted = .answered response := (exchange_map_ok h).symm
  cases domestic with
  | failed err => exact Or.inr (htrusted h)
  | empty => exact Or.inr (htrusted h)
  | answered m =>
      simp only [resolveUnknown, exchange] at h
      split_ifs at h with hchina
      · cases h
        exact Or.inl ⟨rfl, rfl, domesticAnswerIsChina_iff.mp hchina⟩
      · exact Or.inr (htrusted h)

/-- What is taken for a name that is not direct: a qualifying domestic answer, or
the trusted one. -/
theorem choose_ok_of_proxy {c : Classifier} {decision : Decision}
    (hproxy : decision.action = .proxy) {domestic trusted : Reply} {asked : List Upstream}
    {response : Msg} {action : Action}
    (h : choose c decision domestic trusted = (asked, .ok (response, action))) :
    action = .direct ∧ .domestic ∈ asked ∧ domestic = .answered response ∧ Qualifies c response ∨
      action = .proxy ∧ .trusted ∈ asked ∧ trusted = .answered response := by
  have hexplicit (h : (([.trusted], (exchange trusted).map (·, decision.action)) :
      List Upstream × _) = (asked, .ok (response, action))) :
      action = .proxy ∧ .trusted ∈ asked ∧ trusted = .answered response := by
    obtain ⟨rfl, htaken⟩ := Prod.mk.inj h
    obtain ⟨hreply, haction⟩ := exchange_map_ok htaken
    exact ⟨haction.trans hproxy, by simp, hreply⟩
  have hnot : ¬ decision.action = .direct := by simp [hproxy]
  cases hsource : decision.source with
  | default =>
      simp only [choose, hsource] at h
      obtain ⟨rfl, htaken⟩ := Prod.mk.inj h
      rcases resolveUnknown_ok htaken with ⟨haction, hreply, hchina⟩ | ⟨haction, hreply⟩
      · exact Or.inl ⟨haction, by simp, hreply, hchina⟩
      · exact Or.inr ⟨haction, by simp, hreply⟩
  | explicitDomain =>
      simp only [choose, hsource, if_neg hnot] at h
      exact Or.inr (hexplicit h)
  | chinaDomain =>
      simp only [choose, hsource, if_neg hnot] at h
      exact Or.inr (hexplicit h)
  | explicitIP => simp [choose, hsource] at h
  | chinaIP => simp [choose, hsource] at h

/-- No explicit direct rule and no domain of the dataset covers the name. -/
def Unmatched (data : Dataset) (rules : List RuleConfig) (name : Bytes) : Prop :=
  ¬ CoversDomain ((explicitDomainRules rules).filter (·.action = .direct)) name ∧
    ¬ CoversDomain (chinaDomainRules data) name

theorem Unmatched.domain_proxy {data : Dataset} {rules : List RuleConfig} {name : Bytes}
    (h : Unmatched data rules name) :
    ((Classifier.ofRules data rules).domain name).action = .proxy := by
  obtain ⟨hdirect, hchina⟩ := h
  have hd := Classifier.domain_decision data rules name
  generalize (Classifier.ofRules data rules).domain name = decision at hd
  cases hd with
  | malformed err failed => rfl
  | explicit normalized normal action known covered proxy_iff =>
      by_contra hproxy
      obtain ⟨rule, hmem, hcov⟩ := covered
      have hrule : rule.action = .direct := by
        apply eq_direct_of_not_proxy (explicitDomainRules_known rules rule hmem) Iff.rfl
        exact fun heq => hproxy (proxy_iff.mpr ⟨rule, hmem, hcov, heq⟩)
      exact hdirect ⟨normalized, normal, rule, List.mem_filter.mpr ⟨hmem, by simp [hrule]⟩, hcov⟩
  | china normalized normal uncovered covered => exact absurd ⟨normalized, normal, covered⟩ hchina
  | default normalized normal uncovered foreign => rfl

/-- Only the lower-cased spelling counts. -/
theorem Unmatched.congr {data : Dataset} {rules : List RuleConfig} {name other : Bytes}
    (h : Unmatched data rules name) (heq : toLower other = toLower name) :
    Unmatched data rules other := by
  unfold Unmatched CoversDomain at h ⊢
  rwa [normalizeDomain_congr heq]

/-! ## Tracing an answer through a run -/

/-- The call asked for the name in some spelling, and the trusted upstream, or
the domestic one with a qualifying message, gave it the answer. -/
def Gave {σ : Type} (c : Classifier) (o : Outcome σ) (input : ResolveInput) (name : Bytes)
    (answer : List RR) : Prop :=
  ∃ request question, input.query = some (request, question) ∧
    toLower question.name = toLower name ∧
    ((∃ m, .trusted ∈ o.asked ∧ input.trusted = .answered m ∧ m.answer = answer) ∨
      ∃ m, .domestic ∈ o.asked ∧ input.domestic = .answered m ∧ Qualifies c m ∧
        m.answer = answer)

section Runs

variable {σ : Type} {observe : σ → Observation → σ} {clock : Nat → Int} {c : Classifier}

/-- The call put the item into the cache, with the answer that its decision took. -/
def Stored (observe : σ → Observation → σ) (clock : Nat → Int) (c : Classifier) (r : Resolver σ)
    (input : ResolveInput) (item : CacheKey × CacheEntry) : Prop :=
  ∃ request question response action, input.query = some (request, question) ∧
    item.1 = question.key ∧ item.2.response.answer = response.answer ∧
    choose c (c.domain question.name) input.domestic input.trusted =
      ((r.resolve observe clock input).asked, .ok (response, action))

/-- After a call the cache holds what it held before and what the call stored. -/
theorem mem_items_step {r : Resolver σ} (h : r.cache.Sound ∧ r.classifier = some c)
    {input : ResolveInput} {item : CacheKey × CacheEntry}
    (hmem : item ∈ (r.step observe clock input).cache.items) :
    item ∈ r.cache.items ∨ Stored observe clock c r input item := by
  have hres := Resolver.resolve_spec observe clock h.1 input
  have hkept := hres.kept observe clock h.1
  unfold Resolver.step at hmem
  unfold Stored
  generalize r.resolve observe clock input = o at hres hkept hmem
  cases hres with
  | answered request question query missed cache items c' configured asked response action chosen
      learned observed learns stored sound stores =>
      obtain rfl : c' = c := Option.some.inj (configured.symm.trans h.2)
      rcases Resolver.mem_stored items stores hmem with rfl | ⟨hold, -⟩
      · exact Or.inr ⟨request, question, response, action, query, rfl, rfl, chosen⟩
      · exact Or.inl hold
  | _ => exact Or.inl ((hkept rfl).items item hmem)

/-- What the decision for an unmatched name took was given by an upstream. -/
theorem Gave.of_choose {data : Dataset} {rules : List RuleConfig} {o : Outcome σ}
    {input : ResolveInput} {request : Msg} {question : Question}
    (hquery : input.query = some (request, question)) {name : Bytes}
    (hname : toLower question.name = toLower name) (h : Unmatched data rules name) {response : Msg}
    {action : Action}
    (hchosen : choose (.ofRules data rules) ((Classifier.ofRules data rules).domain question.name)
      input.domestic input.trusted = (o.asked, .ok (response, action))) :
    Gave (.ofRules data rules) o input name response.answer := by
  refine ⟨request, question, hquery, hname, ?_⟩
  rcases choose_ok_of_proxy (h.congr hname).domain_proxy hchosen with
    ⟨-, hasked, hreply, hchina⟩ | ⟨-, hasked, hreply⟩
  · exact Or.inr ⟨response, hasked, hreply, hchina, rfl⟩
  · exact Or.inl ⟨response, hasked, hreply, rfl⟩

section Call

variable {data : Dataset} {rules : List RuleConfig} {r : Resolver σ}
  (h : r.cache.Sound ∧ r.classifier = some (.ofRules data rules)) {input : ResolveInput}
  {request : Msg} {question : Question} (hquery : input.query = some (request, question))
  (hname : Unmatched data rules question.name)

include h hquery hname

/-- An answer for an unmatched name is that of a cache item or was given in the call. -/
theorem answer_of_resolve {response : Msg}
    (hresult : (r.resolve observe clock input).result = .ok response) :
    (∃ entry, (question.key, entry) ∈ r.cache.items ∧
      entry.response.answer = response.answer) ∨
    Gave (.ofRules data rules) (r.resolve observe clock input) input question.name
      response.answer := by
  have hres := Resolver.resolve_spec observe clock h.1 input
  generalize r.resolve observe clock input = o at hres hresult
  cases hres with
  | rejected rcode unasked => rw [unasked] at hquery; cases hquery
  | hit request question query cache sound entry mem live items =>
      rw [query] at hquery
      cases hquery
      cases hresult
      exact Or.inl ⟨entry, mem, rfl⟩
  | unconfigured request question query cache sound items absent => cases hresult
  | failed request question query cache sound items c configured asked err chosen => cases hresult
  | answered request question query missed cache items c configured asked taken action chosen
      learned observed learns stored sound stores =>
      obtain rfl : c = .ofRules data rules := Option.some.inj (configured.symm.trans h.2)
      rw [query] at hquery
      cases hquery
      cases hresult
      rw [answer_answerTo]
      exact Or.inr (Gave.of_choose query rfl hname chosen)

/-- What a call for an unmatched name learns follows the upstream that answered. -/
theorem observation_of_resolve {observation : Observation}
    (hobserved : (r.resolve observe clock input).observed = some observation) :
    ∃ m, (r.resolve observe clock input).result = .ok (m.answerTo request) ∧
      (observation.action = .direct ∧ input.domestic = .answered m ∧
          Qualifies (.ofRules data rules) m ∨
        observation.action = .proxy ∧ input.trusted = .answered m) := by
  have hres := Resolver.resolve_spec observe clock h.1 input
  generalize r.resolve observe clock input = o at hres hobserved
  cases hres with
  | rejected rcode unasked => cases hobserved
  | hit request question query cache sound entry mem live items => cases hobserved
  | unconfigured request question query cache sound items absent => cases hobserved
  | failed request question query cache sound items c configured asked err chosen => cases hobserved
  | answered request question query missed cache items c configured asked response action chosen
      learned observed learns stored sound stores =>
      obtain rfl : c = .ofRules data rules := Option.some.inj (configured.symm.trans h.2)
      rw [query] at hquery
      cases hquery
      have hlearned := Resolver.learn_observed observe clock (r.looked cache)
        ((Classifier.ofRules data rules).domain question.name).domain action
        (response.answerTo request)
      rw [learns] at hlearned
      rw [Resolver.observation_eq_some clock (hlearned.symm.trans hobserved)]
      refine ⟨response, rfl, ?_⟩
      rcases choose_ok_of_proxy hname.domain_proxy chosen with
        ⟨haction, -, hreply, hchina⟩ | ⟨haction, -, hreply⟩
      · exact Or.inl ⟨haction, hreply, hchina⟩
      · exact Or.inr ⟨haction, hreply⟩

/-- Without a usable answer a call for an unmatched name fails and changes nothing
but what it drops from the cache. -/
theorem resolve_of_unusable (hasked : .trusted ∈ (r.resolve observe clock input).asked)
    (htrusted : ∀ m, input.trusted ≠ .answered m)
    (hdomestic : .domestic ∈ (r.resolve observe clock input).asked →
      ∀ m, input.domestic = .answered m → ¬ Qualifies (.ofRules data rules) m) :
    (∃ err, (r.resolve observe clock input).result = .error err) ∧
      (r.resolve observe clock input).observed = none ∧
      (r.resolve observe clock input).resolver.learner = r.learner ∧
      ∀ item ∈ (r.resolve observe clock input).resolver.cache.items, item ∈ r.cache.items := by
  have hres := Resolver.resolve_spec observe clock h.1 input
  have hkept := hres.kept observe clock h.1
  generalize r.resolve observe clock input = o at hres hkept hasked hdomestic
  cases hres with
  | rejected rcode unasked => cases hasked
  | hit request question query cache sound entry mem live items => cases hasked
  | unconfigured request question query cache sound items absent => cases hasked
  | failed request question query cache sound items c configured asked err chosen =>
      exact ⟨⟨err, rfl⟩, rfl, (hkept rfl).learner, (hkept rfl).items⟩
  | answered request question query missed cache items c configured asked response action chosen
      learned observed learns stored sound stores =>
      obtain rfl : c = .ofRules data rules := Option.some.inj (configured.symm.trans h.2)
      rw [query] at hquery
      cases hquery
      rcases choose_ok_of_proxy hname.domain_proxy chosen with
        ⟨-, hdom, hreply, hchina⟩ | ⟨-, -, hreply⟩
      · exact absurd hchina (hdomestic hdom response hreply)
      · exact absurd hreply (htrusted response)

end Call

/-- In every run, an answer returned for an unmatched name was given by the
trusted upstream or by the domestic one with a qualifying message, in this call
or in an earlier one for the same name; what is learned follows the upstream that
answered; and without a usable answer nothing is returned, stored or learned. -/
theorem resolver_answers_unpolluted {data : Dataset} {rules : List RuleConfig} {c : Classifier}
    (hnew : new data rules = .ok c) (observe : σ → Observation → σ) (clock : Nat → Int)
    (domestic trusted : Bool) (learner : Option σ) (cacheEntries : Int)
    (calls : List ResolveInput) (input : ResolveInput) {request : Msg} {question : Question}
    (hquery : input.query = some (request, question))
    (hname : Unmatched data rules question.name) :
    let start := newResolver (some c) domestic trusted learner cacheEntries
    let run := List.foldl (Resolver.step observe clock) start
    let o := (run calls).resolve observe clock input
    (∀ response, o.result = .ok response →
      ∃ earlier past later, calls ++ [input] = earlier ++ past :: later ∧
        Gave c ((run earlier).resolve observe clock past) past question.name response.answer) ∧
    (∀ observation, o.observed = some observation →
      ∃ m, o.result = .ok (m.answerTo request) ∧
        (observation.action = .direct ∧ input.domestic = .answered m ∧ Qualifies c m ∨
          observation.action = .proxy ∧ input.trusted = .answered m)) ∧
    (.trusted ∈ o.asked → (∀ m, input.trusted ≠ .answered m) →
      (.domestic ∈ o.asked → ∀ m, input.domestic = .answered m → ¬ Qualifies c m) →
      (∃ err, o.result = .error err) ∧ o.observed = none ∧
        o.resolver.learner = (run calls).learner ∧
        ∀ item ∈ o.resolver.cache.items, item ∈ (run calls).cache.items) := by
  obtain rfl := new_ok hnew
  intro start run o
  have hstart : start.cache.Sound ∧ start.classifier = some (.ofRules data rules) :=
    ⟨Cache.newCache_sound cacheEntries, rfl⟩
  have hstep (r : Resolver σ) (input : ResolveInput)
      (h : r.cache.Sound ∧ r.classifier = some (.ofRules data rules)) :
      (r.step observe clock input).cache.Sound ∧
        (r.step observe clock input).classifier = some (.ofRules data rules) := by
    obtain ⟨hsound, hclassifier⟩ := r.step_sound observe clock h.1 input
    exact ⟨hsound, hclassifier.trans h.2⟩
  have hrun := foldl_invariant hstep hstart calls
  refine ⟨fun response hresult => ?_, fun observation => observation_of_resolve hrun hquery hname,
    resolve_of_unusable hrun hquery hname⟩
  rcases answer_of_resolve hrun hquery hname hresult with ⟨entry, hmem, hanswer⟩ | hgave
  · obtain ⟨earlier, past, later, hcalls, request', question', response', action, hquery', hkey,
      hanswer', hchosen⟩ :=
      exists_call_of_held (fun r item => item ∈ Cache.items r.cache) hstep
        (fun r input item h => mem_items_step h) hstart (by simp [start, newResolver]) calls hmem
    refine ⟨earlier, past, later ++ [input], by simp [hcalls], ?_⟩
    have hlower : toLower question'.name = toLower question.name :=
      (congrArg CacheKey.name hkey).symm
    rw [← hanswer, hanswer']
    exact Gave.of_choose hquery' hlower hname hchosen
  · exact ⟨calls, input, [], rfl, hgave⟩

/-- The trusted answer for one spelling of a name is served from the cache for
another one, although both upstreams fail by then. -/
theorem resolver_serves_trusted_answer :
    let rules : List RuleConfig := [⟨ascii "direct", ascii "domain", ascii "example.cn"⟩]
    let c := Classifier.ofRules ⟨[], []⟩ rules
    let observe := fun (log : List Observation) observation => log ++ [observation]
    let start := newResolver (some c) true true (some []) 16
    let first := ResolveInput.address (ascii "Example.ORG.")
      (.address (ascii "Example.ORG.") 60 [198, 51, 100, 7])
      (.address (ascii "Example.ORG.") 60 [203, 0, 113, 8])
    let second := ResolveInput.address (ascii "example.org.") (.failed "refused") .empty
    let run := List.foldl (Resolver.step observe Nat.cast) start
    ∃ earlier past later, [first] ++ [second] = earlier ++ past :: later ∧
      Gave c ((run earlier).resolve observe Nat.cast past) past (ascii "example.org.")
        [.a ⟨ascii "Example.ORG.", 60⟩ [203, 0, 113, 8]] := by
  intro rules c observe start first second run
  have hnew : new ⟨[], []⟩ rules = .ok c := rfl
  have hname : Unmatched ⟨[], []⟩ rules (ascii "example.org.") := ⟨by decide, by decide⟩
  have hresult : ((run [first]).resolve observe Nat.cast second).result =
      .ok (Msg.answerTo ⟨0, true, 0, false, false, 0, [], [.a ⟨ascii "Example.ORG.", 60⟩
        [203, 0, 113, 8]]⟩ ⟨0, false, 0, true, false, 0, [⟨ascii "example.org.", 1, 1⟩], []⟩) := by
    decide +kernel
  obtain ⟨hanswers, -⟩ := resolver_answers_unpolluted hnew observe Nat.cast true true (some []) 16
    [first] second rfl hname
  exact hanswers _ hresult

end Runs

end Hy2Route.DNSProxy
