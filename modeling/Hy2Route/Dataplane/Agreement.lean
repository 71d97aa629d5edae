import Hy2Route.DNSProxy.Coherence
import Hy2Route.Dataplane.Select

/-!
# What was learned and what is dialed

The resolver and the TCP server share the classifier and the learning table. A
name that a rule or the dataset lists is learned under the action that the
server picks for it. A name that nothing lists is learned under the action of
the upstream that answered, while the server asks the classifier alone and
proxies it, so the two part over a direct answer.
-/

namespace Hy2Route.Dataplane

open Foundation Policy DNSProxy

/-- The calls that change the shared table: queries, and the other users' calls. -/
inductive SharedCall where
  | resolve (input : ResolveInput)
  | lookup (ip : Addr) (now : Int)
  | expire (now : Int)
  | snapshot (now : Int)

/-- The resolver with its table after a call of another user. -/
def withTable (r : Resolver LearningTable) (call : TableCall) : Resolver LearningTable :=
  { r with learner := r.learner.map (·.call call) }

def SharedCall.step (clock : Nat → Int) (r : Resolver LearningTable) :
    SharedCall → Resolver LearningTable
  | .resolve input => r.step learnInto clock input
  | .lookup ip now => withTable r (.lookup ip now)
  | .expire now => withTable r (.expire now)
  | .snapshot now => withTable r (.snapshot now)

/-- What may be learned about a name: any known action when nothing lists it, and
otherwise the classifier's. -/
structure Settled (c : Classifier) (key : ObservationKey) : Prop where
  normal : normalizeDomain key.domain = .ok key.domain
  known : key.action ≠ .unknown
  listed : (c.domain key.domain).source ≠ .default → key.action = (c.domain key.domain).action

/-- The resolver has the classifier, and its table holds only settled keys. -/
structure Agreed (c : Classifier) (r : Resolver LearningTable) (table : LearningTable) :
    Prop where
  cache_sound : r.cache.Sound
  classifier : r.classifier = some c
  learner : r.learner = some table
  table_sound : table.Sound
  settled : ∀ item ∈ table.items, Settled c item.1

theorem newResolver_agreed (c : Classifier) (domestic trusted : Bool)
    (cacheEntries capacity : Int) :
    Agreed c (newResolver (some c) domestic trusted (some (newLearningTable capacity)) cacheEntries)
      (newLearningTable capacity) where
  cache_sound := Cache.newCache_sound cacheEntries
  classifier := rfl
  learner := rfl
  table_sound := newLearningTable_sound capacity
  settled := by
    intro item hmem
    exact absurd hmem (by simp [LearningTable.items, newLearningTable, orderedItems])

/-! ## What an answer teaches -/

/-- The decision for a name depends on its normal form. -/
theorem domain_congr (c : Classifier) {a b : Bytes} (h : normalizeDomain a = normalizeDomain b) :
    c.domain a = c.domain b := by
  simp only [Classifier.domain, h]

/-- Outside the default, an answer is taken under the decision's action. -/
theorem choose_listed {c : Classifier} {decision : Decision} {domestic trusted : Reply}
    {asked : List Upstream} {response : Msg} {action : Action}
    (h : choose c decision domestic trusted = (asked, .ok (response, action)))
    (hlisted : decision.source ≠ .default) : action = decision.action := by
  have htaken (h : (if decision.action = .direct then
        ([.domestic], (exchange domestic).map (·, decision.action))
      else ([.trusted], (exchange trusted).map (·, decision.action)) : List Upstream × _) =
      (asked, .ok (response, action))) : action = decision.action := by
    split_ifs at h
    · exact (exchange_map_ok (Prod.mk.inj h).2).2
    · exact (exchange_map_ok (Prod.mk.inj h).2).2
  cases hsource : decision.source with
  | default => exact absurd hsource hlisted
  | explicitDomain =>
      simp only [choose, hsource] at h
      exact htaken h
  | chinaDomain =>
      simp only [choose, hsource] at h
      exact htaken h
  | explicitIP => simp [choose, hsource] at h
  | chinaIP => simp [choose, hsource] at h

section Step

variable {clock : Nat → Int} {data : Dataset} {rules : List RuleConfig}
  {r : Resolver LearningTable} {table : LearningTable}

/-- The keys that an answer touches are settled. -/
theorem settled_of_answer {question : Question} {input : ResolveInput} {asked : List Upstream}
    {response : Msg} {action : Action} {key : ObservationKey}
    (hchosen : choose (.ofRules data rules) ((Classifier.ofRules data rules).domain question.name)
      input.domestic input.trusted = (asked, .ok (response, action)))
    (hkey : key ∈ (answerObservation clock (.ofRules data rules) r question response action).keys) :
    Settled (.ofRules data rules) key := by
  obtain ⟨hknown, hdomain, haction, -⟩ := Observation.of_mem_keys hkey
  simp only [answerObservation] at hknown hdomain haction
  cases hname : normalizeDomain question.name with
  | error err =>
      -- A name that does not normalize is observed as the empty one, which is refused.
      have hmalformed : ((Classifier.ofRules data rules).domain question.name).domain = [] := by
        simp only [Classifier.domain, hname]
      rw [hmalformed] at hdomain
      cases hdomain
  | ok name =>
      rw [domain_of_normal hname, normalizeDomain_normal hname] at hdomain
      have hkeyname : name = key.domain := Except.ok.inj hdomain
      subst hkeyname
      have hsame : (Classifier.ofRules data rules).domain key.domain =
          (Classifier.ofRules data rules).domain question.name :=
        domain_congr _ ((normalizeDomain_normal hname).trans hname.symm)
      refine ⟨normalizeDomain_normal hname, ?_, ?_⟩
      · rw [haction]
        rintro rfl
        simp at hknown
      · intro hlisted
        rw [hsame] at hlisted ⊢
        rw [haction, choose_listed hchosen hlisted]

/-- Calls of the table's other users only drop keys. -/
theorem Agreed.withTable (h : Agreed (.ofRules data rules) r table) {call : TableCall} {now : Int}
    (hcall : table.call call = (table.expireLocked now).1) :
    Agreed (.ofRules data rules) (withTable r call) (table.call call) := by
  obtain ⟨hsound, -, hitems, -⟩ := LearningTable.expireLocked_spec h.table_sound now
  refine ⟨h.cache_sound, h.classifier, ?_, hcall ▸ hsound, fun item hmem => ?_⟩
  · simp only [Dataplane.withTable, h.learner, Option.map_some]
  · rw [hcall, hitems] at hmem
    exact h.settled item (List.mem_of_mem_filter hmem)

/-- A query keeps the table's keys settled. -/
theorem Agreed.resolve (h : Agreed (.ofRules data rules) r table) (input : ResolveInput) :
    ∃ after, Agreed (.ofRules data rules) (r.step learnInto clock input) after := by
  obtain ⟨hcache, hclassifier⟩ := Resolver.step_sound learnInto clock h.cache_sound input
  have hres := Resolver.resolve_spec learnInto clock h.cache_sound input
  have hkept := hres.kept learnInto clock h.cache_sound
  unfold Resolver.step at hcache hclassifier ⊢
  generalize r.resolve learnInto clock input = o at hres hkept hcache hclassifier
  cases hres with
  | answered request question query missed cache items c configured asked response action chosen
      learned observed learns stored sound stores =>
      obtain rfl : c = .ofRules data rules :=
        Option.some.inj (configured.symm.trans h.classifier)
      have hlearn := learn_answer h.learner (choose_action_known chosen) learns
      by_cases haddresses : (responseARecords response).1 = []
      · exact ⟨table, hcache, hclassifier.trans h.classifier, hlearn.1 haddresses, h.table_sound,
          h.settled⟩
      · obtain ⟨hsound, -, -, hitems⟩ := LearningTable.observe_spec h.table_sound
          (answerObservation clock (.ofRules data rules) r question response action)
        refine ⟨_, hcache, hclassifier.trans h.classifier, (hlearn.2 haddresses).2, hsound, ?_⟩
        intro item hmem
        rw [learnInto, hitems] at hmem
        rcases mem_of_mem_touchKeys hmem with ⟨hkey, -⟩ | hold
        · exact settled_of_answer chosen hkey
        · exact h.settled item hold
  | _ => exact ⟨table, hcache, hclassifier.trans h.classifier, (hkept rfl).learner.trans h.learner,
      h.table_sound, h.settled⟩

theorem Agreed.step (h : ∃ table, Agreed (.ofRules data rules) r table) (call : SharedCall) :
    ∃ table, Agreed (.ofRules data rules) (SharedCall.step clock r call) table := by
  obtain ⟨table, h⟩ := h
  cases call with
  | resolve input => exact h.resolve input
  | lookup ip now => exact ⟨_, h.withTable rfl⟩
  | expire now => exact ⟨_, h.withTable rfl⟩
  | snapshot now => exact ⟨_, h.withTable rfl⟩

end Step

/-! ## The two decisions -/

/-- An explicit rule or a domain of the dataset covers the name. -/
def ListedDomain (data : Dataset) (rules : List RuleConfig) (domain : Bytes) : Prop :=
  CoversDomain (explicitDomainRules rules) domain ∨ CoversDomain (chinaDomainRules data) domain

instance ListedDomain.decidable (data : Dataset) (rules : List RuleConfig) (domain : Bytes) :
    Decidable (ListedDomain data rules domain) :=
  inferInstanceAs (Decidable (_ ∨ _))

theorem coversDomain_iff {rules : List DomainRule} {domain name : Bytes}
    (h : normalizeDomain domain = .ok name) :
    CoversDomain rules domain ↔ ∃ rule ∈ rules, rule.covers name := by
  constructor
  · rintro ⟨other, hother, hcovered⟩
    cases hother.symm.trans h
    exact hcovered
  · exact fun hcovered => ⟨name, h, hcovered⟩

/-- A name is decided by default exactly when nothing lists it, and then proxied. -/
theorem source_default_iff {data : Dataset} {rules : List RuleConfig} {domain : Bytes}
    {decision : Decision} (hd : DomainDecision data rules domain decision) :
    (decision.source = .default ↔ ¬ ListedDomain data rules domain) ∧
      (decision.source = .default → decision.action = .proxy) := by
  unfold ListedDomain
  cases hd with
  | malformed err failed => simp [CoversDomain, failed]
  | explicit name normal action known covered proxy_iff =>
      rw [coversDomain_iff normal, coversDomain_iff normal]
      exact ⟨⟨nofun, fun h => absurd (Or.inl covered) h⟩, nofun⟩
  | china name normal uncovered covered =>
      rw [coversDomain_iff normal, coversDomain_iff normal]
      exact ⟨⟨nofun, fun h => absurd (Or.inr covered) h⟩, nofun⟩
  | default name normal uncovered foreign =>
      rw [coversDomain_iff normal, coversDomain_iff normal]
      refine ⟨⟨fun _ => ?_, fun _ => rfl⟩, fun _ => rfl⟩
      rintro (⟨rule, hmem, hcovers⟩ | ⟨rule, hmem, hcovers⟩)
      · exact uncovered rule hmem hcovers
      · exact foreign rule hmem hcovers

/-- In every run, for every observation that the table holds, the dialer of a
connection to its address with its name follows the learned action exactly when
the action is proxy or the name is listed. Whatever else the table holds for the
address plays no part, and neither do the rules for addresses. -/
theorem selectDialer_follows_learned_iff {data : Dataset} {rules : List RuleConfig}
    {c : Classifier} (hnew : new data rules = .ok c) (clock : Nat → Int)
    (domestic trusted : Bool) (cacheEntries capacity : Int) (calls : List SharedCall)
    {table : LearningTable} {key : ObservationKey} {expires : Int}
    (hlearner : (calls.foldl (SharedCall.step clock) (newResolver (some c) domestic trusted
      (some (newLearningTable capacity)) cacheEntries)).learner = some table)
    (hlearned : table.entries.lookup key = some expires) (now : Int) :
    ((key.action = .direct →
        ((TCPServer.mk c (some table)).selectDialer now key.ip key.domain).2 = .direct) ∧
      (key.action = .proxy →
        ((TCPServer.mk c (some table)).selectDialer now key.ip key.domain).2 = .proxy)) ↔
    (key.action = .direct → ListedDomain data rules key.domain) := by
  obtain rfl := new_ok hnew
  have hstep (r : Resolver LearningTable) (call : SharedCall)
      (h : ∃ table, Agreed (.ofRules data rules) r table) :
      ∃ table, Agreed (.ofRules data rules) (SharedCall.step clock r call) table :=
    Agreed.step h call
  obtain ⟨table', hagreed⟩ := foldl_invariant hstep
    ⟨_, newResolver_agreed _ domestic trusted cacheEntries capacity⟩ calls
  cases hlearner.symm.trans hagreed.learner
  have hsettled : Settled (.ofRules data rules) key :=
    hagreed.settled (key, expires) (hagreed.table_sound.linked.mem_items.mpr hlearned)
  have hne : key.domain ≠ [] := ((normalizeDomain_ok_iff _ _).mp hsettled.normal).2.1
  obtain ⟨hdefault, hproxy⟩ :=
    source_default_iff (Classifier.domain_decision data rules key.domain)
  rw [Dialer.eq_ofAction_iff hsettled.known]
  simp only [TCPServer.selectDialer, ne_eq, hne, not_false_eq_true, if_true,
    Dialer.ofAction_eq_direct_iff]
  by_cases hlisted : ListedDomain data rules key.domain
  · have haction := hsettled.listed fun h => hdefault.mp h hlisted
    simp only [haction, hlisted, implies_true]
  · have haction := hproxy (hdefault.mpr hlisted)
    simp only [haction, hlisted, reduceCtorEq, false_iff]

/-- A dataset with one prefix, and a query for a name that it does not list, to
which the domestic upstream answers with an address of the prefix. -/
def prefixData : Dataset := ⟨[], [.ipv4 ⟨0xCB007100#32, 24, by decide⟩]⟩

def domesticQuery (name : Bytes) : ResolveInput :=
  ResolveInput.address name (.address name 300 [203, 0, 113, 8]) .empty

/-- The resolver after that query, at one second. -/
def afterQuery (data : Dataset) (name : Bytes) : Resolver LearningTable :=
  [SharedCall.resolve (domesticQuery name)].foldl (SharedCall.step fun _ => second)
    (newResolver (some (.ofRules data [])) true true (some (newLearningTable 16)) 16)

/-- A listed name is dialed as it was learned. -/
theorem selectDialer_follows_learned_listed :
    let data : Dataset := ⟨[⟨ascii "example.org", false⟩], []⟩
    ∃ table, (afterQuery data (ascii "example.org.")).learner = some table ∧
      ((TCPServer.mk (.ofRules data []) (some table)).selectDialer (2 * second)
        (.v4 0xCB007108#32) (ascii "example.org")).2 = .direct := by
  intro data
  have hnew : new data [] = .ok (.ofRules data []) := rfl
  obtain ⟨table, htable⟩ : ∃ table, (afterQuery data (ascii "example.org.")).learner = some table :=
    ⟨_, rfl⟩
  have hlearned : ((afterQuery data (ascii "example.org.")).learner.bind
      fun table => table.entries.lookup ⟨ascii "example.org", .direct, .v4 0xCB007108#32⟩) =
        some (301 * second) := by
    decide +kernel
  rw [htable] at hlearned
  refine ⟨table, htable, ?_⟩
  exact ((selectDialer_follows_learned_iff hnew _ true true 16 16 _ htable hlearned
    (2 * second)).mpr fun _ => by decide).1 rfl

/-- An unlisted name that was answered by the domestic upstream is learned as
direct, and dialed through the proxy when it is sniffed. -/
theorem learned_direct_is_dialed_by_proxy :
    (afterQuery prefixData (ascii "example.org.")).learner.bind
        (fun table => table.entries.lookup ⟨ascii "example.org", .direct, .v4 0xCB007108#32⟩) =
      some (301 * second) ∧
    (afterQuery prefixData (ascii "example.org.")).learner.map (fun table =>
        let server := TCPServer.mk (.ofRules prefixData []) (some table)
        ((server.selectDialer (2 * second) (.v4 0xCB007108#32) (ascii "example.org")).2,
          (server.selectDialer (2 * second) (.v4 0xCB007108#32) []).2)) =
      some (.proxy, .direct) := by
  decide +kernel

end Hy2Route.Dataplane
