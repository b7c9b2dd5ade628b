import MouseKeeper.Desktop.MirroredRules
import MouseKeeper.FileEngine.FirstMatch

/-!
The order of the rules, on the server and in a folder.

The server shows the rules of a room by priority and then by the time of their creation. In the
folder the rules that they are translated to are tried by priority and then by id. A rule that is
confirmed from a draft gets a priority above the largest that is seen, but none above 10000.
-/

namespace MouseKeeper.Desktop.RulePrecedence

open Contracts (Json)
open FileEngine
open RuleEvents
open MirroredRules
open Posix (bind_eq_ok)

/-! ### The rules of a room -/

structure ListedRule where
  rule : AgentRule
  createdAt : ℕ

/-- What `RulesService.list` answers. The order is open where priority and time are the same; ids
are UUIDs. -/
structure Listing where
  rules : List ListedRule
  sorted : rules.Pairwise fun a b => a.rule.priority < b.rule.priority ∨
    a.rule.priority = b.rule.priority ∧ a.createdAt ≤ b.createdAt
  ids : (rules.map (·.rule.ruleId)).Nodup
  uuids : ∀ r ∈ rules, r.rule.ruleId.length = 36

/-- The rules are merged into the file one after the other. -/
def mergeAll (path : String) : RulesFile → List AgentRule → Except String RulesFile
  | file, [] => .ok file
  | file, rule :: rules => do
    let set ← mergedRules path file rule
    mergeAll path (.parsed set) rules

section Folder

variable (set : RuleSet) (file : FileEntry) (context : RuleContext) (listing : Listing)

/-- A rule that the server's rule is translated to matches the file. -/
def Matches (r : AgentRule) : Bool := (translated r).any fun x => ruleMatches x file context

/-- One that matches has something to do. -/
def Acts (r : AgentRule) : Bool :=
  (translated r).any fun x => ruleMatches x file context && !decide (x.InPlace file)

/-- Of the rules that were made of rules of the server, the first that proposes something. -/
def applied : Option Rule :=
  (set.ordered.filter fun x => listing.rules.any fun r => madeOf r.rule.ruleId x).find? fun x =>
    (proposalFromRule x file context).isSome

/-- Of the rules of the server that match, the first in the listing. -/
def firstListed : Option ListedRule := listing.rules.find? fun r => Matches file context r.rule

/-- What is applied is of the rule that is listed first. -/
def FollowsListing : Prop :=
  ∀ x ∈ applied set file context listing, ∀ r ∈ listing.rules, madeOf r.rule.ruleId x = true →
    firstListed file context listing = some r

/-- The rule that is listed first has something to do if any has, and none of its priority that
has something to do has a smaller id. -/
def FirstById : Prop :=
  ∀ r ∈ firstListed file context listing, ∀ r' ∈ listing.rules, Acts file context r'.rule = true →
    Acts file context r.rule = true ∧
      (r'.rule.priority = r.rule.priority → r.rule.ruleId ≤ r'.rule.ruleId)

end Folder

/-! ### A new rule -/

/-- In the listing and in a folder the rule comes before the other. -/
def ListedRule.Precedes (e n : ListedRule) : Prop :=
  e.rule.priority < n.rule.priority ∨ e.rule.priority = n.rule.priority ∧
    e.createdAt < n.createdAt ∧ e.rule.ruleId < n.rule.ruleId

def RanksLast (n : ListedRule) (existing : List ListedRule) : Prop := ∀ e ∈ existing, e.Precedes n

/-- Of the rules that were seen none has the largest priority there is, and what has come in or was
changed since stays below the new rule; or it ties with it and is older, with a smaller id. -/
def LeavesRoom (seen : List AgentRule) (n : ListedRule) (existing : List ListedRule) : Prop :=
  ∀ e ∈ existing, e.rule ∈ seen ∧ e.rule.priority < 10000 ∨
    e.rule ∉ seen ∧ e.rule.priority < nextRulePriority seen n.rule.roomId ∨
    e.rule.priority = nextRulePriority seen n.rule.roomId ∧ e.createdAt < n.createdAt ∧
      e.rule.ruleId < n.rule.ruleId

/-! ### Ids -/

lemma append_lt_append {α : Type} {r : α → α → Prop} {a b : List α} (hlen : a.length = b.length)
    (h : List.Lex r a b) (s t : List α) : List.Lex r (a ++ s) (b ++ t) := by
  induction h with
  | nil => cases hlen
  | cons h ih => exact .cons (ih (by simpa using hlen))
  | rel h => exact .rel h

/-- Texts of one length are compared before what comes after them. -/
lemma le_of_append_le {a b s t : String} (hlen : a.length = b.length) (h : a ++ s ≤ b ++ t) :
    a ≤ b := by
  rw [← not_lt]
  intro hlt
  refine absurd h (not_le.mpr ?_)
  rw [String.lt_iff_toList_lt, String.toList_append, String.toList_append]
  exact append_lt_append hlen.symm hlt _ _

lemma exists_append_of_madeOf {ruleId : String} {x : Rule} (h : madeOf ruleId x = true) :
    ∃ s, x.id = ruleId ++ s := by
  obtain ⟨s, hs⟩ := isPrefix_of_madeOf h
  refine ⟨String.ofList s, String.toList_inj.mp ?_⟩
  rw [String.toList_append, String.toList_ofList]
  exact hs.symm

lemma le_of_madeOf {a b : String} {x y : Rule} (hlen : a.length = b.length)
    (ha : madeOf a x = true) (hb : madeOf b y = true) (h : x.id ≤ y.id) : a ≤ b := by
  obtain ⟨s, hs⟩ := exists_append_of_madeOf ha
  obtain ⟨t, ht⟩ := exists_append_of_madeOf hb
  rw [hs, ht] at h
  exact le_of_append_le hlen h

/-! ### Translations -/

lemma priority_of_anyRules {ruleId : String} {priority : ℤ} {action : FileEngine.Action}
    {l : List ContractCondition} {index : ℕ} {rules : List Rule}
    (h : anyRules ruleId priority action index l = .ok rules) :
    ∀ x ∈ rules, x.priority = priority := by
  induction l generalizing index rules with
  | nil =>
    cases h
    simp
  | cons c l ih =>
    obtain ⟨condition, -, h⟩ := bind_eq_ok.mp h
    obtain ⟨rest, hrest, h⟩ := bind_eq_ok.mp h
    rw [← Except.ok.inj h]
    exact List.forall_mem_cons.mpr ⟨rfl, ih hrest⟩

lemma priority_of_intoRuleSet {d : ContractRuleDefinition} {ruleId : String} {priority : ℤ}
    {set : RuleSet} (h : d.intoRuleSet ruleId priority = .ok set) :
    ∀ x ∈ set.rules, x.priority = priority := by
  obtain ⟨mode, conditions, action⟩ := d
  cases mode with
  | all =>
    simp only [ContractRuleDefinition.intoRuleSet, bind_eq_ok] at h
    obtain ⟨c, -, _, hrules, _, -, h⟩ := h
    cases hrules
    cases h
    exact List.forall_mem_singleton.mpr rfl
  | any =>
    simp only [ContractRuleDefinition.intoRuleSet, bind_eq_ok] at h
    obtain ⟨rules, hrules, _, -, h⟩ := h
    cases h
    exact priority_of_anyRules hrules

lemma priority_of_translated {r : AgentRule} {x : Rule} (hx : x ∈ translated r) :
    x.priority = r.priority := by
  unfold translated at hx
  split at hx
  · rename_i l hl
    unfold incomingRules at hl
    split at hl
    · split at hl
      · rename_i set hset
        cases hl
        unfold RuleSet.fromContractDefinition at hset
        split at hset
        · cases hset
        · exact priority_of_intoRuleSet (mapError_eq_ok.mp hset) x hx
      · cases hl
    · cases hl
      cases hx
  · cases hx

section Holding

variable {set : RuleSet} {file : FileEntry} {context : RuleContext} {listing : Listing}
  {r : AgentRule} {x : Rule}

lemma mem_translated (h : Holds (.parsed set) r) :
    x ∈ translated r ↔ x ∈ set.rules ∧ madeOf r.ruleId x = true := by
  rw [translated, h.2 set.rules rfl, List.mem_filter]

lemma validate_of_holds (h : Holds (.parsed set) r) : set.validate = .ok () := by
  rcases h.1 with heq | ⟨set', heq, hv⟩
  · cases heq
  · cases heq
    exact hv

lemma proposes_iff (h : Holds (.parsed set) r) (hx : x ∈ translated r) :
    (proposalFromRule x file context).isSome = true ↔
      ruleMatches x file context = true ∧ ¬ x.InPlace file := by
  have hvalid := (RuleSet.validate_iff.mp (validate_of_holds h)).2.1 x ((mem_translated h).mp hx).1
  cases hm : ruleMatches x file context with
  | false => simp [proposalFromRule_of_not hm]
  | true =>
    rw [← not_iff_not, Option.not_isSome_iff_eq_none,
      proposalFromRule_eq_none (accepted_of_validate hvalid) hm]
    simp

lemma acts_iff (h : Holds (.parsed set) r) : Acts file context r = true ↔
    ∃ x ∈ translated r, (proposalFromRule x file context).isSome = true := by
  rw [Acts, List.any_eq_true]
  constructor
  · rintro ⟨x, hx, ha⟩
    exact ⟨x, hx, (proposes_iff h hx).mpr (by simpa using ha)⟩
  · rintro ⟨x, hx, ha⟩
    exact ⟨x, hx, by simpa using (proposes_iff h hx).mp ha⟩

lemma matches_of_acts (h : Acts file context r = true) : Matches file context r = true := by
  obtain ⟨x, hx, ha⟩ := List.any_eq_true.mp h
  exact List.any_eq_true.mpr ⟨x, hx, (Bool.and_eq_true_iff.mp ha).1⟩

/-- The first that has a property comes before all that have it. -/
lemma first_before {α : Type} {l : List α} {R : α → α → Prop} (hrefl : ∀ a, R a a)
    (hl : l.Pairwise R) {p : α → Bool} {a b : α} (ha : l.find? p = some a) (hb : b ∈ l)
    (hp : p b = true) : R a b := by
  obtain ⟨-, pre, post, rfl, hpre⟩ := List.find?_eq_some_iff_append.mp ha
  rcases List.mem_append.mp hb with hb | hb
  · exact absurd hp (by simpa using hpre b hb)
  · rcases List.mem_cons.mp hb with rfl | hb
    · exact hrefl b
    · exact (List.pairwise_cons.mp (List.pairwise_append.mp hl).2.1).1 b hb

lemma Listing.le_of_first {r r' : ListedRule} (h : firstListed file context listing = some r)
    (hr' : r' ∈ listing.rules) (hm : Matches file context r'.rule = true) :
    r.rule.priority ≤ r'.rule.priority := by
  rcases first_before (fun a => .inr ⟨rfl, le_rfl⟩) listing.sorted h hr' hm with hlt | ⟨heq, -⟩
  · exact hlt.le
  · exact heq.le

/-- What is applied is of a rule of the listing, and comes before all that propose something. -/
lemma applied_spec (hh : ∀ r ∈ listing.rules, Holds (.parsed set) r.rule)
    (hx : applied set file context listing = some x) :
    (∃ r ∈ listing.rules, x ∈ translated r.rule) ∧
      (proposalFromRule x file context).isSome = true ∧
      ∀ r ∈ listing.rules, ∀ y ∈ translated r.rule,
        (proposalFromRule y file context).isSome = true → x.Before y := by
  have hmem := List.mem_filter.mp (List.mem_of_find?_eq_some hx)
  obtain ⟨r, hr, hmade⟩ := List.any_eq_true.mp hmem.2
  have hp : (proposalFromRule x file context).isSome = true := by
    simpa using List.find?_some hx
  refine ⟨⟨r, hr, (mem_translated (hh r hr)).mpr ⟨mem_ordered.mp hmem.1, hmade⟩⟩, hp,
    fun r' hr' y hy hy' => ?_⟩
  obtain ⟨hyset, hymade⟩ := (mem_translated (hh r' hr')).mp hy
  refine first_before (fun a => .inr ⟨rfl, le_rfl⟩) ((ordered_pairwise set).sublist
    List.filter_sublist) hx (List.mem_filter.mpr ⟨mem_ordered.mpr hyset, ?_⟩) hy'
  exact List.any_eq_true.mpr ⟨r', hr', hymade⟩

lemma exists_applied (hh : ∀ r ∈ listing.rules, Holds (.parsed set) r.rule) {r : ListedRule}
    (hr : r ∈ listing.rules) (ha : Acts file context r.rule = true) :
    ∃ x, applied set file context listing = some x := by
  obtain ⟨y, hy, hp⟩ := (acts_iff (hh r hr)).mp ha
  obtain ⟨hyset, hymade⟩ := (mem_translated (hh r hr)).mp hy
  refine Option.isSome_iff_exists.mp (List.find?_isSome.mpr ⟨y, List.mem_filter.mpr ⟨?_, ?_⟩, hp⟩)
  · exact mem_ordered.mpr hyset
  · exact List.any_eq_true.mpr ⟨r, hr, hymade⟩

lemma Listing.eq_of_id {r r' : ListedRule} (hr : r ∈ listing.rules) (hr' : r' ∈ listing.rules)
    (h : r.rule.ruleId = r'.rule.ruleId) : r = r' :=
  List.inj_on_of_nodup_map listing.ids hr hr' h

lemma Listing.length_eq {r r' : ListedRule} (hr : r ∈ listing.rules) (hr' : r' ∈ listing.rules) :
    r.rule.ruleId.length = r'.rule.ruleId.length :=
  (listing.uuids r hr).trans (listing.uuids r' hr').symm

lemma firstById_of_follows (hh : ∀ r ∈ listing.rules, Holds (.parsed set) r.rule)
    (h : FollowsListing set file context listing) : FirstById file context listing := by
  intro r hfirst r' hr' hacts
  have hr : r ∈ listing.rules := List.mem_of_find?_eq_some hfirst
  obtain ⟨x, hx⟩ := exists_applied hh hr' hacts
  obtain ⟨⟨r₀, hr₀, hx₀⟩, hp, hbefore⟩ := applied_spec hh hx
  have hmade := ((mem_translated (hh r₀ hr₀)).mp hx₀).2
  cases hfirst.symm.trans (h x hx r₀ hr₀ hmade)
  refine ⟨(acts_iff (hh r hr)).mpr ⟨x, hx₀, hp⟩, fun hpriority => ?_⟩
  obtain ⟨y, hy, hyp⟩ := (acts_iff (hh r' hr')).mp hacts
  have hle : x.id ≤ y.id := by
    rcases hbefore r' hr' y hy hyp with hlt | ⟨-, hle⟩
    · rw [priority_of_translated hx₀, priority_of_translated hy, hpriority] at hlt
      exact absurd hlt (lt_irrefl _)
    · exact hle
  exact le_of_madeOf (listing.length_eq hr hr') hmade ((mem_translated (hh r' hr')).mp hy).2 hle

lemma follows_of_firstById (hh : ∀ r ∈ listing.rules, Holds (.parsed set) r.rule)
    (h : FirstById file context listing) : FollowsListing set file context listing := by
  intro x hx r' hr' hmade
  obtain ⟨⟨r₀, hr₀, hx₀⟩, hp, hbefore⟩ := applied_spec hh hx
  have hmade₀ := ((mem_translated (hh r₀ hr₀)).mp hx₀).2
  obtain rfl : r' = r₀ :=
    listing.eq_of_id hr' hr₀ (madeOf_unique (listing.length_eq hr' hr₀) hmade hmade₀)
  have hacts : Acts file context r'.rule = true := (acts_iff (hh r' hr')).mpr ⟨x, hx₀, hp⟩
  obtain ⟨r, hfirst⟩ : ∃ r, firstListed file context listing = some r :=
    Option.isSome_iff_exists.mp (List.find?_isSome.mpr ⟨r', hr', matches_of_acts hacts⟩)
  have hr : r ∈ listing.rules := List.mem_of_find?_eq_some hfirst
  obtain ⟨hracts, hrid⟩ := h r hfirst r' hr' hacts
  obtain ⟨y, hy, hyp⟩ := (acts_iff (hh r hr)).mp hracts
  -- the applied rule comes before those of the first one, which has no larger priority
  have hle := listing.le_of_first hfirst hr' (matches_of_acts hacts)
  have htie : r'.rule.priority = r.rule.priority ∧ x.id ≤ y.id := by
    have hxy := hbefore r hr y hy hyp
    rw [Rule.Before, priority_of_translated hx₀, priority_of_translated hy] at hxy
    rcases hxy with hlt | htie
    · exact absurd hle (not_le.mpr hlt)
    · exact htie
  have hids : r'.rule.ruleId ≤ r.rule.ruleId := le_of_madeOf (listing.length_eq hr' hr) hmade
    ((mem_translated (hh r hr)).mp hy).2 htie.2
  rw [hfirst, listing.eq_of_id hr hr' (le_antisymm (hrid htie.1) hids)]

end Holding

/-! ### Merges -/

/-- However often and in whatever order the rules are merged, the file has them all. -/
lemma holds_mergeAll {path : String} {merges : List AgentRule} {file file' : RulesFile}
    {r : AgentRule} (h : mergeAll path file merges = .ok file')
    (hsame : ∀ m ∈ merges, m.ruleId = r.ruleId → m = r)
    (hlen : ∀ m ∈ merges, r.ruleId.length = m.ruleId.length) (hr : Holds file r ∨ r ∈ merges) :
    Holds file' r := by
  induction merges generalizing file with
  | nil =>
    cases h
    exact hr.resolve_right List.not_mem_nil
  | cons m merges ih =>
    obtain ⟨set, hset, h⟩ := bind_eq_ok.mp h
    obtain ⟨hsame_m, hsame⟩ := List.forall_mem_cons.mp hsame
    obtain ⟨hlen_m, hlen⟩ := List.forall_mem_cons.mp hlen
    refine ih h hsame hlen ?_
    by_cases hid : m.ruleId = r.ruleId
    · obtain rfl := hsame_m hid
      exact .inl (holds_merged hset rfl rfl)
    · rcases hr with hold | hr
      · exact .inl (hold.merged hset (Ne.symm hid) hlen_m)
      · exact .inr ((List.mem_cons.mp hr).resolve_left fun heq => hid (heq ▸ rfl))

lemma holds_of_merged {path : String} {found : RulesFile} {merges : List AgentRule} {set : RuleSet}
    (listing : Listing) (hmerged : mergeAll path found merges = .ok (.parsed set))
    (hmerges : ∀ m, m ∈ merges ↔ ∃ r ∈ listing.rules, r.rule = m) :
    ∀ r ∈ listing.rules, Holds (.parsed set) r.rule := by
  intro r hr
  refine holds_mergeAll hmerged (fun m hm hid => ?_) (fun m hm => ?_)
    (.inr ((hmerges r.rule).mpr ⟨r, hr, rfl⟩))
  · obtain ⟨r', hr', rfl⟩ := (hmerges m).mp hm
    rw [listing.eq_of_id hr' hr hid]
  · obtain ⟨r', hr', rfl⟩ := (hmerges m).mp hm
    exact listing.length_eq hr hr'

/-! ### New rules -/

lemma le_nextRulePriority {seen : List AgentRule} {roomId : String} {r : AgentRule} (hr : r ∈ seen)
    (hroom : r.roomId = roomId) :
    min (r.priority + RULE_PRIORITY_STEP) 10000 ≤ nextRulePriority seen roomId := by
  have hmem : r.priority ∈ (seen.filter (·.roomId = roomId)).map (·.priority) :=
    List.mem_map.mpr ⟨r, List.mem_filter.mpr ⟨hr, by simpa using hroom⟩, rfl⟩
  obtain ⟨top, htop⟩ := Option.isSome_iff_exists.mp (List.isSome_max?_of_mem hmem)
  have hle : r.priority ≤ top := (List.max?_eq_some_iff.mp htop).2 _ hmem
  rw [nextRulePriority, htop, Option.getD_some]
  exact min_le_min_right _ (by omega)

lemma ranksLast_iff {seen : List AgentRule} {n : ListedRule} {existing : List ListedRule}
    (hn : n.rule.priority = nextRulePriority seen n.rule.roomId)
    (hroom : ∀ e ∈ existing, e.rule.roomId = n.rule.roomId) :
    RanksLast n existing ↔ LeavesRoom seen n existing := by
  refine forall₂_congr fun e he => ?_
  rw [ListedRule.Precedes, hn]
  have hcap : nextRulePriority seen n.rule.roomId ≤ 10000 := min_le_right _ _
  constructor
  · rintro (hlt | htie)
    · by_cases hseen : e.rule ∈ seen
      · exact .inl ⟨hseen, hlt.trans_le hcap⟩
      · exact .inr (.inl ⟨hseen, hlt⟩)
    · exact .inr (.inr htie)
  · rintro (⟨hseen, hlt⟩ | ⟨-, hlt⟩ | htie)
    · have hle := le_nextRulePriority hseen (hroom e he)
      rw [RULE_PRIORITY_STEP] at hle
      exact .inl (by omega)
    · exact .inl hlt
    · exact .inr htie

/-- A confirmation that makes a rule gives it the next priority. -/
lemma priority_of_confirmDraft {s server : Server} {draftId key ruleId : String} {now : ℕ}
    {visible : List AgentRule} {stamps : Stamp × Stamp} {draft : RuleDraft} {rule : AgentRule}
    (h : s.confirmDraft draftId key now visible ruleId stamps = .ok ((draft, rule), server))
    (hnew : rule ∉ s.rules) : rule.priority = nextRulePriority visible rule.roomId := by
  unfold Server.confirmDraft at h
  split at h
  · cases h
  · split at h
    · split at h
      · cases h
      · split at h
        · cases h
        · rename_i hfound
          cases h
          exact absurd (List.mem_of_find?_eq_some hfound) hnew
    · cases h
    · cases h
    · split at h <;> cases h
    · split at h
      · cases h
      · split at h
        · cases h
        · cases h
          rfl

/-! ### One order -/

/-- **One precedence order**: when a folder follows the listing, and when a rule that is confirmed
ranks last. -/
theorem one_order_iff (listing : Listing) {path : String} {found : RulesFile}
    {merges : List AgentRule} {set : RuleSet}
    (hmerged : mergeAll path found merges = .ok (.parsed set))
    (hmerges : ∀ m, m ∈ merges ↔ ∃ r ∈ listing.rules, r.rule = m) (file : FileEntry)
    (context : RuleContext) {s server : Server} {draftId key ruleId : String} {now : ℕ}
    {visible : List AgentRule} {stamps : Stamp × Stamp} {draft : RuleDraft} {rule : AgentRule}
    (hconfirm : s.confirmDraft draftId key now visible ruleId stamps = .ok ((draft, rule), server))
    (hnew : rule ∉ s.rules) (createdAt : ℕ) {existing : List ListedRule}
    (hexisting : (existing.map (·.rule)).Perm (s.list rule.roomId)) :
    (FollowsListing set file context listing ↔ FirstById file context listing) ∧
      (RanksLast ⟨rule, createdAt⟩ existing ↔ LeavesRoom visible ⟨rule, createdAt⟩ existing) := by
  have hh := holds_of_merged listing hmerged hmerges
  refine ⟨⟨firstById_of_follows hh, follows_of_firstById hh⟩,
    ranksLast_iff (priority_of_confirmDraft hconfirm hnew) fun e he => ?_⟩
  have hlist := hexisting.subset (List.mem_map.mpr ⟨e, he, rfl⟩)
  simpa using (List.mem_filter.mp hlist).2

/-! ### Samples -/

/-- Bills go to a folder. -/
def billsTo (destination : String) : Json :=
  .obj [("conditions", .arr [.obj [("field", .str "name"), ("operator", .str "STARTS_WITH"),
      ("value", .str "Bill")]]),
    ("action", .obj [("type", .str "MOVE"), ("destinationTemplate", .str destination)])]

def sampleListed (ruleId destination : String) (priority : ℤ) (createdAt : ℕ) : ListedRule :=
  ⟨⟨ruleId, "room-1", "Bills", billsTo destination, priority, true, 1⟩, createdAt⟩

def laterRuleId : String := "22222222-2222-4222-8222-222222222222"

def sampleDraft : RuleDraft :=
  ⟨"draft-1", "room-1", "Bills", billsTo "paid", .draft, none, none, 100⟩

/-- A room with a rule and a draft. -/
def sampleServer (existing : ListedRule) : Server :=
  ⟨["room-1"], [existing.rule], [sampleDraft], []⟩

/-- There is room above the older rule, and its id is the smaller one. -/
def roomyListing : Listing where
  rules := [sampleListed sampleRuleId "bills" 10 0, sampleListed laterRuleId "paid" 110 1]
  sorted := by decide +kernel
  ids := by decide +kernel
  uuids := by decide +kernel

/-- The older rule has the largest priority there is, and the larger id. -/
def cappedListing : Listing where
  rules := [sampleListed laterRuleId "bills" 10000 0, sampleListed sampleRuleId "paid" 10000 1]
  sorted := by decide +kernel
  ids := by decide +kernel
  uuids := by decide +kernel

/-- The rules in the folder, once the two are merged. -/
def mergedBoth (older newer : ListedRule) (first second : String) : RuleSet :=
  ⟨1, [⟨older.rule.ruleId, older.rule.priority, { nameStartsWith := some "Bill" },
      ⟨some first, false, none⟩⟩,
    ⟨newer.rule.ruleId, newer.rule.priority, { nameStartsWith := some "Bill" },
      ⟨some second, false, none⟩⟩]⟩

def roomySet : RuleSet :=
  mergedBoth (sampleListed sampleRuleId "bills" 10 0) (sampleListed laterRuleId "paid" 110 1)
    "bills" "paid"

def cappedSet : RuleSet :=
  mergedBoth (sampleListed laterRuleId "bills" 10000 0) (sampleListed sampleRuleId "paid" 10000 1)
    "bills" "paid"

lemma roomy_merged : mergeAll "rules.json" (.parsed ⟨1, []⟩) (roomyListing.rules.map (·.rule)) =
    .ok (.parsed roomySet) := by
  decide +kernel

lemma capped_merged : mergeAll "rules.json" (.parsed ⟨1, []⟩) (cappedListing.rules.map (·.rule)) =
    .ok (.parsed cappedSet) := by
  decide +kernel

lemma roomy_confirmed : ∃ draft server,
    (sampleServer (sampleListed sampleRuleId "bills" 10 0)).confirmDraft "draft-1" "key" 1
        [(sampleListed sampleRuleId "bills" 10 0).rule] laterRuleId (sampleStamp, sampleStamp) =
      .ok ((draft, (sampleListed laterRuleId "paid" 110 1).rule), server) :=
  ⟨_, _, rfl⟩

lemma capped_confirmed : ∃ draft server,
    (sampleServer (sampleListed laterRuleId "bills" 10000 0)).confirmDraft "draft-1" "key" 1
        [(sampleListed laterRuleId "bills" 10000 0).rule] sampleRuleId (sampleStamp, sampleStamp) =
      .ok ((draft, (sampleListed sampleRuleId "paid" 10000 1).rule), server) :=
  ⟨_, _, rfl⟩

theorem one_order_iff_sample :
    FollowsListing roomySet (sampleFile "Bill.md") ⟨[], 0⟩ roomyListing ∧
      RanksLast (sampleListed laterRuleId "paid" 110 1) [sampleListed sampleRuleId "bills" 10 0] := by
  obtain ⟨draft, server, hconfirm⟩ := roomy_confirmed
  have hids : ∀ r ∈ [(sampleListed sampleRuleId "bills" 10 0).rule], r.ruleId = sampleRuleId :=
    List.forall_mem_singleton.mpr rfl
  have hnew : (sampleListed laterRuleId "paid" 110 1).rule ∉
      [(sampleListed sampleRuleId "bills" 10 0).rule] :=
    fun hmem => absurd (hids _ hmem) (by decide +kernel)
  have hiff := one_order_iff roomyListing roomy_merged (fun m => List.mem_map)
    (sampleFile "Bill.md") ⟨[], 0⟩ hconfirm hnew 1
    (.refl (([sampleListed sampleRuleId "bills" 10 0] : List ListedRule).map (·.rule)))
  refine ⟨hiff.1.mpr fun r hfirst r' hr' _ => ?_, hiff.2.mpr fun e he => ?_⟩
  · have hbills : firstListed (sampleFile "Bill.md") ⟨[], 0⟩ roomyListing =
        some (sampleListed sampleRuleId "bills" 10 0) :=
      List.find?_cons_of_pos (by decide +kernel)
    rw [← Option.some.inj (hbills.symm.trans hfirst)]
    have hleast : ∀ r' ∈ roomyListing.rules, sampleRuleId ≤ r'.rule.ruleId := by decide +kernel
    exact ⟨by decide +kernel, fun _ => hleast r' hr'⟩
  · obtain rfl := List.mem_singleton.mp he
    exact .inl ⟨List.mem_singleton.mpr rfl, by decide +kernel⟩

/-- The rule that is confirmed last has the smaller id, and no room is left above the other. -/
theorem not_one_order :
    (∃ draft server,
      (sampleServer (sampleListed laterRuleId "bills" 10000 0)).confirmDraft "draft-1" "key" 1
          [(sampleListed laterRuleId "bills" 10000 0).rule] sampleRuleId (sampleStamp, sampleStamp) =
        .ok ((draft, (sampleListed sampleRuleId "paid" 10000 1).rule), server)) ∧
      mergeAll "rules.json" (.parsed ⟨1, []⟩) (cappedListing.rules.map (·.rule)) =
        .ok (.parsed cappedSet) ∧
      ¬ FollowsListing cappedSet (sampleFile "Bill.md") ⟨[], 0⟩ cappedListing ∧
      ¬ RanksLast (sampleListed sampleRuleId "paid" 10000 1)
        [sampleListed laterRuleId "bills" 10000 0] := by
  refine ⟨capped_confirmed, capped_merged, fun h => ?_, fun h => ?_⟩
  · have hh := holds_of_merged cappedListing capped_merged fun m => List.mem_map
    have hbills : firstListed (sampleFile "Bill.md") ⟨[], 0⟩ cappedListing =
        some (sampleListed laterRuleId "bills" 10000 0) :=
      List.find?_cons_of_pos (by decide +kernel)
    have hpaid := (firstById_of_follows hh h _ hbills (sampleListed sampleRuleId "paid" 10000 1)
      (List.mem_cons_of_mem _ (List.mem_singleton.mpr rfl)) (by decide +kernel)).2 rfl
    exact absurd hpaid (by decide +kernel)
  · rcases h _ (List.mem_singleton.mpr rfl) with hlt | ⟨-, -, hid⟩
    · exact absurd hlt (by decide +kernel)
    · exact absurd hid (by decide +kernel)

end MouseKeeper.Desktop.RulePrecedence
