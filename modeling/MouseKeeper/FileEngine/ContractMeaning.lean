import MouseKeeper.FileEngine.Contract
import MouseKeeper.FileEngine.HonestProposals

/-!
What the rules of a contract definition mean.

Each condition says something of a file at a time, under its operator. The rule set made of a
definition proposes its action where all the conditions hold, or one of them, and the action would
change something. Whether a file is in its place already is read off the text of the destination.
-/

namespace MouseKeeper.FileEngine

open Posix
open Contracts (Json)

/-! ### Conditions -/

/-- An extension without its dot and the space around it. -/
def bareText (extension : String) : List Char :=
  match (trim extension).toList with
  | '.' :: bare => bare
  | trimmed => trimmed

def bareExtension (extension : String) : String :=
  toAsciiLowercase (String.ofList (bareText extension))

/-- The segments of a path in lower case, without the slashes around it. -/
def pathSegments (path : String) : List (List Char) :=
  splitSlash (trimSlashes (normalizeRelativePath path)).toList

def ContractAgeOperator.Holds (age days : ℕ) : ContractAgeOperator → Prop
  | .gte => days * DAY_MS ≤ age
  | .gt => days * DAY_MS < age

def ContractSizeOperator.Holds (size bound : ℕ) : ContractSizeOperator → Prop
  | .gte => bound ≤ size
  | .lte => size ≤ bound

def ContractNameOperator.Holds (name value : List Char) : ContractNameOperator → Prop
  | .contains => value <:+: name
  | .startsWith => value <+: name
  | .endsWith => value <:+ name

/-- The condition holds of the file at the time. The age of what is later than that is zero. -/
def ContractCondition.Holds (file : FileEntry) (now : ℕ) : ContractCondition → Prop
  | .extension value => ∃ x ∈ extensionOf file.path, x ∈ value.map bareExtension
  | .ageDays value => ∃ t ∈ file.modifiedUnixMs, value * DAY_MS ≤ now - t
  | .modifiedAgeDays operator value => ∃ t ∈ file.modifiedUnixMs, operator.Holds (now - t) value
  | .createdAgeDays operator value => ∃ t ∈ file.createdUnixMs, operator.Holds (now - t) value
  | .sizeBytes operator value => operator.Holds file.sizeBytes value
  | .relativePath value => pathSegments value <+: pathSegments file.path
  | .fileKind value => value = .file
  | .name operator value => ∃ name ∈ fileName file.path,
      operator.Holds (toAsciiLowercase name).toList (toAsciiLowercase value).toList

def ContractRuleDefinition.Holds (d : ContractRuleDefinition) (file : FileEntry) (now : ℕ) : Prop :=
  match d.matchMode with
  | .all => ∀ c ∈ d.conditions, c.Holds file now
  | .any => ∃ c ∈ d.conditions, c.Holds file now

/-! ### Actions -/

/-- The paths denote one place, apart from letter case and backslashes. -/
def SamePlace (a b : String) : Prop :=
  place (normalizeRelativePath a) = place (normalizeRelativePath b)

/-- A move has something to do if the file is not yet where it goes. -/
def ContractAction.HasToDo (file : FileEntry) : ContractAction → Prop
  | .move destination => ∃ name ∈ fileName file.path,
      ¬ SamePlace file.path (destination ++ "/" ++ name)
  | .quarantine | .trash | .createDir _ => True

/-- The proposal is for the action, with its destination. -/
def ContractAction.Carried (file : FileEntry) (p : Proposal) : ContractAction → Prop
  | .move destination => p.action = .move ∧ p.fromPath = file.path ∧
      ∃ name ∈ fileName file.path, p.toPath = destination ++ "/" ++ name
  | .quarantine | .trash => p.action = .trash ∧ p.fromPath = file.path ∧ p.toPath = TRASH_DIR
  | .createDir path => p.action = .createDir ∧ p.fromPath = "" ∧ p.toPath = path

/-- The rule set does what the definition says. -/
structure RuleSet.Keeps (set : RuleSet) (d : ContractRuleDefinition) (file : FileEntry)
    (context : RuleContext) : Prop where
  proposes : (∃ p, set.propose file context = some p) ↔
    d.Holds file context.nowUnixMs ∧ d.action.HasToDo file
  carried : ∀ p, set.propose file context = some p → d.action.Carried file p

/-- The file is where the move would bring it, and the text of the destination does not show it. -/
def ContractAction.Respelled (file : FileEntry) : ContractAction → Prop
  | .move destination => ∃ name ∈ fileName file.path,
      SamePlace file.path (destination ++ "/" ++ name) ∧
        normalizeRelativePath file.path ≠ normalizeRelativePath (destination ++ "/" ++ name)
  | .quarantine | .trash | .createDir _ => False

variable {file : FileEntry} {context : RuleContext} {ruleId : String} {priority : ℤ}
  {action : Action} {c c' : Condition} {x : ContractCondition}

/-! ### What the matcher asks -/

lemma ageDaysMatches_iff {compare : ℕ → ℕ → Bool} {timestamp : Option ℕ} {now days : ℕ} :
    ageDaysMatches compare timestamp now days = true ↔
      ∃ t ∈ timestamp, compare (now - t) (days * DAY_MS) = true := by
  cases timestamp <;> simp [ageDaysMatches]

lemma nameCondition_iff {holds : List Char → List Char → Bool} {path value : String} :
    nameCondition holds path value = true ↔ ∃ name ∈ fileName path,
      holds (toAsciiLowercase value).toList (toAsciiLowercase name).toList = true := by
  unfold nameCondition
  cases fileName path <;> simp

lemma relativePathHasPrefix_iff {path value : String} :
    relativePathHasPrefix path value = true ↔ pathSegments value <+: pathSegments path := by
  unfold relativePathHasPrefix pathSegments
  rw [splitSlash_isPrefixOf, Bool.or_eq_true, decide_eq_true_eq, List.isPrefixOf_iff_prefix,
    eq_comm, String.toList_inj.symm, String.toList_append]
  rfl

/-- What a rule asks of a file, slot by slot. -/
lemma ruleMatches_iff {r : Rule} : ruleMatches r file context = true ↔
    (∀ v, r.when.extensionIn = some v →
      (match extensionOf file.path with
        | some extension => v.any fun c => toAsciiLowercase c = toAsciiLowercase extension
        | none => false) = true) ∧
    (∀ v, r.when.olderThanDays = some v →
      ContractCondition.Holds file context.nowUnixMs (.ageDays v)) ∧
    (∀ v, r.when.modifiedAgeDaysGte = some v →
      ContractCondition.Holds file context.nowUnixMs (.modifiedAgeDays .gte v)) ∧
    (∀ v, r.when.modifiedAgeDaysGt = some v →
      ContractCondition.Holds file context.nowUnixMs (.modifiedAgeDays .gt v)) ∧
    (∀ v, r.when.createdAgeDaysGte = some v →
      ContractCondition.Holds file context.nowUnixMs (.createdAgeDays .gte v)) ∧
    (∀ v, r.when.createdAgeDaysGt = some v →
      ContractCondition.Holds file context.nowUnixMs (.createdAgeDays .gt v)) ∧
    (∀ v, r.when.sizeBytesGte = some v →
      ContractCondition.Holds file context.nowUnixMs (.sizeBytes .gte v)) ∧
    (∀ v, r.when.sizeBytesLte = some v →
      ContractCondition.Holds file context.nowUnixMs (.sizeBytes .lte v)) ∧
    (∀ v, r.when.relativePathStartsWith = some v →
      ContractCondition.Holds file context.nowUnixMs (.relativePath v)) ∧
    (∀ v, r.when.fileKind = some v →
      ContractCondition.Holds file context.nowUnixMs (.fileKind v)) ∧
    (∀ v, r.when.nameMatches = some v →
      (match fileName file.path with
        | some name => globMatch v name
        | none => false) = true) ∧
    (∀ v, r.when.nameContains = some v →
      ContractCondition.Holds file context.nowUnixMs (.name .contains v)) ∧
    (∀ v, r.when.nameStartsWith = some v →
      ContractCondition.Holds file context.nowUnixMs (.name .startsWith v)) ∧
    (∀ v, r.when.nameEndsWith = some v →
      ContractCondition.Holds file context.nowUnixMs (.name .endsWith v)) := by
  unfold ruleMatches
  simp only [Bool.and_eq_true, and_assoc, Option.all_eq_true, ageDaysMatches_iff,
    nameCondition_iff, relativePathHasPrefix_iff, decide_eq_true_eq, ContractCondition.Holds,
    ContractAgeOperator.Holds, ContractSizeOperator.Holds, ContractNameOperator.Holds]
  -- the two matches on the name are one
  all_goals exact Iff.rfl

/-! ### One condition more -/

lemma toLower_toLower (c : Char) : c.toLower.toLower = c.toLower := by
  by_cases h : c.val ≥ 'A'.val ∧ c.val ≤ 'Z'.val
  · have hval : c.toLower.val.toNat = c.val.toNat + 32 := by
      have hshift : ('a'.val - 'A'.val).toNat = 32 := by decide
      have hhigh : c.val.toNat ≤ 90 := h.2
      rw [val_toLower h, UInt32.toNat_add, hshift]
      omega
    refine dif_neg fun h' => ?_
    have hlow : 65 ≤ c.val.toNat := h.1
    have hhigh : c.toLower.val.toNat ≤ 90 := h'.2
    omega
  · have hc : c.toLower = c := dif_neg h
    rw [hc, hc]

lemma toAsciiLowercase_idem (s : String) :
    toAsciiLowercase (toAsciiLowercase s) = toAsciiLowercase s := by
  rw [toAsciiLowercase, toAsciiLowercase, String.toList_ofList, List.map_map]
  congr 2
  funext c
  exact toLower_toLower c

/-- An extension is in lower case. -/
lemma toAsciiLowercase_extensionOf {path x : String} (h : x ∈ extensionOf path) :
    toAsciiLowercase x = x := by
  obtain ⟨n, -, hx⟩ := Option.bind_eq_some_iff.mp h
  split at hx
  · rw [← Option.some.inj hx, toAsciiLowercase, String.toList_ofList, List.map_map]
    congr 2
    funext c
    exact toLower_toLower c
  · cases hx

lemma normalizeContractExtension_ok {extension e : String}
    (h : normalizeContractExtension ruleId extension = .ok e) : e = bareExtension extension := by
  have heq : normalizeContractExtension ruleId extension =
      if bareText extension = [] ∨ '.' ∈ bareText extension then
        .error (.invalidExtension ruleId extension)
      else .ok (bareExtension extension) := by
    unfold normalizeContractExtension bareExtension bareText
    rfl
  rw [heq] at h
  by_cases hc : bareText extension = [] ∨ '.' ∈ bareText extension
  · rw [if_pos hc] at h
    cases h
  · rw [if_neg hc] at h
    exact (Except.ok.inj h).symm

lemma mapM_normalize_ok {value l : List String}
    (h : value.mapM (normalizeContractExtension ruleId) = .ok l) : l = value.map bareExtension := by
  induction value generalizing l with
  | nil =>
    cases h
    rfl
  | cons e value ih =>
    rw [List.mapM_cons, bind_eq_ok] at h
    obtain ⟨b, hb, h⟩ := h
    obtain ⟨bs, hbs, h⟩ := bind_eq_ok.mp h
    cases h
    rw [List.map_cons, normalizeContractExtension_ok hb, ih hbs]

lemma extension_iff {value : List String} :
    (match extensionOf file.path with
      | some extension => (value.map bareExtension).any fun c =>
          toAsciiLowercase c = toAsciiLowercase extension
      | none => false) = true ↔ ∃ x ∈ extensionOf file.path, x ∈ value.map bareExtension := by
  have hbare : ∀ e ∈ value.map bareExtension, toAsciiLowercase e = e := by
    intro e he
    obtain ⟨extension, -, rfl⟩ := List.mem_map.mp he
    exact toAsciiLowercase_idem _
  cases hx : extensionOf file.path with
  | none => simp
  | some x =>
    simp only [List.any_eq_true, decide_eq_true_eq, Option.mem_def, Option.some.injEq,
      exists_eq_left', toAsciiLowercase_extensionOf hx]
    constructor
    · rintro ⟨e, he, heq⟩
      rwa [← heq, hbare e he]
    · intro h
      exact ⟨x, h, toAsciiLowercase_extensionOf hx⟩

/-- **One condition more.** The rule asks for it besides what it has asked before. -/
lemma ruleMatches_apply {id : String} (h : c.applyContractCondition ruleId x = .ok c') :
    ruleMatches ⟨id, priority, c', action⟩ file context = true ↔
      ruleMatches ⟨id, priority, c, action⟩ file context = true ∧
        x.Holds file context.nowUnixMs := by
  simp only [ruleMatches_iff]
  cases x with
  | extension value =>
    simp only [Condition.applyContractCondition, bind_eq_ok, setOnce_ok] at h
    obtain ⟨l, hl, _, ⟨hnone, rfl⟩, h⟩ := h
    cases h
    obtain rfl := mapM_normalize_ok hl
    simp only [hnone, reduceCtorEq, false_imp_iff, implies_true, true_and, Option.some.injEq,
      forall_eq', ContractCondition.Holds]
    rw [extension_iff]
    grind
  | ageDays value | relativePath value | fileKind value =>
    simp only [Condition.applyContractCondition, bind_eq_ok, setOnce_ok] at h
    obtain ⟨_, ⟨hnone, rfl⟩, h⟩ := h
    cases h
    simp only [hnone, reduceCtorEq, false_imp_iff, implies_true, true_and, Option.some.injEq,
      forall_eq']
    grind
  | modifiedAgeDays operator value | createdAgeDays operator value | sizeBytes operator value
  | name operator value =>
    cases operator
    all_goals
      simp only [Condition.applyContractCondition, bind_eq_ok, setOnce_ok] at h
      obtain ⟨_, ⟨hnone, rfl⟩, h⟩ := h
      cases h
      simp only [hnone, reduceCtorEq, false_imp_iff, implies_true, true_and, and_true,
        Option.some.injEq, forall_eq']
      grind

/-! ### Whole definitions -/

lemma ruleMatches_empty {id : String} :
    ruleMatches ⟨id, priority, {}, action⟩ file context = true := rfl

lemma ruleMatches_applyAll {id : String} {l : List ContractCondition}
    (h : applyAll ruleId c l = .ok c') :
    ruleMatches ⟨id, priority, c', action⟩ file context = true ↔
      ruleMatches ⟨id, priority, c, action⟩ file context = true ∧
        ∀ x ∈ l, x.Holds file context.nowUnixMs := by
  induction l generalizing c with
  | nil =>
    cases h
    simp
  | cons x l ih =>
    obtain ⟨c₁, hx, h⟩ := bind_eq_ok.mp h
    rw [ih h, ruleMatches_apply hx, and_assoc, List.forall_mem_cons]

lemma anyRules_spec {l : List ContractCondition} {k : ℕ} {rules : List Rule}
    (h : anyRules ruleId priority action k l = .ok rules) : (∀ r ∈ rules, r.action = action) ∧
      ∀ file context, ((∃ r ∈ rules, ruleMatches r file context = true) ↔
        ∃ x ∈ l, x.Holds file context.nowUnixMs) := by
  induction l generalizing k rules with
  | nil =>
    cases h
    simp
  | cons x l ih =>
    obtain ⟨c, hx, h⟩ := bind_eq_ok.mp h
    obtain ⟨rest, hrest, h⟩ := bind_eq_ok.mp h
    cases h
    obtain ⟨haction, hholds⟩ := ih hrest
    refine ⟨List.forall_mem_cons.mpr ⟨rfl, haction⟩, fun file context => ?_⟩
    rw [List.exists_mem_cons_iff, List.exists_mem_cons_iff, hholds, ruleMatches_apply hx,
      and_iff_right ruleMatches_empty]

/-- The rules made of a definition: some rule matches where the definition holds. -/
lemma intoRuleSet_spec {d : ContractRuleDefinition} {set : RuleSet}
    (h : d.intoRuleSet ruleId priority = .ok set) : set.validate = .ok () ∧
      (∀ r ∈ set.rules, r.action = d.action.intoAction) ∧ ∀ file context,
      ((∃ r ∈ set.rules, ruleMatches r file context = true) ↔ d.Holds file context.nowUnixMs) := by
  obtain ⟨mode, conditions, action⟩ := d
  cases mode with
  | all =>
    simp only [ContractRuleDefinition.intoRuleSet, bind_eq_ok] at h
    obtain ⟨c, hc, _, hrules, _, hvalid, h⟩ := h
    cases hrules
    cases h
    refine ⟨hvalid, List.forall_mem_singleton.mpr rfl, fun file context => ?_⟩
    simp only [List.mem_singleton, exists_eq_left]
    rw [ruleMatches_applyAll hc, and_iff_right ruleMatches_empty]
    rfl
  | any =>
    simp only [ContractRuleDefinition.intoRuleSet, bind_eq_ok] at h
    obtain ⟨rules, hrules, _, hvalid, h⟩ := h
    cases h
    exact ⟨hvalid, anyRules_spec hrules⟩

/-! ### What is proposed -/

/-- The text of the destination shows that the file is in its place. -/
def ContractAction.InPlace (file : FileEntry) : ContractAction → Prop
  | .move destination => ∀ name ∈ fileName file.path,
      normalizeRelativePath file.path = normalizeRelativePath (destination ++ "/" ++ name)
  | .quarantine | .trash | .createDir _ => False

lemma inPlace_iff {r : Rule} {a : ContractAction} (h : r.action = a.intoAction) :
    r.InPlace file ↔ a.InPlace file := by
  unfold Rule.InPlace
  rw [h]
  cases a <;> simp [ContractAction.intoAction, ContractAction.InPlace]

lemma carried_of_proposal {r : Rule} {a : ContractAction} {p : Proposal}
    (h : r.action = a.intoAction) (hp : proposalFromRule r file context = some p) :
    a.Carried file p := by
  unfold proposalFromRule at hp
  split at hp
  · rw [h] at hp
    cases a with
    | move destination =>
      simp only [ContractAction.intoAction, moveProposalFromRule] at hp
      split at hp
      · cases hp
      · next name hname =>
        split at hp
        · cases hp
        · cases hp
          exact ⟨rfl, rfl, name, hname, rfl⟩
    | quarantine | trash | createDir _ =>
      cases hp
      exact ⟨rfl, rfl, rfl⟩
  · cases hp

/-- A file that is in its place is so by its text, or it is not seen to be. -/
lemma hasToDo_iff {a : ContractAction} :
    a.HasToDo file ↔ ¬ a.InPlace file ∧ ¬ a.Respelled file := by
  cases a with
  | quarantine | trash | createDir _ =>
    simp [ContractAction.HasToDo, ContractAction.InPlace, ContractAction.Respelled]
  | move destination =>
    simp only [ContractAction.HasToDo, ContractAction.InPlace, ContractAction.Respelled]
    cases fileName file.path with
    | none => simp
    | some name =>
      have hsame : normalizeRelativePath file.path =
          normalizeRelativePath (destination ++ "/" ++ name) →
          SamePlace file.path (destination ++ "/" ++ name) := congrArg place
      simp only [Option.mem_def, Option.some.injEq, exists_eq_left', forall_eq']
      constructor
      · intro h
        exact ⟨fun heq => h (hsame heq), fun hr => h hr.1⟩
      · rintro ⟨hne, hr⟩ hs
        exact hr ⟨hs, hne⟩

lemma not_inPlace_of_respelled {a : ContractAction} (h : a.Respelled file) : ¬ a.InPlace file := by
  cases a with
  | quarantine | trash | createDir _ => exact nofun
  | move destination =>
    obtain ⟨name, hname, -, hne⟩ := h
    exact fun hplace => hne (hplace name hname)

lemma exists_propose {set : RuleSet} {a : ContractAction} (hset : set.validate = .ok ())
    (ha : ∀ r ∈ set.rules, r.action = a.intoAction) :
    (∃ p, set.propose file context = some p) ↔
      (∃ r ∈ set.rules, ruleMatches r file context = true) ∧ ¬ a.InPlace file := by
  obtain ⟨-, hvalid, -⟩ := RuleSet.validate_iff.mp hset
  rw [← Option.isSome_iff_exists, Option.isSome_iff_ne_none, Ne, propose_eq_none]
  simp only [not_forall, exists_prop]
  constructor
  · rintro ⟨r, hr, hp⟩
    have hm : ruleMatches r file context = true := by
      by_contra hm
      exact hp (proposalFromRule_of_not (Bool.not_eq_true _ ▸ hm))
    rw [proposalFromRule_eq_none (accepted_of_validate (hvalid r hr)) hm,
      inPlace_iff (ha r hr)] at hp
    exact ⟨⟨r, hr, hm⟩, hp⟩
  · rintro ⟨⟨r, hr, hm⟩, hp⟩
    refine ⟨r, hr, ?_⟩
    rwa [proposalFromRule_eq_none (accepted_of_validate (hvalid r hr)) hm,
      inPlace_iff (ha r hr)]

/-- Bills go to the given directory. -/
def billsDefinition (destination : String) : Json :=
  .obj [("conditions", .arr [.obj [("field", .str "name"), ("operator", .str "STARTS_WITH"),
      ("value", .str "Bill")]]),
    ("action", .obj [("type", .str "MOVE"), ("destinationTemplate", .str destination)])]

def billsRead (destination : String) : ContractRuleDefinition :=
  ⟨.all, [.name .startsWith "Bill"], .move destination⟩

def billsSet (destination : String) : RuleSet :=
  ⟨1, [⟨"r", 0, { nameStartsWith := some "Bill" }, ⟨some destination, false, none⟩⟩]⟩

end MouseKeeper.FileEngine
