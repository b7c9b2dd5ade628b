import MouseKeeper.Contracts.RuleDefinition
import MouseKeeper.FileEngine.Rules

/-!
Rule definitions of the contract, as the engine takes them.

A definition is read from JSON, turned into a rule set of its own, and checked. Under `ALL` the
conditions become one rule, in which each may be set once; under `ANY` each becomes a rule.
-/

namespace MouseKeeper.FileEngine

open Contracts (Json Fields)

inductive ContractMatchMode
  | all
  | any
  deriving DecidableEq

inductive ContractAgeOperator
  | gte
  | gt
  deriving DecidableEq

inductive ContractSizeOperator
  | gte
  | lte
  deriving DecidableEq

inductive ContractNameOperator
  | contains
  | startsWith
  | endsWith
  deriving DecidableEq

/-- The conditions; an operator that is the only one of its field is left out. -/
inductive ContractCondition
  | extension (value : List String)
  | ageDays (value : ℕ)
  | modifiedAgeDays (operator : ContractAgeOperator) (value : ℕ)
  | createdAgeDays (operator : ContractAgeOperator) (value : ℕ)
  | sizeBytes (operator : ContractSizeOperator) (value : ℕ)
  | relativePath (value : String)
  | fileKind (value : FileKind)
  | name (operator : ContractNameOperator) (value : String)
  deriving DecidableEq

inductive ContractAction
  | move (destinationTemplate : String)
  | quarantine
  | trash
  | createDir (relativePath : String)
  deriving DecidableEq

structure ContractRuleDefinition where
  matchMode : ContractMatchMode
  conditions : List ContractCondition
  action : ContractAction
  deriving DecidableEq

/-- A definition that serde does not read, or that is no rule set. -/
inductive ContractError
  | parseContract
  | rule (error : RuleError)
  deriving DecidableEq

/-! ### Reading -/

/-- A variant without fields, by its name. -/
def variant {α : Type} (variants : List (String × α)) (j : Json) : Option α := do
  let s ← j.asStr
  (variants.find? fun v => v.1 = s).map (·.2)

/-- An unsigned integer of so many bits. -/
def unsigned (bits : ℕ) : Json → Option ℕ
  | .num q => if q.den = 1 ∧ 0 ≤ q.num ∧ q.num.toNat < 2 ^ bits then some q.num.toNat else none
  | _ => none

def ContractInOperator.variants : List (String × Unit) := [("IN", ())]
def ContractGteOperator.variants : List (String × Unit) := [("GTE", ())]
def ContractStartsWithOperator.variants : List (String × Unit) := [("STARTS_WITH", ())]
def ContractEqOperator.variants : List (String × Unit) := [("EQ", ())]

def ContractAgeOperator.variants : List (String × ContractAgeOperator) :=
  [("GTE", .gte), ("GT", .gt)]

def ContractSizeOperator.variants : List (String × ContractSizeOperator) :=
  [("GTE", .gte), ("LTE", .lte)]

def ContractNameOperator.variants : List (String × ContractNameOperator) :=
  [("CONTAINS", .contains), ("STARTS_WITH", .startsWith), ("ENDS_WITH", .endsWith)]

def ContractMatchMode.variants : List (String × ContractMatchMode) := [("ALL", .all), ("ANY", .any)]

def FileKind.variants : List (String × FileKind) := [("FILE", .file), ("DIRECTORY", .directory)]

/-- The fields of a condition under an operator and a value. -/
def operated {o v c : Type} (operators : List (String × o)) (value : Json → Option v)
    (make : o → v → c) (fields : Fields) : Option c := do
  let operator ← variant operators (← fields.get "operator")
  let value ← value (← fields.get "value")
  some (make operator value)

/-- The enum is tagged by `field`; other fields are passed over. -/
def ContractCondition.deserialize (j : Json) : Option ContractCondition := do
  let fields ← j.asObj
  let field ← (← fields.get "field").asStr
  if field = "extension" then
    operated ContractInOperator.variants (fun v => v.asArr.bind fun l => l.mapM Json.asStr)
      (fun _ v => .extension v) fields
  else if field = "ageDays" then
    operated ContractGteOperator.variants (unsigned 32) (fun _ v => .ageDays v) fields
  else if field = "modifiedAgeDays" then
    operated ContractAgeOperator.variants (unsigned 32) .modifiedAgeDays fields
  else if field = "createdAgeDays" then
    operated ContractAgeOperator.variants (unsigned 32) .createdAgeDays fields
  else if field = "sizeBytes" then
    operated ContractSizeOperator.variants (unsigned 64) .sizeBytes fields
  else if field = "relativePath" then
    operated ContractStartsWithOperator.variants Json.asStr (fun _ v => .relativePath v) fields
  else if field = "fileKind" then
    operated ContractEqOperator.variants (variant FileKind.variants) (fun _ v => .fileKind v) fields
  else if field = "name" then
    operated ContractNameOperator.variants Json.asStr .name fields
  else none

def ContractAction.deserialize (j : Json) : Option ContractAction := do
  let fields ← j.asObj
  let type ← (← fields.get "type").asStr
  if type = "MOVE" then do
    let destinationTemplate ← (← fields.get "destinationTemplate").asStr
    some (.move destinationTemplate)
  else if type = "QUARANTINE" then some .quarantine
  else if type = "TRASH" then some .trash
  else if type = "CREATE_DIR" then do
    let relativePath ← (← fields.get "relativePath").asStr
    some (.createDir relativePath)
  else none

def ContractMatchMode.deserialize : Option Json → Option ContractMatchMode
  | none => some .all
  | some j => variant ContractMatchMode.variants j

def ContractRuleDefinition.deserialize (j : Json) : Option ContractRuleDefinition := do
  let fields ← j.asObj
  let matchMode ← ContractMatchMode.deserialize (fields.get "match")
  let conditions ← (← (← fields.get "conditions").asArr).mapM ContractCondition.deserialize
  let action ← ContractAction.deserialize (← fields.get "action")
  if fields.only ["match", "conditions", "action"] then some ⟨matchMode, conditions, action⟩
  else none

/-! ### Rule sets -/

def ContractAction.intoAction : ContractAction → Action
  | .move destinationTemplate => ⟨some destinationTemplate, false, none⟩
  | .quarantine | .trash => ⟨none, true, none⟩
  | .createDir relativePath => ⟨none, false, some relativePath⟩

def setOnce {α : Type} (ruleId condition : String) (target : Option α) (value : α) :
    Except RuleError (Option α) :=
  if target.isSome then
    .error (.invalidCondition ruleId condition "duplicate condition is ambiguous")
  else .ok (some value)

lemma setOnce_ok {α : Type} {ruleId condition : String} {target o : Option α} {value : α} :
    setOnce ruleId condition target value = .ok o ↔ target = none ∧ o = some value := by
  cases target <;> simp [setOnce, eq_comm]

def normalizeContractExtension (ruleId extension : String) : Except RuleError String :=
  let bare :=
    match (trim extension).toList with
    | '.' :: bare => bare
    | trimmed => trimmed
  if bare = [] ∨ '.' ∈ bare then .error (.invalidExtension ruleId extension)
  else .ok (toAsciiLowercase (String.ofList bare))

def Condition.applyContractCondition (ruleId : String) (c : Condition) :
    ContractCondition → Except RuleError Condition
  | .extension value => do
    let extensions ← value.mapM (normalizeContractExtension ruleId)
    let v ← setOnce ruleId "extension_in" c.extensionIn extensions
    .ok { c with extensionIn := v }
  | .ageDays value => do
    let v ← setOnce ruleId "older_than_days" c.olderThanDays value
    .ok { c with olderThanDays := v }
  | .modifiedAgeDays .gte value => do
    let v ← setOnce ruleId "modified_age_days_gte" c.modifiedAgeDaysGte value
    .ok { c with modifiedAgeDaysGte := v }
  | .modifiedAgeDays .gt value => do
    let v ← setOnce ruleId "modified_age_days_gt" c.modifiedAgeDaysGt value
    .ok { c with modifiedAgeDaysGt := v }
  | .createdAgeDays .gte value => do
    let v ← setOnce ruleId "created_age_days_gte" c.createdAgeDaysGte value
    .ok { c with createdAgeDaysGte := v }
  | .createdAgeDays .gt value => do
    let v ← setOnce ruleId "created_age_days_gt" c.createdAgeDaysGt value
    .ok { c with createdAgeDaysGt := v }
  | .sizeBytes .gte value => do
    let v ← setOnce ruleId "size_bytes_gte" c.sizeBytesGte value
    .ok { c with sizeBytesGte := v }
  | .sizeBytes .lte value => do
    let v ← setOnce ruleId "size_bytes_lte" c.sizeBytesLte value
    .ok { c with sizeBytesLte := v }
  | .relativePath value => do
    let v ← setOnce ruleId "relative_path_starts_with" c.relativePathStartsWith value
    .ok { c with relativePathStartsWith := v }
  | .fileKind value => do
    let v ← setOnce ruleId "file_kind" c.fileKind value
    .ok { c with fileKind := v }
  | .name .contains value => do
    let v ← setOnce ruleId "name_contains" c.nameContains value
    .ok { c with nameContains := v }
  | .name .startsWith value => do
    let v ← setOnce ruleId "name_starts_with" c.nameStartsWith value
    .ok { c with nameStartsWith := v }
  | .name .endsWith value => do
    let v ← setOnce ruleId "name_ends_with" c.nameEndsWith value
    .ok { c with nameEndsWith := v }

/-- The conditions one after the other. -/
def applyAll (ruleId : String) : Condition → List ContractCondition → Except RuleError Condition
  | c, [] => .ok c
  | c, x :: l => do
    let c ← c.applyContractCondition ruleId x
    applyAll ruleId c l

/-- One rule for each condition, counted from one. -/
def anyRules (ruleId : String) (priority : ℤ) (action : Action) :
    ℕ → List ContractCondition → Except RuleError (List Rule)
  | _, [] => .ok []
  | index, x :: l => do
    let id := ruleId ++ "-any-" ++ toString (index + 1)
    let condition ← Condition.applyContractCondition id {} x
    let rules ← anyRules ruleId priority action (index + 1) l
    .ok (⟨id, priority, condition, action⟩ :: rules)

def ContractRuleDefinition.intoRuleSet (d : ContractRuleDefinition) (ruleId : String)
    (priority : ℤ) : Except RuleError RuleSet := do
  let rules ←
    match d.matchMode with
    | .all => do
      let condition ← applyAll ruleId {} d.conditions
      .ok [⟨ruleId, priority, condition, d.action.intoAction⟩]
    | .any => anyRules ruleId priority d.action.intoAction 0 d.conditions
  let set : RuleSet := ⟨CURRENT_RULES_VERSION, rules⟩
  set.validate
  .ok set

def RuleSet.fromContractDefinition (ruleId : String) (priority : ℤ) (definition : Json) :
    Except ContractError RuleSet :=
  match ContractRuleDefinition.deserialize definition with
  | none => .error .parseContract
  | some d => (d.intoRuleSet ruleId priority).mapError .rule

end MouseKeeper.FileEngine
