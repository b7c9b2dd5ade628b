import MouseKeeper.Contracts.Common

/-!
The rule definitions that the server stores.

`ruleDefinitionSchema` reads a definition; what it lets through is stored, and handed to the
desktop as JSON again.
-/

namespace MouseKeeper.Contracts

inductive Match
  | all
  | any
  deriving DecidableEq

inductive FileAgeField
  | modifiedAgeDays
  | createdAgeDays
  deriving DecidableEq

inductive FileAgeOperator
  | gte
  | gt
  deriving DecidableEq

inductive SizeOperator
  | gte
  | lte
  deriving DecidableEq

inductive FileKind
  | file
  | directory
  deriving DecidableEq

inductive NameOperator
  | contains
  | startsWith
  | endsWith
  deriving DecidableEq

inductive RuleCondition
  | extension (value : List String)
  | ageDays (value : ℕ)
  | fileAge (field : FileAgeField) (operator : FileAgeOperator) (value : ℕ)
  | sizeBytes (operator : SizeOperator) (value : ℕ)
  | relativePath (value : String)
  | fileKind (value : FileKind)
  | name (operator : NameOperator) (value : String)
  deriving DecidableEq

inductive RuleAction
  | move (destinationTemplate : String)
  | quarantine
  | trash
  | createDir (relativePath : String)
  deriving DecidableEq

structure RuleDefinition where
  mode : Match
  conditions : List RuleCondition
  action : RuleAction
  deriving DecidableEq

/-! ### The words of the contract -/

def FileAgeField.text : FileAgeField → String
  | .modifiedAgeDays => "modifiedAgeDays"
  | .createdAgeDays => "createdAgeDays"

def FileAgeOperator.text : FileAgeOperator → String
  | .gte => "GTE"
  | .gt => "GT"

def SizeOperator.text : SizeOperator → String
  | .gte => "GTE"
  | .lte => "LTE"

def FileKind.text : FileKind → String
  | .file => "FILE"
  | .directory => "DIRECTORY"

def NameOperator.text : NameOperator → String
  | .contains => "CONTAINS"
  | .startsWith => "STARTS_WITH"
  | .endsWith => "ENDS_WITH"

def Match.text : Match → String
  | .all => "ALL"
  | .any => "ANY"

/-- `z.enum`: the member that is written so. -/
def oneOf {α : Type} (text : α → String) (members : List α) (j : Option Json) : Option α := do
  let s ← (← j).asStr
  members.find? fun a => text a = s

def operatorIs (operator : String) (fields : Fields) : Option Unit := do
  let s ← (← fields.get "operator").asStr
  if s = operator then some () else none

/-! ### The schema -/

/-- A number up to a bound. -/
def asNatUpTo (max : ℕ) (j : Json) : Option ℕ := do
  let n ← j.asNat
  if n ≤ max then some n else none

/-- A text that passes a check. -/
def asStrWith (check : String → Bool) (j : Json) : Option String := do
  let s ← j.asStr
  if check s then some s else none

lemma asStrWith_check {check : String → Bool} {j : Json} {s : String}
    (h : asStrWith check j = some s) : check s = true := by
  simp only [asStrWith, Option.bind_eq_bind, Option.bind_eq_some_iff] at h
  obtain ⟨t, -, h⟩ := h
  split at h
  · next ht =>
    cases h
    exact ht
  · cases h

def extensionCondition (fields : Fields) (value : Json) : Option RuleCondition := do
  operatorIs "IN" fields
  let items ← value.asArr
  let extensions ← items.mapM (asStrWith isExtension)
  if 1 ≤ extensions.length ∧ extensions.length ≤ 50 then some (.extension extensions) else none

def ageCondition (fields : Fields) (value : Json) : Option RuleCondition := do
  operatorIs "GTE" fields
  .ageDays <$> asNatUpTo 36500 value

def fileAgeCondition (field : FileAgeField) (fields : Fields) (value : Json) :
    Option RuleCondition := do
  let operator ← oneOf FileAgeOperator.text [.gte, .gt] (fields.get "operator")
  .fileAge field operator <$> asNatUpTo 36500 value

def sizeCondition (fields : Fields) (value : Json) : Option RuleCondition := do
  let operator ← oneOf SizeOperator.text [.gte, .lte] (fields.get "operator")
  .sizeBytes operator <$> value.asNat

def relativePathCondition (fields : Fields) (value : Json) : Option RuleCondition := do
  operatorIs "STARTS_WITH" fields
  .relativePath <$> asStrWith relativePathSchema value

def fileKindCondition (fields : Fields) (value : Json) : Option RuleCondition := do
  operatorIs "EQ" fields
  .fileKind <$> oneOf FileKind.text [.file, .directory] value

def nameCondition (fields : Fields) (value : Json) : Option RuleCondition := do
  let operator ← oneOf NameOperator.text [.contains, .startsWith, .endsWith] (fields.get "operator")
  .name operator <$> (value.asStr.bind (trimmed 120))

def conditionSchema (j : Json) : Option RuleCondition := do
  let fields ← j.strict ["field", "operator", "value"]
  let field ← (← fields.get "field").asStr
  let value ← fields.get "value"
  if field = "extension" then extensionCondition fields value
  else if field = "ageDays" then ageCondition fields value
  else if field = "modifiedAgeDays" then fileAgeCondition .modifiedAgeDays fields value
  else if field = "createdAgeDays" then fileAgeCondition .createdAgeDays fields value
  else if field = "sizeBytes" then sizeCondition fields value
  else if field = "relativePath" then relativePathCondition fields value
  else if field = "fileKind" then fileKindCondition fields value
  else if field = "name" then nameCondition fields value
  else none

def actionSchema (j : Json) : Option RuleAction := do
  let type ← (← (← j.asObj).get "type").asStr
  if type = "MOVE" then do
    let fields ← j.strict ["type", "destinationTemplate"]
    .move <$> asStrWith relativePathSchema (← fields.get "destinationTemplate")
  else if type = "QUARANTINE" then (j.strict ["type"]).map fun _ => .quarantine
  else if type = "TRASH" then (j.strict ["type"]).map fun _ => .trash
  else if type = "CREATE_DIR" then do
    let fields ← j.strict ["type", "relativePath"]
    .createDir <$> asStrWith relativePathSchema (← fields.get "relativePath")
  else none

def modeSchema (j : Option Json) : Option Match :=
  match j with
  | none => some .all
  | some j => oneOf Match.text [.all, .any] j

def ruleDefinitionSchema (j : Json) : Option RuleDefinition := do
  let fields ← j.strict ["match", "conditions", "action"]
  let mode ← modeSchema (fields.get "match")
  let items ← (← fields.get "conditions").asArr
  let conditions ← items.mapM conditionSchema
  let action ← actionSchema (← fields.get "action")
  if 1 ≤ conditions.length ∧ conditions.length ≤ 10 then some ⟨mode, conditions, action⟩ else none

/-! ### What is stored -/

def condition (field operator : String) (value : Json) : Json :=
  .obj [("field", .str field), ("operator", .str operator), ("value", value)]

def RuleCondition.toJson : RuleCondition → Json
  | .extension value => condition "extension" "IN" (.arr (value.map .str))
  | .ageDays value => condition "ageDays" "GTE" (.ofNat value)
  | .fileAge field operator value => condition field.text operator.text (.ofNat value)
  | .sizeBytes operator value => condition "sizeBytes" operator.text (.ofNat value)
  | .relativePath value => condition "relativePath" "STARTS_WITH" (.str value)
  | .fileKind value => condition "fileKind" "EQ" (.str value.text)
  | .name operator value => condition "name" operator.text (.str value)

def RuleAction.toJson : RuleAction → Json
  | .move destinationTemplate =>
    .obj [("type", .str "MOVE"), ("destinationTemplate", .str destinationTemplate)]
  | .quarantine => .obj [("type", .str "QUARANTINE")]
  | .trash => .obj [("type", .str "TRASH")]
  | .createDir relativePath =>
    .obj [("type", .str "CREATE_DIR"), ("relativePath", .str relativePath)]

def RuleDefinition.toJson (d : RuleDefinition) : Json :=
  .obj [("match", .str d.mode.text), ("conditions", .arr (d.conditions.map RuleCondition.toJson)),
    ("action", d.action.toJson)]

end MouseKeeper.Contracts
