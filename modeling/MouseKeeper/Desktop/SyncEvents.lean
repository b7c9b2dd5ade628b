import MouseKeeper.Desktop.ManagedRoots
import MouseKeeper.Desktop.StaleReports
import MouseKeeper.FileEngine.Acceptance

/-!
The events of the server as the desktop applies them.

A page of events is taken one by one: a removed room is detached from its root, a created rule
is fetched and merged into the `rules.json` of the root of its room, and the end of this device
detaches every room. The cursor moves once the whole page has been applied. What the server
answers and what the disk refuses are parameters; the watchers and the file index, whose
failures are swallowed, are left out.
-/

namespace MouseKeeper.Desktop

open Contracts (Json)
open FileEngine
open ManagedRootStore
open StaleReports (validateOpaqueValue)

structure SyncEvent where
  eventId : String
  eventType : String
  schemaVersion : ℕ
  correlationId : String
  aggregateType : String
  aggregateId : String
  deviceId : Option String
  roomId : Option String
  sequence : ℕ
  occurredAt : String
  payload : Json

structure AgentRule where
  ruleId : String
  roomId : String
  name : String
  definition : Json
  priority : ℤ
  enabled : Bool
  version : ℤ

def invalidResponse (message : String) : String := "INVALID_RESPONSE: " ++ message

/-- The envelopes are complete and their sequences grow. -/
def validateSyncEvents (after : ℕ) : List SyncEvent → Except String Unit
  | [] => .ok ()
  | e :: es =>
    if e.sequence ≤ after ∨ e.eventId = "" ∨ e.eventType = "" ∨ e.schemaVersion = 0 ∨
        e.correlationId = "" ∨ e.aggregateType = "" ∨ e.aggregateId = "" ∨ e.occurredAt = "" ∨
        e.payload.asObj.isNone then
      .error (invalidResponse "sync replay event failed envelope validation")
    else validateSyncEvents e.sequence es

def validateRule (r : AgentRule) : Except String Unit :=
  if trim r.ruleId = "" ∨ trim r.roomId = "" ∨ trim r.name = "" ∨ r.name.length > 120 ∨
      r.definition.asObj.isNone ∨ r.priority < 0 ∨ r.version ≤ 0 then
    .error (invalidResponse "rule failed response validation")
  else .ok ()

/-! ### The rules of a folder -/

/-- What a desktop finds at `.mousekeeper/rules.json`. -/
inductive RulesFile
  | absent
  | unreadable (message : String)
  | malformed (message : String)
  | parsed (set : RuleSet)
  deriving DecidableEq

def defaultRuleSet : RuleSet :=
  let rule (id : String) (extensions : List String) : Rule :=
    ⟨id, 10, { extensionIn := some extensions }, ⟨some id, false, none⟩⟩
  ⟨CURRENT_RULES_VERSION,
    [rule "documents" ["md", "pdf", "doc", "docx", "txt"],
      rule "images" ["png", "jpg", "jpeg", "gif", "webp"], rule "archives" ["zip", "tar", "gz", "7z"]]⟩

def loadRuleSetForRoot (path : String) : RulesFile → Except String RuleSet
  | .absent => .ok defaultRuleSet
  | .unreadable message => .error ("cannot read rules " ++ path ++ ": " ++ message)
  | .malformed message => .error ("cannot parse rules " ++ path ++ ": " ++ message)
  | .parsed set => do
    (set.validate).mapError RuleError.toText
    return set

/-- The words of serde on a definition it does not read are left out. -/
def contractErrorText : ContractError → String
  | .parseContract => "cannot parse rule contract definition"
  | .rule error => error.toText

/-- A rule that was made of the server's rule, alone or as one of several. -/
def madeOf (ruleId : String) (existing : Rule) : Bool :=
  existing.id = ruleId || (ruleId ++ "-any-").toList.isPrefixOf existing.id.toList

/-- The rules that an enabled rule of the server stands for. -/
def incomingRules (rule : AgentRule) : Except String (List Rule) :=
  if rule.enabled then
    match RuleSet.fromContractDefinition rule.ruleId rule.priority rule.definition with
    | .ok set => .ok set.rules
    | .error error => .error ("invalid server rule definition: " ++ contractErrorText error)
  else .ok []

/-- The rules that are to be written, or why they are not. -/
def mergedRules (path : String) (file : RulesFile) (rule : AgentRule) : Except String RuleSet := do
  let ruleSet ← (loadRuleSetForRoot path file).mapError ("cannot load existing local rules: " ++ ·)
  let kept := ruleSet.rules.filter fun existing => !madeOf rule.ruleId existing
  let incoming ← incomingRules rule
  let merged : RuleSet := ⟨ruleSet.version, kept ++ incoming⟩
  merged.validate.mapError fun error => "invalid merged local rules: " ++ error.toText
  return merged

/-! ### What a page meets -/

/-- What the desktop knows for itself: its registry, the `rules.json` under each folder and
the cursor of the device. -/
structure Local where
  roots : Roots
  rules : String → RulesFile
  cursor : ℕ

/-- What the others do while a page is applied: the rules the server answers for a room, and
the writes that fail, with their messages. A rules file may be left as something else. -/
structure Surroundings where
  rules : String → List AgentRule
  persist : String → Option String
  createDir : String → Option String
  writeRules : String → Option (String × RulesFile)
  saveCursor : ℕ → Option String
  clearsCursor : Bool
  forgetDevice : Option String
  now : ℤ

variable (w : Surroundings)

def listRules (roomId : String) : Except String (List AgentRule) :=
  if validateOpaqueValue roomId 200 then do
    checkAll validateRule (w.rules roomId)
    return w.rules roomId
  else .error "VALIDATION_FAILED: room id has an invalid format"

/-- Writing the row of a root. -/
def persistRoot (root : ManagedRoot) : Except String Unit :=
  match w.persist root.rootId with
  | some message => .error ("cannot persist managed root: " ++ message)
  | none => .ok ()

def applyLocalRoomDetached (roomId : String) (s : Local) : Except String Unit × Local :=
  match findByRoom s.roots roomId with
  | none => (.ok (), s)
  | some root =>
    if root.roomBindingStatus ≠ .detached then
      match detachRoom s.roots roomId w.now with
      | none => (.ok (), s)
      | some (updated, roots) => (persistRoot w updated, { s with roots })
    else (.ok (), s)

def applyServerRuleToLocalRoot (rule : AgentRule) (s : Local) : Except String Unit × Local :=
  match findByRoom s.roots rule.roomId with
  | none => (.error ("managed root is not bound to room: " ++ rule.roomId), s)
  | some root =>
    let stateDir := root.root ++ "/.mousekeeper"
    let rulesPath := stateDir ++ "/rules.json"
    match mergedRules rulesPath (s.rules root.root) rule with
    | .error message => (.error message, s)
    | .ok merged =>
      match w.createDir root.root, w.writeRules root.root with
      | some message, _ =>
        (.error ("cannot create rules directory " ++ stateDir ++ ": " ++ message), s)
      | none, some (message, left) =>
        (.error ("cannot write local rules " ++ rulesPath ++ ": " ++ message),
          { s with rules := Function.update s.rules root.root left })
      | none, none =>
        (.ok (), { s with rules := Function.update s.rules root.root (.parsed merged) })

/-- The rule of a `rule.created` event. -/
def SyncEvent.ruleId (e : SyncEvent) : String :=
  ((e.payload.asObj.bind (·.get "ruleId")).bind Json.asStr).getD e.aggregateId

/-- Whether the rule was applied. -/
def applyRuleCreatedEvent (e : SyncEvent) (s : Local) : Except String Bool × Local :=
  if e.eventType ≠ "rule.created" then (.ok false, s)
  else
    match e.roomId with
    | none => (.ok false, s)
    | some roomId =>
      match listRules w roomId with
      | .error message => (.error message, s)
      | .ok rules =>
        match rules.find? fun candidate => candidate.ruleId = e.ruleId with
        | none => (.ok false, s)
        | some rule =>
          match applyServerRuleToLocalRoot w rule s with
          | (.error message, s) => (.error message, s)
          | (.ok _, s) => (.ok true, s)

/-- The room of a `room.removed` event. -/
def SyncEvent.removedRoom (e : SyncEvent) : Option String :=
  if e.eventType = "room.removed" then
    e.roomId.or (if e.aggregateType = "room" then some e.aggregateId else none)
  else none

def SyncEvent.revokes (e : SyncEvent) (deviceId : String) : Bool :=
  e.eventType = "device.revoked" &&
    (e.deviceId = some deviceId || (e.aggregateType = "device" && e.aggregateId = deviceId))

/-- Rows that cannot be written, and a cursor that cannot be cleared, are passed over. -/
def applyLocalDeviceRevoked (s : Local) : Except String Unit × Local :=
  let s := { s with
    roots := (detachAllRooms s.roots w.now).2
    cursor := if w.clearsCursor then 0 else s.cursor }
  match w.forgetDevice with
  | some message => (.error message, s)
  | none => (.ok (), s)

end MouseKeeper.Desktop
