import Mathlib.Data.List.Nodup
import MouseKeeper.Contracts.Common
import MouseKeeper.Machine

/-!
The home screen, as updates from the server reach it.

A message is turned into an update, and an update into the next screen. What a message carries
about a device or a room is merged into what is known of it.
-/

namespace MouseKeeper.Mobile.HomeUpdates

open Contracts (Fields Json)
open Machine (run Meets)

/-! ### Maps -/

/-- A map from the JSON of the server. -/
abbrev Item := String → Option Json

/-- `map[key] == text`. -/
def Item.is (item : Item) (key text : String) : Bool :=
  match item key with
  | some (.str s) => s = text
  | _ => false

/-- `map[key] == number`. -/
def Item.isInt (item : Item) (key : String) (number : ℤ) : Bool :=
  match item key with
  | some (.num q) => q = number
  | _ => false

def Item.put (item : Item) (key : String) (value : Json) : Item :=
  fun k => if k = key then some value else item k

/-- `{...item, ...other}`. -/
def Item.merge (item other : Item) : Item := fun k => (other k).or (item k)

/-- `value ?? other`, for a value in a map. -/
def orElse (value : Option Json) (other : Json) : Json :=
  match value with
  | none | some .null => other
  | some v => v

/-- `item is String` for a value in a map. -/
def isString : Option Json → Bool
  | some (.str _) => true
  | _ => false

/-- `final String id when id.isNotEmpty => id`. -/
def nonEmpty : Json → Option String
  | .str s => if s = "" then none else some s
  | _ => none

def asInt : Option Json → Option ℤ
  | some (.num q) => if q.den = 1 then some q.num else none
  | _ => none

def asMap : Option Json → Option Item
  | some (.obj fields) => some (Fields.get fields)
  | _ => none

/-! ### Updates -/

inductive RealtimeHomeUpdateKind
  | presence | devicePaired | deviceRemoved | roomCreated | roomRemoved | proposalCreated
  | decisionCreated | roomSnapshotUpdated | commandStatus | executionStatus | refreshSummary
  deriving DecidableEq

structure RealtimeHomeUpdate where
  kind : RealtimeHomeUpdateKind
  deviceId : Option String := none
  roomId : Option String := none
  device : Option Item := none
  room : Option Item := none
  pendingProposalCount : Option ℤ := none
  roomSnapshot : Option Item := none
  presence : Option String := none
  executionStatus : Option String := none

def _validPresences : List String :=
  ["OFFLINE", "ONLINE_IDLE", "ONLINE_SCANNING", "ONLINE_EXECUTING", "DEGRADED"]

def _homeIrrelevantEvents : List String :=
  ["character.event", "chat.message.created", "chat.session.read", "command.draft.updated",
    "rule.draft.created", "rule.draft.updated", "command.available", "command.updated",
    "file.browse.requested", "file.browse.ready", "file.browse.failed", "file.directory.updated",
    "file.transfer.requested", "file.transfer.updated", "rule.created", "rule.updated",
    "smart-cache.updated"]

def _summaryRefreshEvents : List String := []

def refreshSummary : RealtimeHomeUpdate := { kind := .refreshSummary }

def presenceUpdate (deviceId : Option String) (payload : Item) : Option RealtimeHomeUpdate :=
  match deviceId, payload "presence" with
  | some _, some (.str presence) =>
    if presence ∈ _validPresences then
      some { kind := .presence, deviceId, presence := some presence }
    else none
  | _, _ => none

def deviceUpdate (deviceId : Option String) (payload : Item) : RealtimeHomeUpdate :=
  match asMap (payload "device") with
  | some device =>
    if deviceId.all (device.is "id") ∧ device.is "status" "ACTIVE" then
      { kind := .devicePaired, deviceId, device := some device }
    else refreshSummary
  | none => refreshSummary

def roomUpdate (roomId : Option String) (payload : Item) : RealtimeHomeUpdate :=
  match asMap (payload "room") with
  | some room =>
    if roomId.all (room.is "id") ∧ room.is "status" "ACTIVE" ∧ isString (room "desktopDeviceId") ∧
        isString (room "name") ∧ isString (room "rootAlias") ∧ isString (room "createdAt") then
      { kind := .roomCreated, roomId, room := some room }
    else refreshSummary
  | none => refreshSummary

/-- A proposal or a decision. -/
def proposalUpdate (kind : RealtimeHomeUpdateKind) (roomId proposalId : Option String)
    (status : Json) (pendingProposalCount : Option ℤ) : RealtimeHomeUpdate :=
  if roomId.isSome ∧ proposalId.isSome ∧ (nonEmpty status).isSome ∧ pendingProposalCount.isSome then
    { kind, roomId, pendingProposalCount }
  else refreshSummary

def snapshotUpdate (roomId snapshotId : Option String) (payload : Item) : RealtimeHomeUpdate :=
  match roomId, snapshotId, asInt (payload "score"), payload "metrics",
    nonEmpty (orElse (payload "formulaVersion") .null),
    nonEmpty (orElse (payload "calculatedAt") .null) with
  | some id, some snapshotId, some score, some (.obj metrics), some formulaVersion,
    some calculatedAt =>
    { kind := .roomSnapshotUpdated
      roomId
      roomSnapshot := some (Fields.get [("id", .str snapshotId), ("roomId", .str id),
        ("score", .num score), ("metrics", .obj metrics),
        ("formulaVersion", .str formulaVersion), ("calculatedAt", .str calculatedAt)]) }
  | _, _, _, _, _, _ => refreshSummary

def commandUpdate (roomId commandId : Option String) (payload : Item) :
    Option RealtimeHomeUpdate :=
  if roomId.isSome ∧ commandId.isSome ∧ (nonEmpty (orElse (payload "status") .null)).isSome then
    some { kind := .commandStatus, roomId }
  else none

def executionUpdate (roomId : Option String) (payload : Item) : RealtimeHomeUpdate :=
  match roomId, nonEmpty (orElse (payload "status") .null) with
  | some _, some status => { kind := .executionStatus, roomId, executionStatus := some status }
  | _, _ => refreshSummary

def realtimeHomeUpdateFor (event : String) (data : Json) : Option RealtimeHomeUpdate :=
  match data with
  | .obj fields =>
    let value : Item := Fields.get fields
    let payload := (asMap (value "payload")).getD value
    let id (key : String) := nonEmpty (orElse (payload key) (orElse (value key) .null))
    let idOrAggregate (key : String) :=
      nonEmpty (orElse (payload key) (orElse (value key) (orElse (value "aggregateId") .null)))
    let deviceId := id "deviceId"
    let roomId := id "roomId"
    if event = "presence.updated" then presenceUpdate deviceId payload
    else if event = "device.paired" ∧ deviceId.isSome then some (deviceUpdate deviceId payload)
    else if event = "device.revoked" ∧ deviceId.isSome then
      some { kind := .deviceRemoved, deviceId }
    else if event = "room.created" ∧ roomId.isSome then some (roomUpdate roomId payload)
    else if event = "room.removed" ∧ roomId.isSome then some { kind := .roomRemoved, roomId }
    else if event = "proposal.created" then
      some (proposalUpdate .proposalCreated roomId (idOrAggregate "proposalId")
        (orElse (payload "status") .null) (asInt (payload "pendingProposalCount")))
    else if event = "decision.created" then
      some (proposalUpdate .decisionCreated roomId (idOrAggregate "proposalId")
        (orElse (payload "proposalStatus") .null) (asInt (payload "pendingProposalCount")))
    else if event = "room.snapshot.updated" then
      some (snapshotUpdate roomId (idOrAggregate "snapshotId") payload)
    else if event = "command.updated" then commandUpdate roomId (idOrAggregate "commandId") payload
    else if event = "execution.updated" then some (executionUpdate roomId payload)
    else if event ∈ _summaryRefreshEvents then some refreshSummary
    else if event ∈ _homeIrrelevantEvents then none
    else if isString (value "eventId") ∨ isString (value "eventType") then some refreshSummary
    else none
  | _ => none

/-! ### The reducer -/

structure HomeData where
  devices : List Item
  rooms : List Item
  isOffline : Bool
  outboxPending : ℕ
  outboxFailed : ℕ
  character : Option Item

/-- `map`, where only the entry with the id is changed. -/
def patch (id : String) (f : Item → Item) (items : List Item) : List Item :=
  items.map fun item => if item.is "id" id then f item else item

/-- The same, and a new entry if none is there to be changed. -/
def upsert (id : String) (f : Item → Item) (new : Item) (items : List Item) : List Item :=
  if items.any (·.is "id" id) then patch id f items else items ++ [new]

/-- `where`. -/
def without (key id : String) (items : List Item) : List Item := items.filter fun item => !item.is key id

/-- `DateTime.tryParse`, as microseconds. -/
abbrev TryParse := String → Option ℤ

/-- The time that a value stands for. -/
def timeOf (tryParse : TryParse) : Option Json → Option ℤ
  | some (.str s) => if s = "" then none else tryParse s
  | _ => none

variable (tryParse : TryParse)

def _snapshotIsNewer (currentCalculatedAt nextCalculatedAt : Option Json) : Bool :=
  match timeOf tryParse nextCalculatedAt with
  | none => false
  | some next =>
    match timeOf tryParse currentCalculatedAt with
    | none => true
    | some current => current < next

def nextDevice (device : Item) : Item :=
  device.put "presence" (orElse (device "presence") (.str "OFFLINE"))

def pairDevice (device existing : Item) : Item :=
  (existing.merge (nextDevice device)).put "presence"
    (orElse (existing "presence") (orElse (nextDevice device "presence") .null))

def nextRoom (room : Item) : Item :=
  Item.merge (Fields.get [("pendingProposalCount", .num 0), ("latestExecutionStatus", .null),
    ("cleanlinessScore", .null), ("cleanlinessFormulaVersion", .null),
    ("cleanlinessCalculatedAt", .null)]) room

def setText (key text : String) (item : Item) : Item :=
  if item.is key text then item else item.put key (.str text)

def setCount (count : ℤ) (room : Item) : Item :=
  if room.isInt "pendingProposalCount" count then room
  else room.put "pendingProposalCount" (.num count)

def setCleanliness (snapshot room : Item) : Item :=
  if _snapshotIsNewer tryParse (room "cleanlinessCalculatedAt") (snapshot "calculatedAt") then
    ((room.put "cleanlinessScore" (orElse (snapshot "score") .null)).put
      "cleanlinessFormulaVersion" (orElse (snapshot "formulaVersion") .null)).put
      "cleanlinessCalculatedAt" (orElse (snapshot "calculatedAt") .null)
  else room

/-- Whether an object that is equal to the one before is also the same is left open. -/
def reduceHomeDataForRealtimeUpdate (current : HomeData) (update : RealtimeHomeUpdate)
    (activeDeviceIds activeRoomIds : List String) : Option HomeData :=
  match update.kind with
  | .refreshSummary => none
  | .devicePaired =>
    match update.deviceId, update.device with
    | some deviceId, some device =>
      if deviceId ∈ activeDeviceIds then some { current with
        devices := upsert deviceId (pairDevice device) (nextDevice device) current.devices }
      else some current
    | _, _ => some current
  | .presence =>
    match update.deviceId, update.presence with
    | some deviceId, some presence =>
      if deviceId ∈ activeDeviceIds then some { current with
        devices := patch deviceId (setText "presence" presence) current.devices }
      else some current
    | _, _ => some current
  | .deviceRemoved =>
    match update.deviceId with
    | some deviceId => some { current with
        devices := without "id" deviceId current.devices
        rooms := without "desktopDeviceId" deviceId current.rooms }
    | none => some current
  | .roomCreated =>
    match update.roomId, update.room with
    | some roomId, some room =>
      if roomId ∈ activeRoomIds then some { current with
        rooms := upsert roomId (fun existing => existing.merge (nextRoom room)) (nextRoom room)
          current.rooms }
      else some current
    | _, _ => some current
  | .roomRemoved =>
    match update.roomId with
    | some roomId => some { current with rooms := without "id" roomId current.rooms }
    | none => some current
  | .proposalCreated | .decisionCreated =>
    match update.roomId with
    | some roomId =>
      if roomId ∈ activeRoomIds then
        match update.pendingProposalCount with
        | none => none
        | some count => some { current with rooms := patch roomId (setCount count) current.rooms }
      else some current
    | none => some current
  | .roomSnapshotUpdated =>
    match update.roomId, update.roomSnapshot with
    | some roomId, some snapshot =>
      if roomId ∈ activeRoomIds then some { current with
        rooms := patch roomId (setCleanliness tryParse snapshot) current.rooms }
      else some current
    | _, _ => some current
  | .commandStatus => some current
  | .executionStatus =>
    match update.roomId, update.executionStatus with
    | some roomId, some status =>
      if roomId ∈ activeRoomIds then some { current with
        rooms := patch roomId (setText "latestExecutionStatus" status) current.rooms }
      else some current
    | _, _ => some current

end MouseKeeper.Mobile.HomeUpdates
