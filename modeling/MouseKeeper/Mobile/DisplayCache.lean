import MouseKeeper.KeyedTable
import MouseKeeper.Mobile.MutationOutbox

/-!
The display cache of the mobile app.

Devices, rooms and what a room shows are kept in one local database for all accounts of the
phone. Each call of `DisplayCache` is one transaction for one account; one that throws changes
nothing. The times at which rows are written are left out.
-/

namespace MouseKeeper.Mobile.DisplayCache

open MouseKeeper.Contracts (Fields Json)
open MouseKeeper.Mobile.Outbox (Reading)

/-! ### The database -/

/-- A row of `cached_devices` or `cached_rooms`. -/
structure TopRow where
  ownerUid : ℕ
  id : String
  payloadJson : Fields

def TopRow.key (r : TopRow) : ℕ × String := (r.ownerUid, r.id)

/-- A row of `cached_commands`, `cached_proposals` or `cached_executions`. -/
structure RoomRow where
  ownerUid : ℕ
  roomId : String
  id : String
  payloadJson : Fields

def RoomRow.key (r : RoomRow) : ℕ × String := (r.ownerUid, r.id)

structure SnapshotRow where
  ownerUid : ℕ
  roomId : String
  payloadJson : Fields

def SnapshotRow.key (r : SnapshotRow) : ℕ × String := (r.ownerUid, r.roomId)

structure SmartCacheRow where
  ownerUid : ℕ
  roomId : String
  id : String
  sourceRelativePath : String
  payloadJson : Fields
  availabilityStatus : String
  freshnessStatus : String
  localDownloadPath : Option String
  sha256 : Option String
  sizeBytes : Option ℤ

def SmartCacheRow.key (r : SmartCacheRow) : ℕ × String := (r.ownerUid, r.id)

structure Database where
  cachedDevices : Table TopRow.key
  cachedRooms : Table TopRow.key
  cachedCommands : Table RoomRow.key
  cachedProposals : Table RoomRow.key
  cachedExecutions : Table RoomRow.key
  cachedRoomSnapshots : Table SnapshotRow.key
  cachedSmartCacheFiles : Table SmartCacheRow.key
  mutationOutbox : Table Outbox.Row.id

def Database.empty : Database :=
  ⟨.empty, .empty, .empty, .empty, .empty, .empty, .empty, .empty⟩

/-! ### Values -/

def stringField (value : Fields) (key : String) : Option String := (value.get key).bind Json.asStr

/-- `{...value, ...newer}`. -/
def merge (value newer : Fields) : Fields :=
  (value.map fun x => (x.1, (newer.get x.1).getD x.2)) ++
    newer.filter fun x => (value.get x.1).isNone

/-- What `??` takes for a value. -/
def present (value : Fields) (key : String) : Option Json :=
  match value.get key with
  | some .null => none
  | j => j

/-- `_requiredString`. -/
def requiredString (value : Fields) (key : String) : Option String :=
  (stringField value key).filter (· ≠ "")

/-- `value[key] as String?`, which throws for other values. -/
def optionalString (value : Fields) (key : String) : Option (Option String) :=
  match present value key with
  | none => some none
  | some (.str s) => some (some s)
  | some _ => none

/-- `_intValue`. -/
def intValue (value : Fields) (key : String) : Option ℤ :=
  match value.get key with
  | some (.num q) => some (q.num.tdiv q.den)
  | _ => none

section Rows

variable (ownerUid : ℕ)

def topRow (value : Fields) : Option TopRow := do
  let id ← stringField value "id"
  some ⟨ownerUid, id, value⟩

def roomRow (roomId : String) (value : Fields) : Option RoomRow := do
  let id ← stringField value "id"
  some ⟨ownerUid, roomId, id, value⟩

def executionRow (roomId : String) (value : Fields) : Option RoomRow := do
  let execution ← (← value.get "execution").asObj
  let id ← stringField execution "id"
  some ⟨ownerUid, roomId, id, value⟩

/-- `_smartCacheFileCompanion`. -/
def smartCacheRow (roomId : String) (value : Fields) : Option SmartCacheRow := do
  let id ← requiredString value "id"
  let sourceRelativePath ← requiredString value "sourceRelativePath"
  let availabilityStatus ← optionalString value "availabilityStatus"
  let freshnessStatus ← optionalString value "freshnessStatus"
  let localDownloadPath ← optionalString value "localDownloadPath"
  let sha256 ← optionalString value "sha256"
  some { ownerUid, roomId, id, sourceRelativePath, localDownloadPath, sha256
         payloadJson := value
         availabilityStatus := availabilityStatus.getD "AVAILABLE"
         freshnessStatus := freshnessStatus.getD "UNKNOWN"
         sizeBytes := intValue value "sizeBytes" }

end Rows

/-! ### The calls -/

namespace Database

variable (v : Reading) (ownerUid : ℕ) (db : Database)

def cachedRoomExists (roomId : String) : Bool := (db.cachedRooms.find (ownerUid, roomId)).isSome

/-- `_deleteRoomRows`. -/
def deleteRoomRows (roomId : String) : Database where
  cachedDevices := db.cachedDevices
  cachedRooms := db.cachedRooms.delete fun r => r.ownerUid = ownerUid && r.id = roomId
  cachedCommands := db.cachedCommands.delete fun r => r.ownerUid = ownerUid && r.roomId = roomId
  cachedProposals := db.cachedProposals.delete fun r => r.ownerUid = ownerUid && r.roomId = roomId
  cachedExecutions := db.cachedExecutions.delete fun r =>
    r.ownerUid = ownerUid && r.roomId = roomId
  cachedRoomSnapshots := db.cachedRoomSnapshots.delete fun r =>
    r.ownerUid = ownerUid && r.roomId = roomId
  cachedSmartCacheFiles := db.cachedSmartCacheFiles.delete fun r =>
    r.ownerUid = ownerUid && r.roomId = roomId
  mutationOutbox := db.mutationOutbox.delete fun r =>
    r.ownerUid = ownerUid && r.targetsRoom v roomId

def deleteRooms (roomIds : List String) : Database :=
  roomIds.foldl (fun db roomId => db.deleteRoomRows v ownerUid roomId) db

def ownRooms : List TopRow := db.cachedRooms.rows.filter fun r => r.ownerUid = ownerUid

/-- The cached rooms of the owner that the values do not name. -/
def vanished (values : List Fields) : List String :=
  ((db.ownRooms ownerUid).map (·.id)).filter (· ∉ values.filterMap (stringField · "id"))

end Database

/-- Deletes the rows of the owner and inserts the values. -/
def replaceTop (ownerUid : ℕ) (values : List Fields) (t : Table TopRow.key) :
    Option (Table TopRow.key) := do
  let rows ← values.mapM (topRow ownerUid)
  (t.delete fun r => r.ownerUid = ownerUid).insertAll rows

/-- Adds the fields of the values to the rows that are there. -/
def enrichTop (ownerUid : ℕ) (t : Table TopRow.key) (values : List Fields) : Table TopRow.key :=
  values.foldl (fun t value =>
    match stringField value "id" with
    | some id => t.modify (fun r => r.ownerUid = ownerUid && r.id = id)
        (fun r => { r with payloadJson := merge r.payloadJson value }) fun _ => rfl
    | none => t) t

/-- Deletes the rows of the room and inserts the given. -/
def replaceInRoom (ownerUid : ℕ) (roomId : String) (rows : List RoomRow)
    (t : Table RoomRow.key) : Option (Table RoomRow.key) :=
  (t.delete fun r => r.ownerUid = ownerUid && r.roomId = roomId).insertAll rows

/-- The payload that `markSmartCacheFileDownloaded` writes. -/
def downloadedPayload (previous file downloadTarget : Fields) (cachedFileId roomId
    localDownloadPath now : String) : Fields :=
  let encryption := ((downloadTarget.get "encryptionMetadata").bind Json.asObj).getD []
  let orFile (key : String) : Json :=
    ((present downloadTarget key).or (file.get key)).getD .null
  merge (merge previous file) <|
    [("id", .str cachedFileId), ("roomId", .str roomId),
      ("localDownloadPath", .str localDownloadPath)] ++
    ((stringField downloadTarget "sha256").map fun s => ("objectSha256", Json.str s)).toList ++
    [("sha256", ((stringField encryption "plaintextSha256").map Json.str).getD (orFile "sha256")),
      ("sizeBytes",
        match encryption.get "plaintextSizeBytes" with
        | some (.num q) => .num q
        | _ => orFile "sizeBytes"),
      ("freshnessStatus", orFile "freshnessStatus"),
      ("lastVerifiedAt", orFile "lastVerifiedAt"),
      ("downloadedAt", .str now)]

inductive Call where
  | replaceDevices (values : List Fields)
  | replaceConnectionState (devices rooms : List Fields)
  | enrichConnectionState (devices rooms : List Fields)
  | removeRoomCascade (roomId : String)
  | removeDeviceCascade (deviceId : String)
  | purgeConnectionDisplayData
  | replaceRooms (values : List Fields)
  | replaceCommands (roomId : String) (values : List Fields)
  | replaceProposals (roomId : String) (values : List Fields)
  | replaceExecutions (roomId : String) (values : List Fields)
  | saveSnapshot (roomId : String) (value : Option Fields)
  | replaceSmartCacheFiles (roomId : String) (values : List Fields)
  | markSmartCacheFileDownloaded (roomId : String) (file downloadTarget : Fields)
      (localDownloadPath now : String)

namespace Database

variable (v : Reading) (ownerUid : ℕ) (db : Database)

def replaceConnectionState (devices rooms : List Fields) : Option Database := do
  let db := db.deleteRooms v ownerUid (db.vanished ownerUid rooms)
  let cachedDevices ← replaceTop ownerUid devices db.cachedDevices
  let cachedRooms ← replaceTop ownerUid rooms db.cachedRooms
  some { db with cachedDevices, cachedRooms }

def replaceRooms (values : List Fields) : Option Database := do
  let db := db.deleteRooms v ownerUid (db.vanished ownerUid values)
  let cachedRooms ← replaceTop ownerUid values db.cachedRooms
  some { db with cachedRooms }

def removeDeviceCascade (deviceId : String) : Database :=
  let roomIds := ((db.ownRooms ownerUid).filter fun r =>
    stringField r.payloadJson "desktopDeviceId" = some deviceId).map (·.id)
  let db := db.deleteRooms v ownerUid roomIds
  { db with cachedDevices := db.cachedDevices.delete fun r =>
      r.ownerUid = ownerUid && r.id = deviceId }

def purgeConnectionDisplayData : Database where
  cachedDevices := db.cachedDevices.delete fun r => r.ownerUid = ownerUid
  cachedRooms := db.cachedRooms.delete fun r => r.ownerUid = ownerUid
  cachedCommands := db.cachedCommands.delete fun r => r.ownerUid = ownerUid
  cachedProposals := db.cachedProposals.delete fun r => r.ownerUid = ownerUid
  cachedExecutions := db.cachedExecutions.delete fun r => r.ownerUid = ownerUid
  cachedRoomSnapshots := db.cachedRoomSnapshots.delete fun r => r.ownerUid = ownerUid
  cachedSmartCacheFiles := db.cachedSmartCacheFiles.delete fun r => r.ownerUid = ownerUid
  mutationOutbox := db.mutationOutbox.delete fun r => r.ownerUid = ownerUid

def saveSnapshot (roomId : String) : Option Fields → Database
  | none => { db with cachedRoomSnapshots := db.cachedRoomSnapshots.delete fun r =>
      r.ownerUid = ownerUid && r.roomId = roomId }
  | some value =>
    if db.cachedRoomExists ownerUid roomId then
      { db with cachedRoomSnapshots := db.cachedRoomSnapshots.put ⟨ownerUid, roomId, value⟩ }
    else db

def markSmartCacheFileDownloaded (roomId : String) (file downloadTarget : Fields)
    (localDownloadPath now : String) : Option Database := do
  let cachedFileId ← requiredString file "id"
  if db.cachedRoomExists ownerUid roomId then
    let previous := ((db.cachedSmartCacheFiles.find (ownerUid, cachedFileId)).map
      (·.payloadJson)).getD []
    let row ← smartCacheRow ownerUid roomId
      (downloadedPayload previous file downloadTarget cachedFileId roomId localDownloadPath now)
    some { db with cachedSmartCacheFiles := db.cachedSmartCacheFiles.put row }
  else some db

/-- One call; none if it throws. -/
def call : Call → Option Database
  | .replaceDevices values => do
    let cachedDevices ← replaceTop ownerUid values db.cachedDevices
    some { db with cachedDevices }
  | .replaceConnectionState devices rooms => db.replaceConnectionState v ownerUid devices rooms
  | .enrichConnectionState devices rooms => some { db with
      cachedDevices := enrichTop ownerUid db.cachedDevices devices
      cachedRooms := enrichTop ownerUid db.cachedRooms rooms }
  | .removeRoomCascade roomId => some (db.deleteRoomRows v ownerUid roomId)
  | .removeDeviceCascade deviceId => some (db.removeDeviceCascade v ownerUid deviceId)
  | .purgeConnectionDisplayData => some (db.purgeConnectionDisplayData ownerUid)
  | .replaceRooms values => db.replaceRooms v ownerUid values
  | .replaceCommands roomId values =>
    if db.cachedRoomExists ownerUid roomId then do
      let rows ← values.mapM (roomRow ownerUid roomId)
      let cachedCommands ← replaceInRoom ownerUid roomId rows db.cachedCommands
      some { db with cachedCommands }
    else some db
  | .replaceProposals roomId values =>
    if db.cachedRoomExists ownerUid roomId then do
      let rows ← values.mapM (roomRow ownerUid roomId)
      let cachedProposals ← replaceInRoom ownerUid roomId rows db.cachedProposals
      some { db with cachedProposals }
    else some db
  | .replaceExecutions roomId values =>
    if db.cachedRoomExists ownerUid roomId then do
      let rows ← values.mapM (executionRow ownerUid roomId)
      let cachedExecutions ← replaceInRoom ownerUid roomId rows db.cachedExecutions
      some { db with cachedExecutions }
    else some db
  | .saveSnapshot roomId value => some (db.saveSnapshot ownerUid roomId value)
  | .replaceSmartCacheFiles roomId values =>
    if db.cachedRoomExists ownerUid roomId then do
      let rows ← values.mapM (smartCacheRow ownerUid roomId)
      let cachedSmartCacheFiles ← (db.cachedSmartCacheFiles.delete fun r =>
        r.ownerUid = ownerUid && r.roomId = roomId).insertAll rows
      some { db with cachedSmartCacheFiles }
    else some db
  | .markSmartCacheFileDownloaded roomId file downloadTarget localDownloadPath now =>
    db.markSmartCacheFileDownloaded ownerUid roomId file downloadTarget localDownloadPath now

/-- What happens to the database: a call of some account, or the mutation queue writes. -/
inductive Event where
  | call (ownerUid : ℕ) (c : Call)
  | queue (mutationOutbox : Table Outbox.Row.id)

def step (db : Database) : Event → Database
  | .call ownerUid c => (db.call v ownerUid c).getD db
  | .queue mutationOutbox => { db with mutationOutbox }

def run (events : List Event) : Database := events.foldl (step v) db

end Database

end MouseKeeper.Mobile.DisplayCache
