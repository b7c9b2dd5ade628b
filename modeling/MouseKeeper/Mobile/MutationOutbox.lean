import MouseKeeper.Contracts.Common
import Mathlib.Data.List.Sort

/-!
The outbox of the mobile app: the requests that a user has made without a connection, kept in
the local database beside the rooms that it caches.

Account, row and time are numbers; the database keeps a time in whole seconds.
-/

namespace MouseKeeper.Mobile.Outbox

open MouseKeeper.Contracts (Fields Json)

/-- What `Uri` reads in a path, if it is one. -/
structure Reading where
  pathSegments : String → Option (List String)

/-! ### Requests and rows -/

structure Mutation where
  mutationType : String
  path : String
  body : Fields
  idempotencyKey : String
  roomId : Option String

/-- The object that is kept as text. -/
def Mutation.payload (m : Mutation) : Json :=
  .obj ([("path", .str m.path), ("body", .obj m.body), ("idempotencyKey", .str m.idempotencyKey)] ++
    (m.roomId.map fun id => ("roomId", Json.str id)).toList)

inductive Status
  | pending
  | failed
  deriving DecidableEq

structure Row where
  ownerUid : ℕ
  id : ℕ
  mutation : Mutation
  attemptCount : ℕ := 0
  nextRetryAt : ℕ
  createdAt : ℕ
  status : Status := .pending
  lastErrorCode : Option String := none

def roomSegment : List String → Option String
  | s :: id :: rest => if s = "rooms" ∧ id ≠ "" then some id else roomSegment (id :: rest)
  | _ => none

/-- The room that a request is for: the one it names, or else the one of its path. -/
def Mutation.payloadRoomId (v : Reading) (m : Mutation) : Option String :=
  match m.roomId with
  | some id => if id ≠ "" then some id else roomSegment ((v.pathSegments m.path).getD [])
  | none => roomSegment ((v.pathSegments m.path).getD [])

/-! ### Requests that target a room -/

def pathTargetsRoom (v : Reading) (path roomId : String) : Bool :=
  match v.pathSegments path with
  | some segments => (segments.zip segments.tail).contains ("rooms", roomId)
  | none => false

section

variable (p : String → Json → Bool)

mutual

/-- Some entry of some object within the value. -/
def anyEntry : Json → Bool
  | .obj fields => anyField fields
  | .arr items => anyItem items
  | _ => false

def anyField : List (String × Json) → Bool
  | [] => false
  | (key, value) :: rest => p key value || anyEntry value || anyField rest

def anyItem : List Json → Bool
  | [] => false
  | value :: rest => anyEntry value || anyItem rest

end

end

def containsExactRoomId (value : Json) (roomId : String) : Bool :=
  anyEntry (fun key value => key = "roomId" && value.asStr = some roomId) value

def containsRoomPath (v : Reading) (value : Json) (roomId : String) : Bool :=
  anyEntry (fun key value => key = "path" &&
    (value.asStr.map (pathTargetsRoom v · roomId)).getD false) value

/-- `_outboxPayloadTargetsRoom`. -/
def Row.targetsRoom (v : Reading) (r : Row) (roomId : String) : Bool :=
  containsExactRoomId r.mutation.payload roomId || containsRoomPath v r.mutation.payload roomId

/-! ### The database -/

structure Database where
  mutationOutbox : List Row
  cachedRooms : List (ℕ × String)

namespace Database

variable (db : Database) (ownerUid : ℕ)

def hasCachedRoom (roomId : String) : Bool := (ownerUid, roomId) ∈ db.cachedRooms

/-- The requests that a flush takes up, oldest first. -/
def due (now : ℕ) : List Row :=
  (db.mutationOutbox.filter fun r =>
      r.ownerUid = ownerUid && r.status = .pending && r.nextRetryAt ≤ now).insertionSort
    fun a b => a.createdAt ≤ b.createdAt

/-- The identifier of a row is its primary key. -/
def insert (r : Row) : Option Database :=
  if db.mutationOutbox.any fun x => x.id = r.id then none
  else some { db with mutationOutbox := db.mutationOutbox ++ [r] }

def delete (p : Row → Bool) : Database :=
  { db with mutationOutbox := db.mutationOutbox.filter fun r => !p r }

def update (id : ℕ) (f : Row → Row) : Database :=
  { db with
    mutationOutbox := db.mutationOutbox.map fun r =>
      if r.ownerUid = ownerUid && r.id = id then f r else r }

def discardFailed : Database := db.delete fun r => r.ownerUid = ownerUid && r.status = .failed

/-! What the display cache removes. -/

def deleteRoomRows (v : Reading) (roomId : String) : Database :=
  { db.delete fun r => r.ownerUid = ownerUid && r.targetsRoom v roomId with
    cachedRooms := db.cachedRooms.filter (· ≠ (ownerUid, roomId)) }

def removeRooms (v : Reading) (roomIds : List String) : Database :=
  roomIds.foldl (fun db roomId => db.deleteRoomRows ownerUid v roomId) db

/-- The rooms of the owner that are cached and no longer listed. -/
def vanished (rooms : List String) : List String :=
  (db.cachedRooms.filter fun x => x.1 = ownerUid && x.2 ∉ rooms).map (·.2)

def replaceRooms (v : Reading) (rooms : List String) : Database :=
  { db.removeRooms ownerUid v (db.vanished ownerUid rooms) with
    cachedRooms := db.cachedRooms.filter (·.1 ≠ ownerUid) ++ rooms.map (ownerUid, ·) }

def purgeConnectionDisplayData : Database :=
  { db.delete fun r => r.ownerUid = ownerUid with
    cachedRooms := db.cachedRooms.filter (·.1 ≠ ownerUid) }

end Database

end MouseKeeper.Mobile.Outbox
