import MouseKeeper.Storage.Connections

/-!
Requests to revoke a device or to remove a room, with their receipts and events.

The statements on devices, rooms and what is live in them are those of the storage tables. Here
the receipts keep the result of the first request, and the events are those that go into the sync
log; their numbers, and the audit log, are left out.
-/

namespace MouseKeeper.Server.Disconnects

open MouseKeeper.ReadCommitted
open MouseKeeper.Storage (Backend Operation)
open MouseKeeper.Storage.Connections (Actor Scope cancelResources rooms devices removed)

/-! ### Tables -/

/-- `publicDevice` and `publicRoom`. -/
inductive StoredResult
  | device (id : ℕ) (active : Bool)
  | room (id desktopDeviceId : ℕ) (active : Bool)
  deriving DecidableEq, Repr

def publicDevice (v : Device) : StoredResult := .device v.id v.active

def publicRoom (r : Room) : StoredResult := .room r.id r.desktopDeviceId r.active

structure Receipt where
  actorScope : String
  userId : ℕ
  actorDeviceId : Option ℕ
  operation : Operation
  aggregateId : ℕ
  idempotencyKey : String
  result : StoredResult
  deriving DecidableEq, Repr

inductive Aggregate
  | device (id : ℕ)
  | room (id : ℕ)
  deriving DecidableEq, Repr

/-- An event `device.revoked` or `room.removed`, by its aggregate. -/
structure SyncEvent where
  userId : ℕ
  deviceId : ℕ
  aggregate : Aggregate
  deriving DecidableEq, Repr

structure Db where
  store : Storage.Db
  receipts : List Receipt
  events : List SyncEvent

/-- `MutationOutcome`; the events stand for their identifiers. -/
structure Outcome where
  response : StoredResult
  events : List SyncEvent
  disconnectDeviceId : Option ℕ
  deriving DecidableEq, Repr

abbrev Program := Txn Db Storage.Lock Storage.Code Outcome

def refuse (code : Storage.Code) : Program := .answer (.error code)

/-- Statements on the storage tables. -/
def onStore {α : Type} : Storage.Program α → (α → Program) → Program
  | .answer (.ok a), next => next a
  | .answer (.error e), _ => .answer (.error e)
  | .stmt locks change k, next =>
    .stmt (fun d => locks d.store) (fun v d => { d with store := change v.store d.store }) fun v =>
      onStore (k v.store) next

/-! ### withReceipt -/

structure Mutation where
  actor : Actor
  operation : Operation
  aggregateId : ℕ
  idempotencyKey : String
  deriving DecidableEq, Repr

namespace Mutation

variable (m : Mutation)

def receipt (result : StoredResult) : Receipt :=
  ⟨m.actor.actorScope, m.actor.userId, m.actor.actorDeviceId, m.operation, m.aggregateId,
    m.idempotencyKey, result⟩

/-- The receipt stands under the actor's key. -/
def hasKey (r : Receipt) : Bool :=
  r.actorScope = m.actor.actorScope && r.idempotencyKey = m.idempotencyKey

def insertReceipt (outcome : Outcome) : Program :=
  .write (fun _ => []) (fun _ d => { d with receipts := d.receipts ++ [m.receipt outcome.response] })
    (.answer (.ok outcome))

/-- The outcome of a repeated request. -/
def replay (r : Receipt) : Outcome :=
  ⟨r.result, [], if m.operation = .deviceRevoke then some m.aggregateId else none⟩

def findReceipt (mutate : Program) : Program :=
  .read fun d =>
    match d.receipts.find? m.hasKey with
    | some r =>
      if r.operation ≠ m.operation ∨ r.aggregateId ≠ m.aggregateId then refuse .idempotencyConflict
      else .answer (.ok (m.replay r))
    | none => mutate

def withReceipt (mutate : Program) : Program :=
  .lock (fun _ => [.receipt m.actor.actorScope m.idempotencyKey]) fun _ => m.findReceipt mutate

end Mutation

/-- `sync.append` of each event. -/
def append : List SyncEvent → Program → Program
  | [], next => next
  | e :: events, next =>
    .write (fun _ => []) (fun _ d => { d with events := d.events ++ [e] }) (append events next)

def roomRemoved (userId deviceId : ℕ) (r : Room) : SyncEvent := ⟨userId, deviceId, .room r.id⟩

def deviceRevoked (userId deviceId : ℕ) : SyncEvent := ⟨userId, deviceId, .device deviceId⟩

/-! ### Statements on the storage tables -/

section Statements

variable (b : Backend)

def lockDevice (userId deviceId : ℕ) : Storage.Program (Option Device) :=
  Storage.selectFor (fun d => d.device userId deviceId) (fun v => b.exclusive (.device v.id))
    fun v => .answer (.ok v)

def shareDevice (userId deviceId : ℕ) : Storage.Program (Option Device) :=
  Storage.selectFor (fun d => d.device userId deviceId) (fun v => b.share (.device v.id))
    fun v => .answer (.ok v)

def lockDeviceRooms (deviceId : ℕ) : Storage.Program (List Room) :=
  (rooms b).selectAllFor (fun r => r.desktopDeviceId = deviceId) fun rs => .answer (.ok rs)

def findRoom (userId roomId : ℕ) : Storage.Program (Option Room) :=
  Storage.select (fun d => d.room userId roomId) fun r => .answer (.ok r)

def lockRoom (userId deviceId roomId : ℕ) : Storage.Program (Option Room) :=
  Storage.selectFor (fun d => d.deviceRoom userId deviceId roomId)
    (fun r => b.exclusive (.room r.id)) fun r => .answer (.ok r)

def cancel (s : Scope) : Storage.Program Unit := cancelResources s (.answer (.ok ()))

def revoked (v : Device) : Device := { v with active := false }

def updateDevice (deviceId : ℕ) : Storage.Program (List Device) :=
  (devices b).update (fun v => v.id = deviceId && v.active) revoked fun vs => .answer (.ok vs)

def updateRooms (roomIds : List ℕ) : Storage.Program (List Room) :=
  (rooms b).update (fun r => r.id ∈ roomIds && r.active) removed fun rs => .answer (.ok rs)

end Statements

/-! ### revokeDevice -/

structure RevokeDevice where
  actor : Actor
  deviceId : ℕ
  idempotencyKey : String
  deriving DecidableEq, Repr

namespace RevokeDevice

variable (b : Backend) (q : RevokeDevice)

def mutation : Mutation := ⟨q.actor, .deviceRevoke, q.deviceId, q.idempotencyKey⟩

def events (activeRooms : List Room) : List SyncEvent :=
  activeRooms.map (roomRemoved q.actor.userId q.deviceId) ++
    [deviceRevoked q.actor.userId q.deviceId]

def outcome (activeRooms : List Room) (v : Device) : Outcome :=
  ⟨publicDevice v, q.events activeRooms, some q.deviceId⟩

/-- The events and the receipt. -/
def record (activeRooms : List Room) (v : Device) : Program :=
  append (q.events activeRooms) (q.mutation.insertReceipt (q.outcome activeRooms v))

def removeRooms (activeRooms : List Room) (v : Device) : Program :=
  if activeRooms = [] then q.record activeRooms v
  else onStore (updateRooms b (activeRooms.map (·.id))) fun _ => q.record activeRooms v

def setRevoked (activeRooms : List Room) : Program :=
  onStore (updateDevice b q.deviceId) fun
    | [] => refuse .conflict
    | v :: _ => q.removeRooms b activeRooms v

def cancelAll (deviceRooms : List Room) : Program :=
  onStore (cancel ⟨some q.deviceId, deviceRooms.map (·.id), .deviceOffline⟩) fun _ =>
    q.setRevoked b (deviceRooms.filter (·.active))

def mutate : Program :=
  onStore (lockDevice b q.actor.userId q.deviceId) fun
    | none => refuse .notFound
    | some _ => onStore (lockDeviceRooms b q.deviceId) (q.cancelAll b)

end RevokeDevice

def revokeDevice (b : Backend) (q : RevokeDevice) : Program := q.mutation.withReceipt (q.mutate b)

/-! ### removeRoom -/

structure RemoveRoom where
  actor : Actor
  roomId : ℕ
  idempotencyKey : String
  deriving DecidableEq, Repr

namespace RemoveRoom

variable (b : Backend) (q : RemoveRoom)

def mutation : Mutation := ⟨q.actor, .roomRemove, q.roomId, q.idempotencyKey⟩

def outcome (room r : Room) : Outcome :=
  ⟨publicRoom r, [roomRemoved q.actor.userId room.desktopDeviceId room], none⟩

def record (room r : Room) : Program :=
  append (q.outcome room r).events (q.mutation.insertReceipt (q.outcome room r))

def setRemoved (room : Room) : Program :=
  onStore (updateRooms b [q.roomId]) fun
    | [] => refuse .conflict
    | r :: _ => q.record room r

def cancelAll (room : Room) : Program :=
  onStore (cancel ⟨none, [q.roomId], .outsideManagedRoot⟩) fun _ => q.setRemoved b room

def lockFound (device : Device) : Program :=
  onStore (lockRoom b q.actor.userId device.id q.roomId) fun
    | none => refuse .notFound
    | some room => q.cancelAll b room

def mutate : Program :=
  onStore (findRoom q.actor.userId q.roomId) fun
    | none => refuse .notFound
    | some candidate =>
      if q.actor.actorDeviceId.any fun id => id ≠ candidate.desktopDeviceId then refuse .notFound
      else onStore (shareDevice b q.actor.userId candidate.desktopDeviceId) fun
        | none => refuse .notFound
        | some device => q.lockFound b device

end RemoveRoom

def removeRoom (b : Backend) (q : RemoveRoom) : Program := q.mutation.withReceipt (q.mutate b)

/-! ### Requests -/

inductive Request
  | revokeDevice (q : RevokeDevice)
  | removeRoom (q : RemoveRoom)
  deriving DecidableEq, Repr

def Request.mutation : Request → Mutation
  | .revokeDevice q => q.mutation
  | .removeRoom q => q.mutation

/-- A request with the connection that serves it. -/
abbrev Served (n : ℕ) := Fin n × Request

def body (n : ℕ) : Served n → Program
  | (i, .revokeDevice q) => revokeDevice ⟨n, i⟩ q
  | (i, .removeRoom q) => removeRoom ⟨n, i⟩ q

abbrev World (n : ℕ) := State (Served n) Db Storage.Lock Storage.Code Outcome

end MouseKeeper.Server.Disconnects
