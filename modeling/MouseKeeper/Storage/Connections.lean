import MouseKeeper.Storage.Tables

/-!
Removing a room and revoking a device.

Both cancel what is live in their scope before they change the status of the rooms. A device row
is locked before a room row, and a room row before the rows of its work. The answer is left to the
caller.
-/

namespace MouseKeeper.Storage.Connections

open MouseKeeper.ReadCommitted
open MouseKeeper.Server (Device Room)

variable {R : Type}

def refuse (code : Code) : Program R := .answer (.error code)

structure Actor where
  userId : ℕ
  actorDeviceId : Option ℕ
  actorScope : String
  deriving DecidableEq, Repr

/-! ### withReceipt -/

/-- A receipt answers without carrying the request out again. -/
def withReceipt (actor : Actor) (key : String) (operation : Operation) (aggregateId : ℕ)
    (done : R) (mutate : Program R → Program R) : Program R :=
  .lock (fun _ => [.receipt actor.actorScope key]) fun _ =>
    select (fun d => d.receipts.find? fun r => r.actorScope = actor.actorScope &&
      r.idempotencyKey = key) fun
      | some receipt =>
        if receipt.operation ≠ operation ∨ receipt.aggregateId ≠ aggregateId then
          refuse .idempotencyConflict
        else .answer (.ok done)
      | none => mutate <|
        modify (fun d => { d with receipts :=
          d.receipts ++ [Receipt.mk actor.actorScope key operation aggregateId] })
          (.answer (.ok done))

/-! ### cancelResources -/

structure Scope where
  deviceId : Option ℕ
  roomIds : List ℕ
  browseFailureCode : BrowseFailureCode
  deriving DecidableEq, Repr

namespace Scope

/-- The rows of the device, or of the rooms where no device is given. -/
def covers (s : Scope) (desktopDeviceId roomId : ℕ) : Bool :=
  match s.deviceId with
  | some id => desktopDeviceId = id
  | none => roomId ∈ s.roomIds

end Scope

def invalidated (f : CachedFile) : CachedFile :=
  { f with availabilityStatus := .invalidated, freshnessStatus := .stale }

def cancelFiles (s : Scope) (next : Program R) : Program R :=
  if s.roomIds = [] then next
  else files.update (fun f => f.roomId ∈ s.roomIds && f.availabilityStatus = .available)
    invalidated fun rows => clock fun now =>
      modify (Db.addCacheDeletionJobs (rows.map fun f => ⟨f.id, f.objectKey, .pending, now⟩)) next

def cancelReservations (s : Scope) (next : Program R) : Program R :=
  reservations.update (fun r => s.covers r.desktopDeviceId r.roomId && r.status = .reserved)
    (fun r => { r with status := .cancelled }) fun rows =>
      modify (Db.addCacheReservationDeletionJobs
        (rows.map fun r => ⟨r.id, r.objectKey, .pending, r.expiresAt⟩)) next

def cancelTransfers (s : Scope) (next : Program R) : Program R :=
  clock fun now =>
    transfers.update (fun t => s.covers t.desktopDeviceId t.roomId &&
      decide (t.status ∈ [TransferStatus.requested, .uploading, .ready]))
      (fun t => { t with status := .cancelled, completedAt := some now }) fun rows =>
        modify (Db.addObjectDeletionJobs (rows.flatMap fun t =>
          t.objectKey.toList.map (⟨t.id, ·, .pending, t.expiresAt⟩))) next

def failedBrowse (code : BrowseFailureCode) (r : Browse) : Browse :=
  { r with status := .failed, failureCode := some code, query := none, resultPage := none }

def cleared (r : Browse) : Browse := { r with query := none, resultPage := none }

def cancelBrowses (s : Scope) (next : Program R) : Program R :=
  browses.update (fun r => s.covers r.desktopDeviceId r.roomId && r.status = .requested)
    (failedBrowse s.browseFailureCode) fun _ =>
      browses.update (fun r => s.covers r.desktopDeviceId r.roomId) cleared fun _ => next

def cancelResources (s : Scope) (next : Program R) : Program R :=
  cancelFiles s <| cancelReservations s <| cancelTransfers s <| cancelBrowses s next

/-! ### removeRoom -/

def rooms (b : Backend) : Table Room where
  rows := Db.rooms
  put rows d := { d with rooms := rows }
  id := Room.id
  locks id := b.exclusive (.room id)

def devices (b : Backend) : Table Device where
  rows := Db.devices
  put rows d := { d with devices := rows }
  id := Device.id
  locks id := b.exclusive (.device id)

def removed (r : Room) : Room := { r with active := false }

structure RemoveRoom where
  actor : Actor
  roomId : ℕ
  key : String
  deriving DecidableEq, Repr

def removeRoom (b : Backend) (q : RemoveRoom) (done : R) : Program R :=
  withReceipt q.actor q.key .roomRemove q.roomId done fun receipt =>
    select (fun d => d.room q.actor.userId q.roomId) fun
      | none => refuse .notFound
      | some candidate =>
        if q.actor.actorDeviceId.any fun id => id ≠ candidate.desktopDeviceId then refuse .notFound
        else selectFor (fun d => d.device q.actor.userId candidate.desktopDeviceId)
          (fun v => b.share (.device v.id)) fun
          | none => refuse .notFound
          | some device =>
            selectFor (fun d => d.deviceRoom q.actor.userId device.id q.roomId)
              (fun r => b.exclusive (.room r.id)) fun
              | none => refuse .notFound
              | some _ => cancelResources ⟨none, [q.roomId], .outsideManagedRoot⟩ <|
                (rooms b).update (fun r => r.id = q.roomId && r.active) removed fun
                  | [] => refuse .conflict
                  | _ :: _ => receipt

/-! ### revokeDevice -/

structure RevokeDevice where
  actor : Actor
  deviceId : ℕ
  key : String
  deriving DecidableEq, Repr

/-- `set({ status: 'REMOVED' })` of the rooms that were active, if there are any. -/
def removeRooms (b : Backend) (activeRooms : List Room) (next : Program R) : Program R :=
  if activeRooms = [] then next
  else (rooms b).update (fun r => r.id ∈ activeRooms.map (·.id) && r.active) removed fun _ => next

def revokeDevice (b : Backend) (q : RevokeDevice) (done : R) : Program R :=
  withReceipt q.actor q.key .deviceRevoke q.deviceId done fun receipt =>
    selectFor (fun d => d.device q.actor.userId q.deviceId)
      (fun v => b.exclusive (.device v.id)) fun
      | none => refuse .notFound
      | some _ => (rooms b).selectAllFor (fun r => r.desktopDeviceId = q.deviceId) fun deviceRooms =>
        cancelResources ⟨some q.deviceId, deviceRooms.map (·.id), .deviceOffline⟩ <|
          (devices b).update (fun v => v.id = q.deviceId && v.active)
            (fun v => { v with active := false }) fun
            | [] => refuse .conflict
            | _ :: _ => removeRooms b (deviceRooms.filter (·.active)) receipt

end MouseKeeper.Storage.Connections
