import MouseKeeper.Storage.Tables

/-!
The requests on a transfer: `create`, `uploadTarget`, `complete`, `fail`, `ack`, `cancel` of the
server, and its expiry by the worker.

Whether the device is online and what size an uploaded object has are answers of Redis and of the
object storage, which come with the request.
-/

namespace MouseKeeper.Storage.Transfers

open MouseKeeper.ReadCommitted

structure Environment where
  fileTransferTtlSeconds : ℕ
  fileTransferMaxBytes : ℕ

structure PublicTransfer where
  id : ℕ
  roomId : ℕ
  desktopDeviceId : ℕ
  sourceRelativePath : String
  sourceVersion : Option SourceVersion
  status : TransferStatus
  failureCode : Option TransferFailureCode
  sizeBytes : Option ℕ
  sha256 : Option String
  expiresAt : ℕ
  completedAt : Option ℕ
  deriving DecidableEq, Repr

def publicTransfer (t : Transfer) : PublicTransfer :=
  ⟨t.id, t.roomId, t.desktopDeviceId, t.sourceRelativePath, t.sourceVersion, t.status,
    t.failureCode, t.sizeBytes, t.sha256, t.expiresAt, t.completedAt⟩

/-- A presigned URL. -/
structure UploadUrl where
  objectKey : String
  expiresIn : ℕ
  deriving DecidableEq, Repr

inductive Response
  | transfer (t : PublicTransfer)
  | uploadTarget (transferId : ℕ) (uploadUrl : UploadUrl) (expiresAt : ℕ)
  | nothing
  deriving DecidableEq, Repr

abbrev Program := Storage.Program Response

def refuse (code : Code) : Program := .answer (.error code)

def answer (t : Transfer) : Program := .answer (.ok (.transfer (publicTransfer t)))

/-! ### Finding a transfer -/

/-- The transfer of the user, on the device if one is given. -/
def isOwned (userId transferId : ℕ) (deviceId : Option ℕ) (t : Transfer) : Bool :=
  t.id = transferId && t.requestedByUserId = userId && deviceId.all fun id => t.desktopDeviceId = id

/-- `owned`, which asks for an active room and takes no lock. -/
def owned (userId transferId : ℕ) (deviceId : Option ℕ) (next : Transfer → Program) : Program :=
  select (fun d => d.transfers.find? fun t => isOwned userId transferId deviceId t &&
    (d.room userId t.roomId).isSome) fun
    | none => refuse .notFound
    | some t => next t

def lockOwned (b : Backend) (userId transferId : ℕ) (deviceId : Option ℕ)
    (next : Transfer → Program) : Program :=
  select (fun d => d.transfers.find? (isOwned userId transferId deviceId)) fun
    | none => refuse .notFound
    | some candidate =>
      lockActiveRoom b userId candidate.desktopDeviceId candidate.roomId <|
        selectFor (fun d => d.transfers.find? fun t => t.id = transferId &&
          t.desktopDeviceId = candidate.desktopDeviceId && t.roomId = candidate.roomId &&
          t.requestedByUserId = userId) (fun t => [.transfer t.id]) fun
          | none => refuse .notFound
          | some t => next t

/-- The deletion of the object, if there is one. -/
def deletion (t : Transfer) (nextAttemptAt : ℕ) : List DeletionJob :=
  t.objectKey.toList.map (⟨t.id, ·, .pending, nextAttemptAt⟩)

def deleteObject (t : Transfer) (next : Program) : Program :=
  clock fun now => modify (Db.addObjectDeletionJobs (deletion t now)) next

/-! ### create -/

structure Create where
  userId : ℕ
  roomId : ℕ
  key : String
  sourceRelativePath : String
  newId : ℕ
  online : Bool
  deriving DecidableEq, Repr

def newTransfer (q : Create) (desktopDeviceId expiresAt : ℕ) : Transfer where
  id := q.newId
  roomId := q.roomId
  desktopDeviceId := desktopDeviceId
  requestedByUserId := q.userId
  sourceRelativePath := q.sourceRelativePath
  sourceVersion := none
  status := .requested
  failureCode := none
  objectKey := none
  sizeBytes := none
  sha256 := none
  expiresAt := expiresAt
  completedAt := none
  idempotencyKey := q.key
  uploadCompletionIdempotencyKey := none

/-- The transfer that the user has requested with the key. -/
def hasKey (userId : ℕ) (key : String) (t : Transfer) : Bool :=
  t.requestedByUserId = userId && t.idempotencyKey = key

def replayCreate (q : Create) : Program :=
  select (fun d => d.transfers.find? (hasKey q.userId q.key)) fun
    | none => refuse .conflict
    | some existing =>
      if existing.roomId ≠ q.roomId ∨ existing.sourceRelativePath ≠ q.sourceRelativePath then
        refuse .idempotencyConflict
      else answer existing

def create (env : Environment) (b : Backend) (q : Create) : Program :=
  select (fun d => d.room q.userId q.roomId) fun
    | none => refuse .notFound
    | some candidate => lockActiveRoom b q.userId candidate.desktopDeviceId q.roomId <|
      if ¬ q.online then refuse .deviceOffline
      else clock fun now =>
        let row := newTransfer q candidate.desktopDeviceId
          (now + env.fileTransferTtlSeconds * 1000)
        transfers.insert (fun t => t.id = q.newId || hasKey q.userId q.key t) row
          [.transferKey q.userId q.key] fun
          | true => answer row
          | false => replayCreate q

/-! ### uploadTarget -/

structure UploadTarget where
  userId : ℕ
  deviceId : ℕ
  transferId : ℕ
  sourceVersion : SourceVersion
  deriving DecidableEq, Repr

def objectKey (userId transferId : ℕ) : String := s!"transfers/{userId}/{transferId}"

def upload (q : UploadTarget) (t : Transfer) : Transfer :=
  { t with
    status := .uploading
    sourceVersion := some q.sourceVersion
    objectKey := some (objectKey q.userId q.transferId)
    sizeBytes := some q.sourceVersion.sizeBytes }

def uploadTarget (env : Environment) (q : UploadTarget) : Program :=
  if env.fileTransferMaxBytes < q.sourceVersion.sizeBytes then refuse .sizeLimitExceeded
  else owned q.userId q.transferId (some q.deviceId) fun t => clock fun now =>
    if t.status ≠ .requested ∨ t.expiresAt ≤ now then refuse .invalidStateTransition
    else clock fun now =>
      let expiresIn := max 1 ((t.expiresAt - now) / 1000)
      clock fun now =>
        transfers.update (fun t => t.id = q.transferId && t.status = .requested &&
          decide (now < t.expiresAt)) (upload q) fun
          | [] => refuse .invalidStateTransition
          | _ :: _ => .answer (.ok (.uploadTarget q.transferId
              ⟨objectKey q.userId q.transferId, expiresIn⟩ t.expiresAt))

/-! ### complete -/

structure Complete where
  userId : ℕ
  deviceId : ℕ
  transferId : ℕ
  key : String
  sizeBytes : ℕ
  sha256 : String
  storedSize : Option ℕ
  deriving DecidableEq, Repr

def ready (q : Complete) (t : Transfer) : Transfer :=
  { t with
    status := .ready
    sha256 := some q.sha256
    uploadCompletionIdempotencyKey := some q.key }

/-- A transfer that this request has completed. -/
def isCompletion (q : Complete) (t : Transfer) : Bool :=
  t.status = .ready && t.sizeBytes = some q.sizeBytes && t.sha256 = some q.sha256

/-- The completion key is in its unique index for another transfer. -/
def completionKeyTaken (d : Db) (q : Complete) : Bool :=
  d.transfers.any fun t => t.requestedByUserId = q.userId &&
    t.uploadCompletionIdempotencyKey = some q.key && t.id ≠ q.transferId

/-- The update to `READY`, which fails with the unique index of the completion keys. -/
def setReady (q : Complete) : Program :=
  .lock (fun d => if completionKeyTaken d q then [] else [.uploadCompletionKey q.userId q.key])
    fun d =>
      if completionKeyTaken d q then refuse .conflict
      else transfers.update (fun t => t.id = q.transferId && t.status = .uploading) (ready q) fun
        | [] => refuse .invalidStateTransition
        | updated :: _ => answer updated

def complete (b : Backend) (q : Complete) : Program :=
  select (fun d => d.transfers.find? fun t => t.requestedByUserId = q.userId &&
    t.uploadCompletionIdempotencyKey = some q.key) fun
    | some existing =>
      if existing.id = q.transferId ∧ existing.desktopDeviceId = q.deviceId ∧
          isCompletion q existing then answer existing
      else refuse .idempotencyConflict
    | none => owned q.userId q.transferId (some q.deviceId) fun t =>
      if t.status ≠ .uploading ∨ t.objectKey = none ∨ t.sizeBytes ≠ some q.sizeBytes then
        refuse .sourceChanged
      else if q.storedSize ≠ some q.sizeBytes then refuse .sourceChanged
      else lockOwned b q.userId q.transferId (some q.deviceId) fun current =>
        if current.uploadCompletionIdempotencyKey = some q.key ∧ isCompletion q current then
          answer current
        else if current.status ≠ .uploading ∨ current.objectKey = none ∨
            current.sizeBytes ≠ some q.sizeBytes ∨ current.objectKey ≠ t.objectKey then
          refuse .sourceChanged
        else setReady q

/-! ### fail -/

structure Fail where
  userId : ℕ
  deviceId : ℕ
  transferId : ℕ
  failureCode : TransferFailureCode
  deriving DecidableEq, Repr

def failed (q : Fail) (now : ℕ) (t : Transfer) : Transfer :=
  { t with status := .failed, failureCode := some q.failureCode, completedAt := some now }

def fail (b : Backend) (q : Fail) : Program :=
  lockOwned b q.userId q.transferId (some q.deviceId) fun t =>
    if t.status = .failed then
      if t.failureCode = some q.failureCode then answer t else refuse .idempotencyConflict
    else if t.status ∉ [.requested, .uploading] then refuse .invalidStateTransition
    else clock fun now =>
      transfers.update (fun u => u.id = q.transferId && u.status = t.status) (failed q now) fun
        | [] => lockOwned b q.userId q.transferId (some q.deviceId) fun current =>
          if current.status = .failed ∧ current.failureCode = some q.failureCode then answer current
          else refuse .invalidStateTransition
        | failed :: _ => deleteObject failed (answer failed)

/-! ### ack -/

structure Ack where
  userId : ℕ
  transferId : ℕ
  deriving DecidableEq, Repr

def completed (now : ℕ) (t : Transfer) : Transfer :=
  { t with status := .completed, completedAt := some now }

def ack (b : Backend) (q : Ack) : Program :=
  lockOwned b q.userId q.transferId none fun t =>
    if t.status = .completed then answer t
    else if t.status ≠ .ready ∨ t.objectKey = none then refuse .invalidStateTransition
    else clock fun now =>
      transfers.update (fun u => u.id = q.transferId && u.status = .ready) (completed now) fun
        | [] => refuse .invalidStateTransition
        | updated :: _ => deleteObject t (answer updated)

/-! ### cancel -/

structure Cancel where
  userId : ℕ
  deviceId : Option ℕ
  transferId : ℕ
  deriving DecidableEq, Repr

def cancelled (now : ℕ) (t : Transfer) : Transfer :=
  { t with status := .cancelled, completedAt := some now }

/-- `cancel` with the transfer that it has locked. -/
def cancelLocked (b : Backend) (q : Cancel) (t : Transfer) : Program :=
  if t.status = .cancelled then answer t
  else if t.status ∈ [.completed, .expired] then refuse .invalidStateTransition
  else clock fun now =>
    transfers.update (fun u => u.id = q.transferId && u.status = t.status) (cancelled now) fun
      | [] => lockOwned b q.userId q.transferId q.deviceId fun current =>
        if current.status = .cancelled then answer current else refuse .invalidStateTransition
      | updated :: _ => deleteObject t (answer updated)

def cancel (b : Backend) (q : Cancel) : Program :=
  lockOwned b q.userId q.transferId q.deviceId (cancelLocked b q)

/-! ### Expiry -/

def live : List TransferStatus := [.requested, .uploading, .ready]

def expired (now : ℕ) (t : Transfer) : Transfer :=
  { t with status := .expired, completedAt := some now }

/-- The update of `scheduleExpired` and of `expireAbandonedTransfer`. -/
def expireTransfer (transferId : ℕ) : Program :=
  clock fun now =>
    transfers.update (fun t => t.id = transferId && decide (t.status ∈ live)) (expired now) fun
      | [] => .answer (.ok .nothing)
      | t :: _ => deleteObject t (.answer (.ok .nothing))

/-- What `scheduleExpired` does with one of the transfers that it has selected. -/
def expire (b : Backend) (transferId : ℕ) : Program :=
  clock fun now => select (fun d => d.transfers.find? fun t => t.id = transferId &&
    decide (t.expiresAt ≤ now) && decide (t.status ∈ live)) fun
    | none => .answer (.ok .nothing)
    | some t => lockConnection b t.requestedByUserId t.desktopDeviceId t.roomId
        (expireTransfer transferId) (expireTransfer transferId) (expireTransfer transferId)

end MouseKeeper.Storage.Transfers
