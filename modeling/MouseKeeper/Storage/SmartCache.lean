import Mathlib.Algebra.GroupWithZero.Nat
import Mathlib.Data.List.Sort
import MouseKeeper.Storage.Globs
import MouseKeeper.Storage.Tables

/-!
The requests on the smart cache: `getPolicy`, `updatePolicy`, `submit`, `complete`,
`cancelReservation`, `markStale`, `remove` and `recordAccess` of the server, and the expiry of a
reservation by the worker.

`submit` makes sure of a policy with a request of its own, `ensureAutomaticPolicy`, before its
transaction. The size of an uploaded object, the digest of a request and the identifiers of new
rows come with the request. Rows that an order leaves equal stay in the order of the table.
-/

namespace MouseKeeper.Storage.SmartCache

open MouseKeeper.ReadCommitted
open Globs (matchesExcludedPattern)

structure Environment where
  smartCacheEnabled : Bool
  objectStorage : Bool
  smartCacheDefaultRoomQuotaBytes : ℕ
  smartCacheDefaultMaxFileBytes : ℕ
  deriving DecidableEq, Repr

/-- A cached file without its object. -/
structure PublicFile where
  id : ℕ
  roomId : ℕ
  sourceRelativePath : String
  sourceVersion : String
  sourceVersionHash : String
  usageScore : ℤ
  manualPin : Bool
  sizeBytes : ℕ
  sha256 : String
  encryptionMetadata : String
  availabilityStatus : Availability
  freshnessStatus : Freshness
  cachedAt : ℕ
  lastVerifiedAt : ℕ
  lastAccessedAt : Option ℕ
  deriving DecidableEq, Repr

def publicFile (f : CachedFile) : PublicFile :=
  ⟨f.id, f.roomId, f.sourceRelativePath, f.sourceVersion, f.sourceVersionHash, f.usageScore,
    f.manualPin, f.sizeBytes, f.sha256, f.encryptionMetadata, f.availabilityStatus,
    f.freshnessStatus, f.cachedAt, f.lastVerifiedAt, f.lastAccessedAt⟩

inductive StaleReason
  | sourceChanged | sourceRemoved | reindexed
  deriving DecidableEq, Repr

inductive Response
  | policy (p : Policy)
  | submitted (batch : Batch) (reservations : List Reservation)
  | file (f : PublicFile)
  | cancelled (reservationId : ℕ)
  | marked (roomId : ℕ) (sourceRelativePath : Option String) (reason : StaleReason)
    (staleCount : ℕ)
  | accessed (cachedFileId : ℕ) (usageScore : ℤ) (lastAccessedAt : Option ℕ)
  | nothing
  deriving DecidableEq, Repr

abbrev Program := Storage.Program Response

def refuse (code : Code) : Program := .answer (.error code)

def answer (r : Response) : Program := .answer (.ok r)

def enabled (env : Environment) (next : Program) : Program :=
  if env.smartCacheEnabled then next else refuse .unconfigured

def assertConfigured (env : Environment) (next : Program) : Program :=
  if env.objectStorage then next else refuse .unconfigured

def lockRoom (roomId : ℕ) (next : Program) : Program := .lock (fun _ => [.advisory roomId]) fun _ => next

/-- The active room of the user. -/
def room (userId roomId : ℕ) (next : Server.Room → Program) : Program :=
  select (fun d => d.room userId roomId) fun
    | none => refuse .notFound
    | some r => next r

def isAvailable (roomId : ℕ) (f : CachedFile) : Bool :=
  f.roomId = roomId && f.availabilityStatus = .available

def isReserved (roomId now : ℕ) (r : Reservation) : Bool :=
  r.roomId = roomId && r.status = .reserved && decide (now < r.expiresAt)

def availableBytes (roomId : ℕ) (d : Db) : ℕ :=
  ((d.files.filter (isAvailable roomId)).map (·.sizeBytes)).sum

def reservedBytes (roomId now : ℕ) (d : Db) : ℕ :=
  ((d.reservations.filter (isReserved roomId now)).map (·.reservedBytes)).sum

/-! ### Policies -/

def defaultPolicy (env : Environment) (roomId : ℕ) (enabled : Bool) : Policy :=
  ⟨roomId, enabled, env.smartCacheDefaultRoomQuotaBytes, env.smartCacheDefaultMaxFileBytes, [], []⟩

def enable (p : Policy) : Policy := { p with enabled := true }

def ensureAutomaticPolicy (env : Environment) (roomId : ℕ) : Program :=
  enabled env <| assertConfigured env <|
    select (fun d => d.policies.find? (·.roomId = roomId)) fun
      | some policy =>
        if policy.enabled then answer (.policy policy)
        else policies.update (·.roomId = roomId) enable fun
          | [] => answer .nothing
          | p :: _ => answer (.policy p)
      | none => policies.upsert (·.roomId = roomId) (defaultPolicy env roomId true) enable []
          fun p => answer (.policy p)

structure GetPolicy where
  userId : ℕ
  roomId : ℕ
  deriving DecidableEq, Repr

def getPolicy (env : Environment) (q : GetPolicy) : Program :=
  room q.userId q.roomId fun _ =>
    if ¬ env.smartCacheEnabled then answer (.policy (defaultPolicy env q.roomId false))
    else assertConfigured env (ensureAutomaticPolicy env q.roomId)

structure UpdatePolicy where
  userId : ℕ
  roomId : ℕ
  enabled : Bool
  quotaBytes : ℕ
  maxFileBytes : ℕ
  excludedPatterns : List String
  pinnedPatterns : List String
  deriving DecidableEq, Repr

def policyOf (q : UpdatePolicy) : Policy :=
  ⟨q.roomId, q.enabled, q.quotaBytes, q.maxFileBytes, q.excludedPatterns, q.pinnedPatterns⟩

/-- `updatePolicy` from the sum of the reserved bytes on. -/
def updateWithin (q : UpdatePolicy) (used now : ℕ) : Program :=
  .read fun d =>
    if q.quotaBytes < used + reservedBytes q.roomId now d then refuse .rejectedPolicy
    else policies.upsert (·.roomId = q.roomId) (policyOf q) (fun _ => policyOf q) []
      fun p => answer (.policy p)

def updatePolicy (env : Environment) (b : Backend) (q : UpdatePolicy) : Program :=
  room q.userId q.roomId fun candidate =>
    if ¬ q.enabled then refuse .smartCachePolicyAutomatic
    else enabled env <| assertConfigured env <| lockRoom q.roomId <|
      lockActiveRoom b q.userId candidate.desktopDeviceId q.roomId <|
        .read fun d => clock fun now => updateWithin q (availableBytes q.roomId d) now

/-! ### submit -/

/-- A candidate, with the identifier of its reservation. -/
structure Candidate where
  newId : ℕ
  sourceRelativePath : String
  sourceVersion : String
  sourceVersionHash : String
  sizeBytes : ℕ
  usageScore : ℤ
  manualPin : Bool
  deriving DecidableEq, Repr

structure Submit where
  userId : ℕ
  deviceId : ℕ
  key : String
  roomId : ℕ
  candidates : List Candidate
  requestHash : String
  newId : ℕ
  deriving DecidableEq, Repr

def newBatch (q : Submit) : Batch :=
  ⟨q.newId, q.userId, q.deviceId, q.roomId, q.key, q.requestHash, q.candidates.length⟩

def hasKey (q : Submit) (b : Batch) : Bool := b.userId = q.userId && b.idempotencyKey = q.key

/-- Pinned candidates come first, then those with the higher scores. -/
def candidateOrder (a b : Candidate) : Bool :=
  if a.manualPin = b.manualPin then b.usageScore ≤ a.usageScore else a.manualPin

/-- The least used come first, and those never accessed after the others. -/
def evictionOrder (a b : CachedFile) : Bool :=
  if a.usageScore = b.usageScore then
    match a.lastAccessedAt, b.lastAccessedAt with
    | some x, some y => if x = y then a.cachedAt ≤ b.cachedAt else x < y
    | none, none => a.cachedAt ≤ b.cachedAt
    | x, _ => x.isSome
  else a.usageScore < b.usageScore

def invalidated (f : CachedFile) : CachedFile :=
  { f with availabilityStatus := .invalidated, freshnessStatus := .stale }

/-- The deletion of the object of a file, from now on. -/
def deleteObject (f : CachedFile) (next : Program) : Program :=
  clock fun now => modify (Db.addCacheDeletionJobs [⟨f.id, f.objectKey, .pending, now⟩]) next

/-- Files make room for the candidate as long as it does not fit. -/
def evict (policy : Policy) (c : Candidate) (next : List CachedFile → ℤ → Program) :
    List CachedFile → ℤ → Program
  | [], allocated => next [] allocated
  | f :: evictable, allocated =>
    if allocated + c.sizeBytes ≤ policy.quotaBytes then next (f :: evictable) allocated
    else if ¬ c.manualPin ∧ c.usageScore ≤ f.usageScore then next evictable allocated
    else files.update (fun g => g.id = f.id && g.availabilityStatus = .available) invalidated fun
      | [] => evict policy c next evictable allocated
      | g :: _ => deleteObject g (evict policy c next evictable (allocated - g.sizeBytes))

def sameVersion (roomId : ℕ) (path hash : String) (r : Reservation) : Bool :=
  r.roomId = roomId && r.sourceRelativePath = path && r.sourceVersionHash = hash

def newReservation (q : Submit) (c : Candidate) (now : ℕ) : Reservation where
  id := c.newId
  batchId := q.newId
  roomId := q.roomId
  desktopDeviceId := q.deviceId
  sourceRelativePath := c.sourceRelativePath
  sourceVersion := c.sourceVersion
  sourceVersionHash := c.sourceVersionHash
  reservedBytes := c.sizeBytes
  status := .reserved
  expiresAt := now + 10 * 60000
  objectKey := s!"cache/{q.userId}/{q.roomId}/{c.newId}"
  completionIdempotencyKey := none

def reserve (q : Submit) (c : Candidate) (next : Option Reservation → Program) : Program :=
  clock fun now =>
    let row := newReservation q c now
    reservations.insert (fun r => r.id = c.newId ||
      sameVersion q.roomId c.sourceRelativePath c.sourceVersionHash r) row
      [.reservationVersion q.roomId c.sourceRelativePath c.sourceVersionHash] fun
      | true => next (some row)
      | false => next none

/-- The candidates one after the other, with what is left to evict and what is allocated. -/
def approve (q : Submit) (policy : Policy) (done : List Reservation → Program) :
    List Candidate → List CachedFile → ℤ → List Reservation → Program
  | [], _, _, approved => done approved
  | c :: candidates, evictable, allocated, approved =>
    if matchesExcludedPattern c.sourceRelativePath policy.excludedPatterns then
      approve q policy done candidates evictable allocated approved
    else if policy.maxFileBytes < c.sizeBytes then
      approve q policy done candidates evictable allocated approved
    else evict policy c (fun evictable allocated =>
      if policy.quotaBytes < allocated + c.sizeBytes then
        approve q policy done candidates evictable allocated approved
      else reserve q c fun
        | some row => approve q policy done candidates evictable (allocated + c.sizeBytes)
            (approved ++ [row])
        | none => approve q policy done candidates evictable allocated approved)
      evictable allocated

/-- `submit` from the sum of the reserved bytes on. -/
def submitWithin (q : Submit) (policy : Policy) (used now : ℕ) : Program :=
  .read fun d =>
    let allocated : ℤ := used + reservedBytes q.roomId now d
    .read fun d =>
      let evictable := (d.files.filter fun f => isAvailable q.roomId f && !f.manualPin).insertionSort
        (evictionOrder · ·)
      approve q policy (fun approved => answer (.submitted (newBatch q) approved))
        (q.candidates.insertionSort (candidateOrder · ·)) evictable allocated []

def submitBatch (q : Submit) : Program :=
  batches.insert (fun b => b.id = q.newId || hasKey q b) (newBatch q) [.batchKey q.userId q.key] fun
    | false => refuse .conflict
    | true => select (fun d => d.policies.find? fun p => p.roomId = q.roomId && p.enabled) fun
      | none => refuse .rejectedPolicy
      | some policy => .read fun d => clock fun now =>
          submitWithin q policy (availableBytes q.roomId d) now

def submit (env : Environment) (b : Backend) (q : Submit) : Program :=
  enabled env <| assertConfigured env <| room q.userId q.roomId fun candidate =>
    if candidate.desktopDeviceId ≠ q.deviceId then refuse .forbidden
    else lockRoom q.roomId <|
      lockConnection b q.userId q.deviceId q.roomId (refuse .forbidden) (refuse .notFound) <|
        select (fun d => d.batches.find? (hasKey q)) fun
          | some replay =>
            if replay.desktopDeviceId ≠ q.deviceId ∨ replay.roomId ≠ q.roomId ∨
                replay.requestHash ≠ q.requestHash then refuse .idempotencyConflict
            else .read fun d => answer (.submitted replay
              (d.reservations.filter fun r => r.batchId = replay.id))
          | none => submitBatch q

/-! ### complete -/

structure Complete where
  userId : ℕ
  deviceId : ℕ
  reservationId : ℕ
  key : String
  sizeBytes : ℕ
  sha256 : String
  usageScore : ℤ
  manualPin : Bool
  encryptionMetadata : String
  storedSize : Option ℕ
  newId : ℕ
  deriving DecidableEq, Repr

/-- The file of the version. -/
def hasVersion (roomId : ℕ) (path hash : String) (f : CachedFile) : Bool :=
  f.roomId = roomId && f.sourceRelativePath = path && f.sourceVersionHash = hash

def fileOf (r : Reservation) (d : Db) : Option CachedFile :=
  d.files.find? (hasVersion r.roomId r.sourceRelativePath r.sourceVersionHash)

/-- The file is what the request has uploaded. -/
def isUpload (q : Complete) (f : CachedFile) : Bool :=
  f.sizeBytes = q.sizeBytes && f.sha256 = q.sha256 && f.usageScore = q.usageScore &&
    f.manualPin = q.manualPin && f.encryptionMetadata = q.encryptionMetadata

def answerUpload (q : Complete) : Option CachedFile → Program
  | some f => if isUpload q f then answer (.file (publicFile f)) else refuse .idempotencyConflict
  | none => refuse .idempotencyConflict

def newFile (q : Complete) (r : Reservation) (now : ℕ) : CachedFile where
  id := q.newId
  roomId := r.roomId
  sourceRelativePath := r.sourceRelativePath
  sourceVersion := r.sourceVersion
  sourceVersionHash := r.sourceVersionHash
  usageScore := q.usageScore
  manualPin := q.manualPin
  objectKey := r.objectKey
  sizeBytes := q.sizeBytes
  sha256 := q.sha256
  encryptionMetadata := q.encryptionMetadata
  availabilityStatus := .available
  freshnessStatus := .verifiedCurrent
  cachedAt := now
  lastVerifiedAt := now
  lastAccessedAt := none

/-- A file of the version that is there already. -/
def restored (q : Complete) (now : ℕ) (f : CachedFile) : CachedFile :=
  { f with
    availabilityStatus := .available
    freshnessStatus := .verifiedCurrent
    sizeBytes := q.sizeBytes
    sha256 := q.sha256
    usageScore := q.usageScore
    manualPin := q.manualPin
    encryptionMetadata := q.encryptionMetadata
    lastVerifiedAt := now }

def completed (q : Complete) (r : Reservation) : Reservation :=
  { r with status := .completed, completionIdempotencyKey := some q.key }

/-- The completion key is in its unique index for another reservation. -/
def completionKeyTaken (q : Complete) (d : Db) : Bool :=
  d.reservations.any fun r => r.desktopDeviceId = q.deviceId &&
    r.completionIdempotencyKey = some q.key && r.id ≠ q.reservationId

/-- The update to `COMPLETED`, which fails with the unique index of the completion keys. -/
def setCompleted (q : Complete) (cached : CachedFile) : Program :=
  .lock (fun d => if completionKeyTaken q d then [] else
      [.reservationCompletionKey q.deviceId q.key]) fun d =>
    if completionKeyTaken q d then refuse .conflict
    else reservations.update (fun r => r.id = q.reservationId) (completed q) fun _ =>
      answer (.file (publicFile cached))

/-- The new file comes in under a new identifier, or the file of its version is there again. -/
def storeFile (q : Complete) (r : Reservation) : Program :=
  .lock (fun _ => [.file q.newId]) fun d =>
    if d.files.any (·.id = q.newId) then refuse .conflict
    else clock fun now => files.upsert (hasVersion r.roomId r.sourceRelativePath r.sourceVersionHash)
      (newFile q r now) (restored q now)
      [.fileVersion r.roomId r.sourceRelativePath r.sourceVersionHash] (setCompleted q)

/-- The old files go out, one after the other. -/
def replaceFiles (next : Program) : List CachedFile → Program
  | [] => next
  | f :: old => files.update (fun g => g.id = f.id) invalidated fun _ =>
      deleteObject f (replaceFiles next old)

def isAvailableAt (roomId : ℕ) (path : String) (f : CachedFile) : Bool :=
  f.roomId = roomId && f.sourceRelativePath = path && f.availabilityStatus = .available

/-- `complete` with the reservation as it has first read it and as it has locked it. -/
def completeLocked (q : Complete) (r current : Reservation) : Program :=
  if current.status = .completed then
    if current.completionIdempotencyKey ≠ some q.key then refuse .idempotencyConflict
    else select (fileOf current) (answerUpload q)
  else clock fun now =>
    if current.status ≠ .reserved ∨ current.expiresAt ≤ now then refuse .reservationExpired
    else .read fun d => replaceFiles (storeFile q r)
      (d.files.filter (isAvailableAt r.roomId r.sourceRelativePath))

/-- The reservation of the device, in an active room of the user. -/
def ownReservation (userId deviceId : ℕ) (cond : Reservation → Bool) (d : Db) : Option Reservation :=
  d.reservations.find? fun r => cond r && r.desktopDeviceId = deviceId &&
    (d.room userId r.roomId).isSome

def complete (env : Environment) (b : Backend) (q : Complete) : Program :=
  enabled env <| select (ownReservation q.userId q.deviceId
      fun r => r.completionIdempotencyKey = some q.key) fun
    | some replay =>
      if replay.id ≠ q.reservationId then refuse .idempotencyConflict
      else select (fileOf replay) (answerUpload q)
    | none => select (ownReservation q.userId q.deviceId fun r => r.id = q.reservationId) fun
      | none => refuse .reservationExpired
      | some r => clock fun now =>
        if r.status ≠ .reserved ∨ r.expiresAt ≤ now then refuse .reservationExpired
        else if r.reservedBytes ≠ q.sizeBytes ∨ q.storedSize ≠ some q.sizeBytes then
          refuse .uploadFailed
        else lockConnection b q.userId q.deviceId r.roomId (refuse .forbidden)
          (refuse .reservationExpired) <|
          selectFor (fun d => d.reservations.find? fun s => s.id = q.reservationId)
            (fun s => [.reservation s.id]) fun
            | none => refuse .reservationExpired
            | some current => completeLocked q r current

/-! ### cancelReservation -/

structure CancelReservation where
  userId : ℕ
  deviceId : ℕ
  reservationId : ℕ
  deriving DecidableEq, Repr

def cancelled (r : Reservation) : Reservation := { r with status := .cancelled }

/-- The deletion of the object of a reservation, from the given time on. -/
def deleteReservationObject (r : Reservation) (nextAttemptAt : ℕ) (next : Program) : Program :=
  modify (Db.addCacheReservationDeletionJobs [⟨r.id, r.objectKey, .pending, nextAttemptAt⟩]) next

def cancelReservation (b : Backend) (q : CancelReservation) : Program :=
  select (ownReservation q.userId q.deviceId fun r => r.id = q.reservationId) fun
    | none => refuse .notFound
    | some r =>
      if r.status = .cancelled then answer (.cancelled q.reservationId)
      else if r.status ≠ .reserved then refuse .invalidStateTransition
      else lockActiveRoom b q.userId q.deviceId r.roomId <|
        selectFor (fun d => d.reservations.find? fun s => s.id = q.reservationId &&
          s.desktopDeviceId = q.deviceId && s.roomId = r.roomId) (fun s => [.reservation s.id]) fun
          | none => refuse .notFound
          | some current =>
            if current.status = .cancelled then answer (.cancelled q.reservationId)
            else if current.status ≠ .reserved then refuse .invalidStateTransition
            else reservations.update (fun s => s.id = q.reservationId && s.status = .reserved)
              cancelled fun
              | [] => refuse .invalidStateTransition
              | s :: _ => deleteReservationObject s s.expiresAt
                  (answer (.cancelled q.reservationId))

/-! ### markStale -/

structure MarkStale where
  userId : ℕ
  deviceId : ℕ
  roomId : ℕ
  sourceRelativePath : Option String
  reason : StaleReason
  deriving DecidableEq, Repr

/-- The path in the scope of the report. -/
def MarkStale.inScope (q : MarkStale) (path : String) : Bool :=
  match q.sourceRelativePath with
  | none => true
  | some source =>
    if q.reason = .sourceRemoved then
      path = source || (source ++ "/").toList.isPrefixOf path.toList
    else path = source

def markStale (b : Backend) (q : MarkStale) : Program :=
  room q.userId q.roomId fun r =>
    if r.desktopDeviceId ≠ q.deviceId then refuse .forbidden
    else lockRoom q.roomId <| lockActiveRoom b q.userId q.deviceId q.roomId <|
      files.update (fun f => isAvailable q.roomId f && f.freshnessStatus ≠ .stale &&
        q.inScope f.sourceRelativePath) (fun f => { f with freshnessStatus := .stale }) fun rows =>
          answer (.marked q.roomId q.sourceRelativePath q.reason rows.length)

/-! ### remove and recordAccess -/

structure Remove where
  userId : ℕ
  cachedFileId : ℕ
  deriving DecidableEq, Repr

/-- The file in an active room of the user, with the room. -/
def ownFile (userId cachedFileId : ℕ) (d : Db) : Option (CachedFile × Server.Room) := do
  let f ← d.files.find? fun f => f.id = cachedFileId && (d.room userId f.roomId).isSome
  let r ← d.room userId f.roomId
  return (f, r)

def remove (b : Backend) (q : Remove) : Program :=
  select (ownFile q.userId q.cachedFileId) fun
    | none => refuse .notFound
    | some (f, r) =>
      if f.availabilityStatus ≠ .available then answer (.file (publicFile f))
      else lockActiveRoom b q.userId r.desktopDeviceId r.id <|
        selectFor (fun d => d.files.find? fun g => g.id = q.cachedFileId && g.roomId = r.id)
          (fun g => [.file g.id]) fun
          | none => refuse .notFound
          | some current =>
            if current.availabilityStatus ≠ .available then answer (.file (publicFile current))
            else files.update (fun g => g.id = q.cachedFileId) invalidated fun
              | [] => refuse .notFound
              | removed :: _ => deleteObject current (answer (.file (publicFile removed)))

structure RecordAccess where
  userId : ℕ
  cachedFileId : ℕ
  deriving DecidableEq, Repr

def accessed (now : ℕ) (f : CachedFile) : CachedFile :=
  { f with lastAccessedAt := some now, usageScore := f.usageScore + 5 }

def recordAccess (env : Environment) (b : Backend) (q : RecordAccess) : Program :=
  enabled env <| select (ownFile q.userId q.cachedFileId) fun
    | none => refuse .notFound
    | some (_, r) => lockActiveRoom b q.userId r.desktopDeviceId r.id <| clock fun now =>
      files.update (fun f => f.id = q.cachedFileId && isAvailable r.id f) (accessed now) fun
        | [] => refuse .notFound
        | f :: _ => answer (.accessed f.id f.usageScore f.lastAccessedAt)

/-! ### Expiry -/

def expired (r : Reservation) : Reservation := { r with status := .expired }

/-- The update of `scheduleExpired` and of `expireAbandonedReservation`. -/
def expireReservation (reservationId : ℕ) : Program :=
  reservations.update (fun r => r.id = reservationId && r.status = .reserved) expired fun
    | [] => answer .nothing
    | r :: _ => clock fun now => deleteReservationObject r now (answer .nothing)

/-- What `scheduleExpired` does with one of the reservations that it has selected. -/
def expire (b : Backend) (reservationId : ℕ) : Program :=
  clock fun now => select (fun d => do
    let r ← d.reservations.find? fun r => r.id = reservationId && decide (r.expiresAt ≤ now) &&
      r.status = .reserved
    let room ← d.rooms.find? fun room => room.id = r.roomId
    return (r, room.userId)) fun
    | none => answer .nothing
    | some (r, userId) => lockConnection b userId r.desktopDeviceId r.roomId
        (expireReservation reservationId) (expireReservation reservationId)
        (expireReservation reservationId)

/-! ### All requests -/

inductive Request
  | getPolicy (q : GetPolicy)
  | updatePolicy (q : UpdatePolicy)
  | submit (q : Submit)
  | complete (q : Complete)
  | cancelReservation (q : CancelReservation)
  | markStale (q : MarkStale)
  | remove (q : Remove)
  | recordAccess (q : RecordAccess)
  | expire (reservationId : ℕ)
  deriving DecidableEq, Repr

def body (env : Environment) (b : Backend) : Request → Program
  | .getPolicy q => getPolicy env q
  | .updatePolicy q => updatePolicy env b q
  | .submit q => submit env b q
  | .complete q => complete env b q
  | .cancelReservation q => cancelReservation b q
  | .markStale q => markStale b q
  | .remove q => remove b q
  | .recordAccess q => recordAccess env b q
  | .expire reservationId => expire b reservationId

end MouseKeeper.Storage.SmartCache
