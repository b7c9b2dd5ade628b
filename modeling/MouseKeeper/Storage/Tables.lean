import Mathlib.Data.Int.Notation
import MouseKeeper.Rows
import MouseKeeper.Server.Tables

/-!
The tables behind transfers, browse requests and the smart cache, with the clock.

Identifiers are numbers, and a new row takes the identifier that its request has drawn. Events
for the sync log are left out, as are the locks that only order them.

A row lock is held on one of the connections when it is shared, and on all of them when it is
exclusive.
-/

namespace MouseKeeper.Storage

open MouseKeeper.ReadCommitted
open MouseKeeper.Server (Device Room)

/-- The code of a refused request. -/
inductive Code
  | forbidden | notFound | conflict | idempotencyConflict | invalidStateTransition
  | sizeLimitExceeded | deviceOffline | sourceChanged | reservationExpired | uploadFailed
  | rejectedPolicy | smartCachePolicyAutomatic | unconfigured
  deriving DecidableEq, Repr

inductive TransferStatus
  | requested | uploading | ready | completed | failed | cancelled | expired
  deriving DecidableEq, Repr

inductive TransferFailureCode
  | sourceNotFound | sourceChanged | outsideManagedRoot | sizeLimitExceeded | checksumMismatch
  deriving DecidableEq, Repr

structure SourceVersion where
  fileId : String
  sizeBytes : ℕ
  modifiedAt : ℕ
  deriving DecidableEq, Repr

structure Transfer where
  id : ℕ
  roomId : ℕ
  desktopDeviceId : ℕ
  requestedByUserId : ℕ
  sourceRelativePath : String
  sourceVersion : Option SourceVersion
  status : TransferStatus
  failureCode : Option TransferFailureCode
  objectKey : Option String
  sizeBytes : Option ℕ
  sha256 : Option String
  expiresAt : ℕ
  completedAt : Option ℕ
  idempotencyKey : String
  uploadCompletionIdempotencyKey : Option String
  deriving DecidableEq, Repr

inductive BrowseStatus
  | requested | ready | failed
  deriving DecidableEq, Repr

inductive BrowseFailureCode
  | deviceOffline | timedOut | cursorInvalidated | outsideManagedRoot
  deriving DecidableEq, Repr

/-- A browse request with its page of results, as a text. -/
structure Browse where
  id : ℕ
  roomId : ℕ
  desktopDeviceId : ℕ
  relativeDirectory : String
  cursor : Option String
  query : Option String
  extensions : List String
  limit : ℕ
  searchScope : String
  status : BrowseStatus
  failureCode : Option BrowseFailureCode
  resultPage : Option String
  desktopGeneration : Option String
  expiresAt : ℕ
  deriving DecidableEq, Repr

structure Policy where
  roomId : ℕ
  enabled : Bool
  quotaBytes : ℕ
  maxFileBytes : ℕ
  excludedPatterns : List String
  pinnedPatterns : List String
  deriving DecidableEq, Repr

structure Batch where
  id : ℕ
  userId : ℕ
  desktopDeviceId : ℕ
  roomId : ℕ
  idempotencyKey : String
  requestHash : String
  candidateCount : ℕ
  deriving DecidableEq, Repr

inductive ReservationStatus
  | reserved | completed | cancelled | expired
  deriving DecidableEq, Repr

structure Reservation where
  id : ℕ
  batchId : ℕ
  roomId : ℕ
  desktopDeviceId : ℕ
  sourceRelativePath : String
  sourceVersion : String
  sourceVersionHash : String
  reservedBytes : ℕ
  status : ReservationStatus
  expiresAt : ℕ
  objectKey : String
  completionIdempotencyKey : Option String
  deriving DecidableEq, Repr

inductive Availability
  | available | invalidated
  deriving DecidableEq, Repr

inductive Freshness
  | verifiedCurrent | stale
  deriving DecidableEq, Repr

structure CachedFile where
  id : ℕ
  roomId : ℕ
  sourceRelativePath : String
  sourceVersion : String
  sourceVersionHash : String
  usageScore : ℤ
  manualPin : Bool
  objectKey : String
  sizeBytes : ℕ
  sha256 : String
  encryptionMetadata : String
  availabilityStatus : Availability
  freshnessStatus : Freshness
  cachedAt : ℕ
  lastVerifiedAt : ℕ
  lastAccessedAt : Option ℕ
  deriving DecidableEq, Repr

inductive JobStatus
  | pending | processing | completed
  deriving DecidableEq, Repr

/-- The deletion of the object of a transfer, of a cached file or of a reservation. -/
structure DeletionJob where
  ownerId : ℕ
  objectKey : String
  status : JobStatus
  nextAttemptAt : ℕ
  deriving DecidableEq, Repr

inductive Operation
  | roomRemove | deviceRevoke
  deriving DecidableEq, Repr

/-- A request to remove a room or to revoke a device that has been carried out. -/
structure Receipt where
  actorScope : String
  idempotencyKey : String
  operation : Operation
  aggregateId : ℕ
  deriving DecidableEq, Repr

structure Db where
  now : ℕ
  devices : List Device
  rooms : List Room
  transfers : List Transfer
  browses : List Browse
  policies : List Policy
  batches : List Batch
  reservations : List Reservation
  files : List CachedFile
  objectDeletionJobs : List DeletionJob
  cacheDeletionJobs : List DeletionJob
  cacheReservationDeletionJobs : List DeletionJob
  receipts : List Receipt
  deriving DecidableEq, Repr

/-- What a transaction can lock: a row, the entry of a unique index that it writes, or the
advisory lock of a room. -/
inductive Lock
  | device (id connection : ℕ)
  | room (id connection : ℕ)
  | transfer (id : ℕ)
  | transferKey (userId : ℕ) (key : String)
  | uploadCompletionKey (userId : ℕ) (key : String)
  | browse (id : ℕ)
  | policy (roomId : ℕ)
  | batch (id : ℕ)
  | batchKey (userId : ℕ) (key : String)
  | reservation (id : ℕ)
  | reservationVersion (roomId : ℕ) (path hash : String)
  | reservationCompletionKey (deviceId : ℕ) (key : String)
  | file (id : ℕ)
  | fileVersion (roomId : ℕ) (path hash : String)
  | advisory (roomId : ℕ)
  | receipt (actorScope key : String)
  deriving DecidableEq

/-- The server's number of connections to the database, and the one that the request is served
on. -/
structure Backend where
  connections : ℕ
  connection : Fin connections

namespace Backend

variable (b : Backend)

/-- `for share`. -/
def share (row : ℕ → Lock) : List Lock := [row b.connection]

/-- `for update`. -/
def exclusive (row : ℕ → Lock) : List Lock := (List.range b.connections).map row

end Backend

namespace Db

variable (d : Db)

/-- The active device of the user. -/
def device (userId deviceId : ℕ) : Option Device :=
  d.devices.find? fun v => v.id = deviceId && v.userId = userId && v.active

/-- The active room of the user. -/
def room (userId roomId : ℕ) : Option Room :=
  d.rooms.find? fun r => r.id = roomId && r.userId = userId && r.active

/-- The active room of the user on the device. -/
def deviceRoom (userId deviceId roomId : ℕ) : Option Room :=
  d.rooms.find? fun r => r.id = roomId && r.desktopDeviceId = deviceId && r.userId = userId &&
    r.active

end Db

/-! ### Statements -/

/-- A transaction, or single statements outside of one: such a statement gives its locks back at
once, and only the last of a call writes. -/
abbrev Program (R : Type) := Txn Db Lock Code R

variable {α R : Type}

/-- `new Date()`. -/
def clock (next : ℕ → Program R) : Program R := .read fun d => next d.now

/-- `select … limit 1`. -/
def select (row : Db → Option α) (next : Option α → Program R) : Program R :=
  .read fun d => next (row d)

/-- `select … for … limit 1`. -/
def selectFor (row : Db → Option α) (locks : α → List Lock) (next : Option α → Program R) :
    Program R :=
  .lock (fun d => (row d).elim [] locks) fun d => next (row d)

/-- A table of rows with identifiers. -/
structure Table (α : Type) where
  rows : Db → List α
  put : List α → Db → Db
  id : α → ℕ
  locks : ℕ → List Lock

namespace Table

variable (T : Table α)

/-- The rows that meet the condition. -/
def matching (cond : α → Bool) (d : Db) : List α := (T.rows d).filter cond

/-- The identifiers of the rows that meet the condition. -/
def ids (cond : α → Bool) (d : Db) : List ℕ := (T.matching cond d).map T.id

/-- `select … for update`. -/
def selectAllFor (cond : α → Bool) (next : List α → Program R) : Program R :=
  .lock (fun d => (T.ids cond d).flatMap T.locks) fun d => next (T.matching cond d)

/-- `update … set … where … returning`. -/
def update (cond : α → Bool) (set : α → α) (next : List α → Program R) : Program R :=
  .stmt (fun d => (T.ids cond d).flatMap T.locks)
    (fun v d => T.put (setRows T.id (T.ids cond v) set (T.rows d)) d)
    fun v => next ((T.matching cond v).map set)

/-- `insert … on conflict do nothing`, with whether the row is in. -/
def insert (conflicts : α → Bool) (row : α) (keys : List Lock) (next : Bool → Program R) :
    Program R :=
  .stmt (fun d => if (T.rows d).any conflicts then [] else T.locks (T.id row) ++ keys)
    (fun v d => if (T.rows v).any conflicts then d else T.put (T.rows d ++ [row]) d)
    fun v => next (!(T.rows v).any conflicts)

/-- `insert … on conflict do update … returning`. -/
def upsert (conflicts : α → Bool) (row : α) (set : α → α) (keys : List Lock)
    (next : α → Program R) : Program R :=
  .stmt (fun d => if (T.rows d).any conflicts then (T.ids conflicts d).flatMap T.locks
      else T.locks (T.id row) ++ keys)
    (fun v d => if (T.rows v).any conflicts then
      T.put (setRows T.id (T.ids conflicts v) set (T.rows d)) d else T.put (T.rows d ++ [row]) d)
    fun v => next (((T.rows v).find? conflicts).elim row set)

end Table

def transfers : Table Transfer :=
  ⟨Db.transfers, fun rows d => { d with transfers := rows }, Transfer.id, fun id => [.transfer id]⟩

def browses : Table Browse :=
  ⟨Db.browses, fun rows d => { d with browses := rows }, Browse.id, fun id => [.browse id]⟩

def reservations : Table Reservation :=
  ⟨Db.reservations, fun rows d => { d with reservations := rows }, Reservation.id, fun id => [.reservation id]⟩

def files : Table CachedFile :=
  ⟨Db.files, fun rows d => { d with files := rows }, CachedFile.id, fun id => [.file id]⟩

def policies : Table Policy :=
  ⟨Db.policies, fun rows d => { d with policies := rows }, Policy.roomId, fun id => [.policy id]⟩

def batches : Table Batch :=
  ⟨Db.batches, fun rows d => { d with batches := rows }, Batch.id, fun id => [.batch id]⟩

/-- `insert … on conflict do nothing` into a table of deletion jobs. -/
def addJob (job : DeletionJob) (jobs : List DeletionJob) : List DeletionJob :=
  if jobs.any fun j => j.ownerId = job.ownerId then jobs else jobs ++ [job]

/-- `insert … on conflict do nothing` of the deletion jobs of some rows. -/
def addJobs (new jobs : List DeletionJob) : List DeletionJob :=
  new.foldl (fun jobs job => addJob job jobs) jobs

namespace Db

def addObjectDeletionJobs (new : List DeletionJob) (d : Db) : Db :=
  { d with objectDeletionJobs := addJobs new d.objectDeletionJobs }

def addCacheDeletionJobs (new : List DeletionJob) (d : Db) : Db :=
  { d with cacheDeletionJobs := addJobs new d.cacheDeletionJobs }

def addCacheReservationDeletionJobs (new : List DeletionJob) (d : Db) : Db :=
  { d with cacheReservationDeletionJobs := addJobs new d.cacheReservationDeletionJobs }

end Db

/-- A statement that writes what no lock is modelled for. -/
def modify (change : Db → Db) (next : Program R) : Program R :=
  .write (fun _ => []) (fun _ => change) next

section Connection

variable (b : Backend)

/-- The shared lock on the active device, then on its active room. -/
def lockConnection (userId deviceId roomId : ℕ) (noDevice noRoom next : Program R) : Program R :=
  selectFor (fun d => d.device userId deviceId) (fun _ => b.share (.device deviceId)) fun
    | none => noDevice
    | some _ =>
      selectFor (fun d => d.deviceRoom userId deviceId roomId) (fun _ => b.share (.room roomId)) fun
        | none => noRoom
        | some _ => next

def lockActiveRoom (userId deviceId roomId : ℕ) (next : Program R) : Program R :=
  lockConnection b userId deviceId roomId (.answer (.error .notFound)) (.answer (.error .notFound))
    next

end Connection

end MouseKeeper.Storage
