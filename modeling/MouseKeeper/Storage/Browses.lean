import MouseKeeper.Storage.Tables

/-!
The requests to browse files: `create`, `get`, `complete` and `fail` of the server, and their
expiry by the worker.

Whether the device is present is an answer of Redis, which comes with the request. The run of an
agent that waits for a result is left out.
-/

namespace MouseKeeper.Storage.Browses

open MouseKeeper.ReadCommitted

variable {R : Type}

def refuse (code : Code) : Program R := .answer (.error code)

/-! ### create -/

structure Create where
  userId : ℕ
  roomId : ℕ
  relativeDirectory : String
  cursor : Option String
  query : Option String
  extensions : List String
  limit : ℕ
  searchScope : String
  newId : ℕ
  presence : Bool
  deriving DecidableEq, Repr

def newBrowse (q : Create) (desktopDeviceId expiresAt : ℕ) : Browse where
  id := q.newId
  roomId := q.roomId
  desktopDeviceId := desktopDeviceId
  relativeDirectory := q.relativeDirectory
  cursor := q.cursor
  query := if q.presence then q.query else none
  extensions := if q.presence then q.extensions else []
  limit := q.limit
  searchScope := q.searchScope
  status := if q.presence then .requested else .failed
  failureCode := if q.presence then none else some .deviceOffline
  resultPage := none
  desktopGeneration := none
  expiresAt := expiresAt

def create (b : Backend) (q : Create) (done : Browse → R) : Program R :=
  select (fun d => d.room q.userId q.roomId) fun
    | none => refuse .notFound
    | some candidate => lockActiveRoom b q.userId candidate.desktopDeviceId q.roomId <|
      clock fun now =>
        let row := newBrowse q candidate.desktopDeviceId (now + 60000)
        browses.insert (fun r => r.id = q.newId) row [] fun
          | true => .answer (.ok (done row))
          | false => refuse .conflict

/-! ### get -/

structure Get where
  userId : ℕ
  requestId : ℕ
  deriving DecidableEq, Repr

/-- Without the search and without the results. -/
def cleared (r : Browse) : Browse := { r with query := none, resultPage := none }

def timedOut (r : Browse) : Browse :=
  { r with status := .failed, failureCode := some .timedOut, query := none, resultPage := none }

def clear (requestId : ℕ) (done : Browse → R) : Program R :=
  browses.update (fun r => r.id = requestId) cleared fun
    | [] => refuse .notFound
    | r :: _ => .answer (.ok (done r))

def timeOut (requestId : ℕ) (done : Browse → R) : Program R :=
  browses.update (fun r => r.id = requestId && decide (r.status ∈ [BrowseStatus.requested, .ready]))
    timedOut fun
    | [] => select (fun d => d.browses.find? (·.id = requestId)) fun
      | none => refuse .notFound
      | some current => .answer (.ok (done current))
    | r :: _ => .answer (.ok (done r))

def get (b : Backend) (q : Get) (done : Browse → R) : Program R :=
  select (fun d => d.browses.find? fun r => r.id = q.requestId && (d.room q.userId r.roomId).isSome) fun
    | none => refuse .notFound
    | some r => clock fun now =>
      if now < r.expiresAt then .answer (.ok (done r))
      else lockActiveRoom b q.userId r.desktopDeviceId r.roomId <|
        if r.status = .failed then clear q.requestId done else timeOut q.requestId done

/-! ### complete and fail -/

/-- What the device answers: a page of results for a generation of its index, or a failure. -/
inductive Outcome
  | ready (resultPage desktopGeneration : String)
  | failed (failureCode : BrowseFailureCode)
  deriving DecidableEq, Repr

structure Finish where
  userId : ℕ
  deviceId : ℕ
  requestId : ℕ
  outcome : Outcome
  deriving DecidableEq, Repr

def finished (q : Finish) (r : Browse) : Browse :=
  match q.outcome with
  | .ready resultPage desktopGeneration =>
    { r with
      status := .ready
      resultPage := some resultPage
      desktopGeneration := some desktopGeneration
      query := none }
  | .failed failureCode =>
    { r with status := .failed, failureCode := some failureCode, query := none }

/-- `update … where id = … and status = 'REQUESTED'`. -/
def updateRequested (requestId : ℕ) (set : Browse → Browse) (done : Browse → R) : Program R :=
  browses.update (fun r => r.id = requestId && r.status = .requested) set fun
    | [] => refuse .invalidStateTransition
    | r :: _ => .answer (.ok (done r))

def finish (b : Backend) (q : Finish) (done : Browse → R) : Program R :=
  selectFor (fun d => d.device q.userId q.deviceId) (fun v => b.share (.device v.id)) fun
    | none => refuse .notFound
    | some device => select (fun d => d.browses.find? fun r => r.id = q.requestId &&
        r.desktopDeviceId = q.deviceId) fun
      | none => refuse .notFound
      | some candidate => selectFor (fun d => d.deviceRoom q.userId device.id candidate.roomId)
          (fun room => b.share (.room room.id)) fun
        | none => refuse .notFound
        | some room => selectFor (fun d => d.browses.find? fun r => r.id = q.requestId &&
            r.desktopDeviceId = device.id && r.roomId = room.id) (fun r => [.browse r.id]) fun
          | none => refuse .notFound
          | some owned => clock fun now =>
            if owned.expiresAt ≤ now then updateRequested q.requestId timedOut done
            else updateRequested q.requestId (finished q) done

/-! ### Expiry -/

/-- The update of `scheduleExpired` and of `clearAbandonedBrowseRequest`. -/
def expireRequest (requestId : ℕ) (done : R) : Program R :=
  browses.update (fun r => r.id = requestId && r.status = .requested) timedOut fun _ =>
    .answer (.ok done)

/-- What `scheduleExpired` does with one of the requests that it has selected. -/
def expire (b : Backend) (requestId : ℕ) (done : R) : Program R :=
  clock fun now => select (fun d => do
    let r ← d.browses.find? fun r => r.id = requestId && decide (r.expiresAt ≤ now) &&
      r.status = .requested
    let room ← d.rooms.find? fun room => room.id = r.roomId
    return (r, room.userId)) fun
    | none => .answer (.ok done)
    | some (r, userId) => lockConnection b userId r.desktopDeviceId r.roomId
        (expireRequest requestId done) (expireRequest requestId done) (expireRequest requestId done)

/-- The update of the results that have expired. -/
def expireResults (done : R) : Program R :=
  clock fun now =>
    browses.update (fun r => decide (r.expiresAt ≤ now) && r.status = .ready) timedOut fun _ =>
      .answer (.ok done)

/-- The update of the failed requests that have expired. -/
def clearFailed (done : R) : Program R :=
  clock fun now =>
    browses.update (fun r => decide (r.expiresAt ≤ now) && r.status = .failed) cleared fun _ =>
      .answer (.ok done)

/-! ### All requests -/

inductive Request
  | create (q : Create)
  | get (q : Get)
  | finish (q : Finish)
  | expire (requestId : ℕ)
  | expireResults
  | clearFailed
  deriving DecidableEq, Repr

def body (b : Backend) : Request → Program (Option Browse)
  | .create q => create b q some
  | .get q => get b q some
  | .finish q => finish b q some
  | .expire requestId => expire b requestId none
  | .expireResults => expireResults none
  | .clearFailed => clearFailed none

end MouseKeeper.Storage.Browses
