import Mathlib.Algebra.Group.Int.Defs
import Mathlib.Algebra.GroupWithZero.Nat
import MouseKeeper.Mobile.MutationOutbox
import MouseKeeper.Machine

/-!
The calls of the mutation queue, from one wait to the next.

Between two waits of a call the user may change, the app may start again and other calls go on.
What a call waits for is a statement on the database, the token of its user or the answer of the
server; whatever throws ends the call. A transaction is one statement, since no other runs
while it is open.
-/

namespace MouseKeeper.Mobile.Outbox

/-! ### Answers -/

/-- How a request of `dio` comes back. -/
inductive Answer
  | response
  | connectionError
  | connectionTimeout
  | sendTimeout
  | receiveTimeout
  | badResponse (statusCode : Option ℕ)
  | badCertificate
  | cancel
  | unknown
  deriving DecidableEq

namespace Answer

def isRetryable : Answer → Bool
  | .connectionError | .connectionTimeout | .sendTimeout | .receiveTimeout => true
  | .badResponse statusCode => 500 ≤ statusCode.getD 0
  | _ => false

/-- An attempt that is neither accepted nor tried again. -/
def isRefusal (a : Answer) : Bool := a ≠ .response && !a.isRetryable

def statusCode : Answer → Option ℕ
  | .badResponse statusCode => statusCode
  | _ => none

def errorCode (a : Answer) : String :=
  "HTTP_" ++ (a.statusCode.map toString).getD "UNKNOWN"

end Answer

/-! ### Calls -/

/-- Where a flush is with a row. -/
inductive RowPoint
  | checkingRoom (roomId : String)
  | checkedRoom (present : Bool)
  | dropping
  | tokening (user : ℕ)
  | tokened (user : ℕ)
  | sending (user : ℕ)
  | answered (answer : Answer)
  | deleting
  | failing (lastErrorCode : String)
  | postponing (attemptCount nextRetryAt : ℕ)

inductive Point
  | selecting (now : ℕ)
  | selected (pending : List Row)
  | row (mutation : Row) (rest : List Row) (point : RowPoint)
  | written (rest : List Row)
  | postTokening (m : Mutation) (user : ℕ)
  | postTokened (m : Mutation) (user : ℕ)
  | posting (m : Mutation) (user : ℕ)
  | posted (m : Mutation) (answer : Answer)
  | queueing (m : Mutation)
  | queued
  | discarding

def Point.isFlush : Point → Bool
  | .selecting _ | .selected _ | .row .. | .written _ => true
  | _ => false

structure Call where
  id : ℕ
  ownerUid : ℕ
  point : Point

/-- What the calls have done. An attempt comes with the user whose token it carries, the row that
it is for, if any, and the answer. -/
inductive Happening
  | queued (call : ℕ) (row : Row)
  | attempt (call user : ℕ) (rowId : Option ℕ) (m : Mutation) (answer : Answer)
  | roomMissing (call rowId : ℕ)

structure World where
  currentUser : Option ℕ
  database : Database
  flushingOwnerUids : List ℕ
  calls : List Call
  started : ℕ
  history : List Happening

/-- What a step meets: the readings of the clock, the answer of the server, a new identifier. -/
structure Reply where
  now : ℕ
  later : ℕ
  newId : ℕ
  answer : Answer

namespace World

variable (v : Reading) (w : World) (reply : Reply)

/-- `_assertOwnerUid`, and what goes on after it. -/
def assertOwnerUid (ownerUid : ℕ) (next : Option Point) : Option Point :=
  if w.currentUser = some ownerUid then next else none

def log (h : Happening) : World := { w with history := w.history ++ [h] }

/-- `_options` up to the wait for the token, which is of the user that it reads. -/
def options (expectedOwnerUid : ℕ) (next : ℕ → Point) : Option Point :=
  w.currentUser.bind fun user => if user = expectedOwnerUid then some (next user) else none

def nextRow (ownerUid : ℕ) : List Row → Option Point
  | [] => none
  | mutation :: rest =>
    match mutation.mutation.payloadRoomId v with
    | some roomId => some (.row mutation rest (.checkingRoom roomId))
    | none => w.options ownerUid fun user => .row mutation rest (.tokening user)

def rowStep (id ownerUid : ℕ) (mutation : Row) (rest : List Row) : RowPoint → World × Option Point
  | .checkingRoom roomId =>
    if w.database.hasCachedRoom ownerUid roomId then
      (w, some (.row mutation rest (.checkedRoom true)))
    else (w.log (.roomMissing id mutation.id), some (.row mutation rest (.checkedRoom false)))
  | .checkedRoom present => (w, w.assertOwnerUid ownerUid
      (if present then w.options ownerUid fun user => .row mutation rest (.tokening user)
      else some (.row mutation rest .dropping)))
  | .dropping => ({ w with
      database := w.database.delete fun r => r.ownerUid = ownerUid && r.id = mutation.id },
      some (.written rest))
  | .tokening user => (w, some (.row mutation rest (.tokened user)))
  | .tokened user => (w, w.assertOwnerUid ownerUid (some (.row mutation rest (.sending user))))
  | .sending user => (w.log (.attempt id user (some mutation.id) mutation.mutation reply.answer),
      some (.row mutation rest (.answered reply.answer)))
  | .answered answer => (w, w.assertOwnerUid ownerUid (some (.row mutation rest
      (if answer = .response then .deleting
      else if answer.isRetryable then
        .postponing (mutation.attemptCount + 1)
          (reply.now + 2 ^ min (mutation.attemptCount + 1) 8 * 5)
      else .failing answer.errorCode))))
  | .deleting => ({ w with
      database := w.database.delete fun r => r.ownerUid = ownerUid && r.id = mutation.id },
      some (.written rest))
  | .failing lastErrorCode => ({ w with
      database := w.database.update ownerUid mutation.id fun r =>
        { r with status := .failed, lastErrorCode := some lastErrorCode } },
      some (.written rest))
  | .postponing attemptCount nextRetryAt => ({ w with
      database := w.database.update ownerUid mutation.id fun r =>
        { r with attemptCount, nextRetryAt, lastErrorCode := some "NETWORK_UNAVAILABLE" } },
      some (.written rest))

/-- The row that a call queues. -/
def newRow (ownerUid : ℕ) (m : Mutation) : Row where
  ownerUid
  id := reply.newId
  mutation := m
  nextRetryAt := reply.now
  createdAt := reply.later

/-- The transaction of a call that queues: it is rolled back if the room is gone, if the user
has changed or if the identifier is taken. -/
def queue (id ownerUid : ℕ) (m : Mutation) : World × Option Point :=
  if (m.roomId.map (w.database.hasCachedRoom ownerUid)).getD true &&
      w.currentUser = some ownerUid then
    match w.database.insert (newRow reply ownerUid m) with
    | some database => ({ w with database }.log (.queued id (newRow reply ownerUid m)), some .queued)
    | none => (w, none)
  else (w, none)

/-- One statement of a call, or its code up to the next wait; no point means that it has ended. -/
def callStep (id ownerUid : ℕ) : Point → World × Option Point
  | .selecting now => (w, some (.selected (w.database.due ownerUid now)))
  | .selected pending => (w, w.assertOwnerUid ownerUid (w.nextRow v ownerUid pending))
  | .row mutation rest point => w.rowStep reply id ownerUid mutation rest point
  | .written rest => (w, w.assertOwnerUid ownerUid (w.nextRow v ownerUid rest))
  | .postTokening m user => (w, some (.postTokened m user))
  | .postTokened m user => (w, w.assertOwnerUid ownerUid (some (.posting m user)))
  | .posting m user => (w.log (.attempt id user none m reply.answer),
      some (.posted m reply.answer))
  | .posted m answer => (w, w.assertOwnerUid ownerUid
      (if answer.isRetryable then some (.queueing m) else none))
  | .queueing m => w.queue reply id ownerUid m
  | .queued => (w, none)
  | .discarding => ({ w with database := w.database.discardFailed ownerUid }, none)

/-- The call goes on at its next point; a flush that ends gives its owner free. -/
def goOn (c : Call) : Option Point → World
  | some point => { w with
      calls := w.calls.map fun x => if x.id = c.id then { x with point } else x }
  | none => { w with
      calls := w.calls.filter (·.id ≠ c.id)
      flushingOwnerUids := if c.point.isFlush then w.flushingOwnerUids.erase c.ownerUid
        else w.flushingOwnerUids }

def call (i : ℕ) : Option Call := w.calls.find? (·.id = i)

def start (ownerUid : ℕ) (point : Point) : World :=
  { w with calls := w.calls ++ [⟨w.started, ownerUid, point⟩], started := w.started + 1 }

end World

/-! ### Steps -/

/-- A step of the app, of its user or of its server. The last four are of the display cache. -/
inductive Event
  | account (uid : Option ℕ)
  | restart
  | postOrQueue (m : Mutation)
  | flush (now : ℕ)
  | discardFailed
  | advance (i : ℕ) (reply : Reply)
  | fail (i : ℕ)
  | replaceRooms (ownerUid : ℕ) (rooms : List String)
  | removeRooms (ownerUid : ℕ) (roomIds : List String)
  | purge (ownerUid : ℕ)

/-- A call of the queue throws if nobody is signed in, and a second flush of one owner
returns at once. -/
def step (v : Reading) (w : World) : Event → Option World
  | .account uid => some { w with currentUser := uid }
  | .restart => some { w with calls := [], flushingOwnerUids := [] }
  | .postOrQueue m => w.currentUser.bind fun ownerUid =>
    (w.options ownerUid (.postTokening m)).map (w.start ownerUid)
  | .flush now => w.currentUser.map fun ownerUid =>
    if ownerUid ∈ w.flushingOwnerUids then w
    else { w.start ownerUid (.selecting now) with
      flushingOwnerUids := ownerUid :: w.flushingOwnerUids }
  | .discardFailed => w.currentUser.map fun ownerUid => w.start ownerUid .discarding
  | .advance i reply => (w.call i).map fun c =>
    (w.callStep v reply i c.ownerUid c.point).1.goOn c (w.callStep v reply i c.ownerUid c.point).2
  | .fail i => (w.call i).map fun c => w.goOn c none
  | .replaceRooms ownerUid rooms => some { w with
      database := w.database.replaceRooms ownerUid v rooms }
  | .removeRooms ownerUid roomIds => some { w with
      database := w.database.removeRooms ownerUid v roomIds }
  | .purge ownerUid => some { w with database := w.database.purgeConnectionDisplayData ownerUid }

/-- The first start of the app. -/
def initial : World where
  currentUser := none
  database := ⟨[], []⟩
  flushingOwnerUids := []
  calls := []
  started := 0
  history := []

end MouseKeeper.Mobile.Outbox
