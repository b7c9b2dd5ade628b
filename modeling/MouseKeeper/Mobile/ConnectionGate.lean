import MouseKeeper.Machine
import Mathlib.Data.List.Dedup

/-!
The connections that the mobile application shows, and how they follow the server.

A call runs until it awaits something, and goes on when the answer is there: a summary of the
server, the request to disconnect, a cache statement, or a queued mutation. Mutations run one
after the other. Identifiers and keys are numbers, and of an item only what the controller looks
at is told apart.

A summary is what the server shows at some point after the request for it. What the server has
stopped to show it does not show again, and an item that it begins to show has not been named.
-/

namespace MouseKeeper.Mobile.ConnectionGate

open MouseKeeper.Machine

/-! ### Operations -/

inductive DisconnectKind
  | device | room
  deriving DecidableEq, Repr

inductive DisconnectPhase
  | disconnecting | failed
  deriving DecidableEq, Repr

structure DisconnectOperation where
  kind : DisconnectKind
  aggregateId : ℕ
  idempotencyKey : ℕ
  phase : DisconnectPhase
  message : Option String
  deriving DecidableEq, Repr

/-- What a disconnect is about. -/
abbrev Aggregate := DisconnectKind × ℕ

/-- `_operationKey`. -/
def DisconnectOperation.aggregate (o : DisconnectOperation) : Aggregate := (o.kind, o.aggregateId)

/-- The failure of a request: whether its answer has the code `NOT_FOUND`, and whether it leaves
open what the server has done. -/
structure DisconnectError where
  notFoundCode : Bool
  ambiguous : Bool
  deriving DecidableEq, Repr

def disconnectErrorMessage (error : DisconnectError) : String :=
  if error.notFoundCode then "이미 해제되었거나 더 이상 접근할 수 없습니다. 상태를 다시 확인해 주세요."
  else if error.ambiguous then "서버에서 연결 해제 결과를 확인하지 못했습니다. 다시 시도해 주세요."
  else "연결 해제에 실패했습니다. 상태를 확인한 뒤 다시 시도해 주세요."

/-! ### Data -/

/-- A device or a room: `isActiveConnectionItem`, the values under the other stable keys, and the
rest. An identifier that is no string is none. -/
structure Item where
  id : Option ℕ
  desktopDeviceId : Option ℕ
  active : Bool
  stable : String
  rest : String
  deriving DecidableEq, Repr

structure ConnectionGateData where
  devices : List Item
  rooms : List Item
  operations : List DisconnectOperation
  deriving DecidableEq, Repr

namespace ConnectionGateData

variable (d : ConnectionGateData)

def hasActiveDevice : Bool := d.devices ≠ []

def items : DisconnectKind → List Item
  | .device => d.devices
  | .room => d.rooms

/-- The device or the room is among them. -/
def contains (g : Aggregate) : Bool := (d.items g.1).any fun item => item.id = some g.2

def operation (g : Aggregate) : Option DisconnectOperation :=
  d.operations.find? fun o => o.aggregate = g

/-- `_setOperation`. -/
def setOperation (o : DisconnectOperation) : ConnectionGateData :=
  { d with operations := o :: d.operations.filter fun x => x.aggregate ≠ o.aggregate }

def removeOperations (gs : List Aggregate) : List DisconnectOperation :=
  d.operations.filter fun o => o.aggregate ∉ gs

/-- `_upsertDevice`, without the cache. -/
def upsertDevice (id : ℕ) (device : Item) : ConnectionGateData :=
  { d with
    devices := (d.devices.filter fun item => item.id ≠ some id) ++ [device]
    operations := d.removeOperations [(.device, id)] }

/-- `_upsertRoom`, without the cache. -/
def upsertRoom (id : ℕ) (room : Item) : ConnectionGateData :=
  { d with
    rooms := (d.rooms.filter fun item => item.id ≠ some id) ++ [room]
    operations := d.removeOperations [(.room, id)] }

def remainingDevices (id : ℕ) : List Item := d.devices.filter fun item => item.id ≠ some id

/-- The rooms of the device that have an identifier. -/
def removedRoomIds (deviceId : ℕ) : List ℕ :=
  (d.rooms.filter fun item => item.desktopDeviceId = some deviceId).filterMap (·.id)

/-- `_removeDevice`, without the cache. -/
def removeDevice (id : ℕ) : ConnectionGateData where
  devices := d.remainingDevices id
  rooms := d.rooms.filter fun item => ∀ roomId ∈ item.id, roomId ∉ d.removedRoomIds id
  operations := d.removeOperations ((.device, id) :: (d.removedRoomIds id).map (.room, ·))

/-- `_removeRoom`, without the cache. -/
def removeRoom (id : ℕ) : ConnectionGateData :=
  { d with
    rooms := d.rooms.filter fun item => item.id ≠ some id
    operations := d.removeOperations [(.room, id)] }

end ConnectionGateData

/-- `connectionItemsEquivalent`, with what it compares of two items. -/
def connectionItemsEquivalent (same : Item → Item → Bool) (left right : List Item) : Bool :=
  left.length = right.length && (right.filterMap (·.id)).dedup.length = right.length &&
    left.all fun item => item.id.isSome &&
      (right.find? fun other => other.id = item.id).any (same item)

def sameDevice (x y : Item) : Bool := x.stable = y.stable

def sameRoom (x y : Item) : Bool := x.desktopDeviceId = y.desktopDeviceId && x.stable = y.stable

/-! ### The server -/

structure Summary where
  devices : List Item
  rooms : List Item
  deriving DecidableEq, Repr

/-- What `_readAuthoritative` makes of a summary. -/
def readAuthoritative (s : Summary) : ConnectionGateData :=
  let devices := s.devices.filter (·.active)
  let deviceIds := devices.filterMap (·.id)
  ⟨devices, (s.rooms.filter (·.active)).filter fun room => room.desktopDeviceId.any (· ∈ deviceIds), []⟩

/-- The server shows the device or the room. -/
def Summary.Shows (s : Summary) (g : Aggregate) : Prop := (readAuthoritative s).contains g = true

instance (s : Summary) (g : Aggregate) : Decidable (s.Shows g) :=
  inferInstanceAs (Decidable (_ = true))

/-- The devices and rooms that are shown. -/
def ConnectionGateData.aggregates (d : ConnectionGateData) : List Aggregate :=
  (d.devices.filterMap (·.id)).map (.device, ·) ++ (d.rooms.filterMap (·.id)).map (.room, ·)

/-- A request for a summary: when it was made, what the server has read for it, and what has come
back. -/
structure SummaryRequest where
  started : ℕ
  revision : ℕ
  snapshot : Option Summary
  answer : Option (Option Summary)
  deriving DecidableEq, Repr

/-! ### The display cache -/

structure DisplayCache where
  devices : List Item
  rooms : List Item
  deriving DecidableEq, Repr

namespace DisplayCache

def contains (c : DisplayCache) (g : Aggregate) : Bool :=
  (ConnectionGateData.mk c.devices c.rooms []).contains g

def removeDeviceCascade (id : ℕ) (c : DisplayCache) : DisplayCache :=
  ⟨c.devices.filter fun item => item.id ≠ some id,
    c.rooms.filter fun item => item.desktopDeviceId ≠ some id⟩

def removeRoomCascade (id : ℕ) (c : DisplayCache) : DisplayCache :=
  { c with rooms := c.rooms.filter fun item => item.id ≠ some id }

end DisplayCache

/-- `_replaceAuthoritativeCache`. -/
def replaceAuthoritativeCache (d : ConnectionGateData) : DisplayCache :=
  if d.devices = [] then ⟨[], []⟩ else ⟨d.devices, d.rooms⟩

/-- Every row that is inserted has an identifier, and another one than the others. -/
def cacheable (d : ConnectionGateData) : Bool :=
  d.devices = [] || ((d.devices ++ d.rooms).all fun item => item.id.isSome) &&
    (d.devices.filterMap (·.id)).Nodup && (d.rooms.filterMap (·.id)).Nodup

/-! ### Calls and mutations -/

/-- What a summary is read for. Of a disconnect it is kept at which revision it was asked for. -/
inductive Purpose
  | load
  | reconcile
  | claim (attempt : ℕ)
  | confirm (operation : DisconnectOperation) (error : DisconnectError) (attempt asked : ℕ)
  deriving DecidableEq, Repr

/-- The revision at which the disconnect was asked for. -/
def Purpose.asked : Purpose → Option ℕ
  | .confirm _ _ _ asked => some asked
  | _ => none

/-- What a call awaits. A load that has been applied keeps the number of mutations until then. -/
inductive Task
  | reading (p : Purpose) (revision request : ℕ)
  | queued (p : Purpose)
  | returned (p : Purpose) (applied : Option Bool) (refreshed : ConnectionGateData)
    (request mutations : ℕ)
  | pausing (p : Purpose)
  | claiming
  | requesting (operation : DisconnectOperation) (asked : ℕ)
  | removing (operation : DisconnectOperation)
  | removeFailed (operation : DisconnectOperation)
  | finished
  deriving DecidableEq, Repr

/-- When an event came in, or an answer: the time, and the revision that it made. -/
structure Arrival where
  time : ℕ
  revision : ℕ
  deriving DecidableEq, Repr

/-- A queued mutation. -/
inductive Mutation
  | apply (task : ℕ) (p : Purpose) (revision : ℕ) (refreshed : ConnectionGateData) (request : ℕ)
  | upsertDevice (id : ℕ) (device : Item) (arrival : Arrival)
  | upsertRoom (id desktopDeviceId : ℕ) (room : Item) (arrival : Arrival)
  | remove (g : Aggregate) (task : Option ℕ) (arrival : Arrival)
  deriving DecidableEq, Repr

/-- The mutation that awaits the cache. -/
inductive Running
  | applying (task : ℕ) (p : Purpose) (revision : ℕ) (refreshed next : ConnectionGateData)
    (request : ℕ)
  | upserting (g : Aggregate) (next : ConnectionGateData) (arrival : Arrival)
  | removing (g : Aggregate) (task : Option ℕ) (arrival : Arrival)
  | purging (id : ℕ) (task : Option ℕ) (arrival : Arrival)
  deriving DecidableEq, Repr

/-- The controller with the server and the cache. The time, the number of mutations that have come
to their end, and what has been removed and added when, are only observed. -/
structure World where
  revision : ℕ
  data : Option ConnectionGateData
  tasks : List Task
  queue : List Mutation
  running : Option (Running × Bool)
  cache : DisplayCache
  requests : List SummaryRequest
  inFlight : Option ℕ
  server : Summary
  named : List Aggregate
  time : ℕ
  mutations : ℕ
  removed : List (Aggregate × ℕ)
  added : List (Aggregate × ℕ)

/-- `ConnectionLifecycleEvent`, as far as it is reduced. -/
inductive LifecycleEvent
  | deviceRevoked (deviceId : ℕ)
  | roomRemoved (roomId : ℕ)
  | devicePaired (device : Option Item)
  | roomCreated (room : Option Item)
  deriving DecidableEq, Repr

/-- What an event says is gone. -/
def LifecycleEvent.gone : LifecycleEvent → Option Aggregate
  | .deviceRevoked id => some (.device, id)
  | .roomRemoved id => some (.room, id)
  | _ => none

inductive Action
  | server (s : Summary)
  | snapshot (request : ℕ)
  | answer (request : ℕ) (ok : Bool)
  | retryLoad
  | reconcile
  | claimAndConfirm
  | claimed (task : ℕ) (ok : Bool)
  | disconnect (g : Aggregate) (key : ℕ) (retry : Bool)
  | disconnected (task : ℕ) (error : Option DisconnectError)
  | event (e : LifecycleEvent)
  | resume (task : ℕ)
  | timeout (task : ℕ)
  | deadline (task : ℕ)
  | mutate
  | cached (ok : Bool)
  | finish
  deriving DecidableEq, Repr

namespace World

variable (w : World)

def setTask (i : ℕ) (t : Task) : World := { w with tasks := w.tasks.set i t }

def start (t : Task) : World := { w with tasks := w.tasks ++ [t] }

def bump : World := { w with revision := w.revision + 1 }

/-- The request in flight is joined, if there is one. -/
def summary : World × ℕ :=
  match w.inFlight with
  | some r => (w, r)
  | none =>
    ({ w with
      requests := w.requests ++ [⟨w.time, w.revision, none, none⟩]
      inFlight := some w.requests.length }, w.requests.length)

/-- The call reads a summary. -/
def read (i : ℕ) (p : Purpose) : World := w.summary.1.setTask i (.reading p w.revision w.summary.2)

/-- A new call reads a summary. -/
def startReading (p : Purpose) : World :=
  w.summary.1.start (.reading p w.revision w.summary.2)

/-- `_serializeMutation`. -/
def enqueue (m : Mutation) : World := { w with queue := w.queue ++ [m] }

/-- A mutation that comes in with an event or an answer. -/
def arrive (m : Arrival → Mutation) : World :=
  w.bump.enqueue (m ⟨w.time, w.revision + 1⟩)

/-- What is shown, if anything is, is changed. -/
def update (f : ConnectionGateData → ConnectionGateData) : World := { w with data := w.data.map f }

def setOperation (o : DisconnectOperation) : World := w.update (·.setOperation o)

/-- The failure of a disconnect is shown. -/
def recordFailure (i : ℕ) (o : DisconnectOperation) (error : DisconnectError) : World :=
  (w.setOperation { o with phase := .failed, message := some (disconnectErrorMessage error) }).setTask i
    .finished

/-- After an attempt that has confirmed nothing. -/
def pause (i : ℕ) : Purpose → World
  | .claim attempt => w.setTask i (if attempt < 9 then .pausing (.claim attempt) else .finished)
  | .confirm o error attempt asked =>
    if attempt < 4 then w.setTask i (.pausing (.confirm o error attempt asked))
    else w.recordFailure i o error
  | .load | .reconcile => w.setTask i .finished

def retryLoad : World := { w.bump with data := none }.startReading .load

def reconcile : World :=
  match w.data with
  | none => w.retryLoad
  | some _ => w.startReading .reconcile

def claimAndConfirm : World :=
  if w.data.any (·.hasActiveDevice) then w else w.start .claiming

/-! #### A summary has come -/

/-- The mutation that is to put the summary in place. -/
def enqueueApply (i : ℕ) (p : Purpose) (revision : ℕ) (refreshed : ConnectionGateData)
    (request : ℕ) : World :=
  (w.enqueue (.apply i p revision refreshed request)).setTask i (.queued p)

def summaryRead (i : ℕ) (p : Purpose) (revision request : ℕ) (refreshed : ConnectionGateData) :
    World :=
  match p with
  | .load => w.enqueueApply i .load revision refreshed request
  | .reconcile =>
    if revision = w.revision then w.enqueueApply i .reconcile revision refreshed request
    else w.setTask i .finished
  | .claim attempt =>
    if refreshed.hasActiveDevice then w.enqueueApply i (.claim attempt) revision refreshed request
    else w.pause i (.claim attempt)
  | .confirm o error attempt asked =>
    if refreshed.contains o.aggregate then w.pause i (.confirm o error attempt asked)
    -- the revision is taken only here
    else w.enqueueApply i (.confirm o error attempt asked) w.revision refreshed request

def summaryFailed (i : ℕ) : Purpose → World
  | .load => { w.setTask i .finished with data := none }
  | p => w.pause i p

/-- The call goes on with what its mutation has returned. -/
def mutationReturned (i : ℕ) (p : Purpose) (refreshed : ConnectionGateData) : Option Bool → World
  | some true =>
    match p with
    | .load => { w.setTask i .finished with data := some refreshed }
    | _ => w.setTask i .finished
  | some false =>
    match p with
    | .load => w.read i .load
    | p => w.pause i p
  | none => w.summaryFailed i p

def resume (i : ℕ) : Task → Option World
  | .reading p revision request =>
    match (w.requests[request]?).bind (·.answer) with
    | some (some s) => some (w.summaryRead i p revision request (readAuthoritative s))
    | some none => some (w.summaryFailed i p)
    | none => none
  | .returned p applied refreshed _ _ => some (w.mutationReturned i p refreshed applied)
  | .pausing (.claim attempt) => some (w.read i (.claim (attempt + 1)))
  | .pausing (.confirm o error attempt asked) => some (w.read i (.confirm o error (attempt + 1) asked))
  | .removeFailed o => some (w.recordFailure i o ⟨false, false⟩)
  | _ => none

/-! #### Disconnects and events -/

def requestDisconnect (o : DisconnectOperation) : World :=
  { (w.bump.setOperation o).start (.requesting o (w.revision + 1)) with
    named := o.aggregate :: w.named }

/-- `_disconnect`. -/
def disconnect (g : Aggregate) (key : ℕ) (retry : Bool) : World :=
  match w.data with
  | none => w
  | some d =>
    match d.operation g with
    | some ⟨_, _, _, .disconnecting, _⟩ => w
    | some ⟨_, _, existing, .failed, _⟩ =>
      if retry then w.requestDisconnect ⟨g.1, g.2, existing, .disconnecting, none⟩ else w
    | none => w.requestDisconnect ⟨g.1, g.2, key, .disconnecting, none⟩

/-- The answer to the request to disconnect, or its failure. -/
def disconnected (i : ℕ) (o : DisconnectOperation) (asked : ℕ) : Option DisconnectError → World
  | none => (w.arrive (.remove o.aggregate (some i))).setTask i (.removing o)
  | some error =>
    if error.ambiguous then w.read i (.confirm o error 0 asked) else w.recordFailure i o error

/-- `_reduceLifecycle`. -/
def reduceLifecycle : LifecycleEvent → World
  | .deviceRevoked id => w.arrive (.remove (.device, id) none)
  | .roomRemoved id => w.arrive (.remove (.room, id) none)
  | .devicePaired none => w.reconcile
  | .devicePaired (some device) =>
    match device.active, device.id with
    | true, some id => w.arrive (.upsertDevice id device)
    | _, _ => w
  | .roomCreated none => w.reconcile
  | .roomCreated (some room) =>
    match room.active, room.id, room.desktopDeviceId with
    | true, some id, some desktopDeviceId => w.arrive (.upsertRoom id desktopDeviceId room)
    | _, _, _ => w

/-! #### Mutations -/

/-- The running mutation has come to its end. -/
def ended : World := { w with running := none, mutations := w.mutations + 1 }

/-- It gives the call that awaits it an answer. -/
def returns (i : ℕ) (p : Purpose) (applied : Option Bool) (refreshed : ConnectionGateData)
    (request : ℕ) : World :=
  (w.setTask i (.returned p applied refreshed request (w.mutations + 1))).ended

/-- The device or the room is known to be gone. -/
def remove (g : Aggregate) : World := { w with removed := (g, w.time) :: w.removed }

def await (r : Running) : World := { w with running := some (r, false) }

/-- The summary is going to be put in place. -/
def applying (i : ℕ) (p : Purpose) (refreshed next : ConnectionGateData) (request : ℕ) : World :=
  w.bump.await (.applying i p (w.revision + 1) refreshed next request)

/-- What `reconcile` puts in place: the operations on what is still there stay. -/
def retaining (refreshed current : ConnectionGateData) : ConnectionGateData :=
  { refreshed with operations := current.operations.filter fun o => refreshed.contains o.aggregate }

/-- What `reconcile` takes for a change. -/
def changed (current next : ConnectionGateData) : Bool :=
  !connectionItemsEquivalent sameDevice current.devices next.devices ||
    !connectionItemsEquivalent sameRoom current.rooms next.rooms ||
      current.operations.length ≠ next.operations.length

def mutateApply (i : ℕ) (p : Purpose) (revision : ℕ) (refreshed : ConnectionGateData)
    (request : ℕ) : World :=
  if revision = w.revision then
    match p with
    | .reconcile =>
      match w.data with
      | none => w.returns i p (some false) refreshed request
      | some current =>
        if changed current (retaining refreshed current) then
          w.applying i p refreshed (retaining refreshed current) request
        else w.returns i p (some false) refreshed request
    | _ => w.applying i p refreshed refreshed request
  else
    match p with
    | .confirm o _ _ _ =>
      if w.data.any fun d => !d.contains o.aggregate then
        (w.remove o.aggregate).returns i p (some true) refreshed request
      else w.returns i p (some false) refreshed request
    | _ => w.returns i p (some false) refreshed request

def mutate : Mutation → World
  | .apply i p revision refreshed request => w.mutateApply i p revision refreshed request
  | .upsertDevice id device arrival =>
    w.await (.upserting (.device, id) ((w.data.getD ⟨[], [], []⟩).upsertDevice id device) arrival)
  | .upsertRoom id desktopDeviceId room arrival =>
    match w.data with
    | none => w.ended
    | some d =>
      if d.contains (.device, desktopDeviceId) then
        w.await (.upserting (.room, id) (d.upsertRoom id room) arrival)
      else w.ended
  | .remove g task arrival => w.await (.removing g task arrival)

/-- The cache statement of the running mutation has been carried out. -/
def cacheWritten : Running → Option World
  | .applying i p revision refreshed next request =>
    if cacheable refreshed then
      some { w with
        cache := replaceAuthoritativeCache refreshed
        running := some (.applying i p revision refreshed next request, true) }
    else none
  | .upserting g next arrival =>
    if cacheable next then
      some { w with
        cache := replaceAuthoritativeCache next
        running := some (.upserting g next arrival, true) }
    else none
  | .removing g task arrival =>
    some { w with
      cache := match g with
        | (.device, id) => w.cache.removeDeviceCascade id
        | (.room, id) => w.cache.removeRoomCascade id
      running := some (.removing g task arrival, true) }
  | .purging id task arrival =>
    some { w with cache := ⟨[], []⟩, running := some (.purging id task arrival, true) }

/-- The call that awaits the removal learns of the failure. -/
def failRemoving : Option ℕ → World
  | none => w.ended
  | some i =>
    match w.tasks[i]? with
    | some (.removing o) => (w.setTask i (.removeFailed o)).ended
    | _ => w.ended

/-- The cache statement has failed. -/
def cacheFailed : Running → World
  | .applying i p _ refreshed _ request => w.returns i p none refreshed request
  | .upserting _ _ _ => w.ended
  | .removing _ task _ => w.failRemoving task
  | .purging _ task _ => w.failRemoving task

/-- The end of `_removeDevice` and of `_removeRoom`. -/
def removalDone (g : Aggregate) (task : Option ℕ) : World :=
  ((match task with
    | some i => w.setTask i .finished
    | none => w).remove g).ended

/-- The running mutation goes on after its cache statement. -/
def finish : Running → World
  | .applying i p revision refreshed next request =>
    if revision = w.revision then
      match p with
      | .load => w.returns i p (some true) refreshed request
      | .confirm o _ _ _ =>
        ({ w with data := some next }.remove o.aggregate).returns i p (some true) refreshed request
      | _ => { w with data := some next }.returns i p (some true) refreshed request
    else w.returns i p (some false) refreshed request
  | .upserting g next arrival =>
    { w with data := some next, added := (g, arrival.time) :: w.added }.ended
  | .removing (.device, id) task arrival =>
    match w.data with
    | none => w.removalDone (.device, id) task
    | some d =>
      if d.remainingDevices id = [] then w.await (.purging id task arrival)
      else (w.update (·.removeDevice id)).removalDone (.device, id) task
  | .removing (.room, id) task _ =>
    (w.update (·.removeRoom id)).removalDone (.room, id) task
  | .purging id task _ =>
    (w.update (·.removeDevice id)).removalDone (.device, id) task

/-! ### Steps -/

def answered (r : ℕ) (q : SummaryRequest) : World :=
  { w with
    requests := w.requests.set r q
    inFlight := if w.inFlight = some r then none else w.inFlight }

def act : Action → Option World
  | .server s =>
    if ∀ g ∈ (readAuthoritative s).aggregates, w.server.Shows g ∨ g ∉ w.named then
      some { w with server := s, named := (readAuthoritative s).aggregates ++ w.named }
    else none
  | .snapshot r =>
    match w.requests[r]? with
    | some ⟨t, v, none, none⟩ => some { w with requests := w.requests.set r ⟨t, v, some w.server, none⟩ }
    | _ => none
  | .answer r ok =>
    match w.requests[r]? with
    | some ⟨t, v, some s, none⟩ => some (w.answered r ⟨t, v, some s, some (if ok then some s else none)⟩)
    | some ⟨t, v, none, none⟩ => if ok then none else some (w.answered r ⟨t, v, none, some none⟩)
    | _ => none
  | .retryLoad => some w.retryLoad
  | .reconcile => some w.reconcile
  | .claimAndConfirm => some w.claimAndConfirm
  | .claimed i ok =>
    match w.tasks[i]? with
    | some .claiming => some (if ok then w.read i (.claim 0) else w.setTask i .finished)
    | _ => none
  | .disconnect g key retry => some (w.disconnect g key retry)
  | .disconnected i error =>
    match w.tasks[i]? with
    | some (.requesting o asked) =>
      -- the server has carried out what it answers
      if error = none ∧ w.server.Shows o.aggregate then none
      else some (w.disconnected i o asked error)
    | _ => none
  | .event e =>
    -- an event comes after what it tells of
    if ∃ g ∈ e.gone, w.server.Shows g then none
    else some ({ w with named := e.gone.toList ++ w.named }.reduceLifecycle e)
  | .resume i => (w.tasks[i]?).bind (w.resume i)
  | .timeout i =>
    match w.tasks[i]? with
    | some (.reading (.confirm o error attempt asked) _ _) =>
      some (w.pause i (.confirm o error attempt asked))
    | _ => none
  | .deadline i =>
    match w.tasks[i]? with
    | some (.pausing (.confirm o error _ _)) => some (w.recordFailure i o error)
    | _ => none
  | .mutate =>
    match w.running, w.queue with
    | none, m :: rest => some ({ w with queue := rest }.mutate m)
    | _, _ => none
  | .cached ok =>
    match w.running with
    | some (r, false) => if ok then w.cacheWritten r else some (w.cacheFailed r)
    | _ => none
  | .finish =>
    match w.running with
    | some (r, true) => some (w.finish r)
    | _ => none

def step (a : Action) : Option World := (w.act a).map fun w => { w with time := w.time + 1 }

end World

/-- The controller has been built, and its first load reads a summary. -/
def World.initial (server : Summary) (cache : DisplayCache) (named : List Aggregate) : World where
  revision := 0
  data := none
  tasks := [.reading .load 0 0]
  queue := []
  running := none
  cache := cache
  requests := [⟨0, 0, none, none⟩]
  inFlight := some 0
  server := server
  named := (readAuthoritative server).aggregates ++ named
  time := 1
  mutations := 0
  removed := []
  added := []

end MouseKeeper.Mobile.ConnectionGate
