import MouseKeeper.Server.Tables

/-!
Status reports on commands.

`update` locks the command with its room and lets `canTransition` decide. The shared lock it
takes on the device row is left out, as it only makes others wait.
-/

namespace MouseKeeper.Server

open MouseKeeper.ReadCommitted

/-- The table of `command-state.ts`. -/
def transitions : CommandStatus → List CommandStatus
  | .queued => [.delivered]
  | .delivered => [.analyzing]
  | .analyzing => [.proposalReady, .failed]
  | .proposalReady => [.waitingApproval]
  | .waitingApproval => [.approved, .rejected, .expired]
  | .approved => [.executing]
  | .rejected => []
  | .expired => []
  | .executing => [.succeeded, .partiallySucceeded, .failed, .stale]
  | .succeeded => []
  | .partiallySucceeded => []
  | .failed => []
  | .stale => []

def canTransition (a b : CommandStatus) : Bool := (transitions a).contains b

namespace Commands

/-- The statuses that `updateCommandStatusSchema` lets through. -/
inductive Reported where
  | delivered | analyzing | failed
  deriving DecidableEq, Repr

def Reported.toStatus : Reported → CommandStatus
  | .delivered => .delivered
  | .analyzing => .analyzing
  | .failed => .failed

structure Update where
  userId : ℕ
  deviceId : ℕ
  commandId : ℕ
  status : Reported
  deriving DecidableEq, Repr

abbrev Program := Txn Db Lock Code Command

/-- The active device of the caller. -/
def activeDevice (d : Db) (userId deviceId : ℕ) : Bool :=
  d.devices.any fun v => decide (v.id = deviceId) && decide (v.userId = userId) && v.active

/-- The command, if it is for the device and its room is active. -/
def current (d : Db) (q : Update) : Option Command :=
  d.commands.find? fun c => decide (c.id = q.commandId) &&
    decide (c.targetDeviceId = q.deviceId) &&
    d.rooms.any fun r => decide (r.id = c.roomId) && r.active

def setStatus (q : Update) (c : Command) : Program :=
  .write (fun _ => [.command c.id]) (fun _ => Db.setCommandStatus c.id q.status.toStatus)
    (.answer (.ok { c with status := q.status.toStatus }))

def currentLocks (q : Update) (d : Db) : List Lock :=
  match current d q with
  | none => []
  | some c => [.command c.id, .room c.roomId]

def lockCommand (q : Update) : Program :=
  .lock (currentLocks q) fun d =>
    match current d q with
    | none => .answer (.error .notFound)
    | some c =>
      if canTransition c.status q.status.toStatus then setStatus q c
      else .answer (.error .invalidStateTransition)

def update (q : Update) : Program :=
  .read fun d =>
    if activeDevice d q.userId q.deviceId then lockCommand q else .answer (.error .notFound)

/-- The commands that `pending` hands to a device. -/
def pending (d : Db) (deviceId : ℕ) : List Command :=
  d.commands.filter fun c => decide (c.targetDeviceId = deviceId) &&
    [.queued, .delivered, .analyzing].contains c.status &&
    d.rooms.any fun r => decide (r.id = c.roomId) && r.active

end Commands

end MouseKeeper.Server
