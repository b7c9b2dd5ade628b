import MouseKeeper.Server.Tables

/-!
Claiming an approved decision for execution, and storing the result.

`create` locks the proposal, the decision, the command and the device, inserts an execution
unless its key is taken, and moves the command to `EXECUTING`. `update` looks the result key
up, locks the execution with its proposal and device, and stores the first result.
-/

namespace MouseKeeper.Server.Executions

open MouseKeeper.ReadCommitted

structure Create where
  userId : ℕ
  key : String
  proposalId : ℕ
  decisionId : ℕ
  desktopDeviceId : ℕ
  newId : ℕ
  deriving DecidableEq, Repr

abbrev Program := Txn Db Lock Code Execution

/-- The joined rows that `create` locks. -/
structure Source where
  proposal : Proposal
  decision : Decision
  command : Command
  device : Device

def activeDevice (d : Db) (userId deviceId : ℕ) : Option Device :=
  d.devices.find? fun v => decide (v.id = deviceId) && decide (v.userId = userId) && v.active

def source (d : Db) (q : Create) : Option Source := do
  let p ← d.proposals.find? fun p => decide (p.id = q.proposalId)
  let r ← d.decisions.find? fun r => decide (r.id = q.decisionId) &&
    decide (r.proposalId = p.id) && decide (r.decisionType = .approve)
  let c ← d.commands.find? fun c => decide (c.id = p.commandId) &&
    decide (c.targetDeviceId = q.desktopDeviceId)
  let v ← activeDevice d q.userId q.desktopDeviceId
  return ⟨p, r, c, v⟩

def newExecution (q : Create) : Execution :=
  ⟨q.newId, q.proposalId, q.decisionId, q.desktopDeviceId, .executing, none, q.key, none⟩

/-- Some unique index already has an entry of the new row. -/
def Conflicts (d : Db) (q : Create) : Prop :=
  ∃ e ∈ d.executions, e.id = q.newId ∨ e.idempotencyKey = q.key

instance (d : Db) (q : Create) : Decidable (Conflicts d q) :=
  inferInstanceAs (Decidable (∃ e ∈ d.executions, _))

def insertLocks (q : Create) (d : Db) : List Lock :=
  if Conflicts d q then [] else [.execution q.newId, .executionKey q.key]

def insertExecution (q : Create) (d : Db) : Db :=
  { d with executions := d.executions ++ [newExecution q] }

def setCommand (q : Create) (s : Source) : Program :=
  .write (fun _ => [.command s.proposal.commandId])
    (fun _ => Db.setCommandStatus s.proposal.commandId .executing)
    (.answer (.ok (newExecution q)))

def afterConflict (q : Create) : Program :=
  .read fun d =>
    match d.executions.find? fun e => decide (e.idempotencyKey = q.key) with
    | none => .answer (.error .conflict)
    | some e => .answer (.ok e)

def tryInsert (q : Create) (s : Source) : Program :=
  .stmt (insertLocks q) (fun v d => if Conflicts v q then d else insertExecution q d)
    fun v => if Conflicts v q then afterConflict q else setCommand q s

def sourceLocks (q : Create) (d : Db) : List Lock :=
  match source d q with
  | none => []
  | some s => [.proposal s.proposal.id, .decision s.decision.id, .command s.command.id,
      .device s.device.id]

def create (q : Create) : Program :=
  .lock (sourceLocks q) fun d =>
    match source d q with
    | none => .answer (.error .forbidden)
    | some s =>
      if s.proposal.status = .approved then tryInsert q s
      else .answer (.error .invalidStateTransition)

/-! ### Results -/

/-- The statuses that `updateExecutionSchema` lets through. -/
inductive Outcome where
  | succeeded | partiallySucceeded | failed | stale | rolledBack
  deriving DecidableEq, Repr

def Outcome.toStatus : Outcome → ExecutionStatus
  | .succeeded => .succeeded
  | .partiallySucceeded => .partiallySucceeded
  | .failed => .failed
  | .stale => .stale
  | .rolledBack => .rolledBack

def Outcome.toCommandStatus : Outcome → CommandStatus
  | .succeeded => .succeeded
  | .partiallySucceeded => .partiallySucceeded
  | .failed => .failed
  | .stale => .stale
  | .rolledBack => .failed

structure Update where
  userId : ℕ
  deviceId : ℕ
  executionId : ℕ
  key : String
  status : Outcome
  resultSummary : String
  deriving DecidableEq, Repr

/-- The stored result is the one reported. -/
def SameResult (e : Execution) (q : Update) : Prop :=
  e.status = q.status.toStatus ∧ e.resultSummary = some q.resultSummary

instance (e : Execution) (q : Update) : Decidable (SameResult e q) :=
  inferInstanceAs (Decidable (_ ∧ _))

/-- The execution of this device that has stored a result under the key. -/
def replayed (d : Db) (q : Update) : Option Execution :=
  d.executions.find? fun e => decide (e.resultIdempotencyKey = some q.key) &&
    decide (e.desktopDeviceId = q.deviceId) &&
    d.devices.any fun v => decide (v.id = e.desktopDeviceId) && decide (v.userId = q.userId)

/-- The execution and its proposal, if the device is the caller's and active. -/
def target (d : Db) (q : Update) : Option (Execution × Proposal) := do
  let e ← d.executions.find? fun e => decide (e.id = q.executionId) &&
    decide (e.desktopDeviceId = q.deviceId)
  let p ← d.proposals.find? fun p => decide (p.id = e.proposalId)
  let _ ← activeDevice d q.userId q.deviceId
  return (e, p)

/-- Another execution has a result under the key, which the unique index refuses. -/
def KeyTaken (d : Db) (q : Update) : Prop :=
  ∃ e ∈ d.executions, e.id ≠ q.executionId ∧ e.resultIdempotencyKey = some q.key

instance (d : Db) (q : Update) : Decidable (KeyTaken d q) :=
  inferInstanceAs (Decidable (∃ e ∈ d.executions, _))

def withResult (q : Update) (e : Execution) : Execution :=
  { e with
    status := q.status.toStatus
    resultSummary := some q.resultSummary
    resultIdempotencyKey := some q.key }

def storeResult (q : Update) (d : Db) : Db :=
  { d with executions := d.executions.map fun e =>
      if e.id = q.executionId then withResult q e else e }

def finishCommand (q : Update) (e : Execution) (p : Proposal) : Program :=
  .write (fun _ => [.command p.commandId])
    (fun _ => Db.setCommandStatus p.commandId q.status.toCommandStatus)
    (.answer (.ok (withResult q e)))

def writeResult (q : Update) (e : Execution) (p : Proposal) : Program :=
  .stmt (fun v => if KeyTaken v q then [] else [.execution q.executionId,
      .executionResultKey q.key])
    (fun v d => if KeyTaken v q then d else storeResult q d)
    fun v => if KeyTaken v q then .answer (.error .conflict) else finishCommand q e p

def targetLocks (q : Update) (d : Db) : List Lock :=
  match target d q with
  | none => []
  | some (e, p) => [.execution e.id, .proposal p.id, .device q.deviceId]

def lockTarget (q : Update) : Program :=
  .lock (targetLocks q) fun d =>
    match target d q with
    | none => .answer (.error .notFound)
    | some (e, p) =>
      if e.resultIdempotencyKey = some q.key then
        if SameResult e q then .answer (.ok e) else .answer (.error .idempotencyConflict)
      else if e.status ≠ .executing then .answer (.error .invalidStateTransition)
      else writeResult q e p

def update (q : Update) : Program :=
  .read fun d =>
    match replayed d q with
    | some e =>
      if e.id = q.executionId ∧ SameResult e q then .answer (.ok e)
      else .answer (.error .idempotencyConflict)
    | none => lockTarget q

end MouseKeeper.Server.Executions
