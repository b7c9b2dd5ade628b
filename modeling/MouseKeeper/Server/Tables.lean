import MouseKeeper.ReadCommitted

/-!
The tables of the control plane that its transactions on commands, proposals, decisions and
executions read and write. Identifiers are numbers; timestamps are left out where nothing
compares them. A new row takes the identifier that its request has drawn.
-/

namespace MouseKeeper.Server

inductive CommandStatus where
  | queued | delivered | analyzing | proposalReady | waitingApproval | approved | rejected
  | expired | executing | succeeded | partiallySucceeded | failed | stale
  deriving DecidableEq, Repr

inductive ProposalStatus where
  | open | approved | rejected | expired
  deriving DecidableEq, Repr

inductive ExecutionStatus where
  | executing | succeeded | partiallySucceeded | failed | stale | rolledBack
  deriving DecidableEq, Repr

inductive DecisionType where
  | approve | reject
  deriving DecidableEq, Repr

/-- The code of a refused request. -/
inductive Code where
  | forbidden | notFound | conflict | idempotencyConflict | invalidStateTransition
  | validationFailed
  deriving DecidableEq, Repr

structure Device where
  id : ℕ
  userId : ℕ
  active : Bool
  deriving DecidableEq, Repr

structure Room where
  id : ℕ
  userId : ℕ
  desktopDeviceId : ℕ
  active : Bool
  deriving DecidableEq, Repr

structure Command where
  id : ℕ
  roomId : ℕ
  targetDeviceId : ℕ
  status : CommandStatus
  deriving DecidableEq, Repr

structure Proposal where
  id : ℕ
  commandId : ℕ
  roomId : ℕ
  status : ProposalStatus
  idempotencyKey : String
  expiresAt : Option ℕ
  deriving DecidableEq, Repr

structure ProposalItem where
  id : ℕ
  proposalId : ℕ
  deriving DecidableEq, Repr

structure Decision where
  id : ℕ
  proposalId : ℕ
  userId : ℕ
  decisionType : DecisionType
  approvedItemIds : List ℕ
  idempotencyKey : String
  deriving DecidableEq, Repr

structure Execution where
  id : ℕ
  proposalId : ℕ
  decisionId : ℕ
  desktopDeviceId : ℕ
  status : ExecutionStatus
  resultSummary : Option String
  idempotencyKey : String
  resultIdempotencyKey : Option String
  deriving DecidableEq, Repr

structure Db where
  devices : List Device
  rooms : List Room
  commands : List Command
  proposals : List Proposal
  proposalItems : List ProposalItem
  decisions : List Decision
  executions : List Execution
  deriving DecidableEq, Repr

/-- What a transaction can lock: a row, or the entry of a unique index that it inserts. -/
inductive Lock where
  | device (id : ℕ)
  | room (id : ℕ)
  | command (id : ℕ)
  | proposal (id : ℕ)
  | decision (id : ℕ)
  | execution (id : ℕ)
  | proposalKey (key : String)
  | proposalCommand (commandId : ℕ)
  | decisionKey (userId : ℕ) (key : String)
  | decisionProposal (proposalId : ℕ)
  | executionKey (key : String)
  | executionResultKey (key : String)
  deriving DecidableEq

namespace Db

/-- `update commands set status = … where id = …`. -/
def setCommandStatus (id : ℕ) (status : CommandStatus) (d : Db) : Db :=
  { d with commands := d.commands.map fun c => if c.id = id then { c with status } else c }

/-- `update proposals set status = … where id = …`. -/
def setProposalStatus (id : ℕ) (status : ProposalStatus) (d : Db) : Db :=
  { d with proposals := d.proposals.map fun p => if p.id = id then { p with status } else p }

/-- The items of a proposal. -/
def itemsOf (d : Db) (proposalId : ℕ) : List ℕ :=
  (d.proposalItems.filter (·.proposalId = proposalId)).map (·.id)

end Db

end MouseKeeper.Server
