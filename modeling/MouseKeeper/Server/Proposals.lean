import MouseKeeper.Server.Tables

/-!
Submitting a proposal for a command.

`create` reads the command without locking it, looks up its idempotency key, and goes on
only if the status it read was `ANALYZING`; it inserts the proposal unless a unique index
already has it, then the items, and sets the status of the command.
-/

namespace MouseKeeper.Server.Proposals

open MouseKeeper.ReadCommitted

/-- A request; the new proposal and its items get the identifiers drawn here. -/
structure Create where
  userId : ℕ
  deviceId : ℕ
  idempotencyKey : String
  commandId : ℕ
  roomId : ℕ
  expiresAt : Option ℕ
  newId : ℕ
  newItemIds : List ℕ
  deriving DecidableEq, Repr

abbrev Program := Txn Db Lock Code Proposal

/-- The command of the request, if it is for this device of the caller. -/
def source (d : Db) (q : Create) : Option Command :=
  d.commands.find? fun c => decide (c.id = q.commandId) && decide (c.roomId = q.roomId) &&
    decide (c.targetDeviceId = q.deviceId) &&
    d.devices.any fun v => decide (v.id = c.targetDeviceId) && decide (v.userId = q.userId)

def findByKey (d : Db) (key : String) : Option Proposal :=
  d.proposals.find? fun p => decide (p.idempotencyKey = key)

def SameTarget (p : Proposal) (q : Create) : Prop :=
  p.commandId = q.commandId ∧ p.roomId = q.roomId

instance (p : Proposal) (q : Create) : Decidable (SameTarget p q) :=
  inferInstanceAs (Decidable (_ ∧ _))

/-- What a stored proposal under the key answers. -/
def replay (p : Proposal) (q : Create) : Program :=
  if SameTarget p q then .answer (.ok p) else .answer (.error .idempotencyConflict)

def newProposal (q : Create) : Proposal :=
  ⟨q.newId, q.commandId, q.roomId, .open, q.idempotencyKey, q.expiresAt⟩

/-- Some unique index already has an entry of the new row. -/
def Conflicts (d : Db) (q : Create) : Prop :=
  ∃ p ∈ d.proposals, p.id = q.newId ∨ p.commandId = q.commandId ∨
    p.idempotencyKey = q.idempotencyKey

instance (d : Db) (q : Create) : Decidable (Conflicts d q) :=
  inferInstanceAs (Decidable (∃ p ∈ d.proposals, _))

def insertLocks (q : Create) (d : Db) : List Lock :=
  if Conflicts d q then []
  else [.proposal q.newId, .proposalCommand q.commandId, .proposalKey q.idempotencyKey]

def insertProposal (q : Create) (d : Db) : Db :=
  { d with proposals := d.proposals ++ [newProposal q] }

def insertItems (q : Create) (d : Db) : Db :=
  { d with proposalItems := d.proposalItems ++ q.newItemIds.map (⟨·, q.newId⟩) }

/-- The last write, whatever the status of the command is by now. -/
def setCommand (q : Create) : Program :=
  .write (fun _ => [.command q.commandId])
    (fun _ => Db.setCommandStatus q.commandId .waitingApproval)
    (.answer (.ok (newProposal q)))

def writeItems (q : Create) : Program :=
  .write (fun _ => []) (fun _ => insertItems q) (setCommand q)

def afterConflict (q : Create) : Program :=
  .read fun d =>
    match findByKey d q.idempotencyKey with
    | none => .answer (.error .idempotencyConflict)
    | some p => replay p q

def tryInsert (q : Create) : Program :=
  .stmt (insertLocks q) (fun v d => if Conflicts v q then d else insertProposal q d)
    fun v => if Conflicts v q then afterConflict q else writeItems q

/-- The replay check, with the command as it was read before. -/
def checkReplay (q : Create) (c : Command) : Program :=
  .read fun d =>
    match findByKey d q.idempotencyKey with
    | some p => replay p q
    | none =>
      if c.status = .analyzing then tryInsert q else .answer (.error .invalidStateTransition)

def create (q : Create) : Program :=
  .read fun d =>
    match source d q with
    | none => .answer (.error .forbidden)
    | some c => checkReplay q c

end MouseKeeper.Server.Proposals
