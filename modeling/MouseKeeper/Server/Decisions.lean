import Mathlib.Data.List.Perm.Subperm
import MouseKeeper.Server.Tables

/-!
Deciding proposals.

`create` looks up its idempotency key, locks the proposal with its room, looks the key up
again if the proposal can no longer be decided, compares the approved items with the items
of the proposal, inserts the decision unless a unique index already has it, looks the key up
a third time in that case, and otherwise moves the proposal and its command on.
-/

namespace MouseKeeper.Server.Decisions

open MouseKeeper.ReadCommitted

/-- A request: the caller, its key, the body, the time at which it compares the expiry, and
the identifier that a new row will get. -/
structure Create where
  userId : ℕ
  proposalId : ℕ
  key : String
  decisionType : DecisionType
  approvedItemIds : List ℕ
  now : ℕ
  newId : ℕ
  deriving DecidableEq, Repr

/-- A decision without its user and key. -/
structure PublicDecision where
  id : ℕ
  proposalId : ℕ
  decisionType : DecisionType
  approvedItemIds : List ℕ
  deriving DecidableEq, Repr

def publicDecision (r : Decision) : PublicDecision :=
  ⟨r.id, r.proposalId, r.decisionType, r.approvedItemIds⟩

/-- The bodies agree. `canonicalJson` of two lists of identifiers is equal exactly if the
lists are. -/
def SameBody (r : Decision) (q : Create) : Prop :=
  r.proposalId = q.proposalId ∧ r.decisionType = q.decisionType ∧
    r.approvedItemIds = q.approvedItemIds

instance (r : Decision) (q : Create) : Decidable (SameBody r q) :=
  inferInstanceAs (Decidable (_ ∧ _ ∧ _))

def validateReplay (r : Decision) (q : Create) : Except Code PublicDecision :=
  if SameBody r q then .ok (publicDecision r) else .error .idempotencyConflict

/-- The stored decision is the one of this user under this key. -/
def SameKey (r : Decision) (q : Create) : Prop :=
  r.userId = q.userId ∧ r.idempotencyKey = q.key

instance (r : Decision) (q : Create) : Decidable (SameKey r q) :=
  inferInstanceAs (Decidable (_ ∧ _))

def findReplay (d : Db) (q : Create) : Option Decision :=
  d.decisions.find? fun r => decide (SameKey r q)

/-- The proposal of the request, if it is in a room of the caller. -/
def owned (d : Db) (q : Create) : Option Proposal :=
  d.proposals.find? fun p => decide (p.id = q.proposalId) &&
    d.rooms.any fun r => decide (r.id = p.roomId) && decide (r.userId = q.userId)

/-- The proposal has been decided, or its time is over. -/
def Closed (p : Proposal) (now : ℕ) : Prop :=
  p.status ≠ .open ∨ ∃ t ∈ p.expiresAt, t ≤ now

instance (p : Proposal) (now : ℕ) : Decidable (Closed p now) :=
  inferInstanceAs (Decidable (_ ∨ ∃ t ∈ p.expiresAt, t ≤ now))

/-- An approval that does not name every item, and as many as there are. -/
def PartialApproval (items : List ℕ) (q : Create) : Prop :=
  q.decisionType = .approve ∧
    (q.approvedItemIds.length ≠ items.length ∨ ∃ i ∈ items, i ∉ q.approvedItemIds)

instance (items : List ℕ) (q : Create) : Decidable (PartialApproval items q) :=
  inferInstanceAs (Decidable (_ ∧ (_ ∨ ∃ i ∈ items, i ∉ q.approvedItemIds)))

def newDecision (q : Create) : Decision :=
  ⟨q.newId, q.proposalId, q.userId, q.decisionType, q.approvedItemIds, q.key⟩

/-- Some unique index already has an entry of the new row. -/
def Conflicts (d : Db) (q : Create) : Prop :=
  ∃ r ∈ d.decisions, r.id = q.newId ∨ SameKey r q ∨ r.proposalId = q.proposalId

instance (d : Db) (q : Create) : Decidable (Conflicts d q) :=
  inferInstanceAs (Decidable (∃ r ∈ d.decisions, _))

def insertLocks (q : Create) (d : Db) : List Lock :=
  if Conflicts d q then []
  else [.decision q.newId, .decisionKey q.userId q.key, .decisionProposal q.proposalId]

def insertDecision (q : Create) (d : Db) : Db :=
  { d with decisions := d.decisions ++ [newDecision q] }

def finalProposalStatus : DecisionType → ProposalStatus
  | .approve => .approved
  | .reject => .rejected

def finalCommandStatus : DecisionType → CommandStatus
  | .approve => .approved
  | .reject => .rejected

abbrev Program := Txn Db Lock Code PublicDecision

def setCommand (q : Create) (p : Proposal) : Program :=
  .write (fun _ => [.command p.commandId])
    (fun _ => Db.setCommandStatus p.commandId (finalCommandStatus q.decisionType))
    (.answer (.ok (publicDecision (newDecision q))))

def setProposal (q : Create) (p : Proposal) : Program :=
  .write (fun _ => [.proposal q.proposalId])
    (fun _ => Db.setProposalStatus q.proposalId (finalProposalStatus q.decisionType))
    (setCommand q p)

/-- The key again, after the insert has lost. -/
def afterConflict (q : Create) : Program :=
  .read fun d =>
    match findReplay d q with
    | none => .answer (.error .conflict)
    | some r => .answer (validateReplay r q)

def tryInsert (q : Create) (p : Proposal) : Program :=
  .stmt (insertLocks q) (fun v d => if Conflicts v q then d else insertDecision q d)
    fun v => if Conflicts v q then afterConflict q else setProposal q p

def checkItems (q : Create) (p : Proposal) : Program :=
  .read fun d =>
    if PartialApproval (d.itemsOf q.proposalId) q then .answer (.error .validationFailed)
    else tryInsert q p

/-- The key again, once the proposal is locked and found closed. -/
def concurrentReplay (q : Create) : Program :=
  .read fun d =>
    match findReplay d q with
    | some r => .answer (validateReplay r q)
    | none => .answer (.error .invalidStateTransition)

def ownedLocks (q : Create) (d : Db) : List Lock :=
  match owned d q with
  | none => []
  | some p => [.proposal p.id, .room p.roomId]

def lockProposal (q : Create) : Program :=
  .lock (ownedLocks q) fun d =>
    match owned d q with
    | none => .answer (.error .notFound)
    | some p => if Closed p q.now then concurrentReplay q else checkItems q p

def create (q : Create) : Program :=
  .read fun d =>
    match findReplay d q with
    | some r => .answer (validateReplay r q)
    | none => lockProposal q

/-! ### Pending decisions -/

/-- The command of the decision's proposal is for the device. -/
def ForDevice (d : Db) (deviceId : ℕ) (r : Decision) : Bool :=
  d.proposals.any fun p => decide (p.id = r.proposalId) &&
    d.commands.any fun c => decide (c.id = p.commandId) &&
      decide (c.targetDeviceId = deviceId)

/-- The approvals that the device still has to execute: those without an execution. -/
def pending (d : Db) (userId deviceId : ℕ) : Except Code (List PublicDecision) :=
  if d.devices.any fun v => decide (v.id = deviceId) && decide (v.userId = userId) && v.active
  then
    .ok ((d.decisions.filter fun r => decide (r.userId = userId) &&
      decide (r.decisionType = .approve) && ForDevice d deviceId r &&
      d.executions.all fun e => decide (e.decisionId ≠ r.id)).map publicDecision)
  else .error .notFound

end MouseKeeper.Server.Decisions
