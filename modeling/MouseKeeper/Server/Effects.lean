import MouseKeeper.Server.Commands
import MouseKeeper.Server.Proposals
import MouseKeeper.Server.DecidedOnce
import MouseKeeper.Server.Executions

/-!
What the requests on commands, proposals, decisions and executions leave in the tables.

Each committed request is one effect. A call that is about to commit knows what makes its
effect possible, and its locks keep that true while others commit. Two of the facts are
about the status of a command that the code reads without a lock or does not ask about; they
are claimed only of runs that are `calm`.
-/

namespace MouseKeeper.Server

open MouseKeeper.ReadCommitted

inductive Request where
  | updateCommand (q : Commands.Update)
  | createProposal (q : Proposals.Create)
  | createDecision (q : Decisions.Create)
  | createExecution (q : Executions.Create)
  | updateExecution (q : Executions.Update)

inductive Response where
  | command (c : Command)
  | proposal (p : Proposal)
  | decision (r : Decisions.PublicDecision)
  | execution (e : Execution)
  deriving DecidableEq, Repr

abbrev Program := Txn Db Lock Code Response

def body : Request → Program
  | .updateCommand q => (Commands.update q).map .command
  | .createProposal q => (Proposals.create q).map .proposal
  | .createDecision q => (Decisions.create q).map .decision
  | .createExecution q => (Executions.create q).map .execution
  | .updateExecution q => (Executions.update q).map .execution

/-! ### Effects -/

/-- What a committed request has changed. -/
inductive Effect where
  | none
  | report (q : Commands.Update) (c : Command)
  | propose (q : Proposals.Create)
  | settle (q : Decisions.Create) (p : Proposal)
  | claim (q : Executions.Create) (p : Proposal)
  | finish (q : Executions.Update) (e : Execution) (p : Proposal)

def Effect.apply : Effect → Db → Db
  | .none => id
  | .report q c => Db.setCommandStatus c.id q.status.toStatus
  | .propose q => fun d => Db.setCommandStatus q.commandId .waitingApproval
      (Proposals.insertItems q (Proposals.insertProposal q d))
  | .settle q p => Decisions.settle q p
  | .claim q p => fun d => Db.setCommandStatus p.commandId .executing
      (Executions.insertExecution q d)
  | .finish q _ p => fun d => Db.setCommandStatus p.commandId q.status.toCommandStatus
      (Executions.storeResult q d)

/-- The command has the status. -/
def StatusIs (d : Db) (commandId : ℕ) (st : CommandStatus) : Prop :=
  ∀ c ∈ d.commands, c.id = commandId → c.status = st

section Enabled

variable (calm : Prop)

/-- A report that `canTransition` lets through; in a calm run it does not fail a running
command. -/
structure Reporting (d : Db) (held : List Lock) (q : Commands.Update) (c : Command) :
    Prop where
  lock : Lock.command c.id ∈ held
  status : StatusIs d c.id c.status
  allowed : canTransition c.status q.status.toStatus
  running : calm → q.status = .failed → c.status ≠ .executing

/-- A proposal whose row has been inserted. -/
structure Proposing (d : Db) (held : List Lock) (q : Proposals.Create) : Prop where
  lock : Lock.proposal q.newId ∈ held
  commandLock : Lock.proposalCommand q.commandId ∈ held
  fresh : ∀ p ∈ d.proposals, p.id ≠ q.newId ∧ p.commandId ≠ q.commandId

/-- A proposal that is locked and open. -/
structure Settling (d : Db) (held : List Lock) (q : Decisions.Create) (p : Proposal) :
    Prop where
  lock : Lock.proposal p.id ∈ held
  mem : p ∈ d.proposals
  id : p.id = q.proposalId
  isOpen : p.status = .open

/-- A decision whose row has been inserted. -/
structure Deciding (d : Db) (held : List Lock) (q : Decisions.Create) (p : Proposal) :
    Prop extends Settling d held q p where
  rowLock : Lock.decision q.newId ∈ held
  fresh : ∀ r ∈ d.decisions, r.id ≠ q.newId

/-- An approved proposal that is locked together with its decision. -/
structure Claimable (d : Db) (held : List Lock) (q : Executions.Create) (p : Proposal) :
    Prop where
  lock : Lock.proposal p.id ∈ held
  decisionLock : Lock.decision q.decisionId ∈ held
  mem : p ∈ d.proposals
  id : p.id = q.proposalId
  approved : p.status = .approved
  decision : ∃ r ∈ d.decisions, r.id = q.decisionId ∧ r.proposalId = p.id

/-- An execution whose row has been inserted, the first of its decision. -/
structure Claiming (d : Db) (held : List Lock) (q : Executions.Create) (p : Proposal) :
    Prop extends Claimable d held q p where
  rowLock : Lock.execution q.newId ∈ held
  keyLock : Lock.executionKey q.key ∈ held
  fresh : ∀ e ∈ d.executions, e.id ≠ q.newId ∧ e.decisionId ≠ q.decisionId ∧
    e.idempotencyKey ≠ q.key

/-- A running execution that is locked with its proposal. -/
structure Finishing (d : Db) (held : List Lock) (q : Executions.Update) (e : Execution)
    (p : Proposal) : Prop where
  lock : Lock.execution e.id ∈ held
  proposalLock : Lock.proposal p.id ∈ held
  mem : e ∈ d.executions
  id : e.id = q.executionId
  status : e.status = .executing
  proposal : p ∈ d.proposals
  proposalId : p.id = e.proposalId

/-- What a call knows when it is about to commit. -/
def Effect.Enabled (d : Db) (held : List Lock) : Effect → Prop
  | .none => True
  | .report q c => Reporting calm d held q c
  | .propose q => Proposing d held q ∧ Lock.command q.commandId ∈ held ∧
      (calm → StatusIs d q.commandId .analyzing)
  | .settle q p => Deciding d held q p ∧ Lock.command p.commandId ∈ held
  | .claim q p => Claiming d held q p ∧ Lock.command p.commandId ∈ held
  | .finish q e p => Finishing d held q e p ∧ Lock.command p.commandId ∈ held

end Enabled

/-! ### Facts that the effects of others keep -/

section Stable

variable {calm : Prop} {d : Db} {held held' : List Lock} {f : Effect}

lemma statusIs_set {d : Db} {i j : ℕ} {st st' : CommandStatus} (h : StatusIs d i st)
    (hij : j ≠ i) : StatusIs (Db.setCommandStatus j st' d) i st := by
  intro c hc hid
  obtain ⟨x, hx, rfl⟩ := List.mem_map.mp hc
  by_cases hx' : x.id = j
  · rw [if_pos hx'] at hid
    exact absurd (hx'.symm.trans hid) hij
  · rw [if_neg hx'] at hid ⊢
    exact h x hx hid

lemma StatusIs.stable {i : ℕ} {st : CommandStatus} (he : f.Enabled calm d held)
    (hd : List.Disjoint held held') (hl : Lock.command i ∈ held') (h : StatusIs d i st) :
    StatusIs (f.apply d) i st := by
  have hne : ∀ {j}, Lock.command j ∈ held → j ≠ i := fun hj hji => hd hj (hji ▸ hl)
  cases f with
  | none => exact h
  | report q c => exact statusIs_set h (hne he.lock)
  | propose q =>
    exact statusIs_set (d := Proposals.insertItems q (Proposals.insertProposal q d)) h
      (hne he.2.1)
  | settle q p =>
    exact statusIs_set (d := Db.setProposalStatus _ _ (Decisions.insertDecision q d)) h
      (hne he.2)
  | claim q p => exact statusIs_set (d := Executions.insertExecution q d) h (hne he.2)
  | finish q e p => exact statusIs_set (d := Executions.storeResult q d) h (hne he.2)

/-- A locked proposal stays as it is. -/
lemma proposal_stable {p : Proposal} (he : f.Enabled calm d held) (hd : List.Disjoint held held')
    (hl : Lock.proposal p.id ∈ held') (h : p ∈ d.proposals) : p ∈ (f.apply d).proposals := by
  cases f with
  | none | report | claim | finish => exact h
  | propose q => exact List.mem_append_left _ h
  | settle q p' =>
    refine Decisions.mem_settle_proposals.mpr (.inl ⟨h, fun hp => hd he.1.lock ?_⟩)
    rw [he.1.id, ← hp]
    exact hl

/-- Proposals come and change their status, but keep their keys. -/
lemma proposal_origin {p : Proposal} (h : p ∈ (f.apply d).proposals) :
    (∃ q, f = .propose q ∧ p = Proposals.newProposal q) ∨
      ∃ p' ∈ d.proposals, p'.id = p.id ∧ p'.commandId = p.commandId := by
  cases f with
  | none | report | claim | finish => exact .inr ⟨p, h, rfl, rfl⟩
  | propose q =>
    rcases List.mem_append.mp h with h | h
    · exact .inr ⟨p, h, rfl, rfl⟩
    · exact .inl ⟨q, rfl, List.mem_singleton.mp h⟩
  | settle q p' =>
    rcases Decisions.mem_settle_proposals.mp h with ⟨h, -⟩ | ⟨y, hy, -, rfl⟩
    · exact .inr ⟨p, h, rfl, rfl⟩
    · exact .inr ⟨y, hy, rfl, rfl⟩

lemma Proposing.stable {q : Proposals.Create} (he : f.Enabled calm d held)
    (hd : List.Disjoint held held') (h : Proposing d held' q) :
    Proposing (f.apply d) held' q where
  lock := h.lock
  commandLock := h.commandLock
  fresh p hp := by
    rcases proposal_origin hp with ⟨q', rfl, rfl⟩ | ⟨p', hp', hid, hc⟩
    · constructor
      · exact fun hid => hd he.1.lock (show Lock.proposal q'.newId ∈ held' by
          rw [show q'.newId = q.newId from hid]; exact h.lock)
      · exact fun hid => hd he.1.commandLock (show Lock.proposalCommand q'.commandId ∈ held' by
          rw [show q'.commandId = q.commandId from hid]; exact h.commandLock)
    · rw [← hid, ← hc]
      exact h.fresh p' hp'

/-- Decisions are never changed. -/
lemma decision_stable {r : Decision} (h : r ∈ d.decisions) : r ∈ (f.apply d).decisions := by
  cases f with
  | none | report | propose | claim | finish => exact h
  | settle => exact List.mem_append_left _ h

lemma decision_origin {r : Decision} (h : r ∈ (f.apply d).decisions) :
    (∃ q p, f = .settle q p ∧ r = Decisions.newDecision q) ∨ r ∈ d.decisions := by
  cases f with
  | none | report | propose | claim | finish => exact .inr h
  | settle q p =>
    rcases List.mem_append.mp h with h | h
    · exact .inr h
    · exact .inl ⟨q, p, rfl, List.mem_singleton.mp h⟩

lemma Settling.stable {q : Decisions.Create} {p : Proposal} (he : f.Enabled calm d held)
    (hd : List.Disjoint held held') (h : Settling d held' q p) :
    Settling (f.apply d) held' q p :=
  ⟨h.lock, proposal_stable he hd h.lock h.mem, h.id, h.isOpen⟩

lemma Deciding.stable {q : Decisions.Create} {p : Proposal} (he : f.Enabled calm d held)
    (hd : List.Disjoint held held') (h : Deciding d held' q p) :
    Deciding (f.apply d) held' q p where
  toSettling := h.toSettling.stable he hd
  rowLock := h.rowLock
  fresh r hr hid := by
    rcases decision_origin hr with ⟨q', p', rfl, rfl⟩ | hr
    · exact hd he.1.rowLock (show Lock.decision q'.newId ∈ held' by
        rw [show q'.newId = q.newId from hid]; exact h.rowLock)
    · exact h.fresh r hr hid

lemma Claimable.stable {q : Executions.Create} {p : Proposal} (he : f.Enabled calm d held)
    (hd : List.Disjoint held held') (h : Claimable d held' q p) :
    Claimable (f.apply d) held' q p where
  lock := h.lock
  decisionLock := h.decisionLock
  mem := proposal_stable he hd h.lock h.mem
  id := h.id
  approved := h.approved
  decision := by
    obtain ⟨r, hr, hid, hp⟩ := h.decision
    exact ⟨r, decision_stable hr, hid, hp⟩

lemma execution_origin {e : Execution} (h : e ∈ (f.apply d).executions) :
    (∃ q p, f = .claim q p ∧ e = Executions.newExecution q) ∨
      ∃ e' ∈ d.executions, e'.id = e.id ∧ e'.decisionId = e.decisionId ∧
        e'.proposalId = e.proposalId ∧ e'.idempotencyKey = e.idempotencyKey := by
  cases f with
  | none | report | propose | settle => exact .inr ⟨e, h, rfl, rfl, rfl, rfl⟩
  | claim q p =>
    rcases List.mem_append.mp h with h | h
    · exact .inr ⟨e, h, rfl, rfl, rfl, rfl⟩
    · exact .inl ⟨q, p, rfl, List.mem_singleton.mp h⟩
  | finish q e' p =>
    obtain ⟨x, hx, rfl⟩ := List.mem_map.mp h
    refine .inr ⟨x, hx, ?_⟩
    split <;> exact ⟨rfl, rfl, rfl, rfl⟩

lemma Claiming.stable {q : Executions.Create} {p : Proposal} (he : f.Enabled calm d held)
    (hd : List.Disjoint held held') (h : Claiming d held' q p) :
    Claiming (f.apply d) held' q p where
  toClaimable := h.toClaimable.stable he hd
  rowLock := h.rowLock
  keyLock := h.keyLock
  fresh e hm := by
    rcases execution_origin hm with ⟨q', p', rfl, rfl⟩ | ⟨e', he', hid, hdec, -, hkey⟩
    · refine ⟨fun hid => hd he.1.rowLock ?_, fun hid => hd he.1.decisionLock ?_,
        fun hid => hd he.1.keyLock ?_⟩
      · rw [show q'.newId = q.newId from hid]
        exact h.rowLock
      · rw [show q'.decisionId = q.decisionId from hid]
        exact h.decisionLock
      · rw [show q'.key = q.key from hid]
        exact h.keyLock
    · rw [← hid, ← hdec, ← hkey]
      exact h.fresh e' he'

/-- A locked execution stays as it is. -/
lemma execution_stable {e : Execution} (he : f.Enabled calm d held) (hd : List.Disjoint held held')
    (hl : Lock.execution e.id ∈ held') (h : e ∈ d.executions) :
    e ∈ (f.apply d).executions := by
  cases f with
  | none | report | propose | settle => exact h
  | claim => exact List.mem_append_left _ h
  | finish q e' p =>
    refine List.mem_map.mpr ⟨e, h, if_neg fun hid => hd he.1.lock ?_⟩
    rw [he.1.id, ← hid]
    exact hl

lemma Finishing.stable {q : Executions.Update} {e : Execution} {p : Proposal}
    (he : f.Enabled calm d held) (hd : List.Disjoint held held') (h : Finishing d held' q e p) :
    Finishing (f.apply d) held' q e p where
  lock := h.lock
  proposalLock := h.proposalLock
  mem := execution_stable he hd h.lock h.mem
  id := h.id
  status := h.status
  proposal := proposal_stable he hd h.proposalLock h.proposal
  proposalId := h.proposalId

/-- **What a call knows survives the commits of the others.** -/
lemma Effect.Enabled.stable {g : Effect} (he : f.Enabled calm d held)
    (hd : List.Disjoint held held') (h : g.Enabled calm d held') : g.Enabled calm (f.apply d) held' := by
  cases g with
  | none => trivial
  | report q c => exact ⟨h.lock, h.status.stable he hd h.lock, h.allowed, h.running⟩
  | propose q => exact ⟨h.1.stable he hd, h.2.1, fun hc => (h.2.2 hc).stable he hd h.2.1⟩
  | settle q p => exact ⟨h.1.stable he hd, h.2⟩
  | claim q p => exact ⟨h.1.stable he hd, h.2⟩
  | finish q e p => exact ⟨h.1.stable he hd, h.2⟩

end Stable

end MouseKeeper.Server
