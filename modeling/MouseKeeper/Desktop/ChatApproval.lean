import MouseKeeper.Desktop.Transport

/-!
The approval of a command draft in the desktop's chat, next to the background ticks.

A call of `approve_agent_command_draft_and_execute` confirms the draft, processes the command,
delivers its proposal, decides on it and executes the decision. Each tick processes the pending
commands and decisions too. Both ask for the permits to scan and to write and go on without waiting
where these are taken. Of the server's records and of the outbox, those of the one command count.
-/

namespace MouseKeeper.Desktop.ChatApproval

open MouseKeeper.Server
open Commands (AgentCommand AgentProposalItem ManagedRoot parsePayload buildAgentProposalSubmission)
open Transport (AgentError Fault httpError)

/-! ### The server -/

structure Proposal where
  idempotencyKey : String
  items : List AgentProposalItem
  status : ProposalStatus

/-- An approval of all items of a proposal. -/
structure Decision where
  proposal : ℕ
  approvedItems : List AgentProposalItem
  idempotencyKey : String
  deriving DecidableEq

structure Execution where
  decision : ℕ
  result : Option (Executions.Outcome × String)

/-- What the server has of the draft and its command, once a key has confirmed it. -/
structure Record where
  confirmKey : Option String
  status : CommandStatus
  proposals : List Proposal
  decisions : List Decision
  executions : List Execution

abbrev Answer (α : Type) := Except AgentError α × Record

namespace Record

variable (s : Record)

def init : Record := ⟨none, .queued, [], [], []⟩

/-- `confirmCommandDraft`: the command as it is now. -/
def confirmCommandDraft (key : String) : Answer CommandStatus :=
  match s.confirmKey with
  | none => (.ok s.status, { s with confirmKey := some key })
  | some confirmed => (if confirmed = key then .ok s.status else .error (httpError 409 none), s)

def pendingCommands : Option CommandStatus :=
  if s.confirmKey.isSome ∧ Commands.isProcessableCommandStatus s.status then some s.status
  else none

def updateCommandStatus (status : Server.Commands.Reported) : Answer Unit :=
  if s.confirmKey = none then (.error (httpError 404 none), s)
  else if canTransition s.status status.toStatus then
    (.ok (), { s with status := status.toStatus })
  else (.error (httpError 409 none), s)

def createProposal (idempotencyKey : String) (items : List AgentProposalItem) : Answer Unit :=
  if Commands.createProposalSchema items = false then (.error (httpError 400 none), s)
  else if s.proposals.any (·.idempotencyKey = idempotencyKey) then (.ok (), s)
  else if s.status = .analyzing then
    (.ok (), { s with
      status := .waitingApproval
      proposals := s.proposals ++ [⟨idempotencyKey, items, .open⟩] })
  else (.error (httpError 409 none), s)

/-- The first proposal of the command that is open. -/
def openProposal : Option ℕ :=
  let i := s.proposals.findIdx (·.status = .open)
  if i < s.proposals.length then some i else none

def createDecision (d : Decision) : Answer Unit :=
  match s.decisions.find? (·.idempotencyKey = d.idempotencyKey) with
  | some replay => (if replay = d then .ok () else .error (httpError 409 none), s)
  | none =>
    match s.proposals[d.proposal]? with
    | none => (.error (httpError 404 none), s)
    | some p =>
      if p.status ≠ .open then (.error (httpError 409 none), s)
      else if d.approvedItems ≠ p.items then (.error (httpError 400 none), s)
      else (.ok (), { s with
        status := .approved
        proposals := s.proposals.set d.proposal { p with status := .approved }
        decisions := s.decisions ++ [d] })

/-- The decisions without an execution. -/
def pendingDecisions : List ℕ :=
  (List.range s.decisions.length).filter fun d => s.executions.all (·.decision ≠ d)

/-- The execution of the decision, a new one or the one there is. -/
def createExecution (d : ℕ) : Answer ℕ :=
  match s.decisions[d]? with
  | none => (.error (httpError 403 none), s)
  | some decision =>
    match s.proposals[decision.proposal]? with
    | none => (.error (httpError 403 none), s)
    | some p =>
      if p.status ≠ .approved then (.error (httpError 409 none), s)
      else if s.executions.any (·.decision = d) then
        (.ok (s.executions.findIdx (·.decision = d)), s)
      else (.ok s.executions.length, { s with
        status := .executing
        executions := s.executions ++ [⟨d, none⟩] })

def updateExecution (e : ℕ) (outcome : Executions.Outcome) (summary : String) : Answer Unit :=
  match s.executions[e]? with
  | none => (.error (httpError 404 none), s)
  | some execution =>
    match execution.result with
    | some result =>
      (if result = (outcome, summary) then .ok () else .error (httpError 409 none), s)
    | none => (.ok (), { s with
        status := outcome.toCommandStatus
        executions := s.executions.set e { execution with result := some (outcome, summary) } })

end Record

/-! ### The desktop -/

inductive Report
  | command (r : Commands.Report)
  | execution (id : ℕ) (outcome : Executions.Outcome) (summary : String)

/-- The kinds and keys are the same. -/
def Report.same : Report → Report → Bool
  | .command r, .command r' => r.key 0 = r'.key 0
  | .execution e _ _, .execution e' _ _ => e = e'
  | _, _ => false

structure Row where
  report : Report
  state : Outbox.RowState

def enqueue (rows : List Row) (r : Report) : List Row :=
  if rows.any (·.report.same r) then rows else rows ++ [⟨r, .pending⟩]

def executionResult (e : ℕ) : Except String (Executions.Outcome × String) → Report
  | .ok (outcome, summary) => .execution e outcome summary
  | .error error => .execution e .failed error

/-- The rows of `pending_batch`. -/
def pendingBatch (rows : List Row) : List ℕ :=
  (List.range rows.length).filter fun i => (rows[i]?.map Row.state) = some .pending

def updateState (rows : List Row) (i : ℕ) (state : Outbox.RowState) : List Row :=
  rows.modify i fun row => if row.state = .pending then { row with state } else row

/-- The draft's command, the root of its room as the desktop has it, and the file engine. -/
structure Draft (Θ : Type) where
  command : AgentCommand
  binding : Except String ManagedRoot
  engine : Transport.FileEngine Θ

namespace Draft

variable {Θ : Type} (draft : Draft Θ)

def commandKey : String := toString draft.command.commandId

def hasHandler : Bool :=
  !Commands.isContractCommandWithoutDesktopHandler draft.command.commandType

/-- `ensure_active_room_binding`, the checks of the root, and the submission that is built. -/
def analyze (files : Θ) (requestedRootId : Option String) (maxProposals : ℕ) :
    Except String (List AgentProposalItem) := do
  let root ← draft.binding
  if ∃ rootId ∈ requestedRootId, rootId ≠ root.rootId then
    .error "command rootId does not match the room binding"
  else if ¬ root.enabled then .error ("managed root is disabled: " ++ root.rootId)
  else
    let report ← draft.engine.proposalReport files root draft.command
    buildAgentProposalSubmission report maxProposals

end Draft

/-- The arguments of a call other than the draft. -/
structure Args where
  roomId : ℕ
  idempotencyKey : String
  deriving DecidableEq

def Args.isValid (a : Args) : Bool :=
  a.idempotencyKey ≠ "" && a.idempotencyKey.utf8ByteSize ≤ 100 &&
    a.idempotencyKey.toList.all fun c => c.isAlphanum || c = '-' || c = '_'

def Args.confirmKey (a : Args) : String := "confirm-" ++ a.idempotencyKey

def Args.decisionKey (a : Args) : String := "decision-" ++ a.idempotencyKey

/-- The steps of `process_commands` with one command. -/
inductive Work
  | begin (copy : CommandStatus)
  | deliver
  | analyze
  | lookup
  | propose
  deriving DecidableEq

inductive CommandProcessingStatus
  | submittedProposal
  | noProposal
  | failed (message : String)
  | skipped

/-- The steps of `process_pending_decisions`, with the decisions that are still to be processed. -/
inductive Executing
  | pending
  | create (todo : List ℕ)
  | lookup (execution : ℕ) (decision : ℕ) (todo : List ℕ)
  | execute (root : ManagedRoot) (execution : ℕ) (decision : ℕ) (todo : List ℕ)

inductive Stage
  | ended (result : Except String Unit)
  | confirm
  /-- The permit to scan is asked for, in the chat with a copy of the command in hand. -/
  | tryScan (copy : Option CommandStatus)
  | poll
  | work (w : Work)
  /-- The outbox is flushed: before its rows are read, and with those still to be sent. The result
  of an execution may be among them. -/
  | flush (batch : Option (List ℕ)) (executed : Bool)
  | openProposals
  | getProposal (i : ℕ)
  | createDecision (i : ℕ) (items : List AgentProposalItem)
  | tryWrite
  | executing (e : Executing)

def Stage.scans : Stage → Bool
  | .poll | .work _ => true
  | _ => false

def Stage.writes : Stage → Bool
  | .executing _ => true
  | _ => false

inductive Caller
  | chat (a : Args)
  | tick

structure Call where
  caller : Caller
  stage : Stage

/-- What all calls share. For each `FAILED` that has been reported there is the status under which
the command was processed, and its status on the server at that moment; of the batches that have
been run there are the decisions and the outcomes. -/
structure Shared (Θ : Type) where
  server : Record
  rows : List Row
  files : Θ
  failures : List (CommandStatus × CommandStatus)
  executed : List (Decision × Option Executions.Outcome)

/-- With the calls, and those of them that hold the two permits. -/
structure State (Θ : Type) extends Shared Θ where
  scan : Option ℕ
  write : Option ℕ
  calls : List Call

inductive Event
  | approve (a : Args)
  | tick
  | go (i : ℕ)
  /-- The request is lost, perhaps after it has been served. -/
  | lose (i : ℕ) (f : Fault) (served : Bool)
  | crash

variable {Θ : Type}

namespace State

variable (draft : Draft Θ) (s : State Θ) (i : ℕ) (caller : Caller)

def init (files : Θ) : State Θ where
  server := .init
  rows := []
  files := files
  scan := none
  write := none
  calls := []
  failures := []
  executed := []

/-- The call goes to its next stage. A permit is given back when the stages that need it end. -/
def goTo (stage : Stage) : State Θ :=
  { s with
    scan := if s.scan = some i ∧ stage.scans = false then none else s.scan
    write := if s.write = some i ∧ stage.writes = false then none else s.write
    calls := s.calls.set i ⟨caller, stage⟩ }

/-- What the caller makes of an error of a step. A tick goes on with what comes next. -/
def fail (message : String) (next : Stage) : State Θ :=
  match caller with
  | .chat _ => s.goTo i caller (.ended (.error message))
  | .tick => s.goTo i caller next

/-! #### Commands -/

/-- `ensure_chat_command_submitted`. -/
def finishWork (status : CommandProcessingStatus) : State Θ :=
  match caller with
  | .tick => s.goTo i caller .tryWrite
  | .chat _ =>
    match status with
    | .submittedProposal => s.goTo i caller (.flush none false)
    | .noProposal =>
      s.goTo i caller (.ended (.error "NO_PROPOSAL_ITEMS: already clean; no proposal items were found"))
    | .failed message => s.goTo i caller (.ended (.error ("COMMAND_PROCESSING_FAILED: " ++ message)))
    | .skipped => s.goTo i caller (.ended (.error ("COMMAND_PROCESSING_FAILED: " ++
        "command type or status is not handled by the desktop proposal processor")))

/-- `FAILED` is put into the outbox. -/
def failWork (under : CommandStatus) (message : String) : State Θ :=
  { s with
    rows := enqueue s.rows (.command .failed)
    failures := s.failures ++ [(under, s.server.status)] }.finishWork i caller (.failed message)

def claimed : State Θ :=
  if draft.hasHandler then s.goTo i caller (.work .lookup)
  else s.failWork i caller .analyzing "command intent is not yet handled by the desktop processor"

/-- A command without a handler is not reported if it cannot be claimed. -/
def claimFailed (under : CommandStatus) (message : String) : State Θ :=
  if draft.hasHandler then s.failWork i caller under message
  else s.finishWork i caller (.failed
    ("command intent is not yet handled by the desktop processor; " ++
      "additionally failed to claim command for failure reporting: " ++ message))

def claimCommandForAnalysis (copy : CommandStatus) : State Θ :=
  match copy with
  | .queued => s.goTo i caller (.work .deliver)
  | .delivered => s.goTo i caller (.work .analyze)
  | .analyzing => s.claimed draft i caller
  | _ => s.claimFailed draft i caller copy "command status is not claimable for analysis"

def beginWork (copy : CommandStatus) : State Θ :=
  if Commands.isProcessableCommandStatus copy = false then s.finishWork i caller .skipped
  else if draft.hasHandler = false then s.claimCommandForAnalysis draft i caller copy
  else if Commands.isSupportedCommand draft.command.commandType = false then
    s.finishWork i caller .skipped
  else
    match parsePayload draft.command with
    | .error message => s.failWork i caller copy message
    | .ok _ => s.claimCommandForAnalysis draft i caller copy

/-- The local end of `process_…_command`. -/
def propose : State Θ :=
  match parsePayload draft.command >>= fun (rootId, maxProposals) =>
    draft.analyze s.files rootId maxProposals with
  | .error message => s.failWork i caller .analyzing message
  | .ok items =>
    let report :=
      if Commands.isDirect draft.command.commandType = false ∧ items = [] then
        Commands.Report.succeeded
      else .proposal items
    { s with rows := enqueue s.rows (.command report) }.finishWork i caller
      (if items = [] then .noProposal else .submittedProposal)

def goWork : Work → State Θ
  | .begin copy => s.beginWork draft i caller copy
  | .deliver =>
    match s.server.updateCommandStatus .delivered with
    | (.ok _, server) => { s with server }.goTo i caller (.work .analyze)
    | (.error error, _) => s.claimFailed draft i caller .queued error.toText
  | .analyze =>
    match s.server.updateCommandStatus .analyzing with
    | (.ok _, server) => { s with server }.claimed draft i caller
    | (.error error, _) => s.claimFailed draft i caller .delivered error.toText
  | .lookup => s.goTo i caller (.work .propose)
  | .propose => s.propose draft i caller

/-! #### The outbox -/

/-- `dispatch`. A status that the client does not know and a proposal of an invalid number of items
are not sent. -/
def dispatch (r : Report) : Answer Unit :=
  match r with
  | .command .failed => s.server.updateCommandStatus .failed
  | .command .succeeded => (.error ⟨.validationFailed, "command status is invalid"⟩, s.server)
  | .command (.proposal items) =>
    if 1 ≤ items.length ∧ items.length ≤ 200 then
      s.server.createProposal draft.commandKey items
    else (.error ⟨.validationFailed, "proposal submission must contain between 1 and 200 items"⟩,
      s.server)
  | .execution e outcome summary => s.server.updateExecution e outcome summary

def classify : Except AgentError Unit → Outbox.RowState
  | .ok _ => .sent
  | .error error => if error.code = .transportUnavailable then .pending else .failed

/-- What the call does once all rows have been sent. -/
def flushed (executed : Bool) : State Θ :=
  if executed then s.goTo i caller (.ended (.ok ())) else s.goTo i caller .openProposals

def goFlush (executed : Bool) : Option (List ℕ) → State Θ
  | none => s.goTo i caller (.flush (some (pendingBatch s.rows)) executed)
  | some [] => s.flushed i caller executed
  | some (row :: batch) =>
    match s.rows[row]? with
    | none => s.goTo i caller (.flush (some batch) executed)
    | some x =>
      { s with
        server := (s.dispatch draft x.report).2
        rows := updateState s.rows row (classify (s.dispatch draft x.report).1) }.goTo i caller
          (.flush (some batch) executed)

/-! #### Decisions -/

/-- The execution fails before its batch is run. -/
def executionFailed (e : ℕ) (message : String) (todo : List ℕ) : State Θ :=
  { s with rows := enqueue s.rows (.execution e .failed message) }.goTo i caller
    (.executing (.create todo))

def goExecuting : Executing → State Θ
  | .pending => s.goTo i caller (.executing (.create s.server.pendingDecisions))
  | .create [] => s.goTo i caller (.flush none true)
  | .create (d :: todo) =>
    match s.server.createExecution d with
    | (.error _, _) => s.goTo i caller (.executing (.create todo))
    | (.ok e, server) => { s with server }.goTo i caller (.executing (.lookup e d todo))
  | .lookup e d todo =>
    match draft.binding with
    | .error error => s.executionFailed i caller e error todo
    | .ok root =>
      if root.enabled then s.goTo i caller (.executing (.execute root e d todo))
      else s.executionFailed i caller e ("managed root is disabled: " ++ root.rootId) todo
  | .execute root e d todo =>
    match s.server.decisions[d]? with
    | none => s.goTo i caller (.executing (.create todo))
    | some decision =>
      let batch := draft.engine.execute s.files root decision.approvedItems
      { s with
        files := batch.2
        rows := enqueue s.rows (executionResult e batch.1)
        executed := s.executed ++ [(decision, batch.1.toOption.map Prod.fst)] }.goTo i caller
          (.executing (.create todo))

/-! ### Steps -/

/-- A step of the call without a fault. -/
def goCall : Stage → Option (State Θ)
  | .ended _ => none
  | .confirm =>
    match caller with
    | .tick => none
    | .chat a =>
      match s.server.confirmCommandDraft a.confirmKey with
      | (.error error, _) => some (s.goTo i caller (.ended (.error error.toText)))
      | (.ok copy, server) =>
        if a.roomId = draft.command.roomId then
          some ({ s with server := server }.goTo i caller (.tryScan (some copy)))
        else some ({ s with server := server }.goTo i caller (.ended (.error
          "COMMAND_ROOM_MISMATCH: confirmed command belongs to a different room")))
  | .tryScan copy =>
    if s.scan.isSome then some (s.fail i caller "BUSY: scan work is already running" .tryWrite)
    else
      match copy with
      | some copy => some ({ s with scan := some i }.goTo i caller (.work (.begin copy)))
      | none => some ({ s with scan := some i }.goTo i caller .poll)
  | .poll =>
    match s.server.pendingCommands with
    | some copy => some (s.goTo i caller (.work (.begin copy)))
    | none => some (s.goTo i caller .tryWrite)
  | .work w => some (s.goWork draft i caller w)
  | .flush batch executed => some (s.goFlush draft i caller executed batch)
  | .openProposals =>
    match s.server.openProposal with
    | some p => some (s.goTo i caller (.getProposal p))
    | none => some (s.goTo i caller (.ended (.error
        "PROPOSAL_NOT_READY: confirmed command did not produce an open proposal yet")))
  | .getProposal p =>
    match s.server.proposals[p]? with
    | some proposal => some (s.goTo i caller (.createDecision p proposal.items))
    | none => some (s.goTo i caller (.ended (.error (httpError 404 none).toText)))
  | .createDecision p items =>
    match caller with
    | .tick => none
    | .chat a =>
      match s.server.createDecision ⟨p, items, a.decisionKey⟩ with
      | (.error error, _) => some (s.goTo i caller (.ended (.error error.toText)))
      | (.ok _, server) => some ({ s with server := server }.goTo i caller .tryWrite)
  | .tryWrite =>
    if s.write.isSome then
      some (s.fail i caller "BUSY: write work is already running" (.flush none true))
    else some ({ s with write := some i }.goTo i caller (.executing .pending))
  | .executing e => some (s.goExecuting draft i caller e)

/-- The server's record, when a request that gives the second one is lost. -/
def reached (served : Bool) (server : Record) : State Θ :=
  if served then { s with server } else s

/-- The request of the call is lost. -/
def loseCall (f : Fault) (served : Bool) : Stage → Option (State Θ)
  | .confirm =>
    match caller with
    | .tick => none
    | .chat a => some ((s.reached served (s.server.confirmCommandDraft a.confirmKey).2).goTo i caller
        (.ended (.error f.error.toText)))
  | .poll => some (s.goTo i caller .tryWrite)
  | .work .deliver =>
    some ((s.claimFailed draft i caller .queued f.error.toText).reached served
      (s.server.updateCommandStatus .delivered).2)
  | .work .analyze =>
    some ((s.claimFailed draft i caller .delivered f.error.toText).reached served
      (s.server.updateCommandStatus .analyzing).2)
  | .work .lookup => some (s.failWork i caller .analyzing f.error.toText)
  | .flush (some (row :: batch)) executed =>
    match s.rows[row]? with
    | none => none
    | some x => some ({ s.reached served (s.dispatch draft x.report).2 with
        rows := updateState s.rows row (classify (.error f.error)) }.goTo i caller
          (.flush (some batch) executed))
  | .openProposals | .getProposal _ => some (s.goTo i caller (.ended (.error f.error.toText)))
  | .createDecision p items =>
    match caller with
    | .tick => none
    | .chat a =>
      some ((s.reached served (s.server.createDecision ⟨p, items, a.decisionKey⟩).2).goTo i caller
        (.ended (.error f.error.toText)))
  | .executing .pending => some (s.fail i caller f.error.toText (.flush none true))
  | .executing (.create (d :: todo)) =>
    some ((s.reached served (s.server.createExecution d).2).goTo i caller
      (.executing (.create todo)))
  | .executing (.lookup e _ todo) => some (s.executionFailed i caller e f.error.toText todo)
  | _ => none

def start (call : Call) : State Θ := { s with calls := s.calls ++ [call] }

def crashed (c : Call) : Call :=
  match c.stage with
  | .ended _ => c
  | _ => ⟨c.caller, .ended (.error "crash")⟩

def step : Event → Option (State Θ)
  | .approve a => some (s.start ⟨.chat a,
      if a.isValid then .confirm
      else .ended (.error "approval idempotency key has an invalid format")⟩)
  | .tick => some (s.start ⟨.tick, .tryScan none⟩)
  | .go i => s.calls[i]?.bind fun c => s.goCall draft i c.caller c.stage
  | .lose i f served => s.calls[i]?.bind fun c => s.loseCall draft i c.caller f served c.stage
  | .crash => some { s with scan := none, write := none, calls := s.calls.map crashed }

end State

end MouseKeeper.Desktop.ChatApproval
