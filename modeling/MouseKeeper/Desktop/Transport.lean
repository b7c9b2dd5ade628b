import MouseKeeper.Faults
import MouseKeeper.Desktop.Commands
import MouseKeeper.Desktop.ManagedRoots
import MouseKeeper.Desktop.RemoteView
import MouseKeeper.Server.Executions
import MouseKeeper.Storage.Tables

/-!
One piece of work of the desktop, with every request to the server that it makes.

A command, an approved decision or a file transfer is taken from the server's list in each tick,
as long as it is there. What the file engine makes of the folder is given, as a function of the
files at that moment. Everything else is outside: the other work, the user, the rest of the server.
-/

namespace MouseKeeper.Desktop.Transport

open MouseKeeper.Faults MouseKeeper.Server
open Commands (AgentCommand AgentProposalItem parsePayload buildAgentProposalSubmission)
open RemoteView (AgentFileTransferFailureCode TransferSourceValidationError
  ValidatedTransferSource)

/-! ### Errors -/

inductive AgentErrorCode
  | validationFailed | transportUnavailable | unauthenticated | forbidden | invalidResponse
  deriving DecidableEq

def AgentErrorCode.asStr : AgentErrorCode → String
  | .validationFailed => "VALIDATION_FAILED"
  | .transportUnavailable => "TRANSPORT_UNAVAILABLE"
  | .unauthenticated => "UNAUTHENTICATED"
  | .forbidden => "FORBIDDEN"
  | .invalidResponse => "INVALID_RESPONSE"

structure AgentError where
  code : AgentErrorCode
  message : String
  deriving DecidableEq

def AgentError.toText (error : AgentError) : String := error.code.asStr ++ ": " ++ error.message

def invalidResponseError (message : String) : AgentError := ⟨.invalidResponse, message⟩

def httpError (status : ℕ) (message : Option String) : AgentError where
  code :=
    if status = 401 then .unauthenticated
    else if status = 403 then .forbidden
    else if status = 408 ∨ status = 429 then .transportUnavailable
    else if 400 ≤ status ∧ status < 500 then .validationFailed
    else .transportUnavailable
  message := message.getD ("MouseKeeper server request failed with HTTP " ++ toString status)

/-- How a request is lost. -/
inductive Fault
  /-- It cannot be sent, or is not answered in time. -/
  | unreachable
  /-- 408, 429 or 5xx, with what the body says. -/
  | status (code : ℕ) (message : Option String)
  /-- The body of the answer breaks off. -/
  | cut

def Fault.error : Fault → AgentError
  | .unreachable => ⟨.transportUnavailable, "cannot reach the MouseKeeper server"⟩
  | .status code message => httpError code message
  | .cut => invalidResponseError "server returned an unexpected response shape"

/-! ### The server -/

structure ServerRoom where
  id : String
  rootAlias : String
  active : Bool

structure Execution where
  status : ExecutionStatus
  resultSummary : Option String

structure Transfer where
  status : Storage.TransferStatus
  failureCode : Option AgentFileTransferFailureCode
  sizeBytes : Option ℕ
  sha256 : Option String
  /-- The size of the object that has been uploaded. -/
  stored : Option ℕ
  /-- `expiresAt` has passed. -/
  expired : Bool

/-- What the server has recorded of the work. -/
inductive Record
  | command (status : CommandStatus) (proposal : Option (List AgentProposalItem))
  | decision (execution : Option Execution)
  | transfer (t : Transfer)

structure ServerState where
  deviceActive : Bool
  rooms : List ServerRoom
  record : Record

/-- The work itself. -/
inductive Job
  | command (c : AgentCommand)
  | decision (roomId : String) (items : List AgentProposalItem)
  | transfer (roomId sourceRelativePath : String) (maxBytes : ℕ)

def Job.roomId : Job → String
  | .command c => toString c.roomId
  | .decision roomId _ | .transfer roomId _ _ => roomId

def Job.maxBytes : Job → ℕ
  | .transfer _ _ maxBytes => maxBytes
  | _ => 0

inductive Request
  /-- The list of the pending commands, decisions or transfers. -/
  | pending
  | updateCommandStatus (status : Server.Commands.Reported)
  | rooms
  | createExecution
  | uploadTarget (sizeBytes : ℕ)
  /-- The upload to the object storage, of so many bytes. -/
  | put (length : ℕ)
  | completeUpload (sizeBytes : ℕ) (sha256 : String)
  | failTransfer (code : AgentFileTransferFailureCode)

inductive Reply
  | notPending
  | command (status : CommandStatus)
  | pending
  | rooms (rooms : List ServerRoom)
  | done

abbrev Answer := Except AgentError Reply

/-- What is put into the outbox. -/
inductive Report
  | command (r : Commands.Report)
  | execution (status : Executions.Outcome) (summary : String)
  | transferCompletion (sizeBytes : ℕ) (sha256 : String)

/-- The kinds and keys are the same. -/
def Report.same : Report → Report → Bool
  | .command r, .command r' => r.key 0 = r'.key 0
  | .execution _ _, .execution _ _ => true
  | .transferCompletion _ _, .transferCompletion _ _ => true
  | _, _ => false

namespace ServerState

variable (job : Job) (s : ServerState)

/-- The room of the work is active. -/
def roomActive : Bool := s.rooms.any fun room => room.id = job.roomId && room.active

def pending : Answer :=
  if s.deviceActive then
    match s.record with
    | .command status _ =>
      if s.roomActive job ∧ Commands.isProcessableCommandStatus status then .ok (.command status)
      else .ok .notPending
    | .decision execution => if execution.isNone then .ok .pending else .ok .notPending
    | .transfer t =>
      if s.roomActive job ∧ t.status = .requested ∧ t.expired = false then .ok .pending
      else .ok .notPending
  else .error (httpError 403 none)

def setRecord (record : Record) : ServerState := { s with record }

def serve : Request → Answer × ServerState
  | .pending => (s.pending job, s)
  | .updateCommandStatus status =>
    match s.record with
    | .command current proposal =>
      if s.deviceActive ∧ s.roomActive job ∧ canTransition current status.toStatus then
        (.ok .done, s.setRecord (.command status.toStatus proposal))
      else (.error (httpError 409 none), s)
    | _ => (.error (httpError 404 none), s)
  | .rooms =>
    (if s.deviceActive then .ok (.rooms (s.rooms.filter (·.active)))
    else .error (httpError 401 none), s)
  | .createExecution =>
    match s.record with
    | .decision none =>
      if s.deviceActive then
        (.ok .done, s.setRecord (.decision (some ⟨.executing, none⟩)))
      else (.error (httpError 403 none), s)
    | .decision (some _) => if s.deviceActive then (.ok .done, s) else (.error (httpError 403 none), s)
    | _ => (.error (httpError 403 none), s)
  | .uploadTarget sizeBytes =>
    match s.record with
    | .transfer t =>
      if sizeBytes > job.maxBytes then (.error (httpError 409 (some "SIZE_LIMIT_EXCEEDED")), s)
      else if s.deviceActive ∧ s.roomActive job ∧ t.status = .requested ∧ t.expired = false then
        (.ok .done,
          s.setRecord (.transfer { t with status := .uploading, sizeBytes := some sizeBytes }))
      else (.error (httpError 409 (some "INVALID_STATE_TRANSITION")), s)
    | _ => (.error (httpError 404 none), s)
  | .put length =>
    match s.record with
    | .transfer t =>
      if t.expired = false then
        (.ok .done, s.setRecord (.transfer { t with stored := some length }))
      else (.error (httpError 403 none), s)
    | _ => (.error (httpError 403 none), s)
  | .completeUpload sizeBytes sha256 =>
    match s.record with
    | .transfer t =>
      if t.sha256.isSome then
        if t.status = .ready ∧ t.sizeBytes = some sizeBytes ∧ t.sha256 = some sha256 then
          (.ok .done, s)
        else (.error (httpError 409 none), s)
      else if s.deviceActive ∧ s.roomActive job ∧ t.status = .uploading ∧
          t.sizeBytes = some sizeBytes ∧ t.stored = some sizeBytes then
        (.ok .done, s.setRecord (.transfer { t with status := .ready, sha256 := some sha256 }))
      else (.error (httpError 409 none), s)
    | _ => (.error (httpError 404 none), s)
  | .failTransfer code =>
    match s.record with
    | .transfer t =>
      if s.deviceActive ∧ s.roomActive job then
        if t.status = .failed then
          (if t.failureCode = some code then .ok .done else .error (httpError 409 none), s)
        else if t.status = .requested ∨ t.status = .uploading then
          (.ok .done,
            s.setRecord (.transfer { t with status := .failed, failureCode := some code }))
        else (.error (httpError 409 none), s)
      else (.error (httpError 404 none), s)
    | _ => (.error (httpError 404 none), s)

/-- `dispatch` of a row of the outbox. A status that the client does not know and a proposal of an
invalid number of items are not sent. -/
def deliver : Report → ServerState
  | .command .failed => (s.serve job (.updateCommandStatus .failed)).2
  | .command .succeeded => s
  | .command (.proposal items) =>
    match s.record with
    | .command .analyzing none =>
      if s.deviceActive ∧ 1 ≤ items.length ∧ items.length ≤ 200 ∧
          Commands.createProposalSchema items then
        s.setRecord (.command .waitingApproval (some items))
      else s
    | _ => s
  | .execution status summary =>
    match s.record with
    | .decision (some e) =>
      if s.deviceActive ∧ e.status = .executing then
        s.setRecord (.decision (some ⟨status.toStatus, some summary⟩))
      else s
    | _ => s
  | .transferCompletion sizeBytes sha256 => (s.serve job (.completeUpload sizeBytes sha256)).2

end ServerState

/-! ### The desktop -/

/-- The registry, the clock, whether the local database stores rows, and the files. -/
structure World (Θ : Type) where
  roots : Roots
  now : ℤ
  stores : Bool
  files : Θ

/-- What the file engine makes of the files. -/
structure FileEngine (Θ : Type) where
  proposalReport : Θ → ManagedRoot → AgentCommand → Except String FileEngine.ProposalReport
  /-- The outcome of a batch with its summary, and the files after it. -/
  execute : Θ → ManagedRoot → List AgentProposalItem →
    Except String (Executions.Outcome × String) × Θ
  validateLocalTransferSource : Θ → ManagedRoot → String →
    Except TransferSourceValidationError ValidatedTransferSource
  ensureSourceUnchanged : Θ → ValidatedTransferSource → Except String Unit
  hashSourcePayload : Θ → ValidatedTransferSource → Except String (ℕ × String)
  /-- The length of what is read for the upload. -/
  openSource : Θ → ValidatedTransferSource → Except String ℕ

variable {Θ : Type}

abbrev Async (Θ : Type) := Call (World Θ) Request Answer Report

/-- A request of which only the success counts. -/
def send (r : Request) (next : Except AgentError Unit → Async Θ) : Async Θ :=
  .ask r fun answer => next (answer.map fun _ => ())

def enqueue (r : Report) (next : Except String Unit → Async Θ) : Async Θ :=
  .read fun x =>
    if x.stores then .report r (next (.ok ()))
    else next (.error "cannot write the outbox")

def rootIdForRoom (roomId : String) (next : Except AgentError String → Async Θ) : Async Θ :=
  .ask .rooms fun
    | .ok (.rooms rooms) =>
      match rooms.find? fun room => room.id = roomId with
      | some room => next (.ok room.rootAlias)
      | none =>
        next (.error (invalidResponseError "command room is not registered for this device"))
    | .ok _ => next (.error (invalidResponseError "server returned an unexpected response shape"))
    | .error error => next (.error error)

/-- The binding is checked, and a root that has never been bound is bound to the room. -/
def ensureActiveRoomBinding (rootId roomId : String) (next : Except String ManagedRoot → Async Θ) :
    Async Θ :=
  .read fun x =>
    match ManagedRootStore.checkActiveRoomBinding x.roots rootId roomId with
    | .ok (some root) => next (.ok root)
    | .ok none =>
      .write
        (fun x =>
          match ManagedRootStore.bindRoom x.roots rootId roomId x.now with
          | .ok (_, roots) => { x with roots }
          | .error _ => x)
        fun x => next ((ManagedRootStore.bindRoom x.roots rootId roomId x.now).map Prod.fst)
    | .error error => next (.error error)

/-- The lookup that all three kinds of work begin with. -/
def managedRoot (roomId : String) (next : Except String ManagedRoot → Async Θ) : Async Θ :=
  rootIdForRoom roomId fun
    | .ok rootId => ensureActiveRoomBinding rootId roomId fun
      | .ok root =>
        if root.enabled then next (.ok root)
        else next (.error ("managed root is disabled: " ++ root.rootId))
      | .error error => next (.error error)
    | .error error => next (.error error.toText)

section Commands

def claimCommandForAnalysis (status : CommandStatus) (next : Except String Unit → Async Θ) :
    Async Θ :=
  match status with
  | .queued => send (.updateCommandStatus .delivered) fun
    | .ok _ => send (.updateCommandStatus .analyzing) fun answer =>
      next (answer.mapError AgentError.toText)
    | .error error => next (.error error.toText)
  | .delivered => send (.updateCommandStatus .analyzing) fun answer =>
    next (answer.mapError AgentError.toText)
  | .analyzing => next (.ok ())
  | _ => next (.error "command status is not claimable for analysis")

/-- `let _ = enqueue_command_status(…)`. -/
def tryReport (r : Commands.Report) : Async Θ := enqueue (.command r) fun _ => .done

/-- `process_…_command`, and `FAILED` for its errors. -/
def processSupported (engine : FileEngine Θ) (c : AgentCommand) : Async Θ :=
  match parsePayload c with
  | .error _ => tryReport .failed
  | .ok (requestedRootId, maxProposals) => claimCommandForAnalysis c.status fun
    | .error _ => tryReport .failed
    | .ok _ => managedRoot (toString c.roomId) fun
      | .error _ => tryReport .failed
      | .ok root =>
        if ∃ rootId ∈ requestedRootId, rootId ≠ root.rootId then tryReport .failed
        else .read fun x =>
          match (engine.proposalReport x.files root c).bind
            (buildAgentProposalSubmission · maxProposals) with
          | .error _ => tryReport .failed
          | .ok items =>
            if Commands.isDirect c.commandType = false ∧ items = [] then tryReport .succeeded
            else enqueue (.command (.proposal items)) fun
              | .ok _ => .done
              | .error _ => tryReport .failed

def processCommand (engine : FileEngine Θ) (c : AgentCommand) : Async Θ :=
  if Commands.isProcessableCommandStatus c.status = false then .done
  else if Commands.isContractCommandWithoutDesktopHandler c.commandType then
    claimCommandForAnalysis c.status fun
      | .ok _ => tryReport .failed
      | .error _ => .done
  else if Commands.isSupportedCommand c.commandType = false then .done
  else processSupported engine c

end Commands

section Decisions

/-- Executes once the execution has been created, and reports what came of it. -/
def processDecision (engine : FileEngine Θ) (roomId : String) (items : List AgentProposalItem) :
    Async Θ :=
  send .createExecution fun
    | .error _ => .done
    | .ok _ => managedRoot roomId fun
      | .error error => enqueue (.execution .failed error) fun _ => .done
      | .ok root => .write (fun x => { x with files := (engine.execute x.files root items).2 })
        fun x =>
          match (engine.execute x.files root items).1 with
          | .ok (status, summary) => enqueue (.execution status summary) fun _ => .done
          | .error error => enqueue (.execution .failed error) fun _ => .done

end Decisions

section Transfers

def uploadTargetFailureCode (message : String) : Option AgentFileTransferFailureCode :=
  if RemoteView.contains message "SIZE_LIMIT_EXCEEDED" then some .sizeLimitExceeded else none

def failFileTransfer (code : AgentFileTransferFailureCode) : Async Θ :=
  send (.failTransfer code) fun _ => .done

def validateTransferSourceForRequest (engine : FileEngine Θ) (roomId sourceRelativePath : String)
    (next : Except TransferSourceValidationError ValidatedTransferSource → Async Θ) : Async Θ :=
  managedRoot roomId fun
    | .error message => next (.error ⟨.outsideManagedRoot, message⟩)
    | .ok root => .read fun x =>
      next (engine.validateLocalTransferSource x.files root sourceRelativePath)

/-- Something about the source is read again, and the transfer fails if it has changed. -/
def orSourceChanged {α : Type} (check : Θ → Except String α) (next : α → Async Θ) : Async Θ :=
  .read fun x =>
    match check x.files with
    | .ok a => next a
    | .error _ => failFileTransfer .sourceChanged

def uploadPreparedTransfer (engine : FileEngine Θ) (source : ValidatedTransferSource) : Async Θ :=
  orSourceChanged (engine.ensureSourceUnchanged · source) fun _ =>
  orSourceChanged (engine.hashSourcePayload · source) fun payload =>
  orSourceChanged (engine.ensureSourceUnchanged · source) fun _ =>
  .read fun x =>
    match engine.openSource x.files source with
    | .error _ => .done
    | .ok length => send (.put length) fun
      | .error _ => .done
      | .ok _ =>
        orSourceChanged (engine.ensureSourceUnchanged · source) fun _ =>
        enqueue (.transferCompletion payload.1 payload.2) fun
          | .error _ => .done
          | .ok _ => send (.completeUpload payload.1 payload.2) fun _ => .done

/-- There is no upload target. -/
def uploadTargetRefused (error : AgentError) : Async Θ :=
  match uploadTargetFailureCode error.message with
  | some code => failFileTransfer code
  | none => .done

def processOneTransfer (engine : FileEngine Θ) (roomId sourceRelativePath : String) : Async Θ :=
  validateTransferSourceForRequest engine roomId sourceRelativePath fun
    | .error error => failFileTransfer error.failureCode
    | .ok source => send (.uploadTarget source.sourceVersion.sizeBytes) fun
      | .ok _ => uploadPreparedTransfer engine source
      | .error error => uploadTargetRefused error

end Transfers

/-- What a tick does about the work. -/
def processPending (engine : FileEngine Θ) (job : Job) : Async Θ :=
  .ask .pending fun
    | .ok (.command status) =>
      match job with
      | .command c => processCommand engine { c with status }
      | _ => .done
    | .ok .pending =>
      match job with
      | .command _ => .done
      | .decision roomId items => processDecision engine roomId items
      | .transfer roomId sourceRelativePath _ => processOneTransfer engine roomId sourceRelativePath
    | .ok _ => .done
    | .error _ => .done

/-! ### The rest of the world -/

inductive Outside (Θ : Type)
  /-- The registry, the clock, the database and the files change. -/
  | world (x : World Θ)
  | rooms (rooms : List ServerRoom)
  | device (active : Bool)
  /-- The user decides on the proposal of a command, it expires, or it is executed. -/
  | advanceCommand (status : CommandStatus)
  | expire
  | expireTransfer
  | cancelTransfer
  | ackTransfer

def ServerState.setTransferStatus (s : ServerState) (ok : Storage.TransferStatus → Bool)
    (status : Storage.TransferStatus) : ServerState :=
  match s.record with
  | .transfer t => if ok t.status then s.setRecord (.transfer { t with status }) else s
  | _ => s

def Outside.server (s : ServerState) : Outside Θ → ServerState
  | .world _ => s
  | .rooms rooms' => { s with rooms := rooms' }
  | .device active => { s with deviceActive := active }
  | .advanceCommand status =>
    match s.record with
    | .command current proposal =>
      if Commands.isProcessableCommandStatus current = false ∧ canTransition current status then
        s.setRecord (.command status proposal)
      else s
    | _ => s
  | .expire =>
    match s.record with
    | .transfer t => s.setRecord (.transfer { t with expired := true })
    | _ => s
  | .expireTransfer => s.setTransferStatus (· ∈ [.requested, .uploading, .ready]) .expired
  | .cancelTransfer => s.setTransferStatus (· ∉ [.cancelled, .completed, .expired]) .cancelled
  | .ackTransfer => s.setTransferStatus (· = .ready) .completed

def Outside.apply : Outside Θ → World Θ × ServerState → World Θ × ServerState
  | .world x, (_, s) => (x, s)
  | o, (x, s) => (x, o.server s)

def system (engine : FileEngine Θ) (job : Job) :
    System (World Θ) ServerState Request Answer Report Fault (Outside Θ) where
  main := processPending engine job
  serve r s := s.serve job r
  lost f := .error f.error
  deliver k s := s.deliver job k
  same := Report.same
  outside := Outside.apply

end MouseKeeper.Desktop.Transport
