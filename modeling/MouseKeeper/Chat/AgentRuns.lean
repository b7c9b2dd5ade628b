import MouseKeeper.Machine
import MouseKeeper.Storage.Browses

/-!
The runs of the agent that answers in a chat, and the steps in which they use a tool.

A run is claimed and worked on statement by statement, a tool is asked for in a step, and the
run then waits for the desktop. A request to browse files is such a tool too; it ends by the
answer of the desktop, by a reader or by the worker. Every statement and every transaction is
atomic, and any number of servers and workers take turns. What the chat's messages ask for, and
the rows and services that the run only reads, come with each statement.
-/

namespace MouseKeeper.Chat

open Storage

/-! ### Tables -/

inductive RunStatus
  | queued | running | waitingTool | waitingUser | waitingApproval | completed | failed | expired
  deriving DecidableEq, Repr

inductive StepStatus
  | queued | succeeded | failed
  deriving DecidableEq, Repr

inductive ToolName
  | fileBrowse | documentExtract | ruleList | operationHistory
  deriving DecidableEq, Repr

/-- The input of a tool. -/
inductive StepInput
  | browse (requestId : ℕ)
  | history (rootId : String) (limit : ℕ)
  | rules (rootId : String)
  | document (rootId relativePath : String) (maxChars : ℕ)
  deriving DecidableEq, Repr

structure ResumeContext where
  operationHistoryRequested : Bool := false
  ruleListRequested : Bool := false
  documentExtractionRequested : Bool := false
  stepId : Option ℕ := none
  requestedFolder : Option String := none
  candidates : List String := []
  selectedCandidate : Option String := none
  deriving DecidableEq, Repr

structure AgentRun where
  id : ℕ
  userId : ℕ
  roomId : ℕ
  sessionId : ℕ
  sourceMessageId : ℕ
  status : RunStatus
  route : Option String
  currentStepCount : ℕ
  failureCode : Option String
  resumeContext : Option ResumeContext
  expiresAt : ℕ
  createdAt : ℕ
  updatedAt : ℕ
  deriving DecidableEq, Repr

structure AgentStep where
  id : ℕ
  runId : ℕ
  sequence : ℕ
  toolName : ToolName
  status : StepStatus
  inputHash : String
  input : StepInput
  externalRequestId : Option ℕ
  resultMetadata : Option String
  failureCode : Option String
  completedAt : Option ℕ
  deriving DecidableEq, Repr

structure Tables extends Db where
  runs : List AgentRun
  steps : List AgentStep

def RUN_TTL_MS : ℕ := 10 * 60 * 1000

def MAX_STEPS : ℕ := 8

namespace Tables

/-- `update … set … where …` on the runs. -/
def setRuns (cond : AgentRun → Bool) (set : AgentRun → AgentRun) (t : Tables) : Tables :=
  { t with runs := t.runs.map fun r => if cond r then set r else r }

def setSteps (cond : AgentStep → Bool) (set : AgentStep → AgentStep) (t : Tables) : Tables :=
  { t with steps := t.steps.map fun s => if cond s then set s else s }

def setBrowses (cond : Browse → Bool) (set : Browse → Browse) (t : Tables) : Tables :=
  { t with browses := t.browses.map fun b => if cond b then set b else b }

end Tables

/-! ### Runs -/

structure Begin where
  userId : ℕ
  roomId : ℕ
  sessionId : ℕ
  sourceMessageId : ℕ
  newId : ℕ
  deriving DecidableEq, Repr

/-- The columns that a transition sets; one that is left out stays as it is. -/
structure Options where
  route : Option (Option String) := none
  failureCode : Option (Option String) := none
  resumeContext : Option (Option ResumeContext) := none
  deriving DecidableEq, Repr

structure CompleteTool where
  userId : ℕ
  deviceId : ℕ
  stepId : ℕ
  succeeded : Bool
  resultMetadata : Option String
  failureCode : Option String
  deriving DecidableEq, Repr

namespace AgentRuns

variable (t : Tables)

/-- `insert … on conflict do nothing`. -/
def begin (q : Begin) : Tables :=
  if t.runs.any fun r => r.sourceMessageId = q.sourceMessageId || r.id = q.newId then t
  else { t with runs := t.runs ++ [{
    id := q.newId
    userId := q.userId
    roomId := q.roomId
    sessionId := q.sessionId
    sourceMessageId := q.sourceMessageId
    status := .queued
    route := none
    currentStepCount := 0
    failureCode := none
    resumeContext := none
    expiresAt := t.now + RUN_TTL_MS
    createdAt := t.now
    updatedAt := t.now }] }

def transition (userId runId : ℕ) (status : RunStatus) (o : Options) : Option Tables :=
  let cond := fun r : AgentRun => decide (r.id = runId) && decide (r.userId = userId)
  if t.runs.any cond then
    some (t.setRuns cond fun r => { r with
      status := status
      route := o.route.getD r.route
      failureCode := o.failureCode.getD r.failureCode
      resumeContext := o.resumeContext.getD r.resumeContext
      updatedAt := t.now })
  else none

/-- The run that `addStep` reads. -/
def selectRun (userId runId : ℕ) : Option AgentRun :=
  t.runs.find? fun r => r.id = runId && r.userId = userId

/-- The step with the same input that `addStep` looks for. -/
def selectStep (runId : ℕ) (tool : ToolName) (inputHash : String) : Option AgentStep :=
  t.steps.find? fun s => s.runId = runId && s.toolName = tool && s.inputHash = inputHash

/-- The transaction of `addStep`, which two unique indices can refuse. -/
def insertStep (step : AgentStep) : Option Tables :=
  if t.steps.any fun s => s.id = step.id || (s.runId = step.runId && (s.sequence = step.sequence ||
      (s.toolName = step.toolName && s.inputHash = step.inputHash))) then none
  else some (({ t with steps := t.steps ++ [step] } : Tables).setRuns (fun r => r.id = step.runId)
    fun r => { r with currentStepCount := step.sequence, updatedAt := t.now })

/-- The run goes on if it waits for a tool. -/
def requeue (runId : ℕ) : Tables :=
  t.setRuns (fun r => r.id = runId && r.status = .waitingTool) fun r =>
    { r with status := .queued, updatedAt := t.now }

def finishStep (stepId : ℕ) (succeeded : Bool) (failureCode resultMetadata : Option String) :
    Tables :=
  t.setSteps (fun s => s.id = stepId) fun s => { s with
    status := if succeeded then .succeeded else .failed
    failureCode := failureCode
    resultMetadata := resultMetadata
    completedAt := some t.now }

/-- The step with its run, in a room of the user on the device. -/
def toolOf (q : CompleteTool) : Option AgentStep :=
  t.steps.find? fun s => s.id = q.stepId && t.runs.any fun r => r.id = s.runId &&
    t.rooms.any fun room => room.id = r.roomId && room.desktopDeviceId = q.deviceId &&
      room.userId = q.userId

def completeTool (q : CompleteTool) : Tables :=
  match toolOf t q with
  | none => t
  | some s =>
    if s.status ≠ .queued then t
    else requeue (finishStep t q.stepId q.succeeded q.failureCode q.resultMetadata) s.runId

def answerClarification (userId runId : ℕ) (selectedCandidate : String) : Tables :=
  match selectRun t userId runId with
  | none => t
  | some run =>
    let candidates := (run.resumeContext.map (·.candidates)).getD []
    if run.status ≠ .waitingUser ∨ selectedCandidate ∉ candidates then t
    else t.setRuns (fun r => r.id = runId) fun r => { r with
      status := .queued
      resumeContext := some { selectedCandidate := some selectedCandidate, candidates }
      updatedAt := t.now }

/-- Runs that nobody has worked on for five minutes are queued again, and old ones expire. -/
def sweep : Tables :=
  (t.setRuns (fun r => r.status = .running && r.updatedAt + 5 * 60000 ≤ t.now) fun r =>
    { r with status := .queued, updatedAt := t.now }).setRuns
    (fun r => r.expiresAt ≤ t.now &&
      decide (r.status ∈ [RunStatus.queued, .running, .waitingTool])) fun r =>
    { r with status := .expired, updatedAt := t.now }

/-- The oldest run that is queued is claimed. -/
def claimNext : Tables × Option AgentRun :=
  match ((sweep t).runs.filter fun r => r.status = .queued).mergeSort fun a b =>
      a.createdAt ≤ b.createdAt with
  | [] => (sweep t, none)
  | run :: _ =>
    let set := fun r : AgentRun => { r with status := RunStatus.running, updatedAt := t.now }
    ((sweep t).setRuns (fun r => r.id = run.id && r.status = .queued) set, some (set run))

end AgentRuns

/-! ### Requests to browse files -/

namespace FileBrowse

variable (t : Tables)

def resumeAgentRunForBrowse (requestId : ℕ) (ready : Bool) (failureCode : Option String) :
    Tables :=
  match t.steps.find? fun s => s.externalRequestId = some requestId with
  | none => t
  | some step =>
    if step.status ≠ .queued then t
    else AgentRuns.requeue (AgentRuns.finishStep t step.id ready failureCode
      (some (if ready then "READY" else "FAILED"))) step.runId

/-- The request comes in for an active room on an active device. -/
def create (q : Browses.Create) : Option (Tables × Browse) := do
  let candidate ← t.room q.userId q.roomId
  let device ← t.device q.userId candidate.desktopDeviceId
  let room ← t.deviceRoom q.userId device.id q.roomId
  let request := Browses.newBrowse q room.desktopDeviceId (t.now + 60000)
  if t.browses.any fun b => b.id = q.newId then none
  else some ({ t with browses := t.browses ++ [request] }, request)

/-- The request that the device answers. -/
def owned (q : Browses.Finish) : Option Browse := do
  let device ← t.device q.userId q.deviceId
  let candidate ← t.browses.find? fun b => b.id = q.requestId && b.desktopDeviceId = q.deviceId
  let room ← t.deviceRoom q.userId device.id candidate.roomId
  t.browses.find? fun b => b.id = q.requestId && b.desktopDeviceId = device.id && b.roomId = room.id

def isRequested (requestId : ℕ) (b : Browse) : Bool := b.id = requestId && b.status = .requested

def failureText : BrowseFailureCode → String
  | .deviceOffline => "DEVICE_OFFLINE"
  | .timedOut => "TIMED_OUT"
  | .cursorInvalidated => "CURSOR_INVALIDATED"
  | .outsideManagedRoot => "OUTSIDE_MANAGED_ROOT"

/-- `complete` and `fail`. An answer that comes too late times the request out. -/
def finish (q : Browses.Finish) : Tables :=
  match owned t q with
  | none => t
  | some request =>
    if !t.browses.any (isRequested q.requestId) then t
    else if request.expiresAt ≤ t.now then
      t.setBrowses (isRequested q.requestId) Browses.timedOut
    else
      match q.outcome with
      | .ready _ _ => resumeAgentRunForBrowse
          (t.setBrowses (isRequested q.requestId) (Browses.finished q)) q.requestId true none
      | .failed code => resumeAgentRunForBrowse
          (t.setBrowses (isRequested q.requestId) (Browses.finished q)) q.requestId false
          (some (failureText code))

/-- The request that `get` reads, if it has expired. -/
def readExpired (q : Browses.Get) : Option Browse :=
  (t.browses.find? fun b => b.id = q.requestId && (t.room q.userId b.roomId).isSome).filter
    fun b => b.expiresAt ≤ t.now

def isLive (requestId : ℕ) (b : Browse) : Bool :=
  b.id = requestId && decide (b.status ∈ [BrowseStatus.requested, .ready])

/-- The room of the request is active, and so is its device. -/
def activeScope (userId : ℕ) (request : Browse) : Bool :=
  match t.device userId request.desktopDeviceId with
  | none => false
  | some device => (t.deviceRoom userId device.id request.roomId).isSome

/-- The transaction of `get`, for the request as it has been read. -/
def getExpired (userId : ℕ) (request : Browse) : Tables :=
  if !activeScope t userId request then t
  else if request.status = .failed then t.setBrowses (fun b => b.id = request.id) Browses.cleared
  else if !t.browses.any (isLive request.id) then t
  else resumeAgentRunForBrowse (t.setBrowses (isLive request.id) Browses.timedOut) request.id false
    (some (failureText .timedOut))

/-- The requests that `scheduleExpired` selects. -/
def selectExpired : List ℕ :=
  (t.browses.filter fun b => b.expiresAt ≤ t.now && b.status = .requested &&
    t.rooms.any fun room => room.id = b.roomId).map (·.id)

/-- What `scheduleExpired` does with one of them, whether its device and room are active or not. -/
def expire (requestId : ℕ) : Tables := t.setBrowses (isRequested requestId) Browses.timedOut

def expireResults : Tables :=
  t.setBrowses (fun b => b.expiresAt ≤ t.now && b.status = .ready) Browses.timedOut

def clearFailed : Tables :=
  t.setBrowses (fun b => b.expiresAt ≤ t.now && b.status = .failed) Browses.cleared

end FileBrowse

end MouseKeeper.Chat
