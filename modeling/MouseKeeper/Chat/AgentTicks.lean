import MouseKeeper.Chat.AgentRuns

/-!
The ticks in which the servers work on the runs of the agent, and everything that may happen
between two of their statements.

A tick claims one run and goes on from point to point; whatever throws ends it, and leaves the
run as it is. The other requests and the expiry of the worker are single transactions, except
that a reader reads a request before it times it out, and that the worker selects the requests
before it times them out one by one.
-/

namespace MouseKeeper.Chat

open Storage AgentRuns

/-- What the texts of messages ask for. -/
structure Reading where
  isOperationHistoryRequest : String → Bool
  isRuleListRequest : String → Bool
  isDocumentExtractionRequest : String → Bool
  documentPathFromMessage : String → List String → Option String
  namedFolderFromMessage : String → Option String
  sameFolder : String → String → Bool
  rankDirectoryCandidates : String → List String → List String
  inputHash : StepInput → String

/-- The answer of the AI, as the server takes it. -/
inductive AiReply
  | query (browse : Option Browses.Create)
  | ruleDraft
  | commandDraft
  | noAction
  | invalid
  | unconfigured

/-- What a statement meets outside of the modelled tables, and the identifier that it draws. -/
structure Reply where
  content : Option String
  rootAlias : Option String
  aiDocumentAnalysisConsent : Bool
  recentFiles : List String
  knownFolders : List String
  ai : AiReply
  newId : ℕ

/-- A step that is to be added, and how the run is to wait for it. -/
structure Pending where
  toolName : ToolName
  input : StepInput
  externalRequestId : Option ℕ
  options : Options

/-- Where a tick is. A run that is about to wait for a tool comes with its step. -/
inductive Point
  | context
  | completedBrowse (content : String)
  | browseRequest (content : String) (requestId : ℕ)
  | completedOperationHistory (content : String)
  | completedDocument (content : String)
  | completedRules (content : String)
  | ask (document : Bool)
  | selectRun (pending : Pending)
  | selectStep (pending : Pending) (currentStepCount : ℕ)
  | insertStep (pending : Pending) (currentStepCount : ℕ)
  | leave (status : RunStatus) (options : Options)
  | wait (options : Options) (stepId : ℕ)

/-- The newest of the run's steps with the tool that has succeeded. -/
def succeeded (t : Tables) (runId : ℕ) (tool : ToolName) : Option AgentStep :=
  ((t.steps.filter fun s => s.runId = runId && s.toolName = tool && s.status = .succeeded).mergeSort
    fun a b => b.sequence ≤ a.sequence).head?

section

variable (reading : Reading) (run : AgentRun) (t : Tables) (r : Reply)

def routed (route : String) : Options := { route := some (some route) }

def resume : ResumeContext := run.resumeContext.getD {}

def historyPending : Pending where
  toolName := .operationHistory
  input := .history (r.rootAlias.getD "") 20
  externalRequestId := none
  options := { routed "HISTORY" with
    resumeContext := some (some { operationHistoryRequested := true }) }

def rulesPending : Pending where
  toolName := .ruleList
  input := .rules (r.rootAlias.getD "")
  externalRequestId := none
  options := { routed "RULE" with resumeContext := some (some { ruleListRequested := true }) }

def documentPending (rootAlias relativePath : String) : Pending where
  toolName := .documentExtract
  input := .document rootAlias relativePath 100000
  externalRequestId := none
  options := { routed "CHAT" with
    resumeContext := some (some { documentExtractionRequested := true }) }

def browsePending (requestId : ℕ) : Pending where
  toolName := .fileBrowse
  input := .browse requestId
  externalRequestId := some requestId
  options := { routed "QUERY" with failureCode := some none }

/-- The document that the message asks for, in a room that consents. -/
def requestedDocument (content : String) : Option Pending := do
  if (resume run).documentExtractionRequested || !reading.isDocumentExtractionRequest content then
    none
  else
    let rootAlias ← r.rootAlias
    let relativePath ← reading.documentPathFromMessage content r.recentFiles
    if r.aiDocumentAnalysisConsent then some (documentPending rootAlias relativePath) else none

/-- The folders that the message may mean, if it names none that there is. -/
def folderCandidates (content : String) : Option (String × List String) := do
  if (resume run).selectedCandidate.isSome then none
  else
    let requestedFolder ← reading.namedFolderFromMessage content
    if r.knownFolders.any (reading.sameFolder requestedFolder) then none
    else
      let candidates := reading.rankDirectoryCandidates requestedFolder r.knownFolders
      if candidates = [] then none else some (requestedFolder, candidates)

/-- What comes of a message that neither asks for the history nor for the rules. -/
def otherwise (content : String) : Point :=
  match requestedDocument reading run r content with
  | some pending => .selectRun pending
  | none =>
    match folderCandidates reading run r content with
    | some (requestedFolder, candidates) => .leave .waitingUser { routed "QUERY" with
        resumeContext := some (some { requestedFolder := some requestedFolder, candidates }) }
    | none => .ask false

/-- Where the run goes with an answer of the AI that asks for no files. -/
def answered (document : Bool) : AiReply → Point
  | .invalid => .leave .failed (if document then routed "CHAT" else
      { route := some none, failureCode := some (some "AI_OUTPUT_INVALID") })
  | reply => if document then .leave .completed (routed "CHAT") else
    match reply with
    | .query _ => .leave .completed { routed "QUERY" with failureCode := some none }
    | .ruleDraft => .leave .waitingApproval { routed "RULE" with failureCode := some none }
    | .commandDraft => .leave .waitingApproval { routed "COMMAND" with failureCode := some none }
    | .noAction => .leave .completed { routed "CHAT" with failureCode := some none }
    | _ => .leave .completed { route := some none, failureCode := some none }

/-- `withAiResult`, which creates the request that the AI asks for. -/
def withAiResult (document : Bool) : Option (Tables × Point) :=
  match r.ai with
  | .query (some q) => do
    let (t', request) ← FileBrowse.create t { q with
      userId := run.userId, roomId := run.roomId, newId := r.newId }
    return (t', if document then .leave .completed (routed "CHAT")
      else .selectRun (browsePending request.id))
  | reply => some (t, answered document reply)

/-- The options of a run that waits for the step. -/
def Options.waitFor (o : Options) (stepId : ℕ) : Options :=
  { o with resumeContext := o.resumeContext.map fun c => c.map fun c =>
      { c with stepId := some stepId } }

def newStep (pending : Pending) (currentStepCount : ℕ) : AgentStep where
  id := r.newId
  runId := run.id
  sequence := currentStepCount + 1
  toolName := pending.toolName
  status := .queued
  inputHash := reading.inputHash pending.input
  input := pending.input
  externalRequestId := pending.externalRequestId
  resultMetadata := none
  failureCode := none
  completedAt := none

/-- The next statement of `processQueuedAgentRun`, and where it goes on. Nothing comes of one
that throws. -/
def processQueuedAgentRun : Point → Option (Tables × Option Point)
  | .context =>
    match r.content with
    | none => some (t, some (.leave .failed
        { failureCode := some (some "AGENT_RUN_CONTEXT_MISSING") }))
    | some content => some (t, some (.completedBrowse content))
  | .completedBrowse content =>
    match (succeeded t run.id .fileBrowse).bind (·.externalRequestId) with
    | some requestId => some (t, some (.browseRequest content requestId))
    | none => some (t, some (.completedOperationHistory content))
  | .browseRequest content requestId =>
    match (t.browses.find? fun b => b.id = requestId).filter fun b => b.status = .ready with
    | some _ => some (t, some (.leave .completed (routed "QUERY")))
    | none => some (t, some (.completedOperationHistory content))
  | .completedOperationHistory content =>
    match succeeded t run.id .operationHistory with
    | some _ => some (t, some (.leave .completed (routed "HISTORY")))
    | none => some (t, some (.completedDocument content))
  | .completedDocument content =>
    match succeeded t run.id .documentExtract with
    | some _ => some (t, some (.ask true))
    | none =>
      if !(resume run).operationHistoryRequested && reading.isOperationHistoryRequest content then
        some (t, some (.selectRun (historyPending r)))
      else some (t, some (.completedRules content))
  | .completedRules content =>
    match succeeded t run.id .ruleList with
    | some _ => some (t, some (.leave .completed (routed "RULE")))
    | none =>
      if !(resume run).ruleListRequested && reading.isRuleListRequest content then
        some (t, some (.selectRun (rulesPending r)))
      else some (t, some (otherwise reading run r content))
  | .ask document => (withAiResult run t r document).map fun (t', p) => (t', some p)
  | .selectRun pending =>
    match AgentRuns.selectRun t run.userId run.id with
    | none => none
    | some current =>
      if current.currentStepCount ≥ MAX_STEPS then none
      else some (t, some (.selectStep pending current.currentStepCount))
  | .selectStep pending currentStepCount =>
    match AgentRuns.selectStep t run.id pending.toolName (reading.inputHash pending.input) with
    | some existing => some (t, some (.wait (pending.options.waitFor existing.id) existing.id))
    | none => some (t, some (.insertStep pending currentStepCount))
  | .insertStep pending currentStepCount =>
    (AgentRuns.insertStep t (newStep reading run r pending currentStepCount)).map fun t' =>
      (t', some (.wait (pending.options.waitFor r.newId) r.newId))
  | .leave status options => (transition t run.userId run.id status options).map (·, none)
  | .wait options _ => (transition t run.userId run.id .waitingTool options).map (·, none)

end

/-! ### All that happens -/

/-- What is in progress: a tick, a reader that has read an expired request, or a pass of the
worker with the requests that it has selected. -/
inductive Call
  | tick (run : AgentRun) (point : Point)
  | get (userId : ℕ) (request : Browse)
  | expire (requestIds : List ℕ)
  | clear

structure World extends Tables where
  calls : List (ℕ × Call)

inductive Label
  | time (now : ℕ)
  | begin (q : Begin)
  | answerClarification (userId runId : ℕ) (selectedCandidate : String)
  | completeTool (q : CompleteTool)
  | create (q : Browses.Create)
  | finish (q : Browses.Finish)
  | get (i : ℕ) (q : Browses.Get)
  | tick (i : ℕ)
  | scheduleExpired (i : ℕ)
  | advance (i : ℕ) (r : Reply)
  | abort (i : ℕ)

namespace World

variable (reading : Reading) (w : World)

def call (i : ℕ) : Option Call := (w.calls.find? fun x => x.1 = i).map (·.2)

def others (i : ℕ) : List (ℕ × Call) := w.calls.filter fun x => x.1 ≠ i

/-- The call `i` has done its statement, and goes on or is over. -/
def went (i : ℕ) (t : Tables) (next : Option Call) : World :=
  { toTables := t, calls := (next.map fun c => (i, c)).toList ++ w.others i }

/-- A new call under a free number. -/
def start (i : ℕ) (t : Tables) (c : Call) : Option World :=
  if w.calls.any fun x => x.1 = i then none else some (w.went i t (some c))

def advance (i : ℕ) (r : Reply) : Call → World
  | .tick run point =>
    match processQueuedAgentRun reading run w.toTables r point with
    | none => w.went i w.toTables none
    | some (t, next) => w.went i t (next.map (.tick run))
  | .get userId request => w.went i (FileBrowse.getExpired w.toTables userId request) none
  | .expire [] => w.went i (FileBrowse.expireResults w.toTables) (some .clear)
  | .expire (requestId :: rest) => w.went i (FileBrowse.expire w.toTables requestId)
      (some (.expire rest))
  | .clear => w.went i (FileBrowse.clearFailed w.toTables) none

def step (w : World) : Label → Option World
  | .time now => some { w with now := now }
  | .begin q => some { w with toTables := AgentRuns.begin w.toTables q }
  | .answerClarification userId runId selectedCandidate => some { w with
      toTables := AgentRuns.answerClarification w.toTables userId runId selectedCandidate }
  | .completeTool q => some { w with toTables := AgentRuns.completeTool w.toTables q }
  | .create q => some { w with
      toTables := ((FileBrowse.create w.toTables q).map (·.1)).getD w.toTables }
  | .finish q => some { w with toTables := FileBrowse.finish w.toTables q }
  | .get i q =>
    match FileBrowse.readExpired w.toTables q with
    | none => some w
    | some request => w.start i w.toTables (.get q.userId request)
  | .tick i =>
    match claimNext w.toTables with
    | (t, none) => some { w with toTables := t }
    | (t, some run) => w.start i t (.tick run .context)
  | .scheduleExpired i => w.start i w.toTables (.expire (FileBrowse.selectExpired w.toTables))
  | .advance i r => (w.call i).map (w.advance reading i r)
  | .abort i => (w.call i).map fun _ => w.went i w.toTables none

/-- Rooms and devices, and nothing else yet. -/
def initial (rooms : List Server.Room) (devices : List Server.Device) : World where
  now := 0
  devices := devices
  rooms := rooms
  transfers := []
  browses := []
  policies := []
  batches := []
  reservations := []
  files := []
  objectDeletionJobs := []
  cacheDeletionJobs := []
  cacheReservationDeletionJobs := []
  receipts := []
  runs := []
  steps := []
  calls := []

end World

end MouseKeeper.Chat
