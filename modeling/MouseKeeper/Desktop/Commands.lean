import Mathlib.Algebra.GroupWithZero.Nat
import MouseKeeper.FileEngine.Proposal
import MouseKeeper.Server.Commands
import MouseKeeper.Server.Proposals
import MouseKeeper.Desktop.Outbox

/-!
The desktop's processing of one command, and the delivery of what it reports.

A command is claimed by moving it to `ANALYZING`, its proposal is built from the local files,
and the proposal, or a status, is put into the outbox. What the surroundings do is given: the
payload as it was read, the root and the report that the file engine answers with, what the
local database stores, and what becomes of the claim on the network.
-/

namespace MouseKeeper.Desktop.Commands

open MouseKeeper.Server MouseKeeper.FileEngine

/-! ### Commands -/

structure OrganizeFilesPayload where
  rootId : Option String
  relativePath : Option String
  scopeRelativePath : Option String
  maxProposals : Option ℕ
  ruleMode : Option String
  userIntent : Option String
  deriving DecidableEq, Repr

def DEFAULT_MAX_PROPOSALS : ℕ := 50

namespace OrganizeFilesPayload

def scope (p : OrganizeFilesPayload) : String :=
  (p.scopeRelativePath.or p.relativePath).getD ""

def maxCount (p : OrganizeFilesPayload) : ℕ := p.maxProposals.getD DEFAULT_MAX_PROPOSALS

end OrganizeFilesPayload

/-- A payload: whether it is `{}`, what it is as the payload of an organize command, and the
root it names as the payload of one of the others. -/
structure Payload where
  isEmptyObject : Bool
  organize : Except String OrganizeFilesPayload
  rootId : Except String String

structure AgentCommand where
  commandId : ℕ
  commandType : String
  roomId : ℕ
  status : CommandStatus
  payload : Payload

def isProcessableCommandStatus (status : CommandStatus) : Bool :=
  [.queued, .delivered, .analyzing].contains status

def isSupportedCommand (commandType : String) : Bool :=
  ["ANALYZE", "RENAME", "MOVE", "TRASH", "CREATE", "ORGANIZE", "organize_files",
    "ORGANIZE_ROOT"].contains commandType

def isContractCommandWithoutDesktopHandler (commandType : String) : Bool :=
  ["FIND", "DOWNLOAD", "UPLOAD"].contains commandType

/-- The commands that are processed as one of their own payload; all other supported ones
organize. -/
def isDirect (commandType : String) : Bool :=
  ["RENAME", "MOVE", "TRASH", "CREATE"].contains commandType

def parseOrganizePayload (c : AgentCommand) : Except String OrganizeFilesPayload := do
  let payload ←
    if c.commandType = "ANALYZE" then
      if c.payload.isEmptyObject then
        .ok ⟨none, none, none, some DEFAULT_MAX_PROPOSALS, none, none⟩
      else .error "ANALYZE payload must be an empty object"
    else c.payload.organize.mapError ("invalid organize_files payload: " ++ ·)
  if ¬ (1 ≤ payload.maxCount ∧ payload.maxCount ≤ 200) then
    .error "organize_files.maxProposals must be between 1 and 200"
  else if ∃ m ∈ payload.ruleMode, m ≠ "default" ∧ m ≠ "managed_root_rules" then
    .error "organize_files.ruleMode is not supported"
  else if ∃ i ∈ payload.userIntent, i.length > 2000 then
    .error "organize_files.userIntent is too long"
  else .ok payload

def validateRelativeScope (path : String) : Except String Unit :=
  if path ≠ "" then
    .error "organize_files.relativePath is not supported until scoped analysis is implemented"
  else .ok ()

/-- What `serde_json` says of a payload that is none of the kind. -/
def parseRootId (c : AgentCommand) (kind : String) : Except String String :=
  c.payload.rootId.mapError (("invalid " ++ kind ++ " payload: ") ++ ·)

/-- All that comes before the claim: the root that the command names, and how many items its
proposal may have. -/
def parsePayload (c : AgentCommand) : Except String (Option String × ℕ) :=
  match c.commandType with
  | "RENAME" => return (some (← parseRootId c "rename"), 1)
  | "MOVE" => return (some (← parseRootId c "move"), 200)
  | "TRASH" => return (some (← parseRootId c "trash"), 200)
  | "CREATE" => return (some (← parseRootId c "create"), 1)
  | _ => do
    let payload ← parseOrganizePayload c
    validateRelativeScope payload.scope
    return (payload.rootId, payload.maxCount)

/-! ### Proposals -/

inductive AgentProposalActionType where
  | move | quarantine | createDir | createFile | readmeWrite
  deriving DecidableEq, Repr

inductive AgentProposalConflictState where
  | none | nameConflict
  deriving DecidableEq, Repr

/-- An item, without its precondition. -/
structure AgentProposalItem where
  itemOrder : ℕ
  actionType : AgentProposalActionType
  sourceRelativePath : Option String
  destinationRelativePath : Option String
  reasonCode : String
  conflictState : AgentProposalConflictState
  deriving DecidableEq, Repr

def userReasons : List String :=
  ["USER_REQUESTED_RENAME", "USER_REQUESTED_MOVE", "USER_REQUESTED_TRASH",
    "USER_REQUESTED_CREATE_DIR", "USER_REQUESTED_CREATE_FILE"]

def reasonCode (p : FileEngine.Proposal) : String :=
  if userReasons.contains p.reason then p.reason
  else match p.action with
    | .move => "RULE_MOVE_BY_EXTENSION"
    | .trash => "RULE_QUARANTINE"
    | .createDir => "RULE_CREATE_DIR"
    | .createFile => "CREATE_FILE"
    | .readmeWrite => "README_WRITE"

def proposalItem (itemOrder : ℕ) (p : FileEngine.Proposal) : AgentProposalItem where
  itemOrder
  actionType := match p.action with
    | .move => .move
    | .trash => .quarantine
    | .createDir => .createDir
    | .createFile => .createFile
    | .readmeWrite => .readmeWrite
  sourceRelativePath := match p.action with
    | .move | .trash => some p.fromPath
    | .createDir | .createFile | .readmeWrite => none
  destinationRelativePath := match p.action with
    | .move | .createDir | .createFile => some p.toPath
    | .trash => none
    | .readmeWrite => some "README.md"
  reasonCode := reasonCode p
  conflictState := match p.status with
    | .ready => .none
    | .destinationExists => .nameConflict

def buildAgentProposalSubmission (report : ProposalReport) (maxProposals : ℕ) :
    Except String (List AgentProposalItem) :=
  if 1 ≤ maxProposals ∧ maxProposals ≤ 200 then
    .ok ((report.proposals.take maxProposals).mapIdx proposalItem)
  else .error "organize_files.maxProposals must be between 1 and 200"

structure ManagedRoot where
  rootId : String
  enabled : Bool
  deriving DecidableEq, Repr

/-! ### Reports -/

/-- What processing puts into the outbox: one of two statuses, or a proposal. -/
inductive Report where
  | failed
  | succeeded
  | proposal (items : List AgentProposalItem)
  deriving DecidableEq, Repr

/-- The kind and key of its row. -/
def Report.key (commandId : ℕ) : Report → String × String
  | .failed => ("command_status", toString commandId ++ ":FAILED")
  | .succeeded => ("command_status", toString commandId ++ ":SUCCEEDED")
  | .proposal _ => ("proposal", toString commandId)

structure Row where
  report : Report
  state : Outbox.RowState
  deriving DecidableEq, Repr

/-- `insert … on conflict (kind, idempotency_key) do nothing`, among the rows of a command. -/
def enqueue (commandId : ℕ) (rows : List Row) (r : Report) : List Row :=
  if rows.any fun x => decide (x.report.key commandId = r.key commandId) then rows
  else rows ++ [⟨r, .pending⟩]

/-- What the surroundings answer: the room's root, the report built from the files, and
whether the local database stores a row. -/
structure Local where
  root : Except String ManagedRoot
  report : Except String ProposalReport
  stores : Report → Bool

/-- `let _ = enqueue …`: the error is dropped. -/
def tryEnqueue (l : Local) (commandId : ℕ) (rows : List Row) (r : Report) : List Row :=
  if l.stores r then enqueue commandId rows r else rows

/-- From the claim to the submission. -/
def buildItems (l : Local) (rootId : Option String) (maxProposals : ℕ) :
    Except String (List AgentProposalItem) := do
  let root ← l.root
  if ∃ i ∈ rootId, i ≠ root.rootId then
    .error "command rootId does not match the room binding"
  else if ¬ root.enabled then .error ("managed root is disabled: " ++ root.rootId)
  else
    let report ← l.report
    buildAgentProposalSubmission report maxProposals

/-! ### The client and the server -/

/-- The whitelist of `update_command_status`. -/
def reportedStatus : String → Option Server.Commands.Reported
  | "DELIVERED" => some .delivered
  | "ANALYZING" => some .analyzing
  | "FAILED" => some .failed
  | _ => none

/-- What becomes of a request: it is lost, or served and its answer lost, or answered. -/
inductive Reply where
  | lost | unanswered | answered
  deriving DecidableEq, Repr

variable (userId deviceId : ℕ)

/-- A status report: the tables after it, and whether the client has its answer. -/
def updateCommandStatus (commandId : ℕ) (status : String) (reply : Reply) (d : Db) : Db × Bool :=
  match reportedStatus status with
  | none => (d, false)
  | some s =>
    let t := Server.Commands.update ⟨userId, deviceId, commandId, s⟩
    match reply with
    | .lost => (d, false)
    | .unanswered => (t.alone id d, false)
    | .answered => (t.alone id d, (t.aloneAnswer id d).length = 1)

/-- The replies to the two reports of a claim. -/
structure Network where
  delivered : Reply
  analyzing : Reply

def claimCommandForAnalysis (c : AgentCommand) (n : Network) (d : Db) : Db × Bool :=
  match c.status with
  | .queued =>
    match updateCommandStatus userId deviceId c.commandId "DELIVERED" n.delivered d with
    | (d, true) => updateCommandStatus userId deviceId c.commandId "ANALYZING" n.analyzing d
    | (d, false) => (d, false)
  | .delivered => updateCommandStatus userId deviceId c.commandId "ANALYZING" n.analyzing d
  | .analyzing => (d, true)
  | _ => (d, false)

/-- A supported command: `process_…_command`, and `FAILED` for its errors. An organize
command without items reports `SUCCEEDED`. -/
def processSupported (c : AgentCommand) (l : Local) (n : Network) (d : Db) (rows : List Row) :
    Db × List Row :=
  match parsePayload c with
  | .error _ => (d, tryEnqueue l c.commandId rows .failed)
  | .ok (rootId, maxProposals) =>
    match claimCommandForAnalysis userId deviceId c n d with
    | (d, false) => (d, tryEnqueue l c.commandId rows .failed)
    | (d, true) =>
      match buildItems l rootId maxProposals with
      | .error _ => (d, tryEnqueue l c.commandId rows .failed)
      | .ok items =>
        if isDirect c.commandType = false ∧ items = [] then
          (d, tryEnqueue l c.commandId rows .succeeded)
        else if l.stores (.proposal items) then
          (d, enqueue c.commandId rows (.proposal items))
        else (d, tryEnqueue l c.commandId rows .failed)

/-- One command of `process_commands`. -/
def processCommand (c : AgentCommand) (l : Local) (n : Network) (d : Db) (rows : List Row) :
    Db × List Row :=
  if ¬ isProcessableCommandStatus c.status then (d, rows)
  else if isContractCommandWithoutDesktopHandler c.commandType then
    match claimCommandForAnalysis userId deviceId c n d with
    | (d, true) => (d, tryEnqueue l c.commandId rows .failed)
    | (d, false) => (d, rows)
  else if ¬ isSupportedCommand c.commandType then (d, rows)
  else processSupported userId deviceId c l n d rows

/-! ### Delivery -/

/-- The length of a string in JavaScript. -/
def utf16Length (s : String) : ℕ :=
  (s.toList.map fun c => if c.toNat < 65536 then 1 else 2).sum

def reservedNames : List String :=
  ["con", "prn", "aux", "nul", "com1", "com2", "com3", "com4", "com5", "com6", "com7", "com8",
    "com9", "lpt1", "lpt2", "lpt3", "lpt4", "lpt5", "lpt6", "lpt7", "lpt8", "lpt9"]

def isLineTerminator (c : Char) : Bool := [10, 13, 0x2028, 0x2029].contains c.toNat

/-- `windowsReservedFileNamePattern`. -/
def isWindowsReserved (segment : List Char) : Bool :=
  let stem := segment.takeWhile (· ≠ '.')
  reservedNames.contains (String.ofList (stem.map Char.toLower)) &&
    (segment.drop stem.length).all fun c => !isLineTerminator c

def isSafePathSegment (segment : List Char) : Bool :=
  segment.length > 0 && segment ≠ ['.'] && segment ≠ ['.', '.'] && !isWindowsReserved segment

/-- `relativePathSchema`. -/
def relativePathSchema (value : String) : Bool :=
  let l := value.toList
  1 ≤ utf16Length value && utf16Length value ≤ 1024 && !l.contains (Char.ofNat 0) &&
    l.head? ≠ some '/' && l.head? ≠ some '\\' &&
    !(l.head?.any Char.isAlpha && l[1]? = some ':') &&
    (l.splitOnP fun c => c = '/' || c = '\\').all isSafePathSegment

def proposalItemSchema (i : AgentProposalItem) : Bool :=
  i.sourceRelativePath.all relativePathSchema &&
    i.destinationRelativePath.all relativePathSchema &&
    1 ≤ utf16Length i.reasonCode && utf16Length i.reasonCode ≤ 100

/-- The sources of the items, with slashes for backslashes. -/
def normalizedSources (items : List AgentProposalItem) : List (List Char) :=
  items.filterMap fun i => i.sourceRelativePath.map fun s =>
    s.toList.map fun c => if c = '\\' then '/' else c

/-- `createProposalSchema`, as far as it is about the items: a file may appear only once. -/
def createProposalSchema (items : List AgentProposalItem) : Bool :=
  1 ≤ items.length && items.length ≤ 200 && items.all proposalItemSchema &&
    decide (normalizedSources items).Nodup

/-- The request that submits the items; the server draws the identifiers. -/
def submission (c : AgentCommand) (newId : ℕ) (newItemIds : List ℕ) : Proposals.Create :=
  ⟨userId, deviceId, toString c.commandId, c.commandId, c.roomId, none, newId, newItemIds⟩

/-- A submission that is answered. -/
def submitProposal (c : AgentCommand) (newId : ℕ) (newItemIds : List ℕ)
    (items : List AgentProposalItem) (d : Db) : Db × Bool :=
  if items = [] ∨ items.length > 200 then (d, false)
  else if createProposalSchema items then
    let t := Proposals.create (submission userId deviceId c newId newItemIds)
    (t.alone id d, (t.aloneAnswer id d).length = 1)
  else (d, false)

/-- A dispatch without a transport error: the tables after it, and whether it was accepted. -/
def dispatch (c : AgentCommand) (newId : ℕ) (newItemIds : List ℕ) (d : Db) :
    Report → Db × Bool
  | .failed => updateCommandStatus userId deviceId c.commandId "FAILED" .answered d
  | .succeeded => updateCommandStatus userId deviceId c.commandId "SUCCEEDED" .answered d
  | .proposal items => submitProposal userId deviceId c newId newItemIds items d

/-- A flush without transport errors: what is refused is given up. -/
def flushOutbox (c : AgentCommand) (newId : ℕ) (newItemIds : List ℕ) :
    List Row → Db → Db × List Row
  | [], d => (d, [])
  | x :: rows, d =>
    if x.state = .pending then
      let r := dispatch userId deviceId c newId newItemIds d x.report
      let rest := flushOutbox c newId newItemIds rows r.1
      (rest.1, { x with state := if r.2 then .sent else .failed } :: rest.2)
    else
      let rest := flushOutbox c newId newItemIds rows d
      (rest.1, x :: rest.2)

end MouseKeeper.Desktop.Commands
