import MouseKeeper.Contracts.FileRequests
import MouseKeeper.FileEngine.FileIndex

/-!
The lists of work that the desktop fetches from the server.

A list is validated item by item into one result, and then worked through. Agent tools are not
validated; there a report that fails ends the round.
-/

namespace MouseKeeper.Desktop.WorkLists

open Contracts (Json)

/-- The text of an identifier or of a time. -/
abbrev Token := { s : String // s ≠ "" }

/-! ### What the server returns -/

/-- A transfer that was requested with an accepted path. -/
structure PendingTransfer where
  id : Token
  roomId : Token
  expiresAt : Token
  sourceRelativePath : String
  accepted : ∃ input, Contracts.createFileTransferSchema input = some sourceRelativePath

/-- A browse request with accepted contents. -/
structure PendingBrowse where
  id : Token
  roomId : Token
  request : Contracts.FileBrowseRequest
  accepted : ∃ input, Contracts.createFileBrowseRequestSchema input = some request

structure FileTransferResponse where
  id : String
  roomId : String
  sourceRelativePath : String
  status : String
  expiresAt : String
  sizeBytes : Option ℕ
  sha256 : Option String
  failureCode : Option String
  deriving DecidableEq

structure FileBrowseRequestResponse where
  id : String
  roomId : String
  relativeDirectory : String
  cursor : Option String
  query : Option String
  extensions : List String
  limit : ℕ
  searchScope : Contracts.SearchScope
  status : String
  deriving DecidableEq

def PendingTransfer.response (t : PendingTransfer) : FileTransferResponse :=
  ⟨t.id, t.roomId, t.sourceRelativePath, "REQUESTED", t.expiresAt, none, none, none⟩

def PendingBrowse.response (b : PendingBrowse) : FileBrowseRequestResponse :=
  ⟨b.id, b.roomId, b.request.relativeDirectory, b.request.cursor, b.request.query,
    b.request.extensions, b.request.limit, b.request.searchScope, "REQUESTED"⟩

structure ServerCommand where
  id : String
  intent : String
  roomId : String
  status : String
  payload : Json

structure DecisionResponse where
  id : String
  proposalId : String
  decisionType : String

structure ProposalResponse where
  id : String
  roomId : String

structure ProposalItemResponse where
  id : String
  proposalId : String
  itemOrder : ℕ
  actionType : String
  sourceRelativePath : Option String
  destinationRelativePath : Option String
  reasonCode : String
  precondition : Json
  conflictState : String

structure PendingDecisionResponse where
  decision : DecisionResponse
  proposal : ProposalResponse
  items : List ProposalItemResponse

/-! ### Validation -/

/-- `invalid_response_error`. -/
structure AgentError where
  message : String
  deriving DecidableEq

/-- `into_iter().map(validate).collect()`. -/
def collect {α β : Type} (validate : α → Except AgentError β) : List α → Except AgentError (List β)
  | [] => .ok []
  | a :: l => do
    let b ← validate a
    let bs ← collect validate l
    .ok (b :: bs)

structure AgentFileTransfer where
  transferId : String
  roomId : String
  sourceRelativePath : String
  status : String
  expiresAt : String
  sizeBytes : Option ℕ
  sha256 : Option String
  failureCode : Option String
  deriving DecidableEq

structure AgentFileBrowseRequest where
  requestId : String
  roomId : String
  relativeDirectory : String
  cursor : Option String
  query : Option String
  extensions : List String
  limit : ℕ
  searchScope : Contracts.SearchScope
  deriving DecidableEq

/-- `len`, in bytes. -/
def len (s : String) : ℕ := s.utf8ByteSize

/-- The bytes that are letters or digits are the characters that are. -/
def fileBrowseExtensionsAreValid (extensions : List String) : Bool :=
  extensions = [] || (extensions.length ≤ 50 && extensions.all fun extension =>
    match extension.toList with
    | '.' :: rest => rest ≠ [] && rest.all Char.isAlphanum
    | _ => false)

def validateFileBrowseRequest (r : FileBrowseRequestResponse) :
    Except AgentError AgentFileBrowseRequest :=
  if r.id = "" ∨ r.roomId = "" ∨ 1024 < len r.relativeDirectory ∨
      (∃ cursor ∈ r.cursor, 512 < len cursor) ∨
      (∃ query ∈ r.query, ¬ (2 ≤ (FileEngine.trim query).toList.length ∧
        (FileEngine.trim query).toList.length ≤ 100) ∨ query ≠ FileEngine.trim query) ∨
      r.limit = 0 ∨ 200 < r.limit ∨ ¬ fileBrowseExtensionsAreValid r.extensions ∨
      (r.query = none ∧ r.extensions ≠ []) ∨ r.status ≠ "REQUESTED" then
    .error ⟨"file browse request failed response validation"⟩
  else .ok ⟨r.id, r.roomId, r.relativeDirectory, r.cursor, r.query, r.extensions, r.limit,
    r.searchScope⟩

def isValidSha256 (value : String) : Bool :=
  len value = 64 && value.toList.all fun c => c.isDigit || ('a' ≤ c && c ≤ 'f')

def transferStatuses : List String :=
  ["REQUESTED", "UPLOADING", "READY", "FAILED", "COMPLETED", "CANCELLED", "EXPIRED"]

def validateFileTransferResponse (r : FileTransferResponse) : Except AgentError AgentFileTransfer :=
  if r.id = "" ∨ r.roomId = "" ∨ r.sourceRelativePath = "" ∨ 1024 < len r.sourceRelativePath ∨
      r.expiresAt = "" ∨ r.status ∉ transferStatuses ∨
      (∃ sha256 ∈ r.sha256, ¬ isValidSha256 sha256) then
    .error ⟨"file transfer failed response validation"⟩
  else .ok ⟨r.id, r.roomId, r.sourceRelativePath, r.status, r.expiresAt, r.sizeBytes, r.sha256,
    r.failureCode⟩

structure AgentCommand where
  commandId : String
  commandType : String
  roomId : String
  status : String
  payload : Json

def commandStatuses : List String :=
  ["QUEUED", "DELIVERED", "ANALYZING", "PROPOSAL_READY", "WAITING_APPROVAL", "APPROVED", "REJECTED",
    "EXPIRED", "EXECUTING", "SUCCEEDED", "PARTIALLY_SUCCEEDED", "FAILED", "STALE"]

def validateServerCommand (r : ServerCommand) : Except AgentError AgentCommand :=
  if r.id = "" ∨ r.intent = "" ∨ r.roomId = "" ∨ r.status ∉ commandStatuses ∨
      r.payload.asObj = none then
    .error ⟨"command failed response validation"⟩
  else .ok ⟨r.id, r.intent, r.roomId, r.status, r.payload⟩

structure AgentProposalItemRecord where
  itemOrder : ℕ
  actionType : String
  sourceRelativePath : Option String
  destinationRelativePath : Option String
  reasonCode : String
  precondition : Json
  conflictState : String

def validateProposalItem (expectedProposalId : String) (item : ProposalItemResponse) :
    Except AgentError AgentProposalItemRecord :=
  if item.id = "" ∨ item.proposalId ≠ expectedProposalId ∨ item.reasonCode = "" ∨
      item.actionType ∉ ["MOVE", "QUARANTINE", "CREATE_DIR", "CREATE_FILE", "README_WRITE"] ∨
      item.conflictState ∉ ["NONE", "NAME_CONFLICT", "UNSUPPORTED"] then
    .error ⟨"proposal item failed response validation"⟩
  else .ok ⟨item.itemOrder, item.actionType, item.sourceRelativePath,
    item.destinationRelativePath, item.reasonCode, item.precondition, item.conflictState⟩

structure AgentPendingDecision where
  decisionId : String
  proposalId : String
  roomId : String
  items : List AgentProposalItemRecord

def validatePendingDecision (r : PendingDecisionResponse) :
    Except AgentError AgentPendingDecision :=
  if r.decision.id = "" ∨ r.decision.proposalId ≠ r.proposal.id ∨
      r.decision.decisionType ≠ "APPROVE" ∨ r.proposal.id = "" ∨ r.proposal.roomId = "" ∨
      r.items = [] then
    .error ⟨"pending decision failed response validation"⟩
  else do
    let items ← collect (validateProposalItem r.proposal.id) r.items
    .ok ⟨r.decision.id, r.proposal.id, r.proposal.roomId, items⟩

def pollCommands : List ServerCommand → Except AgentError (List AgentCommand) :=
  collect validateServerCommand

def validatePendingDecisions :
    List PendingDecisionResponse → Except AgentError (List AgentPendingDecision) :=
  collect validatePendingDecision

def validateFileBrowseRequests :
    List FileBrowseRequestResponse → Except AgentError (List AgentFileBrowseRequest) :=
  collect validateFileBrowseRequest

def validateFileTransfers : List FileTransferResponse → Except AgentError (List AgentFileTransfer) :=
  collect validateFileTransferResponse

/-! ### Working through a list -/

/-- The items that are worked on. The loops over commands, decisions, browse requests and
transfers put the outcome of each item into their report and go on. -/
def attended {α β : Type} (validate : List α → Except AgentError (List β)) (l : List α) : List α :=
  match validate l with
  | .ok _ => l
  | .error _ => []

/-- The tools whose outcome is reported. The loop ends at a report that fails, unless the tool is
one it does not know. -/
def processPendingAgentTools {α : Type} (supported : α → Bool) (reports : α → Bool) :
    List α → List α
  | [] => []
  | r :: rest =>
    if reports r then r :: processPendingAgentTools supported reports rest
    else if supported r then []
    else processPendingAgentTools supported reports rest

end MouseKeeper.Desktop.WorkLists
