import MouseKeeper.FileEngine.Rules

/-!
The builders of the desktop: from the payload of a command to a report with proposals.

Each builder checks the paths of its payload as text, looks at what stands there, and writes
the paths into its proposals. The work that is delegated to the engine comes through the
builders, or through a rule set that is run over a scan.
-/

namespace MouseKeeper.Desktop.Builders

open MouseKeeper.FileEngine Posix

structure RenameCommandPayload where
  sourceRelativePath : String
  newName : String

structure MoveCommandPayload where
  sourceRelativePaths : List String
  destinationRelativeDirectory : String

structure TrashCommandPayload where
  sourceRelativePaths : List String

structure CreateCommandPayload where
  kind : String
  relativePath : String
  content : Option String

/-! ### Paths -/

/-- `normalize_slashes` of a relative path. -/
def normalizeSlashes (path : String) : String := joinComponents (components (segsOf path))

def validateRemoteRelativePath (path : String) : Except String Unit :=
  if trim path = "" ∨ '\\' ∈ path.toList ∨ isAbsolute path ∨ "\\\\".toList <+: path.toList ∨
      ':' ∈ path.toList ∨ '\x00' ∈ path.toList ∨
      (splitSlash path.toList).any fun part => part = [] || part = ['.'] || part = ['.', '.'] then
    .error "remote command path must stay inside the managed root"
  else .ok ()

def normalizeRemoteFileSource (path : String) : Except String String := do
  validateRemoteRelativePath path
  .ok (normalizeSlashes path)

def normalizeRemoteRelativeDirectory (path : String) : Except String String :=
  let trimmed := trimSlashes (trim path)
  if trimmed = "" then .ok ""
  else do
    validateRemoteRelativePath trimmed
    .ok (normalizeSlashes trimmed)

def normalizeRemoteDirectoryTarget (path : String) : Except String String := do
  let normalized ← normalizeRemoteRelativeDirectory path
  if normalized = "" then .error "CREATE_DIR target must not be the managed root"
  else .ok normalized

def parentRelativeDirectory (path : String) : String :=
  match rsplitSlash path with
  | some (parent, _) => parent
  | none => ""

def reservedStems : List String :=
  ["CON", "PRN", "AUX", "NUL", "COM1", "COM2", "COM3", "COM4", "COM5", "COM6", "COM7", "COM8",
    "COM9", "LPT1", "LPT2", "LPT3", "LPT4", "LPT5", "LPT6", "LPT7", "LPT8", "LPT9"]

def validateRemoteFileName (name : String) : Except String String :=
  let trimmed := trim name
  let stem := String.ofList ((trimmed.toList.takeWhile (· ≠ '.')).map Char.toUpper)
  if trimmed = "" ∨ trimmed = "." ∨ trimmed = ".." ∨ '/' ∈ trimmed.toList ∨
      '\\' ∈ trimmed.toList ∨ '\x00' ∈ trimmed.toList ∨ trimmed.toList.getLast? = some '.' ∨
      trimmed.toList.getLast? = some ' ' ∨ stem ∈ reservedStems then
    .error "remote rename newName is not a safe file name"
  else .ok trimmed

def siblingRelativePath (sourceRelativePath newName : String) : String :=
  match rsplitSlash (normalizeSlashes sourceRelativePath) with
  | some (parent, _) => parent ++ "/" ++ newName
  | none => newName

/-! ### What stands there -/

structure Metadata where
  len : ℕ
  modifiedUnixMs : Option ℕ

variable (os : Os) (s : Sys)

def inspectRegularSourceFile (g : PathGuard) (source intent : String) : Except String Metadata := do
  let resolved ← (g.resolveExisting s.tree source).mapError PathGuardError.toText
  match s.tree.lstat (join g.root source) with
  | .error error => .error ("cannot read source metadata " ++
      RawPath.display (join g.root source) ++ ": " ++ error.toText)
  | .ok (.symlink _) => .error (intent ++ " refuses symlinks, junctions, and reparse points")
  | .ok (.dir _) => .error (intent ++ " currently supports regular files only")
  | .ok (.file content mtime _) =>
    if g.root <+: resolved then .ok ⟨content.length, mtime⟩
    else .error (intent ++ " source escaped managed root")

def sourceFileIdForPath (g : PathGuard) (source : String) : Option String :=
  match g.resolveExisting s.tree source with
  | .ok p => fileIdForPath os s p
  | .error _ => none

def ensureExistingDirectoryIsSafe (g : PathGuard) (directory : String) : Except String Unit :=
  if directory = "" then .ok ()
  else do
    let resolved ← (g.resolveExisting s.tree directory).mapError PathGuardError.toText
    match s.tree.lstat (join g.root directory) with
    | .error error => .error ("cannot inspect destination parent: " ++ error.toText)
    | .ok (.symlink _) =>
      .error "CREATE_DIR parent refuses symlinks, junctions, and reparse points"
    | .ok (.file _ _ _) => .error "CREATE_DIR parent is not a directory"
    | .ok (.dir _) =>
      if g.root <+: resolved then .ok () else .error "CREATE_DIR parent escaped managed root"

/-- The segments of a destination directory, pushed one by one. -/
def ensureSegmentsAreSafe (g : PathGuard) : RawPath → List Seg → Except String Unit
  | _, [] => .ok ()
  | current, segment :: rest =>
    let current := current ++ [segment]
    if ¬ s.tree.existsAt current then ensureSegmentsAreSafe g current rest
    else
      match s.tree.lstat current with
      | .error error => .error ("cannot inspect destination directory: " ++ error.toText)
      | .ok (.symlink _) =>
        .error "MOVE destination refuses symlinks, junctions, and reparse points"
      | .ok (.file _ _ _) => .error "MOVE destination path contains a non-directory entry"
      | .ok (.dir _) =>
        match s.tree.realpath current with
        | .error error => .error ("cannot canonicalize destination directory: " ++ error.toText)
        | .ok resolved =>
          if g.root <+: resolved then ensureSegmentsAreSafe g current rest
          else .error "MOVE destination escaped managed root"

def ensureDestinationDirectoryIsSafe (g : PathGuard) (directory : String) : Except String Unit :=
  ensureSegmentsAreSafe s g g.root.raw ((segsOf directory).filter (· ≠ .blank))

def targetStatus (g : PathGuard) (target : String) : ProposalStatus :=
  if s.tree.existsAt (join g.root target) then .destinationExists else .ready

/-! ### The builders -/

def USER_REQUESTED_RENAME_REASON : String := "USER_REQUESTED_RENAME"
def USER_REQUESTED_MOVE_REASON : String := "USER_REQUESTED_MOVE"
def USER_REQUESTED_TRASH_REASON : String := "USER_REQUESTED_TRASH"
def USER_REQUESTED_CREATE_DIR_REASON : String := "USER_REQUESTED_CREATE_DIR"
def USER_REQUESTED_CREATE_FILE_REASON : String := "USER_REQUESTED_CREATE_FILE"

def guardOf (root : RawPath) : Except String PathGuard :=
  (PathGuard.new s.tree root).mapError PathGuardError.toText

/-- The proposal for a path that is to be created. -/
def createProposal (g : PathGuard) (action : ProposalAction) (relativePath reason : String) :
    Proposal where
  proposalId := proposalId action "" relativePath
  action := action
  fromPath := ""
  toPath := relativePath
  content := none
  sourceSizeBytes := 0
  sourceModifiedUnixMs := none
  sourceFileId := none
  reason := reason
  status := targetStatus s g relativePath

def buildCreateDirectory (root : RawPath) (payload : CreateCommandPayload) :
    Except String ProposalReport :=
  if payload.content.isSome then .error "CREATE DIRECTORY must not include file content"
  else do
    let relativePath ← normalizeRemoteDirectoryTarget payload.relativePath
    let g ← guardOf s root
    ensureExistingDirectoryIsSafe s g (parentRelativeDirectory relativePath)
    .ok ⟨g.root.display,
      [createProposal s g .createDir relativePath USER_REQUESTED_CREATE_DIR_REASON]⟩

def buildCreateFile (root : RawPath) (payload : CreateCommandPayload) :
    Except String ProposalReport :=
  if payload.content.getD "" ≠ "" then .error "CREATE FILE currently supports empty files only"
  else do
    let relativePath ← normalizeRemoteFileSource payload.relativePath
    let g ← guardOf s root
    ensureExistingDirectoryIsSafe s g (parentRelativeDirectory relativePath)
    .ok ⟨g.root.display,
      [createProposal s g .createFile relativePath USER_REQUESTED_CREATE_FILE_REASON]⟩

def buildCreateProposalReport (root : RawPath) (payload : CreateCommandPayload) :
    Except String ProposalReport :=
  if payload.kind = "DIRECTORY" then buildCreateDirectory s root payload
  else if payload.kind = "FILE" then buildCreateFile s root payload
  else .error "CREATE kind must be FILE or DIRECTORY"

/-- One proposal for each source, in turn. -/
def eachSource {α : Type} (f : String → Except String α) : List String → Except String (List α)
  | [] => .ok []
  | source :: rest => do
    let a ← f source
    let l ← eachSource f rest
    .ok (a :: l)

def trashProposal (g : PathGuard) (sourceRelativePath : String) : Except String Proposal := do
  let source ← normalizeRemoteFileSource sourceRelativePath
  let metadata ← inspectRegularSourceFile s g source "TRASH"
  .ok {
    proposalId := proposalId .trash source ".mousekeeper_trash"
    action := .trash
    fromPath := source
    toPath := ".mousekeeper_trash"
    content := none
    sourceSizeBytes := metadata.len
    sourceModifiedUnixMs := metadata.modifiedUnixMs
    sourceFileId := sourceFileIdForPath os s g source
    reason := USER_REQUESTED_TRASH_REASON
    status := .ready }

def buildTrashProposalReport (root : RawPath) (payload : TrashCommandPayload) :
    Except String ProposalReport :=
  if payload.sourceRelativePaths = [] ∨ 200 < payload.sourceRelativePaths.length then
    .error "TRASH sourceRelativePaths must contain 1 to 200 paths"
  else do
    let g ← guardOf s root
    let proposals ← eachSource (trashProposal os s g) payload.sourceRelativePaths
    .ok ⟨g.root.display, proposals⟩

def buildSingleMoveProposal (g : PathGuard) (source destination reason : String) :
    Except String Proposal := do
  let metadata ← inspectRegularSourceFile s g source "MOVE"
  .ok {
    proposalId := proposalId .move source destination
    action := .move
    fromPath := source
    toPath := destination
    content := none
    sourceSizeBytes := metadata.len
    sourceModifiedUnixMs := metadata.modifiedUnixMs
    sourceFileId := sourceFileIdForPath os s g source
    reason := reason
    status := targetStatus s g destination }

/-- The last name of a source. -/
def baseName (source : String) : String :=
  match rsplitSlash source with
  | some (_, name) => name
  | none => source

def moveDestination (directory source : String) : String :=
  if directory = "" then baseName source else directory ++ "/" ++ baseName source

def moveProposal (g : PathGuard) (directory sourceRelativePath : String) :
    Except String Proposal := do
  let source ← normalizeRemoteFileSource sourceRelativePath
  let destination := moveDestination directory source
  if source = destination then .error "MOVE destination must differ from the source path"
  else buildSingleMoveProposal os s g source destination USER_REQUESTED_MOVE_REASON

def buildMoveProposalReport (root : RawPath) (payload : MoveCommandPayload) :
    Except String ProposalReport :=
  if payload.sourceRelativePaths = [] ∨ 200 < payload.sourceRelativePaths.length then
    .error "MOVE sourceRelativePaths must contain 1 to 200 paths"
  else do
    let directory ← normalizeRemoteRelativeDirectory payload.destinationRelativeDirectory
    let g ← guardOf s root
    ensureDestinationDirectoryIsSafe s g directory
    let proposals ← eachSource (moveProposal os s g directory) payload.sourceRelativePaths
    .ok ⟨g.root.display, proposals⟩

def buildRenameProposalReport (root : RawPath) (payload : RenameCommandPayload) :
    Except String ProposalReport := do
  let source ← normalizeRemoteFileSource payload.sourceRelativePath
  let newName ← validateRemoteFileName payload.newName
  let destination := siblingRelativePath source newName
  if source = destination then .error "rename newName must differ from the source file name"
  else do
    let g ← guardOf s root
    let proposal ← buildSingleMoveProposal os s g source destination USER_REQUESTED_RENAME_REASON
    .ok ⟨g.root.display, [proposal]⟩

/-! ### Delegated work -/

/-- The work that is handed to the engine: a rule set to run, or the payload of a command. -/
inductive Work
  | rules (set : RuleSet)
  | create (payload : CreateCommandPayload)
  | trash (payload : TrashCommandPayload)
  | move (payload : MoveCommandPayload)
  | rename (payload : RenameCommandPayload)

/-- The proposals that come of it. -/
def Work.report (root : RawPath) : Work → Except String ProposalReport
  | .rules set => (proposeForRootWithRuleSet os s root set).mapError ProposalError.toText
  | .create payload => buildCreateProposalReport s root payload
  | .trash payload => buildTrashProposalReport os s root payload
  | .move payload => buildMoveProposalReport os s root payload
  | .rename payload => buildRenameProposalReport os s root payload

end MouseKeeper.Desktop.Builders
