import MouseKeeper.FileEngine.Journal

/-!
Proposals, and the check each one passes before a batch is executed.
-/

namespace MouseKeeper.FileEngine

open Posix

inductive ProposalAction
  | move
  | trash
  | createDir
  | createFile
  | readmeWrite
  deriving DecidableEq

inductive ProposalStatus
  | ready
  | destinationExists
  deriving DecidableEq

structure Proposal where
  proposalId : String
  action : ProposalAction
  fromPath : String
  toPath : String
  content : Option String
  sourceSizeBytes : ℕ
  sourceModifiedUnixMs : Option ℕ
  sourceFileId : Option String
  reason : String
  status : ProposalStatus
  deriving DecidableEq

/-- A ready proposal for a file of the given size and time. -/
def Proposal.plain (action : ProposalAction) (src dst : String) (size : ℕ) (mtime : Option ℕ) :
    Proposal where
  proposalId := ""
  action := action
  fromPath := src
  toPath := dst
  content := none
  sourceSizeBytes := size
  sourceModifiedUnixMs := mtime
  sourceFileId := none
  reason := ""
  status := .ready

structure ProposalReport where
  root : String
  proposals : List Proposal
  deriving DecidableEq

inductive PrecheckStatus
  | ready
  | destinationExists
  | missingSource
  | sourceChanged
  | rejectedPath
  deriving DecidableEq

structure PrecheckResult where
  action : ProposalAction
  fromPath : String
  toPath : String
  content : Option String
  status : PrecheckStatus
  reason : Option String
  deriving DecidableEq

structure PrecheckReport where
  root : String
  checks : List PrecheckResult
  deriving DecidableEq

inductive PrecheckError
  | guard (error : PathGuardError)
  | rootMismatch (expected actual : String)
  deriving DecidableEq

/-- `content.as_deref().unwrap_or_default() != ""`. -/
def hasContent (content : Option String) : Bool := content.getD "" != ""

variable (os : Os)

def sourceIdentityChangeReason (s : Sys) (path : Path) (proposal : Proposal) : Option String :=
  match proposal.sourceFileId with
  | none => none
  | some expected =>
    match fileIdForPath os s path with
    | some current =>
      if current = expected then none else some "source file identity changed since proposal"
    | none => some "source file identity is unavailable during precheck"

def result (proposal : Proposal) (status : PrecheckStatus) (reason : Option String) :
    PrecheckResult where
  action := proposal.action
  fromPath := proposal.fromPath
  toPath := proposal.toPath
  content := proposal.content
  status := status
  reason := reason

/-- The check of a proposal that creates `what` at a free path. -/
def precheckTarget (g : PathGuard) (s : Sys) (proposal : Proposal) (exists_ : String) :
    PrecheckResult :=
  match g.resolveForCreate s.tree proposal.toPath with
  | .error error => result proposal .rejectedPath (some error.toText)
  | .ok target =>
    if s.tree.existsAt target.raw then result proposal .destinationExists (some exists_)
    else result proposal .ready none

def isBareDots (path : String) : Bool := path = "" || path = "." || path = ".."

def precheckCreateDir (g : PathGuard) (s : Sys) (proposal : Proposal) : PrecheckResult :=
  if isBareDots proposal.toPath then
    result proposal .rejectedPath (some "CREATE_DIR target must be a relative directory path")
  else
    precheckTarget g s proposal "directory already exists; execution must not overwrite it"

def precheckCreateFile (g : PathGuard) (s : Sys) (proposal : Proposal) : PrecheckResult :=
  if isBareDots proposal.toPath then
    result proposal .rejectedPath (some "CREATE_FILE target must be a relative file path")
  else if hasContent proposal.content then
    result proposal .rejectedPath (some "CREATE_FILE currently supports empty files only")
  else precheckTarget g s proposal "file already exists; execution must not overwrite it"

/-- Size, time and identity of the file at `path` against what the proposal recorded. -/
def precheckVersion (s : Sys) (proposal : Proposal) (path : Path) (changed : String) :
    PrecheckResult :=
  match sourceIdentityChangeReason os s path proposal with
  | some reason => result proposal .sourceChanged (some reason)
  | none =>
    if metadataLen os s path ≠ proposal.sourceSizeBytes ∨
        modifiedUnixMs os s path ≠ proposal.sourceModifiedUnixMs then
      result proposal .sourceChanged (some changed)
    else result proposal .ready none

def precheckReadmeWrite (g : PathGuard) (s : Sys) (proposal : Proposal) : PrecheckResult :=
  if proposal.fromPath ≠ "README.md" ∨ proposal.toPath ≠ "README.md" then
    result proposal .rejectedPath
      (some "README_WRITE may only target README.md at the managed-root root")
  else if proposal.content.isNone then
    result proposal .rejectedPath (some "README_WRITE proposal is missing approved content")
  else if isLink then
    result proposal .rejectedPath (some "README.md is a symlink, junction, or reparse point")
  else
    match g.resolveExisting s.tree "README.md" with
    | .error (.missingPath _) =>
      if proposal.sourceSizeBytes = 0 ∧ proposal.sourceModifiedUnixMs.isNone ∧
          proposal.sourceFileId.isNone then
        result proposal .ready none
      else result proposal .missingSource (some "README.md no longer exists")
    | .error error => result proposal .rejectedPath (some error.toText)
    | .ok target => precheckVersion os s proposal target "README.md changed since proposal"
where
  /-- `symlink_metadata` of `README.md` says link. -/
  isLink : Bool :=
    match s.tree.lstat (join g.root "README.md") with
    | .ok node => node.isSymlink
    | .error _ => false

/-- The check of a proposal that takes its source away. -/
def precheckSource (g : PathGuard) (s : Sys) (proposal : Proposal) : PrecheckResult :=
  match g.resolveExisting s.tree proposal.fromPath with
  | .error (.missingPath _) =>
    result proposal .missingSource (some "source file no longer exists")
  | .error error => result proposal .rejectedPath (some error.toText)
  | .ok source =>
    precheckVersion os s proposal source "source size or modified time changed since proposal"

def precheckProposal (g : PathGuard) (s : Sys) (proposal : Proposal) : PrecheckResult :=
  if proposal.status = .destinationExists then
    result proposal .destinationExists
      (some "destination already exists; execution must not overwrite it")
  else
    match proposal.action with
    | .createDir => precheckCreateDir g s proposal
    | .createFile => precheckCreateFile g s proposal
    | .readmeWrite => precheckReadmeWrite os g s proposal
    | .move | .trash => precheckSource os g s proposal

/-- `precheck_proposals`, the guard being made already. -/
def precheckProposals (g : PathGuard) (s : Sys) (report : ProposalReport) :
    Except PrecheckError PrecheckReport :=
  if report.root ≠ g.root.display then .error (.rootMismatch g.root.display report.root)
  else .ok ⟨report.root, report.proposals.map (precheckProposal os g s)⟩

/-! ### What a check says -/

variable {os} {g : PathGuard} {s : Sys} {proposal : Proposal}

/-- A check carries its proposal's action, paths and content. -/
def Checks (proposal : Proposal) (check : PrecheckResult) : Prop :=
  ∃ status reason, check = result proposal status reason

lemma checks_result (status : PrecheckStatus) (reason : Option String) :
    Checks proposal (result proposal status reason) := ⟨_, _, rfl⟩

lemma checks_ite {c : Prop} [Decidable c] {a b : PrecheckResult} (ha : Checks proposal a)
    (hb : Checks proposal b) : Checks proposal (if c then a else b) := by
  by_cases h : c
  · rwa [if_pos h]
  · rwa [if_neg h]

lemma checks_target {what : String} : Checks proposal (precheckTarget g s proposal what) := by
  unfold precheckTarget
  split
  · exact checks_result _ _
  · exact checks_ite (checks_result _ _) (checks_result _ _)

lemma checks_version {path : Path} {changed : String} :
    Checks proposal (precheckVersion os s proposal path changed) := by
  unfold precheckVersion
  split
  · exact checks_result _ _
  · exact checks_ite (checks_result _ _) (checks_result _ _)

lemma checks_precheckProposal (os : Os) (g : PathGuard) (s : Sys) (proposal : Proposal) :
    Checks proposal (precheckProposal os g s proposal) := by
  unfold precheckProposal
  refine checks_ite (checks_result _ _) ?_
  cases proposal.action with
  | createDir => exact checks_ite (checks_result _ _) checks_target
  | createFile =>
    exact checks_ite (checks_result _ _) (checks_ite (checks_result _ _) checks_target)
  | readmeWrite =>
    refine checks_ite (checks_result _ _) (checks_ite (checks_result _ _)
      (checks_ite (checks_result _ _) ?_))
    split
    · exact checks_ite (checks_result _ _) (checks_result _ _)
    · exact checks_result _ _
    · exact checks_version
  | move | trash =>
    unfold precheckSource
    dsimp only
    split
    · exact checks_result _ _
    · exact checks_result _ _
    · exact checks_version

lemma precheckProposal_action :
    (precheckProposal os g s proposal).action = proposal.action := by
  obtain ⟨_, _, h⟩ := checks_precheckProposal os g s proposal
  rw [h]
  rfl

end MouseKeeper.FileEngine
