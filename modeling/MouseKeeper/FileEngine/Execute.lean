import MouseKeeper.FileEngine.Proposal
import MouseKeeper.FileEngine.Trash

/-!
Executing a batch of proposals.

All proposals are checked first. The items are then taken in order: each one journals its
plan, does its work and journals that it is done. An item may be skipped with a reason;
an error ends the batch.
-/

namespace MouseKeeper.FileEngine

open Posix Trace

inductive ExecuteStatus
  | executed
  | skipped
  | rejected
  deriving DecidableEq

structure ExecuteResult where
  action : ProposalAction
  fromPath : String
  toPath : String
  status : ExecuteStatus
  reason : Option String
  deriving DecidableEq

structure ExecuteReport where
  root : String
  journalPath : String
  executedCount : ℕ
  skippedCount : ℕ
  rejectedCount : ℕ
  results : List ExecuteResult
  deriving DecidableEq

inductive ExecuteError
  | guard (error : PathGuardError)
  | precheck (error : PrecheckError)
  | journal (error : JournalError)
  | createParentDir (path : RawPath) (message : String)
  | move (src dst : RawPath) (message : String)
  | write (path : RawPath) (message : String)
  | trash (error : TrashError)
  deriving DecidableEq

def ProposalAction.journalAction : ProposalAction → JournalAction
  | .move => .move
  | .trash => .trash
  | .createDir => .createDir
  | .createFile => .createFile
  | .readmeWrite => .readmeWrite

def opId (ms index : ℕ) : String := "op-" ++ toString ms ++ "-" ++ toString index

def journalEntry (id : String) (status : JournalStatus) (check : PrecheckResult) (ms : ℕ) :
    JournalEntry where
  operationId := id
  status := status
  action := check.action.journalAction
  fromPath := check.fromPath
  toPath := check.toPath
  createdUnixMs := ms

def readmeJournalEntry (id : String) (status : JournalStatus) (src dst : String) (ms : ℕ) :
    JournalEntry where
  operationId := id
  status := status
  action := .readmeWrite
  fromPath := src
  toPath := dst
  createdUnixMs := ms

def executedResult (check : PrecheckResult) : ExecuteResult where
  action := check.action
  fromPath := check.fromPath
  toPath := check.toPath
  status := .executed
  reason := none

def skippedResult (check : PrecheckResult) (reason : Option String) : ExecuteResult where
  action := check.action
  fromPath := check.fromPath
  toPath := check.toPath
  status := .skipped
  reason := reason

/-- What an item comes to: a result, or the reason it is skipped for. -/
abbrev ItemResult : Type := Except String ExecuteResult

def contentBytes (content : String) : Content := content.toUTF8.toList

def backupRelative (id : String) : String := ".mousekeeper/readme_backups/" ++ id ++ ".bak"

def absentRelative (id : String) : String := ".mousekeeper/readme_backups/" ++ id ++ ".absent"

variable (os : Os)

/-! ### One executor for each action -/

def executeCreateDir (g : PathGuard) (store : JournalStore) (check : PrecheckResult)
    (index : ℕ) : Engine ExecuteError ItemResult := do
  let id ← Prog.read fun s => opId (unixMs os s) index
  store.append os .row (journalEntry id .planned check)
  match ← Prog.read fun s => g.resolveForCreate s.tree check.toPath with
  | .error error => pure (.error error.toText)
  | .ok target =>
    if ← Prog.read fun s => s.tree.existsAt target.raw then
      pure (.error "directory appeared before create; refusing to overwrite")
    else do
      Prog.mapErr (fun e => .createParentDir target.raw e.toText)
        (fs (.target .createDir id) (Disk.mkdir os.toKernel target.raw))
      store.append os .row (journalEntry id .executed check)
      pure (.ok (executedResult check))

def executeCreateFile (g : PathGuard) (store : JournalStore) (check : PrecheckResult)
    (index : ℕ) : Engine ExecuteError ItemResult := do
  let id ← Prog.read fun s => opId (unixMs os s) index
  store.append os .row (journalEntry id .planned check)
  if hasContent check.content then
    pure (.error "CREATE_FILE currently supports empty files only")
  else
    match ← Prog.read fun s => g.resolveForCreate s.tree check.toPath with
    | .error error => pure (.error error.toText)
    | .ok target =>
      match ← Prog.attempt (fs (.target .createFile id) (Disk.createNew os.toKernel target.raw)) with
      | .ok _ => do
        store.append os .row (journalEntry id .executed check)
        pure (.ok (executedResult check))
      | .error e => do
        if ← Prog.read fun s => s.tree.existsAt target.raw then
          pure (.error "file appeared before create; refusing to overwrite")
        else Prog.throw (.write target.raw e.toText)

/-- The copy of `README.md`, or the mark that there was none. -/
def backupReadme (g : PathGuard) (id : String) : Engine ExecuteError Unit := do
  let target := join g.root "README.md"
  let backup := join g.root (backupRelative id)
  let absent := join g.root (absentRelative id)
  match backup.parent with
  | none => pure ()
  | some parent =>
    Prog.mapErr (fun e => .createParentDir parent e.toText)
      (fs (.parent id) (Disk.createDirAll os.toKernel parent))
  if ← Prog.read fun s => s.tree.existsAt target then
    Prog.mapErr (fun e => .write backup e.toText)
      (fs (.backup id) (Disk.copy os.toKernel target backup))
  else
    Prog.mapErr (fun e => .write absent e.toText)
      (fs (.absent id) (Disk.write os.toKernel absent []))

def executeReadmeWrite (g : PathGuard) (store : JournalStore) (check : PrecheckResult)
    (index : ℕ) : Engine ExecuteError ItemResult := do
  if check.fromPath ≠ "README.md" ∨ check.toPath ≠ "README.md" then
    pure (.error "README_WRITE may only target README.md at the managed-root root")
  else
    match check.content with
    | none => pure (.error "README_WRITE is missing approved content")
    | some content => do
      let id ← Prog.read fun s => opId (unixMs os s) index
      let target := join g.root "README.md"
      backupReadme os g id
      store.append os .row (readmeJournalEntry id .planned (backupRelative id) "README.md")
      Prog.mapErr (fun e => .write target e.toText)
        (fs (.target .readmeWrite id) (Disk.write os.toKernel target (contentBytes content)))
      store.append os .row (readmeJournalEntry id .executed (backupRelative id) "README.md")
      pure (.ok { executedResult check with fromPath := "README.md", toPath := "README.md" })

def executeMove (g : PathGuard) (store : JournalStore) (check : PrecheckResult)
    (index : ℕ) : Engine ExecuteError ItemResult := do
  let id ← Prog.read fun s => opId (unixMs os s) index
  store.append os .row (journalEntry id .planned check)
  match ← Prog.read fun s => g.resolveExisting s.tree check.fromPath with
  | .error error => pure (.error error.toText)
  | .ok source =>
    -- the parent is made before the guard has looked at the destination
    let destination := join g.root check.toPath
    match destination.parent with
    | none => Prog.throw (.guard (.missingPath destination))
    | some parent => do
      Prog.mapErr (fun e => .createParentDir parent e.toText)
        (fs (.parent id) (Disk.createDirAll os.toKernel parent))
      let destination ← Prog.check fun s =>
        (g.resolveForCreate s.tree check.toPath).mapError .guard
      if ← Prog.read fun s => s.tree.existsAt destination.raw then
        pure (.error "destination appeared before move; refusing to overwrite")
      else do
        Prog.mapErr (fun e => .move source.raw destination.raw e.toText)
          (fs (.target .move id) (Disk.rename source.raw destination.raw))
        store.append os .row (journalEntry id .executed check)
        pure (.ok (executedResult check))

def executeTrash (g : PathGuard) (check : PrecheckResult) : Engine ExecuteError ItemResult := do
  let report ← Prog.mapErr .trash (trashFile os g.root.raw check.fromPath)
  pure (.ok { executedResult check with toPath := report.trashedPath })

/-! ### Moves a crash left half journaled -/

/-- Statuses that close a planned row for good. -/
def JournalStatus.completes : JournalStatus → Bool
  | .executed | .undone | .undoPlanned => true
  | .planned => false

def completedIds (entries : List JournalEntry) : List String :=
  (entries.filter (·.status.completes)).map (·.operationId)

def pendingPlannedOperation (entries : List JournalEntry) (src dst : String) : Option String :=
  (entries.reverse.find? fun entry =>
    entry.status = .planned && entry.action = .move && entry.fromPath = src &&
      entry.toPath = dst && !(completedIds entries).contains entry.operationId).map
    (·.operationId)

def recoverPlannedMove (g : PathGuard) (priorEntries : List JournalEntry) (store : JournalStore)
    (check : PrecheckResult) : Engine ExecuteError (Option ExecuteResult) :=
  if check.status ≠ .missingSource then pure none
  else
    match pendingPlannedOperation priorEntries check.fromPath check.toPath with
    | none => pure none
    | some id => do
      if ← Prog.read fun s => (g.resolveExisting s.tree check.toPath).isOk then do
        store.append os .recovered (journalEntry id .executed check)
        pure (some { executedResult check with
          reason := some "source missing and destination exists; recorded recovered execute" })
      else pure none

/-! ### The batch -/

/-- One item that passed its check. -/
def executeReady (g : PathGuard) (store : JournalStore) (check : PrecheckResult) (index : ℕ) :
    Engine ExecuteError ItemResult :=
  match check.action with
  | .move => executeMove os g store check index
  | .trash => executeTrash os g check
  | .createDir => executeCreateDir os g store check index
  | .createFile => executeCreateFile os g store check index
  | .readmeWrite => executeReadmeWrite os g store check index

structure Tally where
  executedCount : ℕ := 0
  skippedCount : ℕ := 0
  results : List ExecuteResult := []

def Tally.executed (t : Tally) (r : ExecuteResult) : Tally :=
  { t with executedCount := t.executedCount + 1, results := t.results ++ [r] }

def Tally.skipped (t : Tally) (r : ExecuteResult) : Tally :=
  { t with skippedCount := t.skippedCount + 1, results := t.results ++ [r] }

/-- The loop's body. -/
def executeCheck (g : PathGuard) (priorEntries : List JournalEntry) (store : JournalStore)
    (index : ℕ) (check : PrecheckResult) (tally : Tally) : Engine ExecuteError Tally := do
  if check.status ≠ .ready then
    match ← recoverPlannedMove os g priorEntries store check with
    | some r => pure (tally.executed r)
    | none => pure (tally.skipped (skippedResult check check.reason))
  else
    match ← executeReady os g store check index with
    | .ok r => pure (tally.executed r)
    | .error reason => pure (tally.skipped (skippedResult check (some reason)))

def executePrechecked (g : PathGuard) (precheck : PrecheckReport) :
    Engine ExecuteError ExecuteReport := do
  let store ← Prog.mapErr .journal (JournalStore.openStore os g.root)
  let priorEntries ← JournalStore.readAll
  let tally ← Prog.loop (executeCheck os g priorEntries store) precheck.checks 0 {}
  pure
    { root := precheck.root, journalPath := store.journalPathDisplay,
      executedCount := tally.executedCount, skippedCount := tally.skippedCount,
      rejectedCount := 0, results := tally.results }

def executeProposals (root : RawPath) (report : ProposalReport) :
    Engine ExecuteError ExecuteReport := do
  let g ← Prog.check fun s => (PathGuard.new s.tree root).mapError .guard
  let precheck ← Prog.check fun s => (precheckProposals os g s report).mapError .precheck
  executePrechecked os g precheck

end MouseKeeper.FileEngine
