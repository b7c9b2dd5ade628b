import Mathlib.Data.List.Sort
import MouseKeeper.FileEngine.Undo

/-!
The operation history shown to the user.
-/

namespace MouseKeeper.FileEngine

open Posix Trace

structure OperationHistoryEntry where
  operationId : String
  action : JournalAction
  fromPath : String
  toPath : String
  latestStatus : JournalStatus
  createdUnixMs : ℕ
  canUndo : Bool
  undoBlockedReason : Option String
  deriving DecidableEq

structure OperationHistoryReport where
  root : String
  journalPath : String
  operations : List OperationHistoryEntry
  deriving DecidableEq

/-- Changes the first element that satisfies `p`; nothing if there is none. -/
def modifyFirst {α : Type} (p : α → Bool) (f : α → α) : List α → Option (List α)
  | [] => none
  | a :: l => if p a then some (f a :: l) else (modifyFirst p f l).map (a :: ·)

/-- Takes one journal row into the operations found so far. -/
def foldEntry (operations : List OperationHistoryEntry) (entry : JournalEntry) :
    List OperationHistoryEntry :=
  let fresh (canUndo : Bool) (reason : Option String) : OperationHistoryEntry :=
    { operationId := entry.operationId, action := entry.action, fromPath := entry.fromPath,
      toPath := entry.toPath, latestStatus := entry.status,
      createdUnixMs := entry.createdUnixMs, canUndo := canUndo, undoBlockedReason := reason }
  let same (o : OperationHistoryEntry) : Bool := o.operationId = entry.operationId
  match entry.status with
  | .planned => operations ++ [fresh false (some "operation has not been executed yet")]
  | .executed =>
    match modifyFirst same (fun o => { o with
        latestStatus := .executed, createdUnixMs := entry.createdUnixMs, canUndo := true,
        undoBlockedReason := none }) operations with
    | some operations => operations
    | none => operations ++ [fresh true none]
  | .undoPlanned =>
    (modifyFirst same (fun o => { o with
        canUndo := false, latestStatus := .undoPlanned,
        undoBlockedReason := some "undo is already in progress for this operation" })
      operations).getD operations
  | .undone =>
    (modifyFirst same (fun o => { o with
        canUndo := false, latestStatus := .undone, undoBlockedReason := some "already undone" })
      operations).getD operations

variable (os : Os)

def undoBlockedReasonFromFilesystem (s : Sys) (root : Path) (operation : OperationHistoryEntry) :
    Option String :=
  let target := join root operation.toPath
  match operation.action with
  | .readmeWrite => none
  | .createDir =>
    if !s.tree.existsAt target then none
    else if !s.tree.isDirAt target then
      some ("created path is no longer a directory (" ++ operation.toPath ++
        "); undo would be unsafe")
    else if hasEntries s.tree target then
      some ("created directory is not empty (" ++ operation.toPath ++
        "); undo would delete user data")
    else none
  | .createFile =>
    if !s.tree.existsAt target then none
    else if !s.tree.isFileAt target then
      some ("created path is no longer a file (" ++ operation.toPath ++ "); undo would be unsafe")
    else if undoCreateFile.lenAt os s target ≠ 0 then
      some ("created file is no longer empty (" ++ operation.toPath ++
        "); undo would delete user data")
    else none
  | .move | .trash =>
    let original := join root operation.fromPath
    if !s.tree.existsAt target then
      if s.tree.existsAt original then none
      else some ("moved file is missing at its expected location (" ++ operation.toPath ++ ")")
    else if s.tree.existsAt original then
      some ("original path already has a file (" ++ operation.fromPath ++
        "); undo would overwrite it")
    else none

def blockFromFilesystem (s : Sys) (root : Path) (operation : OperationHistoryEntry) :
    OperationHistoryEntry :=
  if operation.canUndo then
    match undoBlockedReasonFromFilesystem os s root operation with
    | some reason => { operation with canUndo := false, undoBlockedReason := some reason }
    | none => operation
  else operation

/-- Latest first, then by id. -/
def historyOrder (left right : OperationHistoryEntry) : Prop :=
  right.createdUnixMs < left.createdUnixMs ∨
    (left.createdUnixMs = right.createdUnixMs ∧ left.operationId ≤ right.operationId)

instance : DecidableRel historyOrder := fun left right => by
  unfold historyOrder
  infer_instance

def readOperationHistory (root : RawPath) : Engine JournalError OperationHistoryReport := do
  let g ← Prog.check fun s => (PathGuard.new s.tree root).mapError .guard
  let store ← JournalStore.openStore os g.root
  let entries ← JournalStore.readAll
  let operations ← Prog.read fun s =>
    (entries.foldl foldEntry []).map (blockFromFilesystem os s g.root)
  pure
    { root := g.root.display, journalPath := store.journalPathDisplay,
      operations := operations.insertionSort historyOrder }

end MouseKeeper.FileEngine
