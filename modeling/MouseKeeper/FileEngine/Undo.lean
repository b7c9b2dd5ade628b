import MouseKeeper.FileEngine.Journal

/-!
Undoing journaled operations, the latest first.
-/

namespace MouseKeeper.FileEngine

open Posix Trace

inductive UndoStatus
  | undone
  | skipped
  deriving DecidableEq

structure UndoResult where
  fromPath : String
  toPath : String
  status : UndoStatus
  reason : Option String
  deriving DecidableEq

structure UndoReport where
  root : String
  journalPath : String
  undoneCount : ℕ
  skippedCount : ℕ
  results : List UndoResult
  deriving DecidableEq

inductive UndoError
  | guard (error : PathGuardError)
  | journal (error : JournalError)
  | createParentDir (path : RawPath) (message : String)
  | move (src dst : RawPath) (message : String)
  | operationNotUndoable (operationId : String)
  deriving DecidableEq

/-- The row an undo writes: the operation's, turned round. -/
def undoEntry (entry : JournalEntry) (status : JournalStatus) (ms : ℕ) : JournalEntry where
  operationId := entry.operationId
  status := status
  action := entry.action
  fromPath := entry.toPath
  toPath := entry.fromPath
  createdUnixMs := ms

def undoneResult (entry : JournalEntry) (reason : Option String) : UndoResult where
  fromPath := entry.toPath
  toPath := entry.fromPath
  status := .undone
  reason := reason

def undoSkippedResult (entry : JournalEntry) (reason : Option String) : UndoResult where
  fromPath := entry.toPath
  toPath := entry.fromPath
  status := .skipped
  reason := reason

/-- What one undo comes to: a result, or the reason it is skipped for. -/
abbrev UndoItem : Type := Except String UndoResult

variable (os : Os)

/-- The row that closes the undo, and its result. -/
def recordUndone (store : JournalStore) (purpose : Purpose) (entry : JournalEntry)
    (reason : Option String) : Engine UndoError UndoItem := do
  store.append os purpose (undoEntry entry .undone)
  pure (.ok (undoneResult entry reason))

def undoCreateFile (g : PathGuard) (store : JournalStore) (entry : JournalEntry) :
    Engine UndoError UndoItem := do
  let target := join g.root entry.toPath
  if !(← Prog.read fun s => s.tree.existsAt target) then
    recordUndone os store .recovered entry
      (some "created file is already missing; recorded recovered undo")
  else if !(← Prog.read fun s => s.tree.isFileAt target) then
    pure (.error "created path is no longer a file; refusing undo")
  else if (← Prog.read fun s => lenAt s target) ≠ 0 then
    pure (.error "created file is no longer empty; refusing to delete user data")
  else do
    store.append os .row (undoEntry entry .undoPlanned)
    Prog.mapErr (fun e => .move target target e.toText)
      (fs (.undo .createFile entry.operationId) (Disk.removeFile target))
    recordUndone os store .row entry none
where
  /-- `fs::metadata(..).map(|metadata| metadata.len()).unwrap_or(1)`. -/
  lenAt (s : Sys) (raw : RawPath) : ℕ :=
    match s.tree.realpath raw with
    | .ok p => metadataLen os s p
    | .error _ => 1

/-- `read_dir` yields an entry, or fails. -/
def hasEntries (t : Tree) (raw : RawPath) : Bool :=
  match t.realpath raw with
  | .ok p => !(t.isDir p && t.childless p)
  | .error _ => true

def undoCreateDir (g : PathGuard) (store : JournalStore) (entry : JournalEntry) :
    Engine UndoError UndoItem := do
  let target := join g.root entry.toPath
  if !(← Prog.read fun s => s.tree.existsAt target) then
    recordUndone os store .recovered entry
      (some "created directory is already missing; recorded recovered undo")
  else if !(← Prog.read fun s => s.tree.isDirAt target) then
    pure (.error "created path is no longer a directory; refusing undo")
  else if ← Prog.read fun s => hasEntries s.tree target then
    pure (.error "created directory is not empty; refusing to delete user data")
  else do
    store.append os .row (undoEntry entry .undoPlanned)
    Prog.mapErr (fun e => .move target target e.toText)
      (fs (.undo .createDir entry.operationId) (Disk.removeDir target))
    recordUndone os store .row entry none

def undoReadmeWrite (g : PathGuard) (store : JournalStore) (entry : JournalEntry) :
    Engine UndoError UndoItem :=
  if entry.toPath ≠ "README.md" then
    pure (.error "README write journal target is not README.md; refusing undo")
  else do
    let target := join g.root "README.md"
    let backup := join g.root entry.fromPath
    let absent := backup.withExtension "absent"
    let purpose := Purpose.undo .readmeWrite entry.operationId
    store.append os .row (undoEntry entry .undoPlanned)
    if ← Prog.read fun s => s.tree.existsAt backup then do
      Prog.mapErr (fun e => .move backup target e.toText)
        (fs purpose (Disk.copy os.toKernel backup target))
      recordUndone os store .row entry none
    else if ← Prog.read fun s => s.tree.existsAt absent then do
      if ← Prog.read fun s => s.tree.existsAt target then do
        Prog.mapErr (fun e => .move target absent e.toText) (fs purpose (Disk.removeFile target))
      recordUndone os store .row entry none
    else pure (.error "README write backup is missing; refusing undo")

/-- The undo of a move or of a trash. -/
def undoMove (g : PathGuard) (store : JournalStore) (entry : JournalEntry) :
    Engine UndoError UndoItem := do
  match ← Prog.read fun s => g.resolveExisting s.tree entry.toPath with
  | .error error =>
    if ← Prog.read fun s => (g.resolveExisting s.tree entry.fromPath).isOk then
      recordUndone os store .recovered entry
        (some "destination missing and original path exists; recorded recovered undo")
    else pure (.error error.toText)
  | .ok current => do
    let original := join g.root entry.fromPath
    match original.parent with
    | none => Prog.throw (.guard (.missingPath original))
    | some parent => do
      Prog.mapErr (fun e => .createParentDir parent e.toText)
        (fs (.parent entry.operationId) (Disk.createDirAll os.toKernel parent))
      let original ← Prog.check fun s =>
        (g.resolveForCreate s.tree entry.fromPath).mapError .guard
      if ← Prog.read fun s => s.tree.existsAt original.raw then
        pure (.error "original path already exists; refusing to overwrite")
      else do
        store.append os .row (undoEntry entry .undoPlanned)
        Prog.mapErr (fun e => .move current.raw original.raw e.toText)
          (fs (.undo entry.action entry.operationId) (Disk.rename current.raw original.raw))
        recordUndone os store .row entry none

def undoOne (g : PathGuard) (store : JournalStore) (entry : JournalEntry) :
    Engine UndoError UndoItem :=
  match entry.action with
  | .createDir => undoCreateDir os g store entry
  | .createFile => undoCreateFile os g store entry
  | .readmeWrite => undoReadmeWrite os g store entry
  | .move | .trash => undoMove os g store entry

structure UndoTally where
  undoneCount : ℕ := 0
  skippedCount : ℕ := 0
  results : List UndoResult := []
  deriving DecidableEq

def UndoTally.undone (t : UndoTally) (r : UndoResult) : UndoTally :=
  { t with undoneCount := t.undoneCount + 1, results := t.results ++ [r] }

def UndoTally.skipped (t : UndoTally) (r : UndoResult) : UndoTally :=
  { t with skippedCount := t.skippedCount + 1, results := t.results ++ [r] }

/-- The loop's body for an entry that is to be undone. -/
def undoEntryStep (g : PathGuard) (store : JournalStore) (_index : ℕ) (entry : JournalEntry)
    (tally : UndoTally) : Engine UndoError UndoTally := do
  match ← undoOne os g store entry with
  | .ok r => pure (tally.undone r)
  | .error reason => pure (tally.skipped (undoSkippedResult entry (some reason)))

def undoneIds (entries : List JournalEntry) : List String :=
  (entries.filter (·.status = .undone)).map (·.operationId)

/-- The rows an undo goes through, the latest first. -/
def undoable (entries : List JournalEntry) (only : Option String) : List JournalEntry :=
  entries.reverse.filter fun entry =>
    only.all (· = entry.operationId) && entry.status = .executed &&
      !(undoneIds entries).contains entry.operationId

def undoWithFilter (root : RawPath) (only : Option String) : Engine UndoError UndoReport := do
  let g ← Prog.check fun s => (PathGuard.new s.tree root).mapError .guard
  let store ← Prog.mapErr .journal (JournalStore.openStore os g.root)
  let entries ← JournalStore.readAll
  let tally ← Prog.loop (undoEntryStep os g store) (undoable entries only) 0 {}
  match only with
  | some id =>
    if tally.results = [] then Prog.throw (.operationNotUndoable id)
    else pure (report g store tally)
  | none => pure (report g store tally)
where
  report (g : PathGuard) (store : JournalStore) (tally : UndoTally) : UndoReport :=
    { root := g.root.display, journalPath := store.journalPathDisplay,
      undoneCount := tally.undoneCount, skippedCount := tally.skippedCount,
      results := tally.results }

def undoRoot (root : RawPath) : Engine UndoError UndoReport := undoWithFilter os root none

def undoOperation (root : RawPath) (operationId : String) : Engine UndoError UndoReport :=
  undoWithFilter os root (some operationId)

end MouseKeeper.FileEngine
