import MouseKeeper.FileEngine.Journal

/-!
Moving a file to the trash.
-/

namespace MouseKeeper.FileEngine

open Posix Trace

def TRASHED_FILE_NAME : String := "file"

def TRASH_METADATA_FILE_NAME : String := "original.json"

inductive TrashError
  | guard (error : PathGuardError)
  | journal (error : JournalError)
  | metadata (path : RawPath) (message : String)
  | notAFile (path : RawPath)
  | blockedLinkOrReparse (path : RawPath)
  | createTrashDir (path : RawPath) (message : String)
  | writeMetadata (path : RawPath) (message : String)
  | destinationExists (path : RawPath)
  | move (src dst : RawPath) (message : String)
  deriving DecidableEq

def TrashError.toText : TrashError → String
  | .guard error => error.toText
  | .journal error => error.toText
  | .metadata path message => "cannot read metadata " ++ path.display ++ ": " ++ message
  | .notAFile path => "trash target is not a file: " ++ path.display
  | .blockedLinkOrReparse path =>
    "refusing to trash symlink, junction, or reparse point: " ++ path.display
  | .createTrashDir path message =>
    "cannot create trash directory " ++ path.display ++ ": " ++ message
  | .writeMetadata path message =>
    "cannot write trash metadata " ++ path.display ++ ": " ++ message
  | .destinationExists path => "trash destination already exists: " ++ path.display
  | .move src dst message =>
    "cannot move " ++ src.display ++ " to trash " ++ dst.display ++ ": " ++ message

structure TrashReport where
  root : String
  journalPath : String
  operationId : String
  originalPath : String
  trashedPath : String
  metadataPath : String
  deriving DecidableEq

def trashId (nanos : ℕ) : String := "trash-" ++ toString nanos

def trashRelativeDir (id : String) : String := TRASH_DIR ++ "/" ++ id

def trashedRelativePath (id : String) : String := trashRelativeDir id ++ "/" ++ TRASHED_FILE_NAME

def metadataRelativePath (id : String) : String :=
  trashRelativeDir id ++ "/" ++ TRASH_METADATA_FILE_NAME

def trashEntry (id : String) (status : JournalStatus) (src dst : String) (createdUnixMs : ℕ) :
    JournalEntry where
  operationId := id
  status := status
  action := .trash
  fromPath := src
  toPath := dst
  createdUnixMs := createdUnixMs

variable (os : Os)

/-- The file a trash call takes away: its place, length and time. -/
def trashSource (g : PathGuard) (t : Tree) (relativePath : String) :
    Except TrashError (Path × ℕ × Option ℕ) := do
  let source ← (g.resolveExisting t relativePath).mapError .guard
  let raw := join g.root relativePath
  match ← (t.lstat raw).mapError fun e => .metadata raw e.toText with
  | .symlink _ => .error (.blockedLinkOrReparse raw)
  | .dir _ => .error (.notAFile raw)
  | .file c m _ => .ok (source, c.length, m)

/-- A place in the trash that nothing is at yet. -/
def trashFree (g : PathGuard) (t : Tree) (relative : String) : Except TrashError Path := do
  let p ← (g.resolveForCreate t relative).mapError .guard
  if t.existsAt p.raw then .error (.destinationExists p.raw) else .ok p

def trashFile (root : RawPath) (relativePath : String) : Engine TrashError TrashReport := do
  let g ← Prog.check fun s => (PathGuard.new s.tree root).mapError .guard
  let (source, sizeBytes, modified) ← Prog.check fun s => trashSource g s.tree relativePath
  let store ← Prog.mapErr .journal (JournalStore.openStore os g.root)
  let createdUnixMs ← Prog.read (rowMs os)
  let id ← Prog.read fun s => trashId (unixNanos os s)
  let trashed := trashedRelativePath id
  store.append os .row fun _ => trashEntry id .planned relativePath trashed createdUnixMs
  let trashDir := join g.root (trashRelativeDir id)
  Prog.mapErr (fun e => .createTrashDir trashDir e.toText)
    (fs (.parent id) (Disk.createDirAll os.toKernel trashDir))
  let trashedPath ← Prog.check fun s => trashFree g s.tree trashed
  let metadataPath ← Prog.check fun s => trashFree g s.tree (metadataRelativePath id)
  let json := os.toStringPretty
    { operationId := id, originalPath := relativePath, trashedPath := trashed,
      sizeBytes := sizeBytes, modifiedUnixMs := modified, trashedUnixMs := createdUnixMs }
  Prog.mapErr (fun e => .writeMetadata metadataPath.raw e.toText)
    (fs (.metadata id) (Disk.write os.toKernel metadataPath.raw json))
  Prog.mapErr (fun e => .move source.raw trashedPath.raw e.toText)
    (fs (.target .trash id) (Disk.rename source.raw trashedPath.raw))
  store.append os .row fun ms => trashEntry id .executed relativePath trashed ms
  pure
    { root := g.root.display, journalPath := store.journalPathDisplay, operationId := id,
      originalPath := relativePath, trashedPath := trashed,
      metadataPath := metadataRelativePath id }

end MouseKeeper.FileEngine
