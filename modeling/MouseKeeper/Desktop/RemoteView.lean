import MouseKeeper.Contracts.SmartCache
import MouseKeeper.FileEngine.Browse
import MouseKeeper.FileEngine.Rules
import MouseKeeper.FileEngine.SearchPages

/-!
What the desktop shows of a managed root to a remote device.

A directory is listed, the index is searched, a file is offered for a transfer and a document
is read. Names that look like credentials or unfinished downloads are left out of the lists,
and so are the engine's own directories. A place is hidden if one of the names on its way from
the root is such a name. Times are kept as numbers.
-/

namespace MouseKeeper.Desktop.RemoteView

open Posix FileEngine
open Contracts (hexLower)

inductive AgentFileBrowseFailureCode
  | deviceOffline | timedOut | cursorInvalidated | outsideManagedRoot
  deriving DecidableEq

structure BuildFileBrowseError where
  failureCode : AgentFileBrowseFailureCode
  message : String
  deriving DecidableEq

structure AgentFileBrowseEntry where
  name : String
  relativePath : String
  isDirectory : Bool
  sizeBytes : Option ℕ
  modifiedUnixMs : Option ℕ
  fileId : String
  deriving DecidableEq

structure AgentFileBrowseResult where
  entries : List AgentFileBrowseEntry
  nextCursor : Option String
  desktopGeneration : String
  deriving DecidableEq

def PAGE_SIZE : ℕ := 200

/-! ### Names -/

def contains (name part : String) : Bool := decide (part.toList <:+: name.toList)

def endsWith (name part : String) : Bool := part.toList.isSuffixOf name.toList

def isRemotelyBrowsableName (name : String) : Bool :=
  let name := toAsciiLowercase name
  if name = ".mousekeeper" ∨ name = ".mousekeeper_trash" then false
  else if [".tmp", ".crdownload", ".part", ".lock", ".download"].any (endsWith name) then false
  else if ["credential", "password", "secret", "token"].any (contains name) ||
      [".key", ".pem", ".p12", ".pfx"].any (endsWith name) then false
  else true

/-- A name on the way is one that the remote view leaves out. -/
def Hidden (relativePath : String) : Prop :=
  ∃ name ∈ splitSlash relativePath.toList, isRemotelyBrowsableName (String.ofList name) = false

instance : DecidablePred Hidden := fun _ => by unfold Hidden; infer_instance

/-! ### Lists -/

def validatePageLimit (limit : ℕ) : Except BuildFileBrowseError Unit :=
  if 1 ≤ limit ∧ limit ≤ PAGE_SIZE then .ok ()
  else .error ⟨.cursorInvalidated, "file browse limit must be between 1 and 200"⟩

/-- The value of a digit in a radix up to 16. -/
def digit (radix : ℕ) (c : Char) : Option ℕ :=
  let d :=
    if c.isDigit then c.toNat - '0'.toNat
    else if 'a' ≤ c ∧ c ≤ 'f' then c.toNat - 'a'.toNat + 10
    else if 'A' ≤ c ∧ c ≤ 'F' then c.toNat - 'A'.toNat + 10
    else radix
  if d < radix then some d else none

/-- An unsigned number of 64 bits; a plus may stand before it. -/
def parseUnsigned (radix : ℕ) (l : List Char) : Option ℕ := do
  let digits := match l with
    | '+' :: rest => rest
    | l => l
  if digits = [] then none
  else
    let n ← digits.foldlM (fun n c => (digit radix c).map (n * radix + ·)) 0
    if n < 2 ^ 64 then some n else none

def parseCursor (cursor : Option String) : Except BuildFileBrowseError ℕ :=
  match cursor with
  | none | some "" => .ok 0
  | some raw =>
    let rawOffset :=
      if "offset:".toList.isPrefixOf raw.toList then raw.toList.drop 7 else raw.toList
    match parseUnsigned 10 rawOffset with
    | some offset => .ok offset
    | none => .error ⟨.cursorInvalidated, "file browse cursor must be an offset cursor"⟩

def mapBrowseError (error : BrowseError) : BuildFileBrowseError :=
  ⟨.outsideManagedRoot, error.toText⟩

def stableFileIdParts (relativePath : String) (isDir : Bool) (sizeBytes modifiedUnixMs : Option ℕ) :
    String :=
  let modified := (modifiedUnixMs.map toString).getD "unknown"
  let size := (sizeBytes.map toString).getD "dir"
  "hm:" ++ hex16 (fnv1a64 (relativePath ++ "|" ++ toString isDir ++ "|" ++ size ++ "|" ++
    modified).toUTF8.data.toList).toNat

def remoteEntry (e : BrowseEntry) : AgentFileBrowseEntry :=
  ⟨e.name, e.path, e.isDir, e.sizeBytes, e.modifiedUnixMs,
    stableFileIdParts e.path e.isDir e.sizeBytes e.modifiedUnixMs⟩

variable (os : Os) (s : Sys)

def buildResultPageLimited (root : RawPath) (relativeDirectory : String) (cursor : Option String)
    (limit : ℕ) : Except BuildFileBrowseError AgentFileBrowseResult := do
  validatePageLimit limit
  let offset ← parseCursor cursor
  let report ← (browseRoot os s root (some relativeDirectory)).mapError mapBrowseError
  let entries := report.entries.filter fun e => isRemotelyBrowsableName e.name
  if entries.length < offset then
    .error ⟨.cursorInvalidated, "file browse cursor is no longer valid for this directory"⟩
  else
    let page := ((entries.drop offset).take limit).map remoteEntry
    let nextOffset := offset + page.length
    return {
      entries := page
      nextCursor :=
        if nextOffset < entries.length then some ("offset:" ++ toString nextOffset) else none
      desktopGeneration := toString (unixMs os s) }

/-! ### Searches -/

structure SearchRequest where
  relativeDirectory : String
  query : String
  scope : IndexedSearchScope
  cursor : Option String
  limit : ℕ
  extensions : List String

def searchFingerprint (lower : String → String) (r : SearchRequest) : ℕ :=
  let extensions := (r.extensions.map toAsciiLowercase).mergeSort fun a b => a ≤ b
  let directory := r.relativeDirectory.map fun c => if c = '\\' then '/' else c
  let scope := match r.scope with
    | .currentDirectory => "CurrentDirectory"
    | .managedRoot => "ManagedRoot"
  (fnv1a64 (directory ++ "|" ++ lower r.query ++ "|" ++ scope ++ "|" ++ toString r.limit ++ "|" ++
    ",".intercalate extensions).toUTF8.data.toList).toNat

def parseSearchCursor (cursor : Option String) (fingerprint : ℕ) :
    Except BuildFileBrowseError (Option ℕ × ℕ) :=
  let mismatch : BuildFileBrowseError :=
    ⟨.cursorInvalidated, "file search cursor does not match this query and scope"⟩
  match cursor with
  | none | some "" => .ok (none, 0)
  | some cursor =>
    match cursor.toList.splitOnP (· = ':') with
    | [start, print, generation, offset] =>
      match parseUnsigned 16 print, parseUnsigned 10 generation, parseUnsigned 10 offset with
      | some print, some generation, some offset =>
        if start = "search".toList ∧ print = fingerprint then .ok (some generation, offset)
        else .error mismatch
      | _, _, _ => .error mismatch
    | _ => .error mismatch

def FileIndexError.toText : FileIndexError → String
  | .guard error => error.toText
  | .db message => message
  | .metadata path message => "cannot read metadata " ++ path.display ++ ": " ++ message
  | .invalidSearch message => "invalid indexed search: " ++ message
  | .generationChanged expected actual => "file index generation changed (expected " ++
      toString expected ++ ", actual " ++ toString actual ++ ")"

def mapFileIndexError (error : FileIndexError) : BuildFileBrowseError :=
  ⟨match error with
    | .generationChanged _ _ | .invalidSearch _ => .cursorInvalidated
    | _ => .outsideManagedRoot, FileIndexError.toText error⟩

def remoteSearchEntry (e : IndexedSearchEntry) : AgentFileBrowseEntry :=
  ⟨e.name, e.relativePath, e.isDir, e.sizeBytes, e.modifiedUnixMs,
    stableFileIdParts e.relativePath e.isDir e.sizeBytes e.modifiedUnixMs⟩

/-- The index as the desktop has it, and what a new scan of the disk would find. -/
structure Indexed where
  index : FileIndex
  files : List IndexedFile
  found : List IndexedSearchEntry

/-- An index that was never built is built first. -/
def ensureIndex (lower : String → String) (root : RawPath) (x : Indexed) :
    Except FileIndexError FileIndex := do
  let _ ← (PathGuard.new s.tree root).mapError .guard
  if x.index.initialized then .ok x.index else reindexRoot lower x.files x.found x.index

def SearchRequest.args (r : SearchRequest) (root : RawPath) : SearchArgs :=
  ⟨root, r.query, r.scope, r.relativeDirectory, r.limit, r.extensions⟩

def buildSearchResultPageLimited (lower : String → String) (root : RawPath) (x : Indexed)
    (r : SearchRequest) : Except BuildFileBrowseError AgentFileBrowseResult := do
  validatePageLimit r.limit
  let fingerprint := searchFingerprint lower r
  let (expectedGeneration, offset) ← parseSearchCursor r.cursor fingerprint
  let index ← (ensureIndex s lower root x).mapError mapFileIndexError
  let page ← (searchIndexPageWithExtensions lower s.tree index (r.args root) expectedGeneration
    offset).mapError mapFileIndexError
  return {
    entries := (page.entries.filter fun e => isRemotelyBrowsableName e.name).map remoteSearchEntry
    nextCursor := page.nextOffset.map fun nextOffset => "search:" ++ hex16 fingerprint ++ ":" ++
      toString page.generation ++ ":" ++ toString nextOffset
    desktopGeneration := toString page.generation }

/-! ### Transfers -/

inductive AgentFileTransferFailureCode
  | sourceNotFound | sourceChanged | outsideManagedRoot | sizeLimitExceeded | checksumMismatch
  deriving DecidableEq

structure TransferSourceValidationError where
  failureCode : AgentFileTransferFailureCode
  message : String
  deriving DecidableEq

structure AgentFileTransferSourceVersion where
  fileId : String
  sizeBytes : ℕ
  modifiedUnixMs : Option ℕ
  deriving DecidableEq

structure ValidatedTransferSource where
  transferId : String
  roomId : String
  sourceRelativePath : String
  resolvedPath : Path
  sourceVersion : AgentFileTransferSourceVersion
  deriving DecidableEq

/-- The pieces between slashes of either kind. -/
def splitSeparators (path : String) : List (List Char) :=
  path.toList.splitOnP fun c => c = '/' || c = '\\'

def outsideRoot (message : String) : TransferSourceValidationError :=
  ⟨.outsideManagedRoot, message⟩

def looksLikeWindowsAbsolute (path : String) : Bool :=
  match path.toList with
  | drive :: ':' :: _ => drive.isAlpha
  | _ => false

def validateRelativePathShape (path : String) : Except TransferSourceValidationError Unit :=
  if path = "" ∨ path.utf8ByteSize > 1024 ∨ '\x00' ∈ path.toList ∨
      path.toList.head? = some '/' ∨ path.toList.head? = some '\\' ∨
      looksLikeWindowsAbsolute path then
    .error (outsideRoot "source path must be managed-root-relative")
  else if (splitSeparators path).any fun segment =>
      segment = [] || segment = ['.'] || segment = ['.', '.'] then
    .error (outsideRoot "source path cannot contain empty, current, or parent segments")
  else .ok ()

def normalizeRelativePath (path : String) : String :=
  "/".intercalate ((splitSeparators path).map String.ofList)

def mapGuardError (error : PathGuardError) : TransferSourceValidationError :=
  ⟨match error with
    | .missingPath _ => .sourceNotFound
    | _ => .outsideManagedRoot, error.toText⟩

def validateLocalTransferSource (root : RawPath) (sourceRelativePath : String)
    (transferId roomId : Option String) :
    Except TransferSourceValidationError ValidatedTransferSource := do
  validateRelativePathShape sourceRelativePath
  let guard ← (PathGuard.new s.tree root).mapError mapGuardError
  let resolved ← (guard.resolveExisting s.tree sourceRelativePath).mapError mapGuardError
  let original ← (s.tree.lstat (join guard.root sourceRelativePath)).mapError fun error =>
    ⟨.sourceNotFound, "cannot read source metadata: " ++ error.toText⟩
  if original.isSymlink then
    .error (outsideRoot "source file is a symlink, junction, or reparse point")
  else if !s.tree.isFile resolved || metadataLen os s resolved = 0 then
    .error ⟨.sourceNotFound, "source path is not a transferable non-empty file"⟩
  else
    match fileIdForPath os s resolved with
    | none => .error ⟨.sourceChanged, "source file identity is unavailable"⟩
    | some fileId => .ok {
        transferId := transferId.getD ""
        roomId := roomId.getD ""
        sourceRelativePath := normalizeRelativePath sourceRelativePath
        resolvedPath := resolved
        sourceVersion := ⟨fileId, metadataLen os s resolved, modifiedUnixMs os s resolved⟩ }

/-! ### Documents -/

structure DocumentExtraction where
  relativePath : String
  sha256 : String
  modifiedUnixMs : ℕ
  chunks : List String
  truncated : Bool
  deriving DecidableEq

inductive XmlEvent
  | text (decoded : Option String)
  | eof
  | error
  | other

/-- What other libraries make of the bytes of a document. -/
structure Formats where
  sha256 : List UInt8 → List UInt8
  lower : String → String
  /-- The text of a PDF, or the text of the error. -/
  extractTextFromMem : Content → Except String String
  /-- The entries of an archive with their names, and with what is read of them as text. -/
  archive : Content → Except String (List (Option (String × Option String)))
  xmlEvents : String → List XmlEvent

def MAX_DOCUMENT_BYTES : ℕ := 20 * 1024 * 1024

def MAX_EXTRACTED_CHARS : ℕ := 100000

def CHUNK_CHARS : ℕ := 4000

/-- The document that is read, before anything is made of it. -/
def readDocument (root : RawPath) (relativePath : String) (consent : Bool) :
    Except String (Path × Content) :=
  if !consent then .error "CONSENT_REQUIRED"
  else do
    let guard ← (PathGuard.new s.tree root).mapError fun _ => "OUTSIDE_MANAGED_ROOT"
    let path ← (guard.resolveExisting s.tree relativePath).mapError fun _ => "OUTSIDE_MANAGED_ROOT"
    match s.tree.get path with
    | some (.file bytes _ _) =>
      if bytes.length > MAX_DOCUMENT_BYTES then .error "TOO_LARGE" else .ok (path, bytes)
    | some _ => .error "UNSUPPORTED_FORMAT"
    | none => .error "SOURCE_CHANGED"

def passwordError (f : Formats) (error : String) : String :=
  if contains (f.lower error) "password" then "ENCRYPTED_DOCUMENT" else "UNSUPPORTED_FORMAT"

/-- The texts with blanks in between, up to the first error. -/
def xmlText (f : Formats) (xml : String) : String := read (f.xmlEvents xml) ""
where
  read : List XmlEvent → String → String
    | .text (some value) :: rest, output =>
      read rest (if output = "" then value else output ++ " " ++ value)
    | .text none :: rest, output | .other :: rest, output => read rest output
    | .eof :: _, output | .error :: _, output | [], output => output

def selectedEntry (extension name : String) : Bool :=
  let starts (part : String) := part.toList.isPrefixOf name.toList
  match extension with
  | "docx" => name = "word/document.xml"
  | "pptx" => starts "ppt/slides/slide" && endsWith name ".xml"
  | "xlsx" => name = "xl/sharedStrings.xml" ||
      (starts "xl/worksheets/sheet" && endsWith name ".xml")
  | _ => false

def extractOoxml (f : Formats) (bytes : Content) (extension : String) : Except String String := do
  let archive ← (f.archive bytes).mapError (passwordError f)
  let output ← archive.foldlM (fun output entry =>
    match entry with
    | none => .error "UNSUPPORTED_FORMAT"
    | some (name, xml) =>
      if !selectedEntry extension name then .ok output
      else
        match xml with
        | none => .error "UNSUPPORTED_FORMAT"
        | some xml => .ok (output ++ xmlText f xml ++ "\n")) ""
  if trim output = "" then .error "UNSUPPORTED_FORMAT" else .ok output

def chunkText (text : String) : List String :=
  ((text.toList.toChunks CHUNK_CHARS).map String.ofList).filter fun chunk => trim chunk ≠ ""

def documentText (f : Formats) (path : Path) (bytes : Content) : Except String String :=
  let extension := (path.getLast?.bind fun n => extensionOf n.1).getD ""
  if ["txt", "md", "markdown", "json", "csv", "tsv", "log"].contains extension then
    match String.fromUTF8? ⟨bytes.toArray⟩ with
    | some text => .ok text
    | none => .error "UNSUPPORTED_FORMAT"
  else if extension = "pdf" then (f.extractTextFromMem bytes).mapError (passwordError f)
  else if ["docx", "pptx", "xlsx"].contains extension then extractOoxml f bytes extension
  else .error "UNSUPPORTED_FORMAT"

def extractDocument (f : Formats) (root : RawPath) (relativePath : String) (consent : Bool)
    (expectedSha256 : Option String) : Except String DocumentExtraction := do
  let (path, bytes) ← readDocument s root relativePath consent
  let sha256 := hexLower (f.sha256 bytes)
  if expectedSha256.any fun expected => toAsciiLowercase sha256 ≠ toAsciiLowercase expected then
    .error "SOURCE_CHANGED"
  else
    let text ← documentText f path bytes
    return {
      relativePath := relativePath.map fun c => if c = '\\' then '/' else c
      sha256
      modifiedUnixMs := (modifiedUnixMs os s path).getD 0
      chunks := chunkText (String.ofList (text.toList.take MAX_EXTRACTED_CHARS))
      truncated := decide (text.length > MAX_EXTRACTED_CHARS) }

end MouseKeeper.Desktop.RemoteView
