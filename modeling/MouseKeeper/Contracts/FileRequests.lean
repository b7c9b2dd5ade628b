import MouseKeeper.Contracts.RuleDefinition

/-!
What the server accepts as a request for a transfer, for a look at the files or as a stale report.
-/

namespace MouseKeeper.Contracts

/-- The path that `createFileTransferSchema` lets through. -/
def createFileTransferSchema (j : Json) : Option String := do
  let fields ← j.strict ["sourceRelativePath"]
  asStrWith relativePathSchema (← fields.get "sourceRelativePath")

inductive SearchScope
  | currentDirectory
  | managedRoot
  deriving DecidableEq

def SearchScope.text : SearchScope → String
  | .currentDirectory => "CURRENT_DIRECTORY"
  | .managedRoot => "MANAGED_ROOT"

structure FileBrowseRequest where
  relativeDirectory : String
  cursor : Option String
  query : Option String
  extensions : List String
  limit : ℕ
  searchScope : SearchScope
  deriving DecidableEq

/-- `Array.from(value).length`. -/
def codePointLength (value : String) : ℕ := value.toList.length

def fileBrowseSearchQuerySchema (j : Json) : Option String := do
  let value := trim (← j.asStr)
  if length value ≤ 200 ∧ 2 ≤ codePointLength value ∧ codePointLength value ≤ 100 then some value
  else none

/-- `schema.nullable().default(null)`. -/
def nullable {α : Type} (schema : Json → Option α) : Option Json → Option (Option α)
  | none | some .null => some none
  | some j => (schema j).map some

/-- `schema.default(value)`. -/
def withDefault {α : Type} (schema : Json → Option α) (value : α) : Option Json → Option α
  | none => some value
  | some j => schema j

def extensionsSchema (j : Json) : Option (List String) := do
  let extensions ← (← j.asArr).mapM (asStrWith isExtension)
  if extensions.length ≤ 50 then some extensions else none

def limitSchema (j : Json) : Option ℕ := do
  let n ← j.asNat
  if 1 ≤ n ∧ n ≤ 200 then some n else none

def createFileBrowseRequestSchema (j : Json) : Option FileBrowseRequest := do
  let fields ← j.strict
    ["relativeDirectory", "cursor", "query", "extensions", "limit", "searchScope"]
  let relativeDirectory ← asStrWith relativeDirectorySchema (← fields.get "relativeDirectory")
  let cursor ← nullable (asStrWith fun s => length s ≤ 512) (fields.get "cursor")
  let query ← nullable fileBrowseSearchQuerySchema (fields.get "query")
  let extensions ← withDefault extensionsSchema [] (fields.get "extensions")
  let limit ← withDefault limitSchema 200 (fields.get "limit")
  let searchScope ← withDefault
    (fun j => oneOf SearchScope.text [.currentDirectory, .managedRoot] (some j)) .currentDirectory
    (fields.get "searchScope")
  if 0 < extensions.length ∧ query = none then none
  else some ⟨relativeDirectory, cursor, query, extensions, limit, searchScope⟩

/-- `markCachedFilesStaleSchema`, on a path and a reason for a room of the server. -/
def markCachedFilesStaleSchema (sourceRelativePath : Option String) (reason : String) : Bool :=
  sourceRelativePath.all relativePathSchema &&
    ["SOURCE_CHANGED", "SOURCE_REMOVED", "REINDEXED"].contains reason &&
    if reason = "REINDEXED" then sourceRelativePath = none else sourceRelativePath ≠ none

end MouseKeeper.Contracts
