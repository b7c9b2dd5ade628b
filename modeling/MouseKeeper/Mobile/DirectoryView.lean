import Mathlib.Data.Finmap
import MouseKeeper.Contracts.Common
import MouseKeeper.Posix.Text

/-!
The directory that the files page shows, and the updates that are made to it in place.

A page of entries is kept with the cursor to the next one. As long as there is a next page, what
comes after the entries is not known, and the view can only say that it is out of date.
-/

namespace MouseKeeper.Mobile.DirectoryView

open Contracts (Json)

/-! ### Paths -/

abbrev Path := List (List Char)

/-- The segments that are not empty. -/
def pathOf (value : String) : Path := (Contracts.segments value).filter (· ≠ [])

def Path.joined (p : Path) : String := String.ofList (['/'].intercalate p)

def normalizeFileRelativePath (value : String) : String := (pathOf value).joined

def parentRelativeDirectoryOf (relativePath : String) : String :=
  match Posix.rsplitSlash (normalizeFileRelativePath relativePath) with
  | some (parent, _) => parent
  | none => ""

/-! ### Entries -/

/-- A map from the JSON of the server. -/
abbrev Entry := Finmap fun _ : String => Json

/-- `entry[key]`. -/
def Entry.read (entry : Entry) (key : String) : Json := (entry.lookup key).getD .null

def _entryRelativePath (entry : Entry) : Option String :=
  match entry.read "relativePath" with
  | .str path => some (normalizeFileRelativePath path)
  | _ => none

def isDirectory (entry : Entry) : Bool :=
  match entry.read "type" with
  | .str type => type = "DIRECTORY"
  | _ => false

def nameOf (entry : Entry) : String :=
  match entry.read "name" with
  | .str name => name
  | _ => ""

/-- The UTF-16 code units of a character. -/
def charUnits (c : Char) : List ℕ :=
  if c.toNat < 0x10000 then [c.toNat]
  else [0xD800 + (c.toNat - 0x10000) / 0x400, 0xDC00 + (c.toNat - 0x10000) % 0x400]

def codeUnits (s : String) : List ℕ := s.toList.flatMap charUnits

/-- Directories first, then by name as `compareTo` orders strings. -/
def compareEntries (left right : Entry) : Ordering :=
  if isDirectory left ≠ isDirectory right then
    if isDirectory left then .lt else .gt
  else compare (codeUnits (nameOf left)) (codeUnits (nameOf right))

/-- What is left open by the language: where `sort` puts entries that compare as equal, and which
equal objects are also identical. -/
structure Platform where
  sort : List Entry → List Entry
  perm : ∀ entries, (sort entries).Perm entries
  sorted : ∀ entries, (sort entries).Pairwise fun x y => (compareEntries x y).isLE = true
  identical : Json → Json → Bool
  eq_of_identical : ∀ x y, identical x y = true → x = y

variable (platform : Platform)

def sortFileDirectoryEntries (entries : List Entry) : List Entry := platform.sort entries

/-- `==`, which for objects and arrays is identity. -/
def same : Json → Json → Bool
  | .null, .null => true
  | .bool x, .bool y => x = y
  | .num x, .num y => x = y
  | .str x, .str y => x = y
  | .arr x, .arr y => platform.identical (.arr x) (.arr y)
  | .obj x, .obj y => platform.identical (.obj x) (.obj y)
  | _, _ => false

def _mapShallowEquals (left right : Entry) : Bool :=
  left.keys.card = right.keys.card ∧
    ∀ key ∈ left.keys, same platform (right.read key) (left.read key) = true

def _entryListsShallowEquals (left right : List Entry) : Bool :=
  left.length = right.length ∧ (left.zip right).all fun pair =>
    _mapShallowEquals platform pair.1 pair.2

/-! ### The state -/

structure FileDirectoryState where
  entries : List Entry
  nextCursor : Option String
  generation : Option String
  isStale : Bool := false

namespace FileDirectoryState

def empty : FileDirectoryState where
  entries := []
  nextCursor := none
  generation := none

def mergeBrowseEntries (existing received : List Entry) (append : Bool) : List Entry :=
  if append then existing ++ received else received

def withPage (s : FileDirectoryState) (received : List Entry) (append : Bool)
    (nextCursor generation : Option String) : FileDirectoryState :=
  let nextEntries := mergeBrowseEntries s.entries received append
  if !s.isStale ∧ s.nextCursor = nextCursor ∧ s.generation = generation ∧
      _entryListsShallowEquals platform s.entries nextEntries then s
  else { entries := nextEntries, nextCursor, generation }

def markStale (s : FileDirectoryState) : FileDirectoryState := { s with isStale := true }

def _entryIndex (relativePath : String) (candidates : List Entry) : Option ℕ :=
  candidates.findIdx? fun entry =>
    _entryRelativePath entry = some (normalizeFileRelativePath relativePath)

def _withSortedEntries (s : FileDirectoryState) (next : List Entry) : FileDirectoryState :=
  { s with
    entries := sortFileDirectoryEntries platform next
    isStale := s.isStale || s.nextCursor.isSome }

def _replaceAt (s : FileDirectoryState) (index : ℕ) (entry : Entry) : FileDirectoryState :=
  match s.entries[index]? with
  | some existing =>
    if _mapShallowEquals platform existing entry then s
    else s._withSortedEntries platform (s.entries.set index entry)
  | none => s

def _addOrMarkStale (s : FileDirectoryState) (currentRelativeDirectory : String)
    (parentRelativePath : Option String) (entry : Option Entry) : FileDirectoryState :=
  match entry with
  | none => s
  | some entry =>
    if normalizeFileRelativePath (parentRelativePath.getD "") ≠ currentRelativeDirectory then s
    else
      match _entryRelativePath entry with
      | none => s
      | some path =>
        match _entryIndex path s.entries with
        | some existingIndex => s._replaceAt platform existingIndex entry
        | none =>
          if s.nextCursor.isSome then s.markStale
          else s._withSortedEntries platform (s.entries ++ [entry])

def _replaceIfVisible (s : FileDirectoryState) (currentRelativeDirectory : String)
    (parentRelativePath : Option String) (entry : Option Entry) : FileDirectoryState :=
  match entry with
  | none => s
  | some entry =>
    if normalizeFileRelativePath (parentRelativePath.getD "") ≠ currentRelativeDirectory then s
    else
      match _entryRelativePath entry with
      | none => s
      | some path =>
        match _entryIndex path s.entries with
        | some existingIndex => s._replaceAt platform existingIndex entry
        | none => s

def _removeIfVisible (s : FileDirectoryState) (currentRelativeDirectory : String)
    (parentRelativePath relativePath : Option String) : FileDirectoryState :=
  match relativePath with
  | none => s
  | some relativePath =>
    if normalizeFileRelativePath (parentRelativePath.getD "") ≠ currentRelativeDirectory then s
    else
      match _entryIndex relativePath s.entries with
      | none => s
      | some existingIndex => { s with
          entries := s.entries.eraseIdx existingIndex
          isStale := s.isStale || s.nextCursor.isSome }

/-! The parts of a move: the entry is taken out at its source, if it is shown there, and put in
where it goes. -/

def takeOut (s : FileDirectoryState) (sourcePath : Option String) : List Entry × Bool :=
  match sourcePath.bind (_entryIndex · s.entries) with
  | some existingIndex => (s.entries.eraseIdx existingIndex, true)
  | none => (s.entries, false)

def moved (s : FileDirectoryState) (nextEntries : List Entry) (changed : Bool) :
    FileDirectoryState :=
  if changed then s._withSortedEntries platform nextEntries else s

def putIn (s : FileDirectoryState) (nextEntries : List Entry) (changed : Bool) (entry : Entry) :
    FileDirectoryState :=
  match _entryRelativePath entry with
  | none => s
  | some destinationPath =>
    match _entryIndex destinationPath nextEntries with
    | some existingIndex =>
      match nextEntries[existingIndex]? with
      | some existing =>
        if _mapShallowEquals platform existing entry then s.moved platform nextEntries changed
        else s.moved platform (nextEntries.set existingIndex entry) true
      | none => s
    | none =>
      if s.nextCursor.isNone then s.moved platform (nextEntries ++ [entry]) true
      else if changed then { s with entries := nextEntries, isStale := true }
      else s.markStale

def _moveIfRelevant (s : FileDirectoryState) (normalizedCurrent : String)
    (sourceParent sourcePath destinationParent : Option String) (entry : Option Entry) :
    FileDirectoryState :=
  let sourceInCurrent := sourcePath.isSome &&
    normalizeFileRelativePath (sourceParent.getD "") = normalizedCurrent
  let destinationInCurrent := entry.isSome &&
    normalizeFileRelativePath (destinationParent.getD "") = normalizedCurrent
  if !sourceInCurrent && !destinationInCurrent then s
  else
    let (nextEntries, changed) := s.takeOut sourcePath
    match if destinationInCurrent then entry else none with
    | none => s.moved platform nextEntries changed
    | some entry => s.putIn platform nextEntries changed entry

end FileDirectoryState

inductive FileDirectoryUpdateKind
  | added | removed | updated | moved
  deriving DecidableEq

structure FileDirectoryUpdate where
  kind : FileDirectoryUpdateKind
  parentRelativePath : Option String := none
  relativePath : Option String := none
  previousRelativePath : Option String := none
  entry : Option Entry := none

def FileDirectoryUpdate.sourcePath (u : FileDirectoryUpdate) : Option String :=
  u.previousRelativePath.or u.relativePath

namespace FileDirectoryState

def applyUpdate (s : FileDirectoryState) (currentRelativeDirectory : String)
    (update : FileDirectoryUpdate) : FileDirectoryState :=
  let normalizedCurrent := normalizeFileRelativePath currentRelativeDirectory
  let entryPath := update.entry.bind _entryRelativePath
  let sourceParent := update.sourcePath.map parentRelativeDirectoryOf
  let destinationParent := entryPath.map parentRelativeDirectoryOf
  match update.kind with
  | .added => s._addOrMarkStale platform normalizedCurrent
      (update.parentRelativePath.or destinationParent) update.entry
  | .updated => s._replaceIfVisible platform normalizedCurrent
      (update.parentRelativePath.or destinationParent) update.entry
  | .removed => s._removeIfVisible normalizedCurrent
      (update.parentRelativePath.or sourceParent) (update.sourcePath.or entryPath)
  | .moved => s._moveIfRelevant platform normalizedCurrent sourceParent update.sourcePath
      (update.parentRelativePath.or destinationParent) update.entry

end FileDirectoryState

end MouseKeeper.Mobile.DirectoryView
