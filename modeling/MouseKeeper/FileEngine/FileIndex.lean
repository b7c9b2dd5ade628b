import Mathlib.Data.String.Basic
import MouseKeeper.FileEngine.Guard
import MouseKeeper.FileEngine.Journal
import MouseKeeper.Paging

/-!
The search index of a managed root.

Two tables hold the indexed files and the entries that can be searched, with unique paths,
and a generation counts the changes. A search checks its arguments and the generation, and
then pages through the matching rows in the order of their names, leaving out those that no
longer stand on the disk. The lower case of a text, which the index stores and compares, is
a parameter; so are the results of the scans of the disk.
-/

namespace MouseKeeper.FileEngine

open Posix

structure IndexedFile where
  relativePath : String
  sizeBytes : ℕ
  modifiedUnixMs : Option ℕ
  extension : Option String
  fileId : Option String
  deriving DecidableEq

structure IndexedSearchEntry where
  name : String
  relativePath : String
  isDir : Bool
  extension : Option String
  sizeBytes : Option ℕ
  modifiedUnixMs : Option ℕ
  deriving DecidableEq

/-- A row of `file_search_entries`. -/
structure SearchRow extends IndexedSearchEntry where
  parentRelativePath : String
  normalizedName : String
  deriving DecidableEq

inductive FileIndexError
  | guard (error : PathGuardError)
  | db (message : String)
  | metadata (path : RawPath) (message : String)
  | invalidSearch (message : String)
  | generationChanged (expected actual : ℕ)
  deriving DecidableEq

structure FileIndex where
  files : List IndexedFile
  entries : List SearchRow
  generation : ℕ
  initialized : Bool
  uniqueFiles : (files.map (·.relativePath)).Nodup
  uniqueEntries : (entries.map (·.relativePath)).Nodup

def FileIndex.empty : FileIndex := ⟨[], [], 0, false, .nil, .nil⟩

/-! ### Entries -/

/-- The components of a relative path, where a dot only counts in front. -/
def components : RawPath → List Seg
  | .dot :: rest => .dot :: rest.filter fun x => !x.isTrivial
  | p => p.filter fun x => !x.isTrivial

def joinComponents (p : List Seg) : String := "/".intercalate (p.map Seg.text)

/-- `PathBuf::extension` in lower case. -/
def extensionOf (path : String) : Option String :=
  (segsOf path).fileName.bind fun n =>
    match n.1.toList.reverse.dropWhile (· ≠ '.') with
    | _ :: _ :: _ =>
      some (String.ofList
        ((n.1.toList.reverse.takeWhile (· ≠ '.')).reverse.map Char.toLower))
    | _ => none

def normalizeSeparators (path : String) : String :=
  "/".intercalate (((path.toList.splitOnP fun c => c = '/' || c = '\\').filter
    (· ≠ [])).map String.ofList)

def indexedSearchEntry (relativePath : String) (isDir : Bool) (sizeBytes modifiedUnixMs : Option ℕ) :
    Option IndexedSearchEntry :=
  let path := normalizeSeparators relativePath
  (segsOf path).fileName.map fun name =>
    { name := name.1
      relativePath := path
      isDir
      extension := if isDir then none else extensionOf path
      sizeBytes := if isDir then none else sizeBytes
      modifiedUnixMs }

section Changes

variable (lower : String → String)

/-- The row that `insert_search_entry` inserts. -/
def searchRow (e : IndexedSearchEntry) : SearchRow :=
  { e with
    parentRelativePath := joinComponents (components (((segsOf e.relativePath).parent).getD []))
    normalizedName := lower e.name }

/-- The generation is a positive `i64`. -/
def bumpGeneration (generation : ℕ) : Except FileIndexError ℕ :=
  if generation + 1 < 2 ^ 63 then .ok (generation + 1)
  else .error (.db "negative file index generation")

def uniqueViolation : FileIndexError := .db "UNIQUE constraint failed"

/-- `reindex_root`, with the files and entries that the scan has found. -/
def reindexRoot (files : List IndexedFile) (found : List IndexedSearchEntry) (ix : FileIndex) :
    Except FileIndexError FileIndex := do
  if hf : (files.map (·.relativePath)).Nodup then
    if he : ((found.map (searchRow lower)).map (·.relativePath)).Nodup then
      let generation ← bumpGeneration ix.generation
      return ⟨files, found.map (searchRow lower), generation, true, hf, he⟩
    else .error uniqueViolation
  else .error uniqueViolation

/-- `insert … on conflict(relative_path) do update`. -/
def upsertIndexed (f : IndexedFile) (l : List IndexedFile) : List IndexedFile :=
  if f.relativePath ∈ l.map (·.relativePath) then
    l.map fun x => if x.relativePath = f.relativePath then f else x
  else l ++ [f]

lemma upsertIndexed_unique {f : IndexedFile} {l : List IndexedFile}
    (h : (l.map (·.relativePath)).Nodup) : ((upsertIndexed f l).map (·.relativePath)).Nodup := by
  unfold upsertIndexed
  split
  · have hm : (l.map fun x => if x.relativePath = f.relativePath then f else x).map
        (·.relativePath) = l.map (·.relativePath) := by
      rw [List.map_map]
      refine List.map_congr_left fun x _ => ?_
      simp only [Function.comp_apply]
      split
      · exact (‹x.relativePath = f.relativePath›).symm
      · rfl
    exact hm ▸ h
  · rename_i hn
    rw [List.map_append, List.map_singleton]
    refine List.nodup_append.mpr ⟨h, by simp, fun a ha b hb hab => hn ?_⟩
    rw [List.mem_singleton.mp hb] at hab
    exact hab ▸ ha

lemma unique_filter {l : List SearchRow} {p : SearchRow → Bool}
    (h : (l.map (·.relativePath)).Nodup) : ((l.filter p).map (·.relativePath)).Nodup :=
  h.sublist (List.filter_sublist.map _)

/-- The index has the new row in place of the one of the path as it was given; another row
under the path as it is stored is a violation. -/
def upsertFile (relativePath : String) (sizeBytes : ℕ) (modifiedUnixMs : Option ℕ)
    (fileId : Option String) (ix : FileIndex) : Except FileIndexError FileIndex := do
  match indexedSearchEntry relativePath false (some sizeBytes) modifiedUnixMs with
  | none => .error (.invalidSearch "indexed file path has no name")
  | some e =>
    if hn : e.relativePath ∈
        (ix.entries.filter (·.relativePath ≠ relativePath)).map (·.relativePath) then
      .error uniqueViolation
    else
      let generation ← bumpGeneration ix.generation
      return {
        files := upsertIndexed
          ⟨relativePath, sizeBytes, modifiedUnixMs, extensionOf relativePath, fileId⟩ ix.files
        entries := ix.entries.filter (·.relativePath ≠ relativePath) ++ [searchRow lower e]
        generation
        initialized := ix.initialized
        uniqueFiles := upsertIndexed_unique ix.uniqueFiles
        uniqueEntries := by
          rw [List.map_append, List.map_singleton]
          refine List.nodup_append.mpr ⟨unique_filter ix.uniqueEntries, by simp,
            fun a ha b hb hab => hn ?_⟩
          rw [List.mem_singleton.mp hb] at hab
          exact hab ▸ ha }

/-- `like '<path>/%'`, which does not tell ASCII letters of the two cases apart. -/
def likeBelow (relativePath path : String) : Bool :=
  let trimmed := (relativePath.toList.reverse.dropWhile (· = '/')).reverse
  ((trimmed ++ ['/']).map Char.toLower).isPrefixOf (path.toList.map Char.toLower)

/-- The rows that `remove_path` leaves. -/
def isKept (relativePath path : String) : Bool :=
  path ≠ relativePath && !likeBelow relativePath path

def removePath (relativePath : String) (ix : FileIndex) : Except FileIndexError FileIndex := do
  let generation ← bumpGeneration ix.generation
  return {
    files := ix.files.filter fun f => isKept relativePath f.relativePath
    entries := ix.entries.filter fun e => isKept relativePath e.relativePath
    generation
    initialized := ix.initialized
    uniqueFiles := ix.uniqueFiles.sublist (List.filter_sublist.map _)
    uniqueEntries := unique_filter ix.uniqueEntries }

def clearIndex (ix : FileIndex) : Except FileIndexError FileIndex := do
  let generation ← bumpGeneration ix.generation
  return ⟨[], [], generation, false, .nil, .nil⟩

end Changes

/-! ### Searches -/

inductive IndexedSearchScope
  | currentDirectory
  | managedRoot
  deriving DecidableEq

structure IndexedSearchPage where
  generation : ℕ
  entries : List IndexedSearchEntry
  nextOffset : Option ℕ
  deriving DecidableEq

def isWhitespace (c : Char) : Bool :=
  (9 ≤ c.toNat && c.toNat ≤ 13) || (0x2000 ≤ c.toNat && c.toNat ≤ 0x200a) ||
    [0x20, 0x85, 0xa0, 0x1680, 0x2028, 0x2029, 0x202f, 0x205f, 0x3000].contains c.toNat

def trim (s : String) : String :=
  String.ofList ((s.toList.dropWhile isWhitespace).reverse.dropWhile isWhitespace).reverse

def normalizeExtension (extension : String) : Except FileIndexError String :=
  match (trim extension).toList.map Char.toLower with
  | '.' :: raw =>
    if raw = [] ∨ ¬ raw.all Char.isAlphanum then
      .error (.invalidSearch "extension filters may contain only ASCII letters and digits")
    else .ok (String.ofList raw)
  | _ => .error (.invalidSearch "extension filters must start with a dot")

def normalizeExtensionFilter (extensions : List String) : Except FileIndexError (List String) :=
  if extensions.length > 50 then
    .error (.invalidSearch "extension filter may contain at most 50 extensions")
  else extensions.mapM normalizeExtension

def indexedEntryMatchesExtensions (e : IndexedSearchEntry) (extensions : List String) : Bool :=
  extensions.isEmpty || (!e.isDir && e.extension.any extensions.contains)

def normalizeRelativeDirectory (path : String) : Except FileIndexError String :=
  if isAbsolute path ∨ Seg.dotdot ∈ segsOf path then
    .error (.invalidSearch "search directory must stay relative to the managed root")
  else .ok (joinComponents ((segsOf path).filter fun x => !x.isTrivial))

/-- Every place on the way exists and is no link. -/
def walkNoLinks (t : Tree) : Path → List Seg → Except FileIndexError Unit
  | _, [] => .ok ()
  | current, .name n :: rest =>
    match t.lstat (Path.raw (current ++ [n])) with
    | .error e => .error (.metadata (Path.raw (current ++ [n])) e.toText)
    | .ok node =>
      if node.isSymlink then
        .error (.invalidSearch "indexed path crosses a symlink, junction, or reparse point")
      else walkNoLinks t (current ++ [n]) rest
  | _, _ :: _ => .error (.invalidSearch "indexed path has an unsafe component")

def validateNoLinkPath (g : PathGuard) (t : Tree) (relativePath : String)
    (requireDirectory : Bool) : Except FileIndexError Unit :=
  if relativePath = "" then .ok ()
  else if isAbsolute relativePath then
    .error (.invalidSearch "indexed path has an unsafe component")
  else do
    walkNoLinks t g.root (components (segsOf relativePath))
    let resolved ← (g.resolveExisting t relativePath).mapError .guard
    if requireDirectory && !t.isDir resolved then
      .error (.invalidSearch "search scope is not a directory")
    else .ok ()

/-- The entry still stands on the disk as what it was, outside the engine's own folders. -/
def validateIndexedSearchHit (g : PathGuard) (t : Tree) (e : IndexedSearchEntry) : Bool :=
  !((splitSlash e.relativePath.toList).any fun s =>
      s = STATE_DIR.toList || s = TRASH_DIR.toList || s = [] || s = ['.', '.']) &&
    (validateNoLinkPath g t e.relativePath e.isDir).isOk &&
    match t.lstat (join g.root e.relativePath) with
    | .ok (.dir _) => e.isDir
    | .ok (.file _ _ _) => !e.isDir
    | _ => false

/-- `order by normalized_name, relative_path`. -/
def before (a b : SearchRow) : Bool :=
  decide (a.normalizedName < b.normalizedName) ||
    (decide (a.normalizedName = b.normalizedName) && decide (a.relativePath ≤ b.relativePath))

/-- `where …`: the row is in the scope, and its name contains the query. -/
def selects (scope : IndexedSearchScope) (directory query : String) (r : SearchRow) : Bool :=
  (match scope with
    | .currentDirectory => decide (r.parentRelativePath = directory)
    | .managedRoot => true) &&
    decide (query.toList <:+: r.normalizedName.toList)

def FETCH_BATCH : ℕ := 256

/-- The arguments of a search, apart from its cursor. -/
structure SearchArgs where
  root : RawPath
  query : String
  scope : IndexedSearchScope
  relativeDirectory : String
  limit : ℕ
  extensions : List String

/-- The arguments as they are used, after the checks. -/
structure Search where
  guard : PathGuard
  query : String
  scope : IndexedSearchScope
  directory : String
  limit : ℕ
  extensions : List String

/-- The scope of a search of one directory is a directory that no link leads to. -/
def validateScope (g : PathGuard) (t : Tree) (scope : IndexedSearchScope) (directory : String) :
    Except FileIndexError Unit :=
  match scope with
  | .currentDirectory => validateNoLinkPath g t directory true
  | .managedRoot => .ok ()

def checkArgs (lower : String → String) (t : Tree) (a : SearchArgs) :
    Except FileIndexError Search :=
  let query := trim a.query
  if ¬ (2 ≤ query.length ∧ query.length ≤ 100) then
    .error (.invalidSearch
      "file name query must contain between 2 and 100 Unicode code points")
  else if ¬ (1 ≤ a.limit ∧ a.limit ≤ 200) then
    .error (.invalidSearch "search page limit must be between 1 and 200")
  else do
    let extensions ← normalizeExtensionFilter a.extensions
    let guard ← (PathGuard.new t a.root).mapError .guard
    let directory ← normalizeRelativeDirectory a.relativeDirectory
    validateScope guard t a.scope directory
    return ⟨guard, lower query, a.scope, directory, a.limit, extensions⟩

/-- A row that a page shows. -/
def Search.hit (q : Search) (t : Tree) (r : SearchRow) : Bool :=
  validateIndexedSearchHit q.guard t r.toIndexedSearchEntry &&
    indexedEntryMatchesExtensions r.toIndexedSearchEntry q.extensions

/-- The rows that the query selects, in order. -/
def Search.rows (q : Search) (ix : FileIndex) : List SearchRow :=
  (ix.entries.filter (selects q.scope q.directory q.query)).mergeSort before

/-- `search_index_page_with_extensions`. An offset past the table finds nothing. -/
def searchIndexPageWithExtensions (lower : String → String) (t : Tree) (ix : FileIndex)
    (a : SearchArgs) (expectedGeneration : Option ℕ) (offset : ℕ) :
    Except FileIndexError IndexedSearchPage := do
  let q ← checkArgs lower t a
  if ∃ g ∈ expectedGeneration, g ≠ ix.generation then
    .error (.generationChanged (expectedGeneration.getD 0) ix.generation)
  else
    let s := Paging.page (q.hit t) q.limit FETCH_BATCH (q.rows ix) offset
    .ok ⟨ix.generation, s.entries.map (·.toIndexedSearchEntry), s.next⟩

end MouseKeeper.FileEngine
