import MouseKeeper.FileEngine.Analyzer
import MouseKeeper.FileEngine.FileIndex

/-!
One level of a managed root.

A directory inside the root is listed without what lies below it. Links and whatever is named
like one of the engine's own directories are left out; the directories come first.
-/

namespace MouseKeeper.FileEngine

open Posix

structure BrowseEntry where
  name : String
  path : String
  isDir : Bool
  sizeBytes : Option ℕ
  modifiedUnixMs : Option ℕ
  deriving DecidableEq

structure BrowseReport where
  root : String
  path : String
  entries : List BrowseEntry
  skippedEntries : List SkippedEntry
  deriving DecidableEq

inductive BrowseError
  | guard (error : PathGuardError)
  | notADirectory (path : RawPath)
  deriving DecidableEq

def BrowseError.toText : BrowseError → String
  | .guard error => error.toText
  | .notADirectory path => "path is not a directory: " ++ path.display

variable (os : Os) (s : Sys)

/-- The directory that is asked for, as a place inside the root. -/
def browseTarget (root : RawPath) (relativePath : String) :
    Except BrowseError (PathGuard × Path) := do
  let guard ← (PathGuard.new s.tree root).mapError .guard
  let relativePath := normalizeSeparators relativePath
  if relativePath = "" then return (guard, guard.root)
  else
    let resolved ← (guard.resolveExisting s.tree relativePath).mapError .guard
    if s.tree.isDir resolved then return (guard, resolved)
    else .error (.notADirectory resolved.raw)

/-- The place below the root, as text. -/
def relativeText (root p : Path) : String := Path.text (p.drop root.length)

/-- What is made of a name in the directory. -/
def browseEntry (root target : Path) (n : Name) : Option BrowseEntry :=
  let p := target ++ [n]
  if isMousekeeperInternalDir n.1 then none
  else
    match s.tree.get p with
    | some (.dir _) => some ⟨n.1, relativeText root p, true, none, modifiedUnixMs os s p⟩
    | some (.file _ _ _) =>
      some ⟨n.1, relativeText root p, false, some (metadataLen os s p), modifiedUnixMs os s p⟩
    | _ => none

def browseSkipped (root target : Path) (n : Name) : Option SkippedEntry :=
  if isMousekeeperInternalDir n.1 then none
  else
    match s.tree.get (target ++ [n]) with
    | some (.symlink _) => some ⟨relativeText root (target ++ [n]),
        "skipped symlink, junction, or reparse point"⟩
    | _ => none

/-- Directories come first, then the names decide. -/
def entryOrder (a b : BrowseEntry) : Bool :=
  if a.isDir = b.isDir then a.name ≤ b.name else a.isDir

def browseRoot (root : RawPath) (relativePath : Option String) :
    Except BrowseError BrowseReport := do
  let path := relativePath.getD ""
  let (guard, target) ← browseTarget s root path
  let names := s.tree.listDir target
  return {
    root := guard.root.display
    path := normalizeSeparators path
    entries := (names.filterMap (browseEntry os s guard.root target)).mergeSort entryOrder
    skippedEntries := (names.filterMap (browseSkipped s guard.root target)).mergeSort
      fun a b => a.path ≤ b.path }

variable {os s} {root : RawPath} {relativePath : String} {guard : PathGuard} {target : Path}

lemma browseTarget_under (h : browseTarget s root relativePath = .ok (guard, target)) :
    guard.root <+: target := by
  unfold browseTarget at h
  obtain ⟨g, -, h⟩ := bind_eq_ok.mp h
  dsimp only at h
  split at h
  · cases h
    exact List.prefix_rfl
  · obtain ⟨p, hp, h⟩ := bind_eq_ok.mp h
    split at h
    · cases h
      exact (PathGuard.resolveExisting_ok.mp (mapError_eq_ok.mp hp)).2.1
    · cases h

lemma browseEntry_eq {n : Name} {e : BrowseEntry}
    (h : browseEntry os s guard.root target n = some e) :
    e.name = n.1 ∧ e.path = relativeText guard.root (target ++ [n]) := by
  unfold browseEntry at h
  dsimp only at h
  split at h
  · cases h
  · split at h <;> cases h <;> exact ⟨rfl, rfl⟩

end MouseKeeper.FileEngine
