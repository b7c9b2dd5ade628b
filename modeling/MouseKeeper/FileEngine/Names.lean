import MouseKeeper.FileEngine.Execute

/-!
The engine's own names: operation ids and the fixed paths under the root.
-/

namespace MouseKeeper.FileEngine

open Posix

def stateName : Name := ⟨STATE_DIR, by decide⟩

def trashName : Name := ⟨TRASH_DIR, by decide⟩

def backupsName : Name := ⟨"readme_backups", by decide⟩

def readmeName : Name := ⟨"README.md", by decide⟩

lemma not_slash_toString (n : ℕ) : '/' ∉ (toString n).toList := by
  intro h
  have h' : '/' ∈ Nat.toDigits 10 n := by simpa using h
  have := Nat.isDigit_of_mem_toDigits (by decide) (by decide) h'
  exact absurd this (by decide)

lemma not_slash_opId (ms i : ℕ) : '/' ∉ (opId ms i).toList := by
  have h1 := not_slash_toString ms
  have h2 := not_slash_toString i
  have h3 : ("op-" : String).toList = ['o', 'p', '-'] := by decide
  have h4 : ("-" : String).toList = ['-'] := by decide
  unfold opId
  simp only [String.toList_append, List.mem_append, h3, h4, h1, h2, or_false]
  decide

lemma not_slash_trashId (n : ℕ) : '/' ∉ (trashId n).toList := by
  have h1 := not_slash_toString n
  have h2 : ("trash-" : String).toList = ['t', 'r', 'a', 's', 'h', '-'] := by decide
  unfold trashId
  simp only [String.toList_append, List.mem_append, h1, h2, or_false]
  decide

/-- A text without slashes that is longer than the dots is a name. -/
lemma validName_long {s : String} (hlen : 2 < s.toList.length) (hs : '/' ∉ s.toList) :
    ValidName s := by
  refine ⟨?_, ?_, ?_, hs⟩
  · rintro rfl
    simp at hlen
  · rintro rfl
    revert hlen
    decide
  · rintro rfl
    revert hlen
    decide

/-- An id with something after it is a name. -/
lemma validName_suffix {id ext : String} (h : '/' ∉ id.toList) (he : 2 < ext.toList.length)
    (hs : '/' ∉ ext.toList) : ValidName (id ++ ext) := by
  refine validName_long ?_ (by simp [h, hs])
  rw [String.toList_append, List.length_append]
  omega

lemma join_relative {root : Path} {s : String} (h : isAbsolute s = false) :
    join root s = root.raw ++ segsOf s := by
  rw [join, h]
  rfl

lemma segsOf_state : segsOf STATE_DIR = [.name stateName] := segsOf_name stateName

lemma join_readme (root : Path) : join root "README.md" = root.raw ++ [Seg.name readmeName] := by
  have habs : isAbsolute "README.md" = false := isAbsolute_name readmeName
  rw [join_relative habs]
  exact congrArg _ (segsOf_name readmeName)

/-- Where a backup of the given operation goes, below the root. -/
lemma join_backups {root : Path} {id ext : String} (hv : ValidName (id ++ ext)) :
    join root (".mousekeeper/readme_backups/" ++ id ++ ext) =
      Path.raw (root ++ [stateName, backupsName]) ++ [Seg.name ⟨id ++ ext, hv⟩] := by
  have hsplit : (".mousekeeper/readme_backups/" : String) ++ id ++ ext =
      STATE_DIR ++ "/" ++ ("readme_backups" ++ "/" ++ (id ++ ext)) := by
    have : (".mousekeeper/readme_backups/" : String) =
        STATE_DIR ++ "/" ++ ("readme_backups" ++ "/") := by decide
    rw [this]
    simp only [String.append_assoc]
  have habs : isAbsolute (STATE_DIR ++ "/" ++ ("readme_backups" ++ "/" ++ (id ++ ext))) =
      false := by
    rw [String.append_assoc, isAbsolute_append (by decide)]
    exact isAbsolute_name stateName
  rw [hsplit, join_relative habs, segsOf_slash, segsOf_slash, segsOf_state]
  have h1 : segsOf "readme_backups" = [.name backupsName] := segsOf_name backupsName
  have h2 : segsOf (id ++ ext) = [.name ⟨id ++ ext, hv⟩] := segsOf_name ⟨id ++ ext, hv⟩
  rw [h1, h2]
  simp [Path.raw]

variable {id : String}

def bakName (id : String) (h : '/' ∉ id.toList) : Name :=
  ⟨id ++ ".bak", validName_suffix h (by decide) (by decide)⟩

def absentName (id : String) (h : '/' ∉ id.toList) : Name :=
  ⟨id ++ ".absent", validName_suffix h (by decide) (by decide)⟩

lemma join_backup (root : Path) (h : '/' ∉ id.toList) :
    join root (backupRelative id) =
      Path.raw (root ++ [stateName, backupsName]) ++ [Seg.name (bakName id h)] := join_backups _

lemma join_absent (root : Path) (h : '/' ∉ id.toList) :
    join root (absentRelative id) =
      Path.raw (root ++ [stateName, backupsName]) ++ [Seg.name (absentName id h)] := join_backups _

lemma parent_backup (root : Path) (h : '/' ∉ id.toList) :
    (join root (backupRelative id)).parent = some (Path.raw (root ++ [stateName, backupsName])) := by
  rw [join_backup root h, parent_name]

/-! ### The trash -/

lemma validName_trashId (n : ℕ) : ValidName (trashId n) := by
  refine validName_long ?_ (not_slash_trashId n)
  have h : ("trash-" : String).toList.length = 6 := by decide
  rw [trashId, String.toList_append, List.length_append, h]
  omega

def trashIdName (n : ℕ) : Name := ⟨trashId n, validName_trashId n⟩

def trashedFileName : Name := ⟨TRASHED_FILE_NAME, by decide⟩

def metadataFileName : Name := ⟨TRASH_METADATA_FILE_NAME, by decide⟩

lemma join_trash (root : Path) (n : ℕ) (name : Name) :
    join root (trashRelativeDir (trashId n) ++ "/" ++ name.1) =
      Path.raw (root ++ [trashName, trashIdName n, name]) := by
  have habs : isAbsolute (trashRelativeDir (trashId n) ++ "/" ++ name.1) = false := by
    rw [trashRelativeDir, String.append_assoc, String.append_assoc, String.append_assoc,
      isAbsolute_append (by decide)]
    exact isAbsolute_name trashName
  rw [join_relative habs, segsOf_slash, segsOf_name, trashRelativeDir, segsOf_slash]
  have h1 : segsOf TRASH_DIR = [.name trashName] := segsOf_name trashName
  have h2 : segsOf (trashId n) = [.name (trashIdName n)] := segsOf_name (trashIdName n)
  rw [h1, h2]
  simp [Path.raw]

lemma join_trashed (root : Path) (n : ℕ) : join root (trashedRelativePath (trashId n)) =
    Path.raw (root ++ [trashName, trashIdName n, trashedFileName]) :=
  join_trash root n trashedFileName

lemma join_metadata (root : Path) (n : ℕ) : join root (metadataRelativePath (trashId n)) =
    Path.raw (root ++ [trashName, trashIdName n, metadataFileName]) :=
  join_trash root n metadataFileName

end MouseKeeper.FileEngine
