import Mathlib.Data.List.Infix
import Mathlib.Tactic.Common

/-!
Paths, as names and as text.

A place in a tree is the list of names that leads to it from the top. A path text is cut
at its slashes; what lies between two slashes may be empty, `.`, `..` or a name. Lookups
read the cut text as it stands, while a program that takes a path apart drops the empty
pieces and the dots first.
-/

namespace MouseKeeper.Posix

/-- What one directory entry may be called. -/
def ValidName (s : String) : Prop := s ≠ "" ∧ s ≠ "." ∧ s ≠ ".." ∧ '/' ∉ s.toList

instance : DecidablePred ValidName := fun s => by unfold ValidName; infer_instance

def Name : Type := { s : String // ValidName s }
  deriving DecidableEq

/-- A place in the tree: the names from the top. -/
abbrev Path := List Name

/-- What stands between two slashes of a path text. -/
inductive Seg
  | blank
  | dot
  | dotdot
  | name (n : Name)
  deriving DecidableEq

/-- An absolute path as it is handed to the system. -/
abbrev RawPath := List Seg

def Path.raw (p : Path) : RawPath := p.map Seg.name

/-! ### Texts -/

/-- Cuts at every slash; the pieces between two slashes may be empty. -/
def splitSlash : List Char → List (List Char)
  | [] => [[]]
  | c :: cs =>
    if c = '/' then [] :: splitSlash cs
    else
      match splitSlash cs with
      | [] => [[c]]
      | p :: ps => (c :: p) :: ps

def Seg.ofPiece (l : List Char) : Seg :=
  if l = ['.'] then .dot
  else if l = ['.', '.'] then .dotdot
  else if h : ValidName (String.ofList l) then .name ⟨_, h⟩
  else .blank

def segsOf (s : String) : RawPath := (splitSlash s.toList).map Seg.ofPiece

def isAbsolute (s : String) : Bool := s.toList.head? = some '/'

/-- `root.join(s)`: an absolute text replaces the root. -/
def join (root : Path) (s : String) : RawPath :=
  if isAbsolute s then (segsOf s).tail else root.raw ++ segsOf s

def Seg.text : Seg → String
  | .blank => ""
  | .dot => "."
  | .dotdot => ".."
  | .name n => n.1

/-- How a path is shown. -/
def RawPath.display (p : RawPath) : String := "/" ++ "/".intercalate (p.map Seg.text)

def Path.display (p : Path) : String := RawPath.display p.raw

/-! ### Taking a path apart -/

def Seg.isTrivial : Seg → Bool
  | .blank | .dot => true
  | _ => false

/-- A path without the slashes and dots at its end. -/
def RawPath.trim (p : RawPath) : RawPath := (p.reverse.dropWhile (·.isTrivial)).reverse

/-- `Path::parent`. -/
def RawPath.parent (p : RawPath) : Option RawPath :=
  match p.trim.reverse with
  | [] => none
  | _ :: r => some (RawPath.trim r.reverse)

/-- `Path::file_name`. -/
def RawPath.fileName (p : RawPath) : Option Name :=
  match p.trim.getLast? with
  | some (.name n) => some n
  | _ => none

/-- A name without its extension; a leading dot does not start one. -/
def stem (l : List Char) : List Char :=
  match l.reverse.dropWhile (· ≠ '.') with
  | [] => l
  | _ :: r => if r = [] then l else r.reverse

/-- `Path::with_extension`. -/
def RawPath.withExtension (p : RawPath) (ext : String) : RawPath :=
  match p.fileName with
  | none => p
  | some n => p.trim.dropLast ++ [Seg.ofPiece (stem n.1.toList ++ '.' :: ext.toList)]

/-! ### Lemmas on texts -/

lemma splitSlash_ne_nil (l : List Char) : splitSlash l ≠ [] := by
  cases l with
  | nil => simp [splitSlash]
  | cons c cs =>
    unfold splitSlash
    split
    · simp
    · split <;> simp

lemma splitSlash_of_not_mem {l : List Char} (h : '/' ∉ l) : splitSlash l = [l] := by
  induction l with
  | nil => rfl
  | cons c cs ih =>
    simp only [List.mem_cons, not_or] at h
    rw [splitSlash, if_neg (Ne.symm h.1), ih h.2]

lemma splitSlash_append (a b : List Char) :
    splitSlash (a ++ '/' :: b) = splitSlash a ++ splitSlash b := by
  induction a with
  | nil => simp [splitSlash]
  | cons c cs ih =>
    simp only [List.cons_append, splitSlash]
    split
    · simp [ih]
    · rw [ih]
      rcases hcs : splitSlash cs with _ | ⟨p, ps⟩
      · exact absurd hcs (splitSlash_ne_nil cs)
      · simp

lemma segsOf_slash (a b : String) : segsOf (a ++ "/" ++ b) = segsOf a ++ segsOf b := by
  have h : (a ++ "/" ++ b).toList = a.toList ++ '/' :: b.toList := by simp
  rw [segsOf, h, splitSlash_append, List.map_append]
  rfl

lemma Seg.ofPiece_name (n : Name) : Seg.ofPiece n.1.toList = .name n := by
  obtain ⟨s, h⟩ := n
  have hs : String.ofList s.toList = s := String.ofList_toList
  have h1 : s.toList ≠ ['.'] := fun hc => h.2.1 (by rw [← hs, hc])
  have h2 : s.toList ≠ ['.', '.'] := fun hc => h.2.2.1 (by rw [← hs, hc])
  unfold Seg.ofPiece
  rw [if_neg h1, if_neg h2, dif_pos (by rw [hs]; exact h)]
  simp only [hs]

/-- The text of one name is that name. -/
lemma segsOf_name (n : Name) : segsOf n.1 = [Seg.name n] := by
  rw [segsOf, splitSlash_of_not_mem n.2.2.2.2]
  simp [Seg.ofPiece_name]

lemma isAbsolute_name (n : Name) : isAbsolute n.1 = false := by
  have h := n.2.2.2.2
  unfold isAbsolute
  cases hl : n.1.toList with
  | nil => rfl
  | cons c cs =>
    rw [hl] at h
    simp only [List.mem_cons, not_or] at h
    simp [Ne.symm h.1]

lemma isAbsolute_append {a b : String} (h : a ≠ "") : isAbsolute (a ++ b) = isAbsolute a := by
  unfold isAbsolute
  cases hl : a.toList with
  | nil => exact absurd (by simpa using hl) h
  | cons c cs => simp [hl]

lemma trim_name (p : RawPath) (n : Name) : RawPath.trim (p ++ [Seg.name n]) = p ++ [Seg.name n] := by
  simp [RawPath.trim, Seg.isTrivial]

lemma trim_raw (p : Path) : RawPath.trim p.raw = p.raw := by
  induction p using List.reverseRecOn with
  | nil => rfl
  | append_singleton p n _ =>
    rw [Path.raw, List.map_append]
    exact trim_name _ n

lemma parent_name (p : Path) (n : Name) : RawPath.parent (p.raw ++ [Seg.name n]) = some p.raw := by
  rw [RawPath.parent, trim_name]
  simp [trim_raw]

lemma fileName_name (p : RawPath) (n : Name) : RawPath.fileName (p ++ [Seg.name n]) = some n := by
  rw [RawPath.fileName, trim_name]
  simp

lemma raw_append (p q : Path) : Path.raw (p ++ q) = p.raw ++ q.raw := by
  simp [Path.raw]

lemma raw_snoc (p : Path) (n : Name) : Path.raw (p ++ [n]) = p.raw ++ [Seg.name n] := raw_append p [n]

lemma fileName_raw (p : Path) : RawPath.fileName p.raw = p.getLast? := by
  rcases List.eq_nil_or_concat p with rfl | ⟨q, n, rfl⟩
  · rfl
  · rw [List.concat_eq_append, raw_snoc, fileName_name, List.getLast?_concat]

/-! ### Names in samples -/

lemma validName_root : ValidName "root" := by decide

lemma validName_a : ValidName "a" := by decide

lemma validName_outside : ValidName "outside" := by decide

lemma validName_work : ValidName "work" := by decide

lemma validName_home : ValidName "home" := by decide

lemma validName_docs : ValidName "docs" := by decide

lemma validName_inbox : ValidName "inbox" := by decide

lemma validName_notes : ValidName "notes.txt" := by decide

end MouseKeeper.Posix
