import Mathlib.Data.List.Dedup
import MouseKeeper.FileEngine.Journal
import MouseKeeper.Posix.Text

/-!
The scan of a managed root.

The scan goes through the directories from the root down, leaves out links and whatever is
named like one of the engine's own directories, and lists the files and the directories by
their relative paths. A directory that is there can be read.
-/

namespace MouseKeeper.FileEngine

open Posix

structure FileEntry where
  path : String
  sizeBytes : ℕ
  modifiedUnixMs : Option ℕ
  createdUnixMs : Option ℕ
  fileId : Option String
  deriving DecidableEq

structure SkippedEntry where
  path : String
  reason : String
  deriving DecidableEq

structure AnalyzeReport where
  root : String
  files : List FileEntry
  directories : List String
  skippedEntries : List SkippedEntry
  deriving DecidableEq

inductive AnalyzeError
  | guard (error : PathGuardError)
  deriving DecidableEq

def AnalyzeError.toText : AnalyzeError → String
  | .guard error => error.toText

def isMousekeeperInternalDir (name : String) : Bool := name = STATE_DIR || name = TRASH_DIR

/-- What a scan has found so far. -/
structure Found where
  files : List FileEntry
  directories : List String
  skippedEntries : List SkippedEntry

def Found.append (a b : Found) : Found :=
  ⟨a.files ++ b.files, a.directories ++ b.directories, a.skippedEntries ++ b.skippedEntries⟩

section Scan

/-- How many of the places in use lie at or below `p`. -/
def below (t : Tree) (p : Path) : ℕ := (t.support.filter (p.isPrefixOf ·)).length

lemma get_of_mem_listDir {t : Tree} {p : Path} {n : Name} (h : n ∈ t.listDir p) :
    t.get (p ++ [n]) ≠ none := by
  obtain ⟨x, -, hx⟩ := List.mem_filterMap.mp (List.mem_dedup.mp h)
  split at hx
  · cases hx
  · next m r hr =>
    have he : x = r.reverse ++ [m] := by rw [← List.reverse_reverse x, hr, List.reverse_cons]
    split at hx
    · next hc =>
      cases hx
      rw [← hc.1, ← he]
      exact hc.2
    · cases hx

lemma below_lt {t : Tree} {p : Path} {n : Name} (h : t.get (p ++ [n]) ≠ none) :
    below t (p ++ [n]) < below t p := by
  have hsub : (t.support.filter ((p ++ [n]).isPrefixOf ·)).Sublist
      (t.support.filter (p.isPrefixOf ·)) := by
    refine List.monotone_filter_right _ fun x hx => ?_
    rw [List.isPrefixOf_iff_prefix] at hx ⊢
    exact (List.prefix_append p [n]).trans hx
  obtain ⟨i, hi⟩ := t.parent_dir p n h
  have hp : p ∈ t.support.filter (p.isPrefixOf ·) := by
    refine List.mem_filter.mpr ⟨t.mem_support p (by simp [hi]), ?_⟩
    simp
  refine lt_of_le_of_ne hsub.length_le fun heq => ?_
  rw [← hsub.eq_of_length heq, List.mem_filter, List.isPrefixOf_iff_prefix] at hp
  have hlen := hp.2.length_le
  rw [List.length_append, List.length_singleton] at hlen
  omega

variable (os : Os) (s : Sys) (root : Path)

/-- The entries of the directory `rel` below the root, and of those under it. -/
def collectFiles (rel : Path) : Found :=
  (s.tree.listDir (root ++ rel)).attach.foldl (fun found n =>
    if isMousekeeperInternalDir n.1.1 then found
    else
      match s.tree.get (root ++ rel ++ [n.1]) with
      | some (.symlink _) =>
        found.append ⟨[], [], [⟨(rel ++ [n.1]).text,
          "skipped symlink, junction, or reparse point"⟩]⟩
      | some (.dir _) =>
        (found.append ⟨[], [(rel ++ [n.1]).text], []⟩).append (collectFiles (rel ++ [n.1]))
      | some (.file content mtime _) =>
        found.append ⟨[⟨(rel ++ [n.1]).text, content.length, mtime,
          os.birthMs s.tick (root ++ rel ++ [n.1]), fileIdForPath os s (root ++ rel ++ [n.1])⟩],
          [], []⟩
      | none => found)
    ⟨[], [], []⟩
termination_by below s.tree (root ++ rel)
decreasing_by
  rw [← List.append_assoc]
  exact below_lt (get_of_mem_listDir n.2)

lemma collectFiles_eq (rel : Path) : collectFiles os s root rel =
    (s.tree.listDir (root ++ rel)).foldl (fun found n =>
      if isMousekeeperInternalDir n.1 then found
      else
        match s.tree.get (root ++ rel ++ [n]) with
        | some (.symlink _) =>
          found.append ⟨[], [], [⟨(rel ++ [n]).text,
            "skipped symlink, junction, or reparse point"⟩]⟩
        | some (.dir _) =>
          (found.append ⟨[], [(rel ++ [n]).text], []⟩).append (collectFiles os s root (rel ++ [n]))
        | some (.file content mtime _) =>
          found.append ⟨[⟨(rel ++ [n]).text, content.length, mtime,
            os.birthMs s.tick (root ++ rel ++ [n]), fileIdForPath os s (root ++ rel ++ [n])⟩],
            [], []⟩
        | none => found)
      ⟨[], [], []⟩ := by
  conv_rhs => rw [← List.foldl_attach]
  rw [collectFiles]

/-- `analyze_root`. -/
def analyzeRoot (raw : RawPath) : Except AnalyzeError AnalyzeReport := do
  let guard ← (PathGuard.new s.tree raw).mapError .guard
  let found := collectFiles os s guard.root []
  .ok {
    root := guard.root.display
    files := found.files.mergeSort fun a b => a.path ≤ b.path
    directories := found.directories.mergeSort fun a b => a ≤ b
    skippedEntries := found.skippedEntries.mergeSort fun a b => a.path ≤ b.path }

/-! ### What is scanned -/

/-- A scanned file: its path has no name of an internal directory in it. -/
def Scanned (rel : Path) (f : FileEntry) : Prop :=
  ∃ q : Path, q ≠ [] ∧ f.path = (rel ++ q).text ∧ ∀ n ∈ q, isMousekeeperInternalDir n.1 = false

variable {os s root}

lemma Scanned.under {rel : Path} {n : Name} {f : FileEntry} (h : Scanned (rel ++ [n]) f)
    (hn : isMousekeeperInternalDir n.1 = false) : Scanned rel f := by
  obtain ⟨q, -, hf, hq⟩ := h
  refine ⟨n :: q, List.cons_ne_nil n q, ?_, ?_⟩
  · rw [hf, List.append_assoc, List.singleton_append]
  · intro m hm
    rcases List.mem_cons.mp hm with rfl | hm
    · exact hn
    · exact hq m hm

lemma scanned_collectFiles (rel : Path) :
    ∀ f ∈ (collectFiles os s root rel).files, Scanned rel f := by
  induction hk : below s.tree (root ++ rel) using Nat.strong_induction_on generalizing rel with
  | _ k ih =>
    rw [collectFiles]
    refine List.foldlRecOn (motive := fun found : Found => ∀ f ∈ found.files, Scanned rel f) _ _
      (fun f hf => absurd hf List.not_mem_nil) fun found hfound n _ => ?_
    split
    · exact hfound
    · next hn =>
      rw [Bool.not_eq_true] at hn
      split
      · simpa [Found.append] using hfound
      · intro f hf
        simp only [Found.append, List.append_nil, List.mem_append] at hf
        rcases hf with hf | hf
        · exact hfound f hf
        · have hlt := below_lt (get_of_mem_listDir n.2)
          rw [hk, List.append_assoc] at hlt
          exact (ih _ hlt _ rfl f hf).under hn
      · intro f hf
        simp only [Found.append, List.mem_append, List.mem_singleton] at hf
        rcases hf with hf | rfl
        · exact hfound f hf
        · refine ⟨[n.1], List.cons_ne_nil _ _, rfl, fun m hm => ?_⟩
          rw [List.mem_singleton.mp hm]
          exact hn
      · exact hfound

/-- **The scan never lists what belongs to the engine.** -/
theorem scanned_of_analyze {raw : RawPath} {scan : AnalyzeReport}
    (h : analyzeRoot os s raw = .ok scan) : ∀ f ∈ scan.files, Scanned [] f := by
  obtain ⟨g, -, h⟩ := bind_eq_ok.mp h
  cases h
  intro f hf
  exact scanned_collectFiles [] f (List.mem_mergeSort.mp hf)

lemma text_of_mem_directories (rel : Path) :
    ∀ d ∈ (collectFiles os s root rel).directories, ∃ q : Path, q ≠ [] ∧ d = (rel ++ q).text := by
  induction hk : below s.tree (root ++ rel) using Nat.strong_induction_on generalizing rel with
  | _ k ih =>
    rw [collectFiles]
    refine List.foldlRecOn (motive := fun found : Found =>
        ∀ d ∈ found.directories, ∃ q : Path, q ≠ [] ∧ d = (rel ++ q).text) _ _
      (fun d hd => absurd hd List.not_mem_nil) fun found hfound n _ => ?_
    split
    · exact hfound
    · split
      · simpa [Found.append] using hfound
      · intro d hd
        simp only [Found.append, List.mem_append, List.mem_singleton] at hd
        rcases hd with (hd | rfl) | hd
        · exact hfound d hd
        · exact ⟨[n.1], List.cons_ne_nil _ _, rfl⟩
        · have hlt := below_lt (get_of_mem_listDir n.2)
          rw [hk, List.append_assoc] at hlt
          obtain ⟨q, -, rfl⟩ := ih _ hlt _ rfl d hd
          exact ⟨n.1 :: q, List.cons_ne_nil _ _, by rw [List.append_assoc, List.singleton_append]⟩
      · simpa [Found.append] using hfound
      · exact hfound

/-- The directories are listed by their relative paths, too. -/
theorem directories_of_analyze {raw : RawPath} {scan : AnalyzeReport}
    (h : analyzeRoot os s raw = .ok scan) :
    ∀ d ∈ scan.directories, ∃ q : Path, q ≠ [] ∧ d = q.text := by
  obtain ⟨g, -, h⟩ := bind_eq_ok.mp h
  cases h
  intro d hd
  exact text_of_mem_directories [] d (List.mem_mergeSort.mp hd)

end Scan

end MouseKeeper.FileEngine
