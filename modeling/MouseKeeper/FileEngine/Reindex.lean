import MouseKeeper.FileEngine.Analyzer
import MouseKeeper.FileEngine.FileIndex

/-!
The index of a managed root after a scan.

`reindex_root` walks the tree twice. The scan passes by a directory that cannot be read, the walk
for the search entries gives up at it; and the search entries have a slash for every backslash.
-/

namespace MouseKeeper.FileEngine

open Posix

/-! ### The walks -/

/-- What the system refuses: the error of reading a directory, and that of asking for the metadata
of an entry. -/
structure Access where
  readDir : Path → Option String
  lstat : Path → Option String

inductive ScanError
  | guard (error : PathGuardError)
  | readDir (path : RawPath) (message : String)
  deriving DecidableEq

inductive ReindexError
  | guard (error : PathGuardError)
  | analyze (error : ScanError)
  | index (error : FileIndexError)
  deriving DecidableEq

section Walks

variable (os : Os) (s : Sys) (access : Access) (root : Path)

/-- The entry that `collect_files` makes of a file. -/
def fileEntry (rel : Path) (sizeBytes : ℕ) : FileEntry :=
  ⟨rel.text, sizeBytes, modifiedUnixMs os s (root ++ rel), os.birthMs s.tick (root ++ rel),
    fileIdForPath os s (root ++ rel)⟩

/-- `collect_files`, where not everything can be read. -/
def collectReadable (rel : Path) : Found :=
  match access.readDir (root ++ rel) with
  | some message => ⟨[], [], [⟨rel.text, message⟩]⟩
  | none => (s.tree.listDir (root ++ rel)).attach.foldl (fun found n =>
      if isMousekeeperInternalDir n.1.1 then found
      else
        match access.lstat (root ++ rel ++ [n.1]) with
        | some message => found.append ⟨[], [], [⟨(rel ++ [n.1]).text, message⟩]⟩
        | none =>
          match s.tree.get (root ++ rel ++ [n.1]) with
          | some (.symlink _) =>
            found.append ⟨[], [], [⟨(rel ++ [n.1]).text,
              "skipped symlink, junction, or reparse point"⟩]⟩
          | some (.dir _) =>
            (found.append ⟨[], [(rel ++ [n.1]).text], []⟩).append (collectReadable (rel ++ [n.1]))
          | some (.file content _ _) =>
            found.append ⟨[fileEntry os s root (rel ++ [n.1]) content.length], [], []⟩
          | none => found)
      ⟨[], [], []⟩
termination_by below s.tree (root ++ rel)
decreasing_by
  rw [← List.append_assoc]
  exact below_lt (get_of_mem_listDir n.2)

/-- `analyze_root`, where not everything can be read. -/
def analyzeReadable (raw : RawPath) : Except ScanError AnalyzeReport := do
  let guard ← (PathGuard.new s.tree raw).mapError .guard
  match access.readDir guard.root with
  | some message => .error (.readDir guard.root.raw message)
  | none =>
    let found := collectReadable os s access guard.root []
    .ok {
      root := guard.root.display
      files := found.files.mergeSort fun a b => a.path ≤ b.path
      directories := found.directories.mergeSort fun a b => a ≤ b
      skippedEntries := found.skippedEntries.mergeSort fun a b => a.path ≤ b.path }

/-- `visit` of `collect_search_entries`. -/
def visitEntries (rel : Path) : Except FileIndexError (List IndexedSearchEntry) :=
  match access.readDir (root ++ rel) with
  | some message => .error (.metadata (root ++ rel).raw message)
  | none => (s.tree.listDir (root ++ rel)).attach.foldlM (fun entries n =>
      if isMousekeeperInternalDir n.1.1 then .ok entries
      else if (access.lstat (root ++ rel ++ [n.1])).isSome then .ok entries
      else
        match s.tree.get (root ++ rel ++ [n.1]) with
        | some (.dir _) => do
          let below ← visitEntries (rel ++ [n.1])
          return entries ++ (indexedSearchEntry (rel ++ [n.1]).text true none
            (modifiedUnixMs os s (root ++ rel ++ [n.1]))).toList ++ below
        | some (.file content _ _) =>
          .ok (entries ++ (indexedSearchEntry (rel ++ [n.1]).text false (some content.length)
            (modifiedUnixMs os s (root ++ rel ++ [n.1]))).toList)
        | _ => .ok entries)
      []
termination_by below s.tree (root ++ rel)
decreasing_by
  rw [← List.append_assoc]
  exact below_lt (get_of_mem_listDir n.2)

/-- By the lower case of the names, then by the paths. -/
def searchEntryOrder (lower : String → String) (a b : IndexedSearchEntry) : Bool :=
  if lower a.name = lower b.name then a.relativePath ≤ b.relativePath
  else lower a.name < lower b.name

def collectSearchEntries (lower : String → String) :
    Except FileIndexError (List IndexedSearchEntry) :=
  (visitEntries os s access root []).map (·.mergeSort (searchEntryOrder lower))

/-- `file_id_for_relative_path`. -/
def fileIdForRelativePath (g : PathGuard) (relativePath : String) : Option String :=
  match g.resolveExisting s.tree relativePath with
  | .ok p => fileIdForPath os s p
  | .error _ => none

def indexedFile (g : PathGuard) (file : FileEntry) : IndexedFile :=
  ⟨file.path, file.sizeBytes, file.modifiedUnixMs, extensionOf file.path,
    fileIdForRelativePath os s g file.path⟩

/-- `reindex_root`. -/
def reindexTree (lower : String → String) (raw : RawPath) (ix : FileIndex) :
    Except ReindexError FileIndex := do
  let guard ← (PathGuard.new s.tree raw).mapError .guard
  let analysis ← (analyzeReadable os s access guard.root.raw).mapError .analyze
  let found ← (collectSearchEntries os s access guard.root lower).mapError .index
  (reindexRoot lower (analysis.files.map (indexedFile os s guard)) found ix).mapError .index

/-! ### What both walks go through -/

/-- The files and the directories that the scan lists, in its order. -/
def listed (rel : Path) : List Path :=
  if (access.readDir (root ++ rel)).isSome then []
  else
    (s.tree.listDir (root ++ rel)).attach.flatMap fun n =>
      if isMousekeeperInternalDir n.1.1 ∨ (access.lstat (root ++ rel ++ [n.1])).isSome then []
      else
        match s.tree.get (root ++ rel ++ [n.1]) with
        | some (.dir _) => (rel ++ [n.1]) :: listed (rel ++ [n.1])
        | some (.file _ _ _) => [rel ++ [n.1]]
        | _ => []
termination_by below s.tree (root ++ rel)
decreasing_by
  rw [← List.append_assoc]
  exact below_lt (get_of_mem_listDir n.2)

/-- What the scan lists of the entry `n` of a directory. -/
def listedAt (rel : Path) (n : Name) : List Path :=
  if isMousekeeperInternalDir n.1 ∨ (access.lstat (root ++ rel ++ [n])).isSome then []
  else
    match s.tree.get (root ++ rel ++ [n]) with
    | some (.dir _) => (rel ++ [n]) :: listed s access root (rel ++ [n])
    | some (.file _ _ _) => [rel ++ [n]]
    | _ => []

/-- The file that the scan reports at the path, if it is one. -/
def fileAt (p : Path) : Option FileEntry :=
  match s.tree.get (root ++ p) with
  | some (.file content _ _) => some (fileEntry os s root p content.length)
  | _ => none

def directoryAt (p : Path) : Option String :=
  match s.tree.get (root ++ p) with
  | some (.dir _) => some p.text
  | _ => none

/-- The entry of the index at the path, if it has one. -/
def searchEntryAt (p : Path) : Option IndexedSearchEntry :=
  match s.tree.get (root ++ p) with
  | some (.dir _) => indexedSearchEntry p.text true none (modifiedUnixMs os s (root ++ p))
  | some (.file content _ _) =>
    indexedSearchEntry p.text false (some content.length) (modifiedUnixMs os s (root ++ p))
  | _ => none

variable {os s access root}

lemma foldl_collects {α β σ : Type} (π : σ → List β) {f : σ → α → σ} (F : α → List β)
    {l : List α} (h : ∀ x ∈ l, ∀ a, π (f a x) = π a ++ F x) (a : σ) :
    π (l.foldl f a) = π a ++ l.flatMap F := by
  induction l generalizing a with
  | nil => rw [List.foldl_nil, List.flatMap_nil, List.append_nil]
  | cons x l ih =>
    rw [List.foldl_cons, ih (fun y hy => h y (List.mem_cons_of_mem x hy)),
      h x List.mem_cons_self, List.flatMap_cons, List.append_assoc]

lemma foldlM_collects {α β ε : Type} {f : List β → α → Except ε (List β)} (F : α → List β)
    {l : List α} (h : ∀ x ∈ l, ∀ a, f a x = .ok (a ++ F x)) (a : List β) :
    l.foldlM f a = .ok (a ++ l.flatMap F) := by
  induction l generalizing a with
  | nil => rw [List.foldlM_nil, List.flatMap_nil, List.append_nil]; rfl
  | cons x l ih =>
    rw [List.foldlM_cons, h x List.mem_cons_self]
    exact (ih (fun y hy => h y (List.mem_cons_of_mem x hy)) _).trans
      (by rw [List.flatMap_cons, List.append_assoc])

lemma ok_of_foldlM {α β ε : Type} {f : List β → α → Except ε (List β)} {l : List α} {a b : List β}
    (h : l.foldlM f a = .ok b) : ∀ x ∈ l, ∃ a' b', f a' x = .ok b' := by
  induction l generalizing a with
  | nil => exact fun x hx => absurd hx List.not_mem_nil
  | cons y l ih =>
    rw [List.foldlM_cons] at h
    obtain ⟨a', ha', h⟩ := bind_eq_ok.mp h
    intro x hx
    rcases List.mem_cons.mp hx with rfl | hx
    · exact ⟨a, a', ha'⟩
    · exact ih h x hx

lemma filterMap_cons_toList {α β : Type} (f : α → Option β) (x : α) (l : List α) :
    (x :: l).filterMap f = (f x).toList ++ l.filterMap f := by
  rw [List.filterMap_cons]
  cases f x <;> rfl

lemma listed_eq {rel : Path} (h : access.readDir (root ++ rel) = none) :
    listed s access root rel =
      (s.tree.listDir (root ++ rel)).flatMap (listedAt s access root rel) := by
  conv_rhs => rw [← List.attach_map_subtype_val (s.tree.listDir (root ++ rel)), List.flatMap_map]
  rw [listed, if_neg (by simp [h])]
  rfl

/-- Whatever of the scan is made of a file or a directory at a time is found along the list. -/
lemma collectReadable_eq {β : Type} (π : Found → List β) (at' : Path → Option β)
    (happend : ∀ a b, π (a.append b) = π a ++ π b) (hskip : ∀ l, π ⟨[], [], l⟩ = [])
    (hfile : ∀ p content m i, s.tree.get (root ++ p) = some (.file content m i) →
      π ⟨[fileEntry os s root p content.length], [], []⟩ = (at' p).toList)
    (hdir : ∀ p i, s.tree.get (root ++ p) = some (.dir i) → π ⟨[], [p.text], []⟩ = (at' p).toList)
    (rel : Path) :
    π (collectReadable os s access root rel) = (listed s access root rel).filterMap at' := by
  induction hk : below s.tree (root ++ rel) using Nat.strong_induction_on generalizing rel with
  | _ k ih =>
    rw [collectReadable, listed]
    cases hread : access.readDir (root ++ rel) with
    | some message => exact hskip _
    | none =>
      rw [if_neg (by simp), List.filterMap_flatMap]
      refine (foldl_collects π _ (fun n _ found => ?_) _).trans (by rw [hskip, List.nil_append])
      cases hn : isMousekeeperInternalDir n.1.1 with
      | true => rw [if_pos rfl, if_pos (.inl rfl), List.filterMap_nil, List.append_nil]
      | false =>
        rw [if_neg Bool.false_ne_true]
        cases hl : access.lstat (root ++ rel ++ [n.1]) with
        | some message =>
          rw [if_pos (.inr rfl), List.filterMap_nil]
          exact (happend _ _).trans (by rw [hskip])
        | none =>
          rw [if_neg (by simp)]
          have hp : root ++ (rel ++ [n.1]) = root ++ rel ++ [n.1] := (List.append_assoc _ _ _).symm
          rcases hg : s.tree.get (root ++ rel ++ [n.1]) with _ | node
          · exact (List.append_nil _).symm
          cases node with
          | dir i =>
            have hlt := below_lt (get_of_mem_listDir n.2)
            rw [hk, List.append_assoc] at hlt
            have hd := hdir (rel ++ [n.1]) i (hp ▸ hg)
            dsimp only
            rw [happend, happend, hd, ih _ hlt _ rfl, filterMap_cons_toList, List.append_assoc]
          | file content m i =>
            have hf := hfile (rel ++ [n.1]) content m i (hp ▸ hg)
            dsimp only
            rw [happend, hf, filterMap_cons_toList, List.filterMap_nil, List.append_nil]
          | symlink target => exact (happend _ _).trans (by rw [hskip]; rfl)

lemma files_collectReadable (rel : Path) : (collectReadable os s access root rel).files =
    (listed s access root rel).filterMap (fileAt os s root) := by
  refine collectReadable_eq Found.files _ (fun _ _ => rfl) (fun _ => rfl) ?_ ?_ rel
  · intro p content m i h
    rw [fileAt, h]
    rfl
  · intro p i h
    rw [fileAt, h]
    rfl

lemma directories_collectReadable (rel : Path) :
    (collectReadable os s access root rel).directories =
      (listed s access root rel).filterMap (directoryAt s root) := by
  refine collectReadable_eq Found.directories _ (fun _ _ => rfl) (fun _ => rfl) ?_ ?_ rel
  · intro p content m i h
    rw [directoryAt, h]
    rfl
  · intro p i h
    rw [directoryAt, h]
    rfl

lemma mem_listed {rel : Path} (h : access.readDir (root ++ rel) = none) {p : Path} :
    p ∈ listed s access root rel ↔
      ∃ n ∈ s.tree.listDir (root ++ rel), p ∈ listedAt s access root rel n := by
  rw [listed_eq h, List.mem_flatMap]

lemma listedAt_dir {rel : Path} {n : Name} {i : ℕ} (hn : isMousekeeperInternalDir n.1 = false)
    (hl : access.lstat (root ++ rel ++ [n]) = none)
    (hg : s.tree.get (root ++ rel ++ [n]) = some (.dir i)) :
    listedAt s access root rel n = (rel ++ [n]) :: listed s access root (rel ++ [n]) := by
  rw [listedAt, hn, hl, if_neg (by decide), hg]

variable (os) in
/-- The walk for the search entries, where it can read all that the scan lists. -/
lemma visitEntries_ok {rel : Path} (hrel : access.readDir (root ++ rel) = none)
    (h : ∀ p ∈ listed s access root rel, ∀ i, s.tree.get (root ++ p) = some (.dir i) →
      access.readDir (root ++ p) = none) :
    visitEntries os s access root rel =
      .ok ((listed s access root rel).filterMap (searchEntryAt os s root)) := by
  induction hk : below s.tree (root ++ rel) using Nat.strong_induction_on generalizing rel with
  | _ k ih =>
    rw [visitEntries, hrel, listed, if_neg (by simp [hrel]), List.filterMap_flatMap]
    refine (foldlM_collects _ (fun n _ found => ?_) _).trans (by rw [List.nil_append])
    have hmem := fun p hp => h p ((mem_listed hrel).mpr ⟨n.1, n.2, hp⟩)
    cases hn : isMousekeeperInternalDir n.1.1 with
    | true => rw [if_pos rfl, if_pos (.inl rfl), List.filterMap_nil, List.append_nil]
    | false =>
      rw [if_neg Bool.false_ne_true]
      cases hl : access.lstat (root ++ rel ++ [n.1]) with
      | some message =>
        rw [if_pos Option.isSome_some, if_pos (.inr rfl), List.filterMap_nil, List.append_nil]
      | none =>
        rw [if_neg (by simp), if_neg (by simp)]
        have hp : root ++ (rel ++ [n.1]) = root ++ rel ++ [n.1] := (List.append_assoc _ _ _).symm
        rcases hg : s.tree.get (root ++ rel ++ [n.1]) with _ | node
        · exact congrArg Except.ok (List.append_nil _).symm
        cases node with
        | dir i =>
          have hlt := below_lt (get_of_mem_listDir n.2)
          rw [hk, List.append_assoc] at hlt
          rw [listedAt_dir hn hl hg] at hmem
          have hbelow := ih _ hlt (hmem _ List.mem_cons_self i (hp ▸ hg))
            (fun p hp => hmem p (List.mem_cons_of_mem _ hp)) rfl
          dsimp only
          rw [hbelow, filterMap_cons_toList, searchEntryAt, hp, hg]
          exact congrArg Except.ok (List.append_assoc _ _ _)
        | file content m i =>
          dsimp only
          rw [filterMap_cons_toList, searchEntryAt, hp, hg, List.filterMap_nil, List.append_nil]
        | symlink target => exact congrArg Except.ok (List.append_nil _).symm

/-- The walk for the search entries gives up at what it cannot read. -/
lemma readable_of_visitEntries {rel : Path} {entries : List IndexedSearchEntry}
    (h : visitEntries os s access root rel = .ok entries) :
    access.readDir (root ++ rel) = none ∧
      ∀ p ∈ listed s access root rel, ∀ i, s.tree.get (root ++ p) = some (.dir i) →
        access.readDir (root ++ p) = none := by
  induction hk : below s.tree (root ++ rel) using Nat.strong_induction_on
    generalizing rel entries with
  | _ k ih =>
    rw [visitEntries] at h
    cases hread : access.readDir (root ++ rel) with
    | some message =>
      rw [hread] at h
      cases h
    | none =>
      refine ⟨rfl, fun p hp i hi => ?_⟩
      rw [hread] at h
      obtain ⟨n, hn, hp⟩ := (mem_listed hread).mp hp
      obtain ⟨a, b, hstep⟩ := ok_of_foldlM h ⟨n, hn⟩ (List.mem_attach _ _)
      have hassoc : root ++ (rel ++ [n]) = root ++ rel ++ [n] := (List.append_assoc _ _ _).symm
      unfold listedAt at hp
      split at hp
      · cases hp
      · next hc =>
        rw [not_or, Bool.not_eq_true, Bool.not_eq_true] at hc
        dsimp only at hstep
        rw [hc.1, hc.2, if_neg Bool.false_ne_true, if_neg Bool.false_ne_true] at hstep
        rcases hg : s.tree.get (root ++ rel ++ [n]) with _ | node
        · rw [hg] at hp
          cases hp
        rw [hg] at hp hstep
        cases node with
        | dir j =>
          have hlt := below_lt (get_of_mem_listDir hn)
          rw [hk, List.append_assoc] at hlt
          obtain ⟨below, hbelow, -⟩ := bind_eq_ok.mp hstep
          obtain ⟨hhere, hunder⟩ := ih _ hlt hbelow rfl
          rcases List.mem_cons.mp hp with rfl | hp
          · exact hhere
          · exact hunder p hp i hi
        | file content m j =>
          rw [List.mem_singleton.mp hp, hassoc, hg] at hi
          cases hi
        | symlink target => cases hp

/-- Where everything can be read, the scan is the plain one. -/
theorem collectReadable_of_open (hread : ∀ p, access.readDir p = none)
    (hlstat : ∀ p, access.lstat p = none) (rel : Path) :
    collectReadable os s access root rel = collectFiles os s root rel := by
  induction hk : below s.tree (root ++ rel) using Nat.strong_induction_on generalizing rel with
  | _ k ih =>
    rw [collectReadable, collectFiles, hread]
    refine List.foldl_ext _ _ _ fun found n _ => ?_
    cases isMousekeeperInternalDir n.1.1 with
    | true => rfl
    | false =>
      rw [if_neg Bool.false_ne_true, if_neg Bool.false_ne_true, hlstat]
      have hp : root ++ (rel ++ [n.1]) = root ++ rel ++ [n.1] := (List.append_assoc _ _ _).symm
      rcases hg : s.tree.get (root ++ rel ++ [n.1]) with _ | node
      · rfl
      cases node with
      | dir i =>
        have hlt := below_lt (get_of_mem_listDir n.2)
        rw [hk, List.append_assoc] at hlt
        dsimp only
        rw [ih _ hlt _ rfl]
      | file content m i =>
        dsimp only
        rw [fileEntry, modifiedUnixMs, hp, hg]
      | symlink target => rfl

/-! ### What is listed -/

/-- The place is a file or a directory. -/
def FileOrDirectory (t : Tree) (p : Path) : Prop :=
  (∃ content m i, t.get p = some (.file content m i)) ∨ ∃ i, t.get p = some (.dir i)

lemma listedAt_cases {rel p : Path} {n : Name} (h : p ∈ listedAt s access root rel n) :
    (p = rel ++ [n] ∧ FileOrDirectory s.tree (root ++ p)) ∨
      p ∈ listed s access root (rel ++ [n]) := by
  unfold listedAt at h
  split at h
  · cases h
  · rcases hg : s.tree.get (root ++ rel ++ [n]) with _ | node
    · rw [hg] at h
      cases h
    rw [hg] at h
    cases node with
    | dir i =>
      rcases List.mem_cons.mp h with rfl | h
      · exact .inl ⟨rfl, .inr ⟨i, List.append_assoc root rel _ ▸ hg⟩⟩
      · exact .inr h
    | file content m i =>
      rw [List.mem_singleton] at h
      subst h
      exact .inl ⟨rfl, .inl ⟨content, m, i, List.append_assoc root rel _ ▸ hg⟩⟩
    | symlink target => cases h

lemma readable_of_mem_listed {rel p : Path} (h : p ∈ listed s access root rel) :
    access.readDir (root ++ rel) = none := by
  cases hread : access.readDir (root ++ rel) with
  | none => rfl
  | some message =>
    rw [listed, hread, if_pos Option.isSome_some] at h
    cases h

/-- What is listed is there, and lies below. -/
lemma fileOrDirectory_of_mem_listed {rel p : Path} (h : p ∈ listed s access root rel) :
    (∃ n q, p = rel ++ n :: q) ∧ FileOrDirectory s.tree (root ++ p) := by
  induction hk : below s.tree (root ++ rel) using Nat.strong_induction_on generalizing rel with
  | _ k ih =>
    obtain ⟨n, hn, hp⟩ := (mem_listed (readable_of_mem_listed h)).mp h
    have hlt := below_lt (get_of_mem_listDir hn)
    rw [hk, List.append_assoc] at hlt
    rcases listedAt_cases hp with ⟨rfl, hp⟩ | hp
    · exact ⟨⟨n, [], rfl⟩, hp⟩
    · obtain ⟨⟨m, q, rfl⟩, hr⟩ := ih _ hlt hp rfl
      exact ⟨⟨n, m :: q, List.append_assoc _ _ _⟩, hr⟩

lemma under_of_mem_listedAt {rel p : Path} {n : Name} (h : p ∈ listedAt s access root rel n) :
    ∃ q, p = rel ++ n :: q := by
  rcases listedAt_cases h with ⟨rfl, -⟩ | h
  · exact ⟨[], rfl⟩
  · obtain ⟨⟨m, q, rfl⟩, -⟩ := fileOrDirectory_of_mem_listed h
    exact ⟨m :: q, List.append_assoc _ _ _⟩

/-- Nothing is listed twice. -/
lemma nodup_listed (rel : Path) : (listed s access root rel).Nodup := by
  induction hk : below s.tree (root ++ rel) using Nat.strong_induction_on generalizing rel with
  | _ k ih =>
    cases hread : access.readDir (root ++ rel) with
    | some message =>
      rw [listed, hread, if_pos Option.isSome_some]
      exact List.nodup_nil
    | none =>
      rw [listed_eq hread, List.nodup_flatMap]
      constructor
      · intro n hn
        have hlt := below_lt (get_of_mem_listDir hn)
        rw [hk, List.append_assoc] at hlt
        unfold listedAt
        split
        · exact List.nodup_nil
        · split
          · refine List.nodup_cons.mpr ⟨fun h => ?_, ih _ hlt _ rfl⟩
            obtain ⟨⟨m, q, hq⟩, -⟩ := fileOrDirectory_of_mem_listed h
            have hlen := congrArg List.length hq
            simp at hlen
          · exact List.nodup_singleton _
          · exact List.nodup_nil
      · have hdedup : (s.tree.listDir (root ++ rel)).Nodup := List.nodup_dedup _
        refine hdedup.imp fun {n m} hne p hp hp' => hne ?_
        obtain ⟨q, rfl⟩ := under_of_mem_listedAt hp
        obtain ⟨q', hq⟩ := under_of_mem_listedAt hp'
        exact (List.cons.inj (List.append_cancel_left hq)).1

/-! ### Backslashes -/

/-- Cutting at slashes and backslashes, where there are no backslashes. -/
lemma splitOnP_eq_splitSlash {l : List Char} (h : '\\' ∉ l) :
    l.splitOnP (fun c => c = '/' || c = '\\') = splitSlash l := by
  induction l with
  | nil => rfl
  | cons c l ih =>
    rw [List.mem_cons, not_or] at h
    have hc : c ≠ '\\' := Ne.symm h.1
    rw [List.splitOnP_cons_eq_if_modifyHead, ih h.2, splitSlash]
    by_cases hs : c = '/'
    · rw [if_pos (by simp [hs]), if_pos hs]
    · rw [if_neg (by simp [hs, hc]), if_neg hs]
      obtain ⟨x, xs, hx⟩ := List.exists_cons_of_ne_nil (splitSlash_ne_nil l)
      rw [hx]
      rfl

lemma not_mem_of_mem_splitOnP {l x : List Char}
    (h : x ∈ l.splitOnP (fun c => c = '/' || c = '\\')) : '\\' ∉ x := by
  induction l generalizing x with
  | nil => simp [List.mem_singleton.mp h]
  | cons c l ih =>
    rw [List.splitOnP_cons_eq_if_modifyHead] at h
    split at h
    · rcases List.mem_cons.mp h with rfl | h
      · exact List.not_mem_nil
      · exact ih h
    · next hc =>
      obtain ⟨y, ys, hy⟩ := List.exists_cons_of_ne_nil
        (List.splitOnP_ne_nil (fun c => c = '/' || c = '\\') l)
      rw [hy] at h ih
      rcases List.mem_cons.mp h with rfl | h
      · have hy := ih List.mem_cons_self
        rw [Bool.not_eq_true, Bool.or_eq_false_iff, decide_eq_false_iff_not,
          decide_eq_false_iff_not] at hc
        exact fun hm => (List.mem_cons.mp hm).elim (fun h => hc.2 h.symm) hy
      · exact ih (List.mem_cons_of_mem _ h)

lemma not_mem_normalizeSeparators (path : String) :
    '\\' ∉ (normalizeSeparators path).toList := by
  have hslash : ("/" : String).toList = ['/'] := by decide
  rw [normalizeSeparators, String.toList_intercalate, hslash, List.map_map]
  intro h
  rcases mem_intercalate h with h | ⟨x, hx, h⟩
  · exact absurd h (by decide)
  · obtain ⟨y, hy, rfl⟩ := List.mem_map.mp hx
    rw [Function.comp_apply, String.toList_ofList] at h
    exact not_mem_of_mem_splitOnP (List.mem_of_mem_filter hy) h

lemma normalizeSeparators_text {p : Path} (hp : p ≠ []) (h : '\\' ∉ p.text.toList) :
    normalizeSeparators p.text = p.text := by
  have hkept : ((p.map fun n => n.1.toList).filter (· ≠ [])) = p.map fun n => n.1.toList := by
    refine List.filter_eq_self.mpr fun x hx => ?_
    obtain ⟨n, -, rfl⟩ := List.mem_map.mp hx
    simpa using name_ne_empty n
  rw [normalizeSeparators, splitOnP_eq_splitSlash h, splitSlash_of_segsOf (segsOf_text hp), hkept,
    List.map_map, Path.text]
  congr 1
  refine List.map_congr_left fun n _ => ?_
  rw [Function.comp_apply, String.ofList_toList]

lemma indexedSearchEntry_text {p : Path} (hp : p ≠ []) (h : '\\' ∉ p.text.toList) (isDir : Bool)
    (size modified : Option ℕ) :
    ∃ e, indexedSearchEntry p.text isDir size modified = some e ∧ e.relativePath = p.text ∧
      e.isDir = isDir := by
  rw [indexedSearchEntry, normalizeSeparators_text hp h, segsOf_text hp, fileName_raw]
  obtain ⟨n, hn⟩ := Option.ne_none_iff_exists'.mp (mt List.getLast?_eq_none_iff.mp hp)
  rw [hn]
  exact ⟨_, rfl, rfl, rfl⟩

lemma relativePath_indexedSearchEntry {path : String} {isDir : Bool} {size modified : Option ℕ}
    {e : IndexedSearchEntry} (h : indexedSearchEntry path isDir size modified = some e) :
    '\\' ∉ e.relativePath.toList := by
  unfold indexedSearchEntry at h
  obtain ⟨n, -, rfl⟩ := Option.map_eq_some_iff.mp h
  exact not_mem_normalizeSeparators path

/-! ### The rows -/

lemma text_inj {p q : Path} (hp : p ≠ []) (hq : q ≠ []) (h : p.text = q.text) : p = q := by
  have hraw : p.raw = q.raw := by rw [← segsOf_text hp, h, segsOf_text hq]
  exact List.map_injective_iff.mpr (fun _ _ => Seg.name.inj) hraw

lemma ne_nil_of_mem_listed {p : Path} (h : p ∈ listed s access root []) : p ≠ [] := by
  obtain ⟨⟨n, q, rfl⟩, -⟩ := fileOrDirectory_of_mem_listed h
  exact List.cons_ne_nil n q

lemma nodup_text_listed : ((listed s access root []).map Path.text).Nodup := by
  refine List.Nodup.map_on (fun p hp q hq h => ?_) (nodup_listed [])
  exact text_inj (ne_nil_of_mem_listed hp) (ne_nil_of_mem_listed hq) h

lemma path_of_fileAt {p : Path} {f : FileEntry} (h : fileAt os s root p = some f) :
    f.path = p.text := by
  unfold fileAt at h
  split at h
  · cases h
    rfl
  · cases h

/-- The paths of the files are among those of the list, in the same order. -/
lemma files_sublist (l : List Path) :
    ((l.filterMap (fileAt os s root)).map (·.path)).Sublist (l.map Path.text) := by
  induction l with
  | nil => exact List.Sublist.slnil
  | cons p l ih =>
    rw [filterMap_cons_toList]
    cases hf : fileAt os s root p with
    | none => exact ih.cons _
    | some f =>
      rw [Option.toList_some, List.singleton_append, List.map_cons, List.map_cons,
        path_of_fileAt hf]
      exact ih.cons_cons _

/-- Each file and each directory has its entry. -/
lemma entries_perm {l : List Path} (hr : ∀ p ∈ l, p ≠ [] ∧ FileOrDirectory s.tree (root ++ p))
    (hb : ∀ p ∈ l, '\\' ∉ p.text.toList) :
    ((l.filterMap (searchEntryAt os s root)).map fun e => (e.relativePath, e.isDir)).Perm
      ((l.filterMap (fileAt os s root)).map (fun f => (f.path, false)) ++
        (l.filterMap (directoryAt s root)).map fun d => (d, true)) := by
  induction l with
  | nil => exact List.Perm.nil
  | cons p l ih =>
    have ih := ih (fun q hq => hr q (List.mem_cons_of_mem p hq))
      fun q hq => hb q (List.mem_cons_of_mem p hq)
    obtain ⟨hp, hrep⟩ := hr p List.mem_cons_self
    have hbp := hb p List.mem_cons_self
    simp only [filterMap_cons_toList, List.map_append]
    rcases hrep with ⟨content, m, i, hg⟩ | ⟨i, hg⟩
    · obtain ⟨e, he, hpath, hdir⟩ := indexedSearchEntry_text hp hbp false (some content.length)
        (modifiedUnixMs os s (root ++ p))
      rw [searchEntryAt, fileAt, directoryAt, hg]
      dsimp only
      rw [he]
      simp only [Option.toList_some, Option.toList_none, List.map_cons, List.map_nil,
        List.nil_append, List.cons_append, fileEntry, hpath, hdir]
      exact ih.cons (p.text, false)
    · obtain ⟨e, he, hpath, hdir⟩ := indexedSearchEntry_text hp hbp true none
        (modifiedUnixMs os s (root ++ p))
      rw [searchEntryAt, fileAt, directoryAt, hg]
      dsimp only
      rw [he]
      simp only [Option.toList_some, Option.toList_none, List.map_cons, List.map_nil,
        List.nil_append, List.cons_append, hpath, hdir]
      exact (ih.cons (p.text, true)).trans List.perm_middle.symm

/-- The rows are those of the files, and the entries those of the files and the directories, that
the scan reports. -/
def FollowsReport (report : AnalyzeReport) (ix : FileIndex) : Prop :=
  ix.files.map (fun f => (f.relativePath, f.sizeBytes, f.modifiedUnixMs)) =
      report.files.map (fun f => (f.path, f.sizeBytes, f.modifiedUnixMs)) ∧
    (ix.entries.map fun e => (e.relativePath, e.isDir)).Perm
      (report.files.map (fun f => (f.path, false)) ++ report.directories.map fun d => (d, true))

lemma analyzeReadable_ok {raw : RawPath} {report : AnalyzeReport}
    (h : analyzeReadable os s access raw = .ok report) :
    ∃ g, PathGuard.new s.tree raw = .ok g ∧ access.readDir g.root = none ∧
      report.files.Perm ((listed s access g.root []).filterMap (fileAt os s g.root)) ∧
      report.directories.Perm ((listed s access g.root []).filterMap (directoryAt s g.root)) := by
  obtain ⟨g, hg, h⟩ := bind_eq_ok.mp h
  split at h
  · cases h
  · next hread =>
    cases h
    refine ⟨g, mapError_eq_ok.mp hg, hread, ?_, ?_⟩
    · rw [← files_collectReadable]
      exact List.mergeSort_perm _ _
    · rw [← directories_collectReadable]
      exact List.mergeSort_perm _ _

lemma analyzeReadable_of_readable {raw : RawPath} {g : PathGuard}
    (hg : PathGuard.new s.tree raw = .ok g) (h : access.readDir g.root = none) :
    ∃ report, analyzeReadable os s access raw = .ok report := by
  rw [analyzeReadable, hg]
  simp only [Except.mapError, bind, Except.bind, h]
  exact ⟨_, rfl⟩

lemma mem_directories {l : List Path} {d : String} :
    d ∈ l.filterMap (directoryAt s root) ↔
      ∃ p ∈ l, (∃ i, s.tree.get (root ++ p) = some (.dir i)) ∧ d = p.text := by
  rw [List.mem_filterMap]
  refine exists_congr fun p => and_congr_right fun _ => ?_
  unfold directoryAt
  constructor
  · intro h
    split at h
    · next i hg =>
      cases h
      exact ⟨⟨i, hg⟩, rfl⟩
    · cases h
  · rintro ⟨⟨i, hg⟩, rfl⟩
    rw [hg]

/-- What is listed is among the files or the directories. -/
lemma text_reported {l : List Path} {p : Path} (hp : p ∈ l)
    (hr : FileOrDirectory s.tree (root ++ p)) :
    p.text ∈ (l.filterMap (fileAt os s root)).map (·.path) ++
      l.filterMap (directoryAt s root) := by
  rcases hr with ⟨content, m, i, hg⟩ | hg
  · have hf : fileAt os s root p = some (fileEntry os s root p content.length) := by
      rw [fileAt, hg]
    exact List.mem_append_left _ (List.mem_map.mpr ⟨_, List.mem_filterMap.mpr ⟨p, hp, hf⟩, rfl⟩)
  · exact List.mem_append_right _ (mem_directories.mpr ⟨p, hp, hg, rfl⟩)

lemma no_backslash_searchEntryAt {p : Path} {e : IndexedSearchEntry}
    (h : searchEntryAt os s root p = some e) : '\\' ∉ e.relativePath.toList := by
  unfold searchEntryAt at h
  split at h
  · exact relativePath_indexedSearchEntry h
  · exact relativePath_indexedSearchEntry h
  · cases h

/-- Without backslashes the entries have the paths of the list. -/
lemma entries_paths {l : List Path} (hr : ∀ p ∈ l, p ≠ [] ∧ FileOrDirectory s.tree (root ++ p))
    (hb : ∀ p ∈ l, '\\' ∉ p.text.toList) :
    (l.filterMap (searchEntryAt os s root)).map (·.relativePath) = l.map Path.text := by
  induction l with
  | nil => rfl
  | cons p l ih =>
    have ih := ih (fun q hq => hr q (List.mem_cons_of_mem p hq))
      fun q hq => hb q (List.mem_cons_of_mem p hq)
    obtain ⟨hp, hrep⟩ := hr p List.mem_cons_self
    obtain ⟨e, he, hpath⟩ : ∃ e, searchEntryAt os s root p = some e ∧ e.relativePath = p.text := by
      rcases hrep with ⟨content, m, i, hg⟩ | ⟨i, hg⟩
      · obtain ⟨e, he, hpath, -⟩ := indexedSearchEntry_text hp (hb p List.mem_cons_self) false
          (some content.length) (modifiedUnixMs os s (root ++ p))
        exact ⟨e, by rw [searchEntryAt, hg]; exact he, hpath⟩
      · obtain ⟨e, he, hpath, -⟩ := indexedSearchEntry_text hp (hb p List.mem_cons_self) true
          none (modifiedUnixMs os s (root ++ p))
        exact ⟨e, by rw [searchEntryAt, hg]; exact he, hpath⟩
    rw [List.filterMap_cons, he, List.map_cons, List.map_cons, hpath, ih]

lemma reindexRoot_ok {lower : String → String} {files : List IndexedFile}
    {found : List IndexedSearchEntry} {ix ix' : FileIndex}
    (h : reindexRoot lower files found ix = .ok ix') :
    ix'.files = files ∧ ix'.entries = found.map (searchRow lower) ∧
      ix.generation + 1 < 2 ^ 63 := by
  unfold reindexRoot at h
  split at h
  · split at h
    · obtain ⟨generation, hg, h⟩ := bind_eq_ok.mp h
      cases h
      unfold bumpGeneration at hg
      split at hg
      · next hlt => exact ⟨rfl, rfl, hlt⟩
      · cases hg
    · cases h
  · cases h

lemma reindexRoot_of_nodup (lower : String → String) {files : List IndexedFile}
    {found : List IndexedSearchEntry} {ix : FileIndex}
    (hf : (files.map (·.relativePath)).Nodup) (he : (found.map (·.relativePath)).Nodup)
    (hg : ix.generation + 1 < 2 ^ 63) :
    ∃ ix', reindexRoot lower files found ix = .ok ix' ∧ ix'.files = files ∧
      ix'.entries = found.map (searchRow lower) := by
  have he' : ((found.map (searchRow lower)).map (·.relativePath)).Nodup := by
    rwa [List.map_map]
  refine ⟨⟨files, found.map (searchRow lower), ix.generation + 1, true, hf, he'⟩, ?_, rfl, rfl⟩
  rw [reindexRoot, dif_pos hf, dif_pos he', bumpGeneration, if_pos hg]
  rfl

lemma reindexTree_ok {lower : String → String} {raw : RawPath} {report : AnalyzeReport}
    {g : PathGuard} {ix ix' : FileIndex} (h : analyzeReadable os s access raw = .ok report)
    (hg : PathGuard.new s.tree raw = .ok g) :
    reindexTree os s access lower raw ix = .ok ix' ↔
      ∃ entries, visitEntries os s access g.root [] = .ok entries ∧
        reindexRoot lower (report.files.map (indexedFile os s g))
          (entries.mergeSort (searchEntryOrder lower)) ix = .ok ix' := by
  have hroot : PathGuard.new s.tree g.root.raw = .ok g := new_root (new_ok hg).2
  have hagain : analyzeReadable os s access g.root.raw = .ok report := by
    rw [← h, analyzeReadable, analyzeReadable, hroot, hg]
  rw [reindexTree, hg]
  simp only [bind_eq_ok, mapError_eq_ok, collectSearchEntries, Except.ok.injEq,
    exists_eq_left', hagain]
  constructor
  · rintro ⟨found, hfound, hix⟩
    cases hv : visitEntries os s access g.root [] with
    | error e =>
      rw [hv] at hfound
      cases hfound
    | ok entries =>
      rw [hv] at hfound
      cases hfound
      exact ⟨entries, rfl, hix⟩
  · rintro ⟨entries, hv, hix⟩
    exact ⟨_, by rw [hv]; rfl, hix⟩

/-- What the scan reports can be read, and has no backslashes, if the index follows it. -/
lemma readable_of_follows {lower : String → String} {ix ix' : FileIndex} {raw : RawPath}
    {report : AnalyzeReport} (h : analyzeReadable os s access raw = .ok report)
    (hix : reindexTree os s access lower raw ix = .ok ix') (hfollows : FollowsReport report ix') :
    (∀ g, PathGuard.new s.tree raw = .ok g → ∀ p : Path, p.text ∈ report.directories →
      access.readDir (g.root ++ p) = none) ∧
    (∀ d ∈ report.files.map (·.path) ++ report.directories, '\\' ∉ d.toList) ∧
    ix.generation + 1 < 2 ^ 63 := by
  obtain ⟨g, hg, hread, -, hdirs⟩ := analyzeReadable_ok h
  obtain ⟨-, hentries⟩ := hfollows
  obtain ⟨entries, hv, hix⟩ := (reindexTree_ok h hg).mp hix
  have hroot : access.readDir (g.root ++ []) = none := by rwa [List.append_nil]
  obtain ⟨-, hsub⟩ := readable_of_visitEntries hv
  obtain ⟨-, hrows, hgen⟩ := reindexRoot_ok hix
  refine ⟨fun g' hg' p hp => ?_, fun d hd hb => ?_, hgen⟩
  · cases hg.symm.trans hg'
    obtain ⟨q, hq, ⟨i, hi⟩, hpq⟩ := mem_directories.mp (hdirs.mem_iff.mp hp)
    have hqne := ne_nil_of_mem_listed hq
    have hpne : p ≠ [] := by
      rintro rfl
      exact text_ne_empty hqne hpq.symm
    rw [text_inj hpne hqne hpq]
    exact hsub q hq i hi
  · obtain ⟨b, hd⟩ : ∃ b, (d, b) ∈ report.files.map (fun f => (f.path, false)) ++
        report.directories.map fun d => (d, true) := by
      rcases List.mem_append.mp hd with hd | hd
      · obtain ⟨f, hf, rfl⟩ := List.mem_map.mp hd
        exact ⟨false, List.mem_append_left _ (List.mem_map_of_mem hf)⟩
      · exact ⟨true, List.mem_append_right _ (List.mem_map_of_mem hd)⟩
    obtain ⟨row, hrow, hkey⟩ := List.mem_map.mp (hentries.mem_iff.mpr hd)
    rw [hrows] at hrow
    obtain ⟨e, he, rfl⟩ := List.mem_map.mp hrow
    rw [List.mem_mergeSort, ← Except.ok.inj ((visitEntries_ok os hroot hsub).symm.trans hv)] at he
    obtain ⟨p, -, hp⟩ := List.mem_filterMap.mp he
    cases hkey
    exact no_backslash_searchEntryAt hp hb

/-- The index follows a report of readable directories without backslashes. -/
lemma follows_of_readable (lower : String → String) {ix : FileIndex} {raw : RawPath}
    {report : AnalyzeReport} (h : analyzeReadable os s access raw = .ok report)
    (hsub : ∀ g, PathGuard.new s.tree raw = .ok g → ∀ p : Path, p.text ∈ report.directories →
      access.readDir (g.root ++ p) = none)
    (hb : ∀ d ∈ report.files.map (·.path) ++ report.directories, '\\' ∉ d.toList)
    (hgen : ix.generation + 1 < 2 ^ 63) :
    ∃ ix', reindexTree os s access lower raw ix = .ok ix' ∧ FollowsReport report ix' := by
  obtain ⟨g, hg, hread, hfiles, hdirs⟩ := analyzeReadable_ok h
  have hroot : access.readDir (g.root ++ []) = none := by rwa [List.append_nil]
  have hlisted : ∀ p ∈ listed s access g.root [],
      p ≠ [] ∧ FileOrDirectory s.tree (g.root ++ p) := fun p hp =>
    ⟨ne_nil_of_mem_listed hp, (fileOrDirectory_of_mem_listed hp).2⟩
  have hreport := (hfiles.map (·.path)).append hdirs
  have hnames : ∀ p ∈ listed s access g.root [], '\\' ∉ p.text.toList := fun p hp =>
    hb p.text (hreport.mem_iff.mpr (text_reported hp (hlisted p hp).2))
  have hv := visitEntries_ok os hroot fun p hp i hi =>
    hsub g hg p (hdirs.mem_iff.mpr (mem_directories.mpr ⟨p, hp, ⟨i, hi⟩, rfl⟩))
  generalize hentries : (listed s access g.root []).filterMap (searchEntryAt os s g.root) = entries
    at hv
  have hsort := List.mergeSort_perm entries (searchEntryOrder lower)
  have hunique : ((entries.mergeSort (searchEntryOrder lower)).map (·.relativePath)).Nodup := by
    rw [(hsort.map _).nodup_iff, ← hentries, entries_paths hlisted hnames]
    exact nodup_text_listed
  have hpaths : ((report.files.map (indexedFile os s g)).map (·.relativePath)).Nodup := by
    rw [List.map_map]
    exact ((hfiles.map (·.path)).nodup_iff).mpr (nodup_text_listed.sublist (files_sublist _))
  obtain ⟨ix', hix, hf, he⟩ := reindexRoot_of_nodup lower hpaths hunique hgen
  refine ⟨ix', (reindexTree_ok h hg).mpr ⟨entries, hv, hix⟩, ?_, ?_⟩
  · rw [hf, List.map_map]
    rfl
  · rw [he, List.map_map]
    refine (hsort.map _).trans ?_
    rw [← hentries]
    exact (entries_perm hlisted hnames).trans
      ((hfiles.symm.map _).append (hdirs.symm.map _))

/-- **Index rows.** The index follows the tree as the scan reports it if and only if every
directory of the report can be read, no name of the report has a backslash in it, and the
generation has room. -/
theorem reindex_follows_iff (lower : String → String) (ix : FileIndex) {raw : RawPath}
    {report : AnalyzeReport} (h : analyzeReadable os s access raw = .ok report) :
    (∃ ix', reindexTree os s access lower raw ix = .ok ix' ∧ FollowsReport report ix') ↔
      (∀ g, PathGuard.new s.tree raw = .ok g → ∀ p : Path, p.text ∈ report.directories →
        access.readDir (g.root ++ p) = none) ∧
      (∀ d ∈ report.files.map (·.path) ++ report.directories, '\\' ∉ d.toList) ∧
      ix.generation + 1 < 2 ^ 63 :=
  ⟨fun ⟨_, hix, hfollows⟩ => readable_of_follows h hix hfollows,
    fun ⟨hsub, hb, hgen⟩ => follows_of_readable lower h hsub hb hgen⟩

end Walks

/-! ### Samples -/

def openAccess : Access := ⟨fun _ => none, fun _ => none⟩

def rootName : Name := ⟨"work", by decide⟩

def backslashName : Name := ⟨"a\\b", by decide⟩

def plainName : Name := ⟨"notes.txt", by decide⟩

/-- A managed root with one file in it. -/
def workWith (n : Name) : Sys :=
  .fresh [([rootName], .dir 1), ([rootName, n], .file [1] none 2)]

/-- Its scan. -/
lemma report_workWith {n : Name} (hroot : (workWith n).tree.isDir [rootName] = true)
    (hlisted : listed (workWith n) openAccess [rootName] [] = [[n]])
    (hget : (workWith n).tree.get [rootName, n] = some (.file [1] none 2)) :
    ∃ report, analyzeReadable Os.still (workWith n) openAccess (Path.raw [rootName]) = .ok report ∧
      report.files.map (·.path) ++ report.directories = [n.1] := by
  have hg := new_root hroot
  have hopen : openAccess.readDir [rootName] = none := rfl
  obtain ⟨report, h⟩ := analyzeReadable_of_readable hg hopen
  obtain ⟨g, hg', -, hfiles, hdirs⟩ := analyzeReadable_ok h
  cases hg.symm.trans hg'
  refine ⟨report, h, ?_⟩
  have hdirectories : directoryAt (workWith n) [rootName] [n] = none := by
    rw [directoryAt, List.singleton_append, hget]
  have hfile : fileAt Os.still (workWith n) [rootName] [n] =
      some (fileEntry Os.still (workWith n) [rootName] [n] 1) := by
    rw [fileAt, List.singleton_append, hget]
    rfl
  rw [hlisted, List.filterMap_cons, hfile] at hfiles
  rw [hlisted, List.filterMap_cons, hdirectories] at hdirs
  rw [List.perm_singleton.mp hfiles, List.perm_nil.mp hdirs]
  exact congrArg (fun x => [x]) (text_singleton n)

theorem reindex_follows_iff_sample : ∃ report ix',
    analyzeReadable Os.still (workWith plainName) openAccess (Path.raw [rootName]) = .ok report ∧
      reindexTree Os.still (workWith plainName) openAccess id (Path.raw [rootName]) .empty =
        .ok ix' ∧ FollowsReport report ix' := by
  have hdir : (workWith plainName).tree.listDir ([rootName] ++ []) = [plainName] := by decide
  have hlisted : listed (workWith plainName) openAccess [rootName] [] = [[plainName]] := by
    rw [listed_eq rfl, hdir]
    rfl
  obtain ⟨report, h, hnames⟩ := report_workWith (by decide) hlisted (by decide)
  obtain ⟨ix', hix, hfollows⟩ := (reindex_follows_iff id .empty h).mpr
    ⟨fun _ _ _ _ => rfl, by rw [hnames]; decide, by decide⟩
  exact ⟨report, ix', h, hix, hfollows⟩

/-- The row of the file `a\b` is not its row. -/
theorem not_reindex_follows : ¬ ∀ (os : Os) (s : Sys) (access : Access) (lower : String → String)
    (ix : FileIndex) (raw : RawPath) (report : AnalyzeReport),
    analyzeReadable os s access raw = .ok report →
      ∃ ix', reindexTree os s access lower raw ix = .ok ix' ∧ FollowsReport report ix' := by
  intro hall
  have hdir : (workWith backslashName).tree.listDir ([rootName] ++ []) = [backslashName] := by
    decide
  have hlisted : listed (workWith backslashName) openAccess [rootName] [] = [[backslashName]] := by
    rw [listed_eq rfl, hdir]
    rfl
  obtain ⟨report, h, hnames⟩ := report_workWith (by decide) hlisted (by decide)
  obtain ⟨ix', hix, hfollows⟩ := hall Os.still (workWith backslashName) openAccess id .empty _ _ h
  obtain ⟨-, hb, -⟩ := readable_of_follows h hix hfollows
  rw [hnames] at hb
  exact hb _ List.mem_cons_self (by decide)

end MouseKeeper.FileEngine
