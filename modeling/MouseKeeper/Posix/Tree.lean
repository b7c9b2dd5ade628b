import MouseKeeper.Posix.Path

/-!
Directory trees.

A tree says what stands at each place. Every entry lies in a directory, the top is one,
and a list covers the places in use, so no change of a tree can leave an entry hanging.
There are no devices, sockets or pipes, and a name of any length is accepted.
-/

namespace MouseKeeper.Posix

abbrev Content := List UInt8

/-- An entry. The number `ino` is the identity of a file or directory: a rename keeps it. -/
inductive Node
  | file (content : Content) (mtime : Option ℕ) (ino : ℕ)
  | dir (ino : ℕ)
  | symlink (target : String)
  deriving DecidableEq

def Node.isSymlink : Node → Bool
  | .symlink _ => true
  | _ => false

structure Tree where
  get : Path → Option Node
  support : List Path
  mem_support : ∀ p, get p ≠ none → p ∈ support
  root_dir : ∃ i, get [] = some (.dir i)
  parent_dir : ∀ p n, get (p ++ [n]) ≠ none → ∃ i, get p = some (.dir i)

namespace Tree

def isDir (t : Tree) (p : Path) : Bool :=
  match t.get p with
  | some (.dir _) => true
  | _ => false

def isFile (t : Tree) (p : Path) : Bool :=
  match t.get p with
  | some (.file _ _ _) => true
  | _ => false

/-- Nothing stands below `p`. -/
def childless (t : Tree) (p : Path) : Bool :=
  t.support.all fun x => !(p.isPrefixOf x) || x == p || (t.get x).isNone

variable {t : Tree} {p q : Path} {n : Name}

lemma isDir_iff : t.isDir p = true ↔ ∃ i, t.get p = some (.dir i) := by
  unfold isDir
  split
  · next i h => simp [h]
  · next h => simpa using fun i hi => h i hi

lemma isFile_iff : t.isFile p = true ↔ ∃ c m i, t.get p = some (.file c m i) := by
  unfold isFile
  split
  · next c m i h => simp [h]
  · next h => simpa using fun c m i hi => h c m i hi

@[simp] lemma isDir_root : t.isDir [] = true := isDir_iff.mpr t.root_dir

lemma isDir_parent (h : t.get (p ++ [n]) ≠ none) : t.isDir p = true :=
  isDir_iff.mpr (t.parent_dir p n h)

lemma get_ne_none_of_isDir (h : t.isDir p = true) : t.get p ≠ none := by
  obtain ⟨i, hi⟩ := isDir_iff.mp h
  simp [hi]

/-- Whatever lies above an entry is a directory. -/
lemma isDir_above (h : t.get (p ++ q) ≠ none) (hq : q ≠ []) : t.isDir p = true := by
  induction q using List.reverseRecOn with
  | nil => exact absurd rfl hq
  | append_singleton q n ih =>
    rw [← List.append_assoc] at h
    have hd := isDir_parent h
    by_cases hq' : q = []
    · simpa [hq'] using hd
    · exact ih (get_ne_none_of_isDir hd) hq'

lemma childless_iff : t.childless p = true ↔ ∀ q, q ≠ [] → t.get (p ++ q) = none := by
  unfold childless
  rw [List.all_eq_true]
  constructor
  · intro h q hq
    by_contra hc
    have := h _ (t.mem_support _ hc)
    simp only [Bool.or_eq_true, Bool.not_eq_true', beq_iff_eq,
      Option.isNone_iff_eq_none] at this
    rcases this with (h' | h') | h'
    · exact absurd (List.isPrefixOf_iff_prefix.mpr (List.prefix_append p q)) (by simp [h'])
    · exact hq (by simpa using h')
    · exact hc h'
  · intro h x _
    by_cases hx : p <+: x
    · obtain ⟨q, rfl⟩ := hx
      by_cases hq : q = []
      · simp [hq]
      · simp [h q hq]
    · have : p.isPrefixOf x = false := by
        rw [Bool.eq_false_iff]
        exact fun hc => hx (List.isPrefixOf_iff_prefix.mp hc)
      simp [this]

/-! ### Changing a tree -/

/-- Sets the entry `n` of the directory `p`, which must not be a directory yet. -/
def put (t : Tree) (p : Path) (n : Name) (node : Node) (hp : t.isDir p = true)
    (hn : t.isDir (p ++ [n]) = false) : Tree where
  get x := if x = p ++ [n] then some node else t.get x
  support := (p ++ [n]) :: t.support
  mem_support x hx := by
    by_cases h : x = p ++ [n]
    · simp [h]
    · rw [if_neg h] at hx
      exact List.mem_cons_of_mem _ (t.mem_support x hx)
  root_dir := by simpa using t.root_dir
  parent_dir x m hx := by
    by_cases h : x = p ++ [n]
    · rw [if_neg (by simp [h])] at hx
      simp [isDir_parent (n := m) (h ▸ hx)] at hn
    · rw [if_neg h]
      by_cases hxm : x ++ [m] = p ++ [n]
      · obtain ⟨rfl, -⟩ := List.append_inj' hxm rfl
        exact isDir_iff.mp hp
      · rw [if_neg hxm] at hx
        exact t.parent_dir x m hx

/-- Removes the entry `n` of `p`, which must have nothing below it. -/
def erase (t : Tree) (p : Path) (n : Name) (hn : t.childless (p ++ [n]) = true) : Tree where
  get x := if x = p ++ [n] then none else t.get x
  support := t.support
  mem_support x hx := by
    by_cases h : x = p ++ [n]
    · simp [h] at hx
    · rw [if_neg h] at hx
      exact t.mem_support x hx
  root_dir := by simpa using t.root_dir
  parent_dir x m hx := by
    by_cases hxm : x ++ [m] = p ++ [n]
    · simp [hxm] at hx
    · rw [if_neg hxm] at hx
      by_cases h : x = p ++ [n]
      · exact absurd (childless_iff.mp hn [m] (by simp)) (h ▸ hx)
      · rw [if_neg h]
        exact t.parent_dir x m hx

/-- Where a place lands when the entry at `src` is renamed to `dst`. -/
def reroute (src dst p : Path) : Path :=
  if src <+: p then dst ++ p.drop src.length else p

/-- Renames the entry at `src`, with all below it, to the entry `n` of the directory `p`. -/
def relocate (t : Tree) (src p : Path) (n : Name) (hp : t.isDir p = true)
    (hsub : ¬ src <+: p ++ [n]) (hfree : t.childless (p ++ [n]) = true) : Tree where
  get x :=
    if p ++ [n] <+: x then t.get (src ++ x.drop (p.length + 1))
    else if src <+: x then none
    else t.get x
  support := t.support ++ t.support.map (reroute src (p ++ [n]))
  mem_support x hx := by
    rw [List.mem_append, List.mem_map]
    by_cases h : p ++ [n] <+: x
    · rw [if_pos h] at hx
      refine Or.inr ⟨_, t.mem_support _ hx, ?_⟩
      obtain ⟨y, rfl⟩ := h
      simp [reroute]
    · rw [if_neg h] at hx
      by_cases hs : src <+: x
      · simp [hs] at hx
      · rw [if_neg hs] at hx
        exact Or.inl (t.mem_support x hx)
  root_dir := by
    have h1 : ¬ (p ++ [n] <+: []) := by simp
    have h2 : ¬ (src <+: ([] : Path)) := by
      rw [List.prefix_nil]
      rintro rfl
      exact hsub List.nil_prefix
    simpa [h1, h2] using t.root_dir
  parent_dir x m hx := by
    by_cases h : p ++ [n] <+: x
    · -- inside the renamed entry
      have hm : p ++ [n] <+: x ++ [m] := h.trans (List.prefix_append x [m])
      rw [if_pos hm] at hx
      rw [if_pos h]
      obtain ⟨y, rfl⟩ := h
      have hd : ∀ z, (p ++ [n] ++ z).drop (p.length + 1) = z := fun z => by simp
      rw [List.append_assoc, hd, ← List.append_assoc] at hx
      rw [hd]
      exact t.parent_dir _ m hx
    · by_cases hm : p ++ [n] <+: x ++ [m]
      · -- the renamed entry itself
        have he : x ++ [m] = p ++ [n] := by
          rcases List.prefix_concat_iff.mp hm with h' | h'
          · exact h'.symm
          · exact absurd h' h
        obtain ⟨rfl, -⟩ := List.append_inj' he rfl
        have hs : ¬ src <+: x := fun hc => hsub (hc.trans (List.prefix_append x [n]))
        rw [if_neg h, if_neg hs]
        exact isDir_iff.mp hp
      · rw [if_neg hm] at hx
        rw [if_neg h]
        by_cases hs : src <+: x ++ [m]
        · simp [hs] at hx
        · rw [if_neg hs] at hx
          have hs' : ¬ src <+: x := fun hc => hs (hc.trans (List.prefix_append x [m]))
          rw [if_neg hs']
          exact t.parent_dir x m hx

end Tree

end MouseKeeper.Posix
