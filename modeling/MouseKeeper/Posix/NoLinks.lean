import MouseKeeper.Posix.Missing

/-!
Trees without symbolic links.

In such a tree a path of plain names stands for itself, so a lookup says no more than the
tree does at that place. No call makes a link, so a tree without links keeps without them.
-/

namespace MouseKeeper.Posix

open Trace

def NoLinks (t : Tree) : Prop := ∀ p target, t.get p ≠ some (.symlink target)

variable {t t' : Tree} {p q cur : Path} {n : Name} {k : ℕ} {create : Bool}

lemma noLinks_iff : NoLinks t ↔ ∀ p ∈ t.support, ∀ nd ∈ t.get p, nd.isSymlink = false := by
  constructor
  · intro h p _ nd hnd
    cases nd with
    | symlink target => exact absurd hnd (h p target)
    | file | dir => rfl
  · intro h p target hp
    have := h p (t.mem_support p (by rw [hp]; simp)) _ hp
    cases this

instance : Decidable (NoLinks t) := decidable_of_iff _ noLinks_iff.symm

namespace NoLinks

lemma solid {nd : Node} (h : NoLinks t) (hp : t.get p = some nd) : t.Solid p := by
  refine ⟨nd, hp, ?_⟩
  cases nd with
  | symlink target => exact absurd hp (h p target)
  | file | dir => rfl

/-- Plain names lead down. -/
lemma walks_raw (h : NoLinks t) (hw : t.Walks create k cur p.raw q) : q = cur ++ p := by
  induction p generalizing cur with
  | nil =>
    change t.Walks create k cur [] q at hw
    cases hw
    simp
  | cons n p ih =>
    change t.Walks create k cur (.name n :: Path.raw p) q at hw
    generalize hrest : Path.raw p = rest at hw
    cases hw with
    | stay _ hs _ => cases hs
    | down _ _ _ hw =>
      subst hrest
      simpa using ih hw
    | free _ _ _ =>
      rw [List.map_eq_nil_iff.mp hrest]
    | link _ hn _ => exact absurd hn (h _ _)

lemma realpath_raw (h : NoLinks t) : t.realpath p.raw = .ok q ↔ q = p ∧ t.get p ≠ none := by
  constructor
  · intro hq
    have hqp : q = p := by simpa using h.walks_raw (Tree.realpath_iff.mp hq)
    obtain ⟨nd, hnd, -⟩ := Tree.realpath_arrives hq
    exact ⟨hqp, by rw [← hqp, hnd]; simp⟩
  · rintro ⟨rfl, hp⟩
    obtain ⟨nd, hnd⟩ := Option.ne_none_iff_exists'.mp hp
    exact Tree.realpath_raw (h.solid hnd)

lemma existsAt_raw (h : NoLinks t) : t.existsAt p.raw = true ↔ t.get p ≠ none := by
  rw [Tree.existsAt_iff]
  simp only [h.realpath_raw, exists_eq_left]

lemma free_raw (h : NoLinks t) : t.existsAt p.raw = false ↔ t.get p = none := by
  rw [← Bool.not_eq_true, h.existsAt_raw, not_not]

lemma isFileAt_raw (h : NoLinks t) : t.isFileAt p.raw = t.isFile p := by
  unfold Tree.isFileAt
  cases hr : t.realpath p.raw with
  | ok q =>
    obtain ⟨rfl, -⟩ := h.realpath_raw.mp hr
    rfl
  | error e =>
    have hn : t.get p = none := by
      by_contra hc
      rw [h.realpath_raw.mpr ⟨rfl, hc⟩] at hr
      cases hr
    simp [Tree.isFile, hn]

lemma grown (h : NoLinks t) (hg : Disk.Grown t t') : NoLinks t' := by
  intro p target hp
  rcases hg p with he | ⟨-, i, hi⟩
  · exact h p target (he ▸ hp)
  · rw [hi] at hp
    cases hp

lemma isFileAt_grown (h : NoLinks t) (hg : Disk.Grown t t') :
    t'.isFileAt p.raw = t.isFileAt p.raw := by
  rw [h.isFileAt_raw, (h.grown hg).isFileAt_raw]
  unfold Tree.isFile
  rcases hg p with he | ⟨hn, i, hi⟩
  · rw [he]
  · rw [hn, hi]

/-- A file lies in a directory. -/
lemma isDirAt_parent (h : NoLinks t) (hf : t.isFileAt (Path.raw (p ++ [n])) = true) :
    t.isDirAt p.raw = true := by
  rw [h.isFileAt_raw] at hf
  obtain ⟨c, m, i, hc⟩ := Tree.isFile_iff.mp hf
  have hd : t.isDir p = true := Tree.isDir_parent (by rw [hc]; simp)
  exact Tree.isDirAt_iff.mpr ⟨p, Tree.realpath_raw_dir hd, hd⟩

lemma place_raw (h : NoLinks t) (hq : t.place p.raw = .ok q) : q = p := by
  simpa using h.walks_raw (Tree.place_iff.mp hq)

/-- A name in a directory is a place. -/
lemma place_name (h : NoLinks t) (hd : t.isDir p = true) :
    t.place (Path.raw (p ++ [n])) = .ok (p ++ [n]) := by
  rw [raw_append]
  exact Tree.place_name hd fun target => h _ target

/-- **No call makes a link.** -/
theorem applies (h : NoLinks t) {c : Change} (hc : c.Applies t t') : NoLinks t' := by
  intro x target hx
  cases c with
  | makeDir p =>
    obtain ⟨-, i, hget⟩ := hc
    rw [hget] at hx
    split at hx
    · cases hx
    · exact h x target hx
  | write p old new =>
    obtain ⟨m, i, -, hget⟩ := hc
    rw [hget] at hx
    split at hx
    · cases hx
    · exact h x target hx
  | rename src dst node gone =>
    obtain ⟨-, ⟨-, -, rfl⟩ | ⟨-, -, -, -, -, hget⟩⟩ := hc
    · exact h x target hx
    · rw [hget] at hx
      split at hx
      · exact h _ target hx
      · split at hx
        · cases hx
        · exact h x target hx
  | remove p node =>
    obtain ⟨-, -, hget⟩ := hc
    rw [hget] at hx
    split at hx
    · cases hx
    · exact h x target hx

end NoLinks

end MouseKeeper.Posix
