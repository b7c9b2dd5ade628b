import MouseKeeper.Listings
import MouseKeeper.Mobile.DirectoryView

/-!
Paths and the order of entries on the files page.

A normalized path stands for its segments, and its parent for all but the last. Entries that
compare as equal have the same name.
-/

namespace MouseKeeper.Mobile.DirectoryView

open Posix (splitSlash rsplitSlash)
open Contracts (slashed)

/-! ### Segments -/

/-- The segments have text without separators. -/
def Path.Valid (p : Path) : Prop := ∀ x ∈ p, x ≠ [] ∧ '/' ∉ x ∧ '\\' ∉ x

variable {value value' : String} {p q : Path} {x l : List Char} {c : Char}

lemma mem_of_mem_splitSlash (hx : x ∈ splitSlash l) (hc : c ∈ x) : c ∈ l := by
  induction l generalizing x with
  | nil =>
    rw [splitSlash, List.mem_singleton] at hx
    exact hx ▸ hc
  | cons d l ih =>
    obtain ⟨y, ys, hys⟩ := List.exists_cons_of_ne_nil (Posix.splitSlash_ne_nil l)
    rw [splitSlash, hys] at hx
    rw [hys] at ih
    split_ifs at hx
    · rcases List.mem_cons.mp hx with rfl | hx
      · exact absurd hc List.not_mem_nil
      · exact List.mem_cons_of_mem d (ih hx hc)
    · rcases List.mem_cons.mp hx with rfl | hx
      · rcases List.mem_cons.mp hc with rfl | hc
        · exact List.mem_cons_self
        · exact List.mem_cons_of_mem d (ih List.mem_cons_self hc)
      · exact List.mem_cons_of_mem d (ih (List.mem_cons_of_mem y hx) hc)

lemma slashed_ne (c : Char) : slashed c ≠ '\\' := by
  rw [slashed]
  split_ifs with h
  · decide
  · exact h

lemma valid_pathOf (value : String) : (pathOf value).Valid := by
  intro x hx
  obtain ⟨hx, hne⟩ := List.mem_filter.mp hx
  refine ⟨by simpa using hne, Posix.not_mem_splitSlash hx, fun hc => ?_⟩
  obtain ⟨c, -, hc⟩ := List.mem_map.mp (mem_of_mem_splitSlash hx hc)
  exact slashed_ne c hc

lemma splitSlash_intercalate (hp : p ≠ []) (h : ∀ x ∈ p, '/' ∉ x) :
    splitSlash (['/'].intercalate p) = p := by
  induction p with
  | nil => exact absurd rfl hp
  | cons x p ih =>
    have hx := h x List.mem_cons_self
    by_cases hp : p = []
    · rw [hp, List.intercalate_singleton, Posix.splitSlash_of_not_mem hx]
    · rw [List.intercalate_cons_of_ne_nil hp, List.append_assoc, List.singleton_append,
        Posix.splitSlash_append, Posix.splitSlash_of_not_mem hx,
        ih hp fun y hy => h y (List.mem_cons_of_mem x hy), List.singleton_append]

@[simp] lemma toList_joined (p : Path) : p.joined.toList = ['/'].intercalate p :=
  String.toList_ofList

/-- **A path is read back from its text.** -/
lemma pathOf_joined (h : p.Valid) : pathOf p.joined = p := by
  by_cases hp : p = []
  · subst hp
    decide
  · have hmap : (['/'].intercalate p).map slashed = ['/'].intercalate p := by
      refine (List.map_congr_left fun c hc => ?_).trans (List.map_id _)
      have hne : c ≠ '\\' := by
        rintro rfl
        rcases Posix.mem_intercalate hc with hc | ⟨x, hx, hc⟩
        · exact absurd hc (by decide)
        · exact (h x hx).2.2 hc
      exact if_neg hne
    rw [pathOf, Contracts.segments, toList_joined, hmap, splitSlash_intercalate hp fun x hx => (h x hx).2.1]
    exact List.filter_eq_self.mpr fun x hx => by simpa using (h x hx).1

@[simp] lemma pathOf_normalize (value : String) :
    pathOf (normalizeFileRelativePath value) = pathOf value := pathOf_joined (valid_pathOf value)

lemma joined_inj (hp : p.Valid) (hq : q.Valid) : p.joined = q.joined ↔ p = q :=
  ⟨fun h => by rw [← pathOf_joined hp, h, pathOf_joined hq], congrArg _⟩

lemma normalize_eq_iff :
    normalizeFileRelativePath value = normalizeFileRelativePath value' ↔
      pathOf value = pathOf value' := joined_inj (valid_pathOf value) (valid_pathOf value')

lemma normalize_normalize (value : String) :
    normalizeFileRelativePath (normalizeFileRelativePath value) = normalizeFileRelativePath value := by
  rw [normalizeFileRelativePath, pathOf_normalize, normalizeFileRelativePath]

lemma pathOf_empty : pathOf "" = [] := by decide

lemma Path.Valid.dropLast (h : p.Valid) : Path.Valid p.dropLast :=
  fun x hx => h x (List.mem_of_mem_dropLast hx)

/-- What stands before the last slash, if there is one. -/
lemma rsplitSlash_append {l : List Char} (h : '/' ∉ x) :
    rsplitSlash (String.ofList (l ++ '/' :: x)) = some (String.ofList l, String.ofList x) := by
  have hne : ∀ c ∈ x.reverse, decide (c ≠ '/') = true := fun c hc =>
    decide_eq_true fun heq => h (heq ▸ List.mem_reverse.mp hc)
  have hrev : (l ++ '/' :: x).reverse = x.reverse ++ '/' :: l.reverse := by simp
  rw [rsplitSlash, String.toList_ofList, if_pos (by simp), hrev,
    List.dropWhile_append_of_pos hne, List.takeWhile_append_of_pos hne]
  simp

/-- **The parent is what is left without the last segment.** -/
lemma parentRelativeDirectoryOf_eq (value : String) :
    parentRelativeDirectoryOf value = Path.joined (pathOf value).dropLast := by
  have hvalid := valid_pathOf value
  rw [parentRelativeDirectoryOf, normalizeFileRelativePath]
  generalize pathOf value = p at hvalid
  rcases List.eq_nil_or_concat p with rfl | ⟨q, x, rfl⟩
  · decide
  · rw [List.concat_eq_append] at hvalid ⊢
    have hx : '/' ∉ x := (hvalid x (by simp)).2.1
    rw [List.dropLast_concat]
    by_cases hq : q = []
    · have hnone : rsplitSlash (Path.joined (q ++ [x])) = none := by
        rw [hq]
        exact if_neg (by simpa [Path.joined] using hx)
      rw [hnone, hq]
      decide
    · rw [Path.joined, Posix.intercalate_append hq (List.cons_ne_nil x []),
        List.intercalate_singleton, rsplitSlash_append hx]
      rfl

@[simp] lemma pathOf_parent (value : String) :
    pathOf (parentRelativeDirectoryOf value) = (pathOf value).dropLast := by
  rw [parentRelativeDirectoryOf_eq, pathOf_joined (valid_pathOf value).dropLast]

/-! ### Order -/

lemma charUnits_append_inj {c d : Char} {l l' : List ℕ}
    (h : charUnits c ++ l = charUnits d ++ l') : c = d ∧ l = l' := by
  have hval (c : Char) : c.toNat < 0xD800 ∨ 0xDFFF < c.toNat ∧ c.toNat < 0x110000 := c.valid
  have hc := hval c
  have hd := hval d
  unfold charUnits at h
  split_ifs at h <;>
    simp only [List.cons_append, List.nil_append, List.cons.injEq] at h
  · exact ⟨Char.toNat_inj.mp h.1, h.2⟩
  · omega
  · omega
  · exact ⟨Char.toNat_inj.mp (by omega), h.2.2⟩

lemma charUnits_ne_nil (c : Char) : charUnits c ≠ [] := by
  unfold charUnits
  split_ifs <;> exact List.cons_ne_nil _ _

lemma codeUnits_inj {s t : String} (h : codeUnits s = codeUnits t) : s = t := by
  refine String.toList_inj.mp ?_
  unfold codeUnits at h
  generalize s.toList = l at h
  generalize t.toList = l' at h
  induction l generalizing l' with
  | nil =>
    cases l' with
    | nil => rfl
    | cons d l' => exact absurd h.symm (List.append_ne_nil_of_left_ne_nil (charUnits_ne_nil d) _)
  | cons c l ih =>
    cases l' with
    | nil => exact absurd h (List.append_ne_nil_of_left_ne_nil (charUnits_ne_nil c) _)
    | cons d l' =>
      rw [List.flatMap_cons, List.flatMap_cons] at h
      obtain ⟨rfl, hl⟩ := charUnits_append_inj h
      rw [ih l' hl]

/-- Two orders, one after the other. -/
lemma compareEntries_eq : compareEntries =
    compareLex (compareOn fun x => !isDirectory x) (compareOn fun x => codeUnits (nameOf x)) := by
  have hlt : compare false true = .lt := by decide
  have hgt : compare true false = .gt := by decide
  funext x y
  simp only [compareEntries, compareLex, compareOn]
  cases isDirectory x <;> cases isDirectory y
  · rfl
  · rw [Bool.not_false, Bool.not_true, hgt]
    rfl
  · rw [Bool.not_false, Bool.not_true, hlt]
    rfl
  · rfl

instance : Std.TransCmp compareEntries := compareEntries_eq ▸ inferInstance

/-- `x` does not come after `y`. -/
def NotAfter (x y : Entry) : Prop := (compareEntries x y).isLE = true

instance : DecidableRel NotAfter := fun _ _ => inferInstanceAs (Decidable (_ = true))

lemma nameOf_eq_of_notAfter {x y : Entry} (h : NotAfter x y) (h' : NotAfter y x) :
    nameOf x = nameOf y := by
  have heq : compareEntries x y = .eq := Std.OrientedCmp.isLE_antisymm h h'
  unfold compareEntries at heq
  split_ifs at heq
  exact codeUnits_inj (Std.LawfulEqOrd.eq_of_compare heq)

lemma sorts (platform : Platform) : Listings.Sorts NotAfter (sortFileDirectoryEntries platform) :=
  ⟨platform.perm, platform.sorted⟩

end MouseKeeper.Mobile.DirectoryView
