import Mathlib.Data.List.TakeWhile
import MouseKeeper.Posix.Path

/-!
Relative paths as text.

A place is written as its names with slashes in between. A text that is cut into nothing but
names is such a text, and what programs take off it at its first or last slash is a name.
-/

namespace MouseKeeper.Posix

/-- The names with slashes in between. -/
def Path.text (p : Path) : String := "/".intercalate (p.map (·.1))

/-- What stands before the first slash. -/
def firstSegment (s : String) : String := String.ofList (s.toList.takeWhile (· ≠ '/'))

/-- `rsplit_once('/')`. -/
def rsplitSlash (s : String) : Option (String × String) :=
  if '/' ∈ s.toList then
    some (String.ofList (s.toList.reverse.dropWhile (· ≠ '/')).tail.reverse,
      String.ofList (s.toList.reverse.takeWhile (· ≠ '/')).reverse)
  else none

variable {n : Name} {p q : Path} {s : String}

@[simp] lemma text_singleton (n : Name) : Path.text [n] = n.1 := by simp [Path.text]

lemma text_cons (n : Name) (hp : p ≠ []) : Path.text (n :: p) = n.1 ++ "/" ++ p.text := by
  have h : p.map (·.1) ≠ [] := by simpa using hp
  exact String.intercalate_cons_of_ne_nil h

lemma text_append (hp : p ≠ []) (hq : q ≠ []) :
    Path.text (p ++ q) = p.text ++ "/" ++ q.text := by
  induction p with
  | nil => exact absurd rfl hp
  | cons n p ih =>
    by_cases h : p = []
    · rw [h, List.singleton_append, text_cons n hq, text_singleton]
    · rw [List.cons_append, text_cons n (by simp [h]), ih h, text_cons n h]
      simp only [String.append_assoc]

lemma text_snoc (hp : p ≠ []) (n : Name) : Path.text (p ++ [n]) = p.text ++ "/" ++ n.1 := by
  rw [text_append hp (List.cons_ne_nil n []), text_singleton]

/-- Cutting the text of a place gives its names. -/
lemma segsOf_text (hp : p ≠ []) : segsOf p.text = p.raw := by
  induction p with
  | nil => exact absurd rfl hp
  | cons n p ih =>
    by_cases h : p = []
    · rw [h, text_singleton, segsOf_name]
      rfl
    · rw [text_cons n h, segsOf_slash, segsOf_name, ih h]
      rfl

lemma name_ne_empty (n : Name) : n.1 ≠ "" := n.2.1

lemma text_ne_empty (hp : p ≠ []) : p.text ≠ "" := by
  intro h
  have hs := segsOf_text hp
  rw [h] at hs
  cases p with
  | nil => exact hp rfl
  | cons n p =>
    have hb : segsOf "" = [Seg.blank] := by decide
    rw [hb] at hs
    cases hs

/-! ### Cutting once -/

lemma takeWhile_name (n : Name) (l : List Char) :
    (n.1.toList ++ '/' :: l).takeWhile (· ≠ '/') = n.1.toList := by
  rw [List.takeWhile_append_of_pos]
  · simp
  · intro c hc
    have hne : c ≠ '/' := fun h => n.2.2.2.2 (h ▸ hc)
    simpa using hne

lemma firstSegment_name (n : Name) : firstSegment n.1 = n.1 := by
  have h : n.1.toList.takeWhile (· ≠ '/') = n.1.toList := by
    refine List.takeWhile_eq_self_iff.mpr fun c hc => ?_
    have hne : c ≠ '/' := fun h => n.2.2.2.2 (h ▸ hc)
    simpa using hne
  rw [firstSegment, h, String.ofList_toList]

lemma firstSegment_slash (n : Name) (s : String) : firstSegment (n.1 ++ "/" ++ s) = n.1 := by
  have h : (n.1 ++ "/" ++ s).toList = n.1.toList ++ '/' :: s.toList := by simp
  rw [firstSegment, h, takeWhile_name, String.ofList_toList]

/-- The first name of a place. -/
lemma firstSegment_text (n : Name) (p : Path) : firstSegment (Path.text (n :: p)) = n.1 := by
  by_cases h : p = []
  · rw [h, text_singleton, firstSegment_name]
  · rw [text_cons n h, firstSegment_slash]

lemma rsplitSlash_name (n : Name) : rsplitSlash n.1 = none := if_neg n.2.2.2.2

/-- The last name of a place, and what leads to it. -/
lemma rsplitSlash_snoc (hp : p ≠ []) (n : Name) :
    rsplitSlash (Path.text (p ++ [n])) = some (p.text, n.1) := by
  have hne : ∀ c ∈ n.1.toList.reverse, c ≠ '/' := fun c hc h =>
    n.2.2.2.2 (h ▸ List.mem_reverse.mp hc)
  have hl : (p.text ++ "/" ++ n.1).toList.reverse =
      n.1.toList.reverse ++ '/' :: p.text.toList.reverse := by simp
  have htake : (n.1.toList.reverse ++ '/' :: p.text.toList.reverse).takeWhile (· ≠ '/') =
      n.1.toList.reverse := by
    rw [List.takeWhile_append_of_pos (fun c hc => by simpa using hne c hc)]
    simp
  have hdrop : (n.1.toList.reverse ++ '/' :: p.text.toList.reverse).dropWhile (· ≠ '/') =
      '/' :: p.text.toList.reverse := by
    rw [List.dropWhile_append_of_pos (fun c hc => by simpa using hne c hc)]
    simp
  rw [text_snoc hp, rsplitSlash, if_pos (by simp), hl, htake, hdrop]
  simp

/-! ### Texts that are cut into names -/

/-- Putting the pieces together again. -/
lemma intercalate_splitSlash (l : List Char) : List.intercalate ['/'] (splitSlash l) = l := by
  induction l with
  | nil => rfl
  | cons c cs ih =>
    unfold splitSlash
    split
    · next hc =>
      obtain ⟨x, xs, hx⟩ := List.exists_cons_of_ne_nil (splitSlash_ne_nil cs)
      rw [hx] at ih ⊢
      rw [List.intercalate_cons_cons, ih, hc]
      rfl
    · rcases hcs : splitSlash cs with _ | ⟨x, xs⟩
      · exact absurd hcs (splitSlash_ne_nil cs)
      · rw [hcs] at ih
        dsimp only
        cases xs with
        | nil =>
          simp only [List.intercalate_singleton] at ih ⊢
          rw [ih]
        | cons y ys =>
          rw [List.intercalate_cons_cons] at ih ⊢
          rw [← ih]
          rfl

lemma splitSlash_inj {a b : List Char} (h : splitSlash a = splitSlash b) : a = b := by
  rw [← intercalate_splitSlash a, h, intercalate_splitSlash]

lemma mem_intercalate {α : Type} {xs : List (List α)} {c sep : α}
    (h : c ∈ List.intercalate [sep] xs) : c = sep ∨ ∃ x ∈ xs, c ∈ x := by
  induction xs with
  | nil => cases h
  | cons x xs ih =>
    by_cases hxs : xs = []
    · rw [hxs, List.intercalate_singleton] at h
      exact .inr ⟨x, List.mem_cons_self, h⟩
    · rw [List.intercalate_cons_of_ne_nil hxs, List.mem_append, List.mem_append] at h
      rcases h with (h | h) | h
      · exact .inr ⟨x, List.mem_cons_self, h⟩
      · exact .inl (List.mem_singleton.mp h)
      · rcases ih h with h | ⟨y, hy, h⟩
        · exact .inl h
        · exact .inr ⟨y, List.mem_cons_of_mem x hy, h⟩

lemma intercalate_append {xs ys : List (List Char)} (hx : xs ≠ []) (hy : ys ≠ []) :
    List.intercalate ['/'] (xs ++ ys) =
      List.intercalate ['/'] xs ++ '/' :: List.intercalate ['/'] ys := by
  induction xs with
  | nil => exact absurd rfl hx
  | cons x xs ih =>
    by_cases h : xs = []
    · subst h
      rw [List.singleton_append, List.intercalate_cons_of_ne_nil hy, List.intercalate_singleton,
        List.append_assoc, List.singleton_append]
    · rw [List.cons_append, List.intercalate_cons_of_ne_nil (List.append_ne_nil_of_left_ne_nil h ys),
        ih h, List.intercalate_cons_of_ne_nil h, List.append_assoc, List.append_assoc,
        List.append_assoc]

/-- The pieces of one text begin with those of another. -/
lemma splitSlash_isPrefixOf {a b : List Char} :
    splitSlash a <+: splitSlash b ↔ a = b ∨ a ++ ['/'] <+: b := by
  constructor
  · rintro ⟨rest, h⟩
    by_cases hrest : rest = []
    · rw [hrest, List.append_nil] at h
      exact .inl (splitSlash_inj h)
    · refine .inr ⟨List.intercalate ['/'] rest, ?_⟩
      rw [← intercalate_splitSlash b, ← h, intercalate_append (splitSlash_ne_nil a) hrest,
        intercalate_splitSlash, List.append_assoc, List.singleton_append]
  · rintro (rfl | ⟨rest, rfl⟩)
    · exact List.prefix_refl _
    · rw [List.append_assoc, List.singleton_append, splitSlash_append]
      exact List.prefix_append _ _

lemma Seg.ofPiece_eq_name {l : List Char} (h : Seg.ofPiece l = .name n) : l = n.1.toList := by
  unfold Seg.ofPiece at h
  split at h
  · cases h
  · split at h
    · cases h
    · split at h
      · injection h with h
        rw [← h]
        exact String.toList_ofList.symm
      · cases h

lemma toList_text (p : Path) :
    p.text.toList = List.intercalate ['/'] (p.map fun n => n.1.toList) := by
  have h : ("/" : String).toList = ['/'] := by decide
  rw [Path.text, String.toList_intercalate, h, List.map_map]
  rfl

/-- The pieces of a text that is cut into names are the texts of these. -/
lemma splitSlash_of_segsOf (h : segsOf s = p.raw) :
    splitSlash s.toList = p.map fun n => n.1.toList := by
  rw [segsOf, Path.raw] at h
  generalize splitSlash s.toList = l at h
  induction l generalizing p with
  | nil =>
    cases p with
    | nil => rfl
    | cons n p => cases h
  | cons x l ih =>
    cases p with
    | nil => cases h
    | cons n p =>
      rw [List.map_cons, List.map_cons, List.cons.injEq] at h
      rw [List.map_cons, Seg.ofPiece_eq_name h.1, ih h.2]

/-- A text that is cut into the names of a place is its text. -/
lemma eq_text (h : segsOf s = p.raw) : s = p.text := by
  have hl : s.toList = p.text.toList := by
    rw [← intercalate_splitSlash s.toList, splitSlash_of_segsOf h, toList_text]
  exact String.toList_inj.mp hl

lemma not_mem_splitSlash {l x : List Char} (h : x ∈ splitSlash l) : '/' ∉ x := by
  induction l generalizing x with
  | nil =>
    rw [splitSlash, List.mem_singleton] at h
    simp [h]
  | cons c cs ih =>
    unfold splitSlash at h
    split at h
    · rcases List.mem_cons.mp h with rfl | h
      · simp
      · exact ih h
    · next hc =>
      rcases hcs : splitSlash cs with _ | ⟨y, ys⟩
      · exact absurd hcs (splitSlash_ne_nil cs)
      · rw [hcs] at h ih
        rcases List.mem_cons.mp h with rfl | h
        · have hy := ih List.mem_cons_self
          simp [Ne.symm hc, hy]
        · exact ih (List.mem_cons_of_mem _ h)

lemma Seg.ofPiece_of_ne {x : List Char} (hx : '/' ∉ x)
    (h : x ≠ [] ∧ x ≠ ['.'] ∧ x ≠ ['.', '.']) : ∃ n, Seg.ofPiece x = .name n := by
  obtain ⟨h₀, h₁, h₂⟩ := h
  have hv : ValidName (String.ofList x) := by
    refine ⟨?_, ?_, ?_, ?_⟩
    · simpa [← String.toList_inj] using h₀
    · simpa [← String.toList_inj] using h₁
    · simpa [← String.toList_inj] using h₂
    · rwa [String.toList_ofList]
  exact ⟨⟨_, hv⟩, by rw [Seg.ofPiece, if_neg h₁, if_neg h₂, dif_pos hv]⟩

/-- A text with no blank piece and no dots for one is that of a place. -/
lemma exists_text (h : ∀ x ∈ splitSlash s.toList, x ≠ [] ∧ x ≠ ['.'] ∧ x ≠ ['.', '.']) :
    ∃ p : Path, p ≠ [] ∧ s = p.text := by
  have hp : ∃ p : Path, segsOf s = p.raw := by
    rw [segsOf]
    have hs : ∀ x ∈ splitSlash s.toList, '/' ∉ x := fun x => not_mem_splitSlash
    generalize splitSlash s.toList = l at h hs
    induction l with
    | nil => exact ⟨[], rfl⟩
    | cons x l ih =>
      obtain ⟨n, hn⟩ := Seg.ofPiece_of_ne (hs x List.mem_cons_self) (h x List.mem_cons_self)
      obtain ⟨p, hp⟩ := ih (fun y hy => h y (List.mem_cons_of_mem _ hy))
        fun y hy => hs y (List.mem_cons_of_mem _ hy)
      exact ⟨n :: p, by rw [List.map_cons, hn, hp]; rfl⟩
  obtain ⟨p, hp⟩ := hp
  refine ⟨p, ?_, eq_text hp⟩
  rintro rfl
  exact splitSlash_ne_nil _ (List.map_eq_nil_iff.mp hp)

end MouseKeeper.Posix
