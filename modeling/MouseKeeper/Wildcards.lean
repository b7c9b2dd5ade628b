import Mathlib.Data.List.Basic
import Mathlib.Tactic.Common

/-!
Patterns with wildcards.

A pattern is a list of pieces, each for one symbol of a kind or for a run of symbols of a kind. It
matches a text that can be cut into parts, one for each piece. What a run may be can depend on the
text after it.
-/

namespace MouseKeeper.Wildcards

variable {α : Type}

inductive Piece (α : Type) where
  | one (kind : α → Bool)
  | run (kind : α → Bool)

/-- The pieces stand for the parts of the text, where a run may only stand for a part that is
allowed before the rest. -/
inductive Matches (may : List α → List α → Prop) : List (Piece α) → List α → Prop where
  | nil : Matches may [] []
  | one {kind pieces c rest} (hc : kind c = true) (h : Matches may pieces rest) :
    Matches may (.one kind :: pieces) (c :: rest)
  | run {kind pieces part rest} (hp : ∀ c ∈ part, kind c = true) (hm : may part rest)
    (h : Matches may pieces rest) : Matches may (.run kind :: pieces) (part ++ rest)

/-- A run may be anything of its kind. -/
def Freely (_ _ : List α) : Prop := True

variable {may may' : List α → List α → Prop} {kind : α → Bool} {ps qs : List (Piece α)}
  {c : α} {s t : List α}

@[simp] lemma matches_nil : Matches may [] t ↔ t = [] := by
  constructor
  · intro h
    cases h
    rfl
  · rintro rfl
    exact .nil

@[simp] lemma not_matches_one_nil : ¬ Matches may (.one kind :: ps) [] := nofun

@[simp] lemma matches_one_cons :
    Matches may (.one kind :: ps) (c :: t) ↔ kind c = true ∧ Matches may ps t := by
  constructor
  · intro h
    cases h with
    | one hc h => exact ⟨hc, h⟩
  · rintro ⟨hc, h⟩
    exact .one hc h

lemma matches_run : Matches may (.run kind :: ps) t ↔
    ∃ part rest, t = part ++ rest ∧ (∀ c ∈ part, kind c = true) ∧ may part rest ∧
      Matches may ps rest := by
  constructor
  · intro h
    cases h with
    | run hp hm h => exact ⟨_, _, rfl, hp, hm, h⟩
  · rintro ⟨part, rest, rfl, hp, hm, h⟩
    exact .run hp hm h

lemma Matches.mono (hle : ∀ part rest, may part rest → may' part rest) (h : Matches may ps t) :
    Matches may' ps t := by
  induction h with
  | nil => exact .nil
  | one hc _ ih => exact .one hc ih
  | run hp hm _ ih => exact .run hp (hle _ _ hm) ih

lemma Matches.freely (h : Matches may ps t) : Matches Freely ps t := h.mono fun _ _ _ => trivial

/-- Patterns one after the other match texts one after the other. -/
lemma matches_append : Matches Freely (ps ++ qs) t ↔
    ∃ u v, t = u ++ v ∧ Matches Freely ps u ∧ Matches Freely qs v := by
  constructor
  · intro h
    induction ps generalizing t with
    | nil => exact ⟨[], t, rfl, .nil, h⟩
    | cons p ps ih =>
      rw [List.cons_append] at h
      cases h with
      | one hc h =>
        obtain ⟨u, v, rfl, hu, hv⟩ := ih h
        exact ⟨_ :: u, v, rfl, .one hc hu, hv⟩
      | run hp hm h =>
        obtain ⟨u, v, rfl, hu, hv⟩ := ih h
        exact ⟨_ ++ u, v, (List.append_assoc ..).symm, .run hp trivial hu, hv⟩
  · rintro ⟨u, v, rfl, hu, hv⟩
    induction hu with
    | nil => exact hv
    | one hc _ ih => exact .one hc ih
    | run hp _ _ ih =>
      rw [List.append_assoc]
      exact .run hp trivial ih

/-! ### Texts from a position on -/

/-- A symbol is matched by the first piece, if that is for one. -/
lemma matches_one_drop {i : ℕ} (hi : i < t.length) :
    Matches may (.one kind :: ps) (t.drop i) ↔ kind t[i] = true ∧ Matches may ps (t.drop (i + 1)) := by
  rw [List.drop_eq_getElem_cons hi, matches_one_cons]

/-- Where the rest begins after a run. -/
lemma Matches.run_drop {i : ℕ} (h : Matches may (.run kind :: ps) (t.drop i)) :
    ∃ j, i ≤ j ∧ ((t.drop i).take (j - i)).length = j - i ∧
      (∀ c ∈ (t.drop i).take (j - i), kind c = true) ∧
      may ((t.drop i).take (j - i)) (t.drop j) ∧ Matches may ps (t.drop j) := by
  obtain ⟨part, rest, ht, hp, hm, h⟩ := matches_run.mp h
  have hrest : t.drop (i + part.length) = rest := by
    rw [← List.drop_drop, ht, List.drop_left]
  have hpart : (t.drop i).take (i + part.length - i) = part := by
    rw [Nat.add_sub_cancel_left, ht, List.take_left]
  refine ⟨i + part.length, Nat.le_add_right _ _, ?_, ?_, ?_, ?_⟩
  · rw [hpart, Nat.add_sub_cancel_left]
  · rwa [hpart]
  · rwa [hpart, hrest]
  · rwa [hrest]

lemma matches_run_drop {i j : ℕ} (hij : i ≤ j) (hp : ∀ c ∈ (t.drop i).take (j - i), kind c = true)
    (hm : may ((t.drop i).take (j - i)) (t.drop j)) (h : Matches may ps (t.drop j)) :
    Matches may (.run kind :: ps) (t.drop i) := by
  have ht : t.drop i = (t.drop i).take (j - i) ++ t.drop j := by
    rw [← Nat.add_sub_cancel' hij, ← List.drop_drop, Nat.add_sub_cancel_left,
      List.take_append_drop]
  rw [ht]
  exact .run hp hm h

end MouseKeeper.Wildcards
