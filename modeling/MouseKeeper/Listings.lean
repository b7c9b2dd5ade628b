import Mathlib.Data.List.Nodup
import Mathlib.Tactic.Common

/-!
Sorted listings of elements with keys.

An element is found, replaced or taken out at the index of its key. What is sorted is determined
by its elements where no two of them are tied, and so is any beginning of it.
-/

namespace MouseKeeper.Listings

variable {α κ : Type}

/-! ### Keys -/

section Keys

variable {key : α → κ} {k : κ} {l : List α} {i : ℕ} {x y e : α}

lemma eq_of_key (hn : (l.map key).Nodup) (hx : x ∈ l) (hy : y ∈ l) (h : key x = key y) : x = y :=
  List.inj_on_of_nodup_map hn hx hy h

variable [DecidableEq κ]

lemma findIdx_eq_none_iff : l.findIdx? (key · = k) = none ↔ ∀ x ∈ l, key x ≠ k := by
  simp [List.findIdx?_eq_none_iff]

lemma exists_of_findIdx (h : l.findIdx? (key · = k) = some i) :
    ∃ x, l[i]? = some x ∧ x ∈ l ∧ key x = k := by
  obtain ⟨hi, hx, -⟩ := List.findIdx?_eq_some_iff_getElem.mp h
  exact ⟨l[i], List.getElem?_eq_getElem hi, List.getElem_mem hi, by simpa using hx⟩

/-- Taking out the element with a key. -/
lemma eraseIdx_eq_filter (hn : (l.map key).Nodup) (h : l.findIdx? (key · = k) = some i) :
    l.eraseIdx i = l.filter (key · ≠ k) := by
  induction l generalizing i with
  | nil => cases h
  | cons x l ih =>
    obtain ⟨hx, hn⟩ := List.nodup_cons.mp hn
    rw [List.findIdx?_cons] at h
    split_ifs at h with hk
    · have hk : key x = k := by simpa using hk
      cases h
      rw [List.eraseIdx_cons_zero, List.filter_cons_of_neg (by simpa using hk)]
      refine (List.filter_eq_self.mpr fun y hy => ?_).symm
      have hne : key y ≠ k := fun h => hx (hk.trans h.symm ▸ List.mem_map_of_mem hy)
      simpa using hne
    · have hk : key x ≠ k := by simpa using hk
      obtain ⟨j, hj, rfl⟩ := Option.map_eq_some_iff.mp h
      rw [List.eraseIdx_cons_succ, List.filter_cons_of_pos (by simpa using hk), ih hn hj]

/-- Replacing the element with a key. -/
lemma set_eq_map (hn : (l.map key).Nodup) (h : l.findIdx? (key · = k) = some i) (e : α) :
    l.set i e = l.map fun x => if key x = k then e else x := by
  induction l generalizing i with
  | nil => cases h
  | cons x l ih =>
    obtain ⟨hx, hn⟩ := List.nodup_cons.mp hn
    rw [List.findIdx?_cons] at h
    split_ifs at h with hk
    · have hk : key x = k := by simpa using hk
      cases h
      rw [List.set_cons_zero, List.map_cons, if_pos hk]
      congr 1
      refine ((List.map_congr_left fun y hy => ?_).trans (List.map_id l)).symm
      exact if_neg fun (h : key y = k) => hx (hk.trans h.symm ▸ List.mem_map_of_mem hy)
    · have hk : key x ≠ k := by simpa using hk
      obtain ⟨j, hj, rfl⟩ := Option.map_eq_some_iff.mp h
      rw [List.set_cons_succ, List.map_cons, if_neg hk, ih hn hj]

lemma map_key_replace (he : key e = k) :
    (l.map fun x => if key x = k then e else x).map key = l.map key := by
  rw [List.map_map]
  refine List.map_congr_left fun x _ => ?_
  rw [Function.comp_apply]
  split_ifs with hx
  · rw [he, hx]
  · rfl

/-- Replacing an element by itself. -/
lemma map_replace_self (hn : (l.map key).Nodup) (hx : x ∈ l) (hk : key x = k) :
    (l.map fun y => if key y = k then x else y) = l := by
  refine (List.map_congr_left fun y hy => ?_).trans (List.map_id l)
  split_ifs with h
  · exact eq_of_key hn hx hy (hk.trans h.symm)
  · rfl

end Keys

/-! ### Sorting -/

/-- The function sorts. -/
structure Sorts (le : α → α → Prop) (sort : List α → List α) : Prop where
  perm : ∀ l, (sort l).Perm l
  sorted : ∀ l, (sort l).Pairwise le

/-- No two elements are tied. -/
def Untied (le : α → α → Prop) (l : List α) : Prop := ∀ x ∈ l, ∀ y ∈ l, le x y → le y x → x = y

variable {le : α → α → Prop} {sort : List α → List α} {l m : List α} {x e : α}

lemma Untied.mono (h : Untied le m) (hs : ∀ x ∈ l, x ∈ m) : Untied le l :=
  fun x hx y hy => h x (hs x hx) y (hs y hy)

namespace Sorts

variable (hsort : Sorts le sort)
include hsort

lemma mem : x ∈ sort l ↔ x ∈ l := (hsort.perm l).mem_iff

/-- What is sorted and has the same elements is the sorted listing. -/
lemma eq_of_perm (hu : Untied le l) (hm : m.Pairwise le) (hp : m.Perm l) : m = sort l := by
  refine List.Perm.eq_of_pairwise (fun x y hx hy => ?_) hm (hsort.sorted l)
    (hp.trans (hsort.perm l).symm)
  exact hu x (hp.mem_iff.mp hx) y (hsort.mem.mp hy)

lemma sort_congr (hu : Untied le l) (hp : m.Perm l) : sort m = sort l :=
  hsort.eq_of_perm hu (hsort.sorted m) ((hsort.perm m).trans hp)

lemma sort_sort (hu : Untied le l) : sort (sort l) = sort l := hsort.sort_congr hu (hsort.perm l)

lemma sort_filter (hu : Untied le l) (p : α → Bool) : sort (l.filter p) = (sort l).filter p := by
  refine (hsort.eq_of_perm (hu.mono fun x hx => List.mem_of_mem_filter hx) ?_ ?_).symm
  · exact (hsort.sorted l).filter p
  · exact (hsort.perm l).filter p

/-- A beginning stays one when elements are taken out that are not in it. -/
lemma prefix_filter (hu : Untied le l) {p : α → Bool} (hm : m <+: sort l)
    (hp : ∀ x ∈ m, p x = true) : m <+: sort (l.filter p) := by
  obtain ⟨rest, hrest⟩ := hm
  rw [hsort.sort_filter hu, ← hrest, List.filter_append, List.filter_eq_self.mpr hp]
  exact List.prefix_append _ _

/-- **A beginning stays one when an element is put in**, exactly if that does not come before an
element of it. -/
lemma prefix_cons_iff (hu : Untied le (e :: l)) (hm : m <+: sort l) (he : e ∉ m) :
    m <+: sort (e :: l) ↔ ∀ x ∈ m, le x e := by
  obtain ⟨rest, hrest⟩ := hm
  constructor
  · rintro ⟨rest', hrest'⟩ x hx
    have hmem : e ∈ m ++ rest' := hrest' ▸ hsort.mem.mpr List.mem_cons_self
    have hpair : (m ++ rest').Pairwise le := hrest' ▸ hsort.sorted _
    exact (List.pairwise_append.mp hpair).2.2 x hx e ((List.mem_append.mp hmem).resolve_left he)
  · intro hle
    have hpair : (m ++ rest).Pairwise le := hrest ▸ hsort.sorted _
    obtain ⟨hm, -, hcross⟩ := List.pairwise_append.mp hpair
    have hsorted : (m ++ sort (e :: rest)).Pairwise le := by
      refine List.pairwise_append.mpr ⟨hm, hsort.sorted _, fun x hx y hy => ?_⟩
      rcases List.mem_cons.mp (hsort.mem.mp hy) with rfl | hy
      · exact hle x hx
      · exact hcross x hx y hy
    have hperm : (m ++ sort (e :: rest)).Perm (e :: l) :=
      calc m ++ sort (e :: rest)
        List.Perm _ (m ++ e :: rest) := (hsort.perm _).append_left m
        List.Perm _ (e :: (m ++ rest)) := List.perm_middle
        List.Perm _ (e :: l) := (hrest ▸ hsort.perm l).cons e
    rw [← hsort.eq_of_perm hu hsorted hperm]
    exact List.prefix_append _ _

end Sorts

end MouseKeeper.Listings
