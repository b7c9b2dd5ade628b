import Mathlib.Data.List.Sort
import Mathlib.Tactic.Common

/-!
Stable sorting by a comparison that may tie.

Elements that tie keep their order. So a sorted list is told by the order in which its elements
stand among those that they tie with, and two lists are sorted into one list exactly if they
agree on that.
-/

namespace MouseKeeper.StableSorts

variable {α : Type} (cmp : α → α → Ordering)

def le (a b : α) : Bool := (cmp a b).isLE

/-- The comparison does not tell the two apart. -/
def tied (a b : α) : Bool := cmp a b = .eq

/-- The list in order; what ties stays as it stands. -/
def sort (l : List α) : List α := l.mergeSort (le cmp)

variable {cmp} {a b c : α} {l l' : List α}

lemma perm_sort : (sort cmp l).Perm l := List.mergeSort_perm l _

@[simp] lemma mem_sort : a ∈ sort cmp l ↔ a ∈ l := perm_sort.mem_iff

/-- What is compared by its image may be sorted after it has been mapped. -/
lemma map_sort {β : Type} {cmp' : β → β → Ordering} {f : α → β}
    (h : ∀ a b, cmp' (f a) (f b) = cmp a b) : (sort cmp l).map f = sort cmp' (l.map f) :=
  List.map_mergeSort fun a _ b _ => by rw [le, le, h]

variable [Std.TransCmp cmp]

lemma le_trans (hab : le cmp a b = true) (hbc : le cmp b c = true) : le cmp a c = true :=
  Std.TransCmp.isLE_trans hab hbc

lemma le_total (a b : α) : (le cmp a b || le cmp b a) = true := by
  have hswap : cmp b a = (cmp a b).swap := Std.OrientedCmp.eq_swap
  rw [le, le, hswap]
  cases cmp a b <;> rfl

lemma sorted_sort (l : List α) : (sort cmp l).Pairwise fun a b => le cmp a b = true :=
  List.pairwise_mergeSort (fun _ _ _ => le_trans) le_total l

lemma tied_iff : tied cmp a b = true ↔ le cmp a b = true ∧ le cmp b a = true := by
  have hswap : cmp b a = (cmp a b).swap := Std.OrientedCmp.eq_swap
  rw [tied, le, le, hswap]
  cases cmp a b <;> decide

lemma tied_self (a : α) : tied cmp a a = true := decide_eq_true Std.ReflCmp.compare_self

/-- **Sorting leaves those that tie in their order.** -/
theorem filter_sort (a : α) : (sort cmp l).filter (tied cmp a) = l.filter (tied cmp a) := by
  have hsorted : (l.filter (tied cmp a)).Pairwise fun x y => le cmp x y = true := by
    refine List.pairwise_of_forall_mem_list fun x hx y hy => ?_
    have hx' := tied_iff.mp (List.mem_filter.mp hx).2
    have hy' := tied_iff.mp (List.mem_filter.mp hy).2
    exact le_trans hx'.2 hy'.1
  have hsub : (l.filter (tied cmp a)).Sublist (sort cmp l) :=
    List.sublist_mergeSort (fun _ _ _ => le_trans) le_total hsorted List.filter_sublist
  have hsub' := hsub.filter (tied cmp a)
  simp only [List.filter_filter, Bool.and_self] at hsub'
  exact (hsub'.eq_of_length (perm_sort.filter _).length_eq.symm).symm

/-- Sorted lists in which those that tie stand in the same order are the same. -/
lemma eq_of_filter (hl : l.Pairwise fun a b => le cmp a b = true)
    (hl' : l'.Pairwise fun a b => le cmp a b = true)
    (h : ∀ a, l.filter (tied cmp a) = l'.filter (tied cmp a)) : l = l' := by
  induction l generalizing l' with
  | nil =>
    cases l' with
    | nil => rfl
    | cons b l' => simpa [tied_self] using h b
  | cons a l ih =>
    cases l' with
    | nil => simpa [tied_self] using h a
    | cons b l' =>
      obtain ⟨ha, hrest⟩ := List.pairwise_cons.mp hl
      obtain ⟨hb, hrest'⟩ := List.pairwise_cons.mp hl'
      -- Each of the first ones is in the other list, so they tie.
      have hmem : ∀ x, x ∈ a :: l ↔ x ∈ b :: l' := fun x => by
        have hx := congrArg (x ∈ ·) (h x)
        simpa [List.mem_filter, tied_self] using hx
      have htied : tied cmp a b = true := by
        refine tied_iff.mpr ⟨?_, ?_⟩
        · obtain rfl | hx := List.mem_cons.mp ((hmem b).mpr List.mem_cons_self)
          · exact (tied_iff.mp (tied_self _)).1
          · exact ha b hx
        · obtain rfl | hx := List.mem_cons.mp ((hmem a).mp List.mem_cons_self)
          · exact (tied_iff.mp (tied_self _)).1
          · exact hb a hx
      have hab : a = b := by
        have hfirst := h a
        rw [List.filter_cons_of_pos (tied_self a), List.filter_cons_of_pos htied] at hfirst
        exact (List.cons.inj hfirst).1
      subst hab
      refine congrArg (a :: ·) (ih hrest hrest' fun c => ?_)
      have hc := h c
      by_cases hca : tied cmp c a = true
      · rw [List.filter_cons_of_pos hca, List.filter_cons_of_pos hca] at hc
        exact (List.cons.inj hc).2
      · rwa [List.filter_cons_of_neg hca, List.filter_cons_of_neg hca] at hc

/-- **Lists are sorted into one list exactly if those that tie stand in the same order.** -/
theorem sort_eq_iff :
    sort cmp l = sort cmp l' ↔ ∀ a, l.filter (tied cmp a) = l'.filter (tied cmp a) := by
  constructor
  · intro h a
    rw [← filter_sort, h, filter_sort]
  · intro h
    refine eq_of_filter (sorted_sort l) (sorted_sort l') fun a => ?_
    rw [filter_sort, filter_sort, h]

end MouseKeeper.StableSorts
