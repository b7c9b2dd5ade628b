import Std.Data.ExtTreeMap
import Mathlib.Tactic.Common

/-!
A copy that follows a map by writes.

Calls change a map at once and leave writes behind, which bring the change to a copy of
the map one after the other, when each call gets to it. If the writes of every key are
taken in the order in which they were left, the copy becomes the map.
-/

namespace MouseKeeper.WriteBehind

open Std

variable {K V : Type} {cmp : K → K → Ordering} [TransCmp cmp]

/-- A write of one entry: the value it gets, or none where the entry goes. -/
structure Write (K V : Type) where
  key : K
  value : Option V
  deriving DecidableEq

def Write.apply (m : ExtTreeMap K V cmp) (w : Write K V) : ExtTreeMap K V cmp :=
  match w.value with
  | some v => m.insert w.key v
  | none => m.erase w.key

/-- The copy once the writes have been taken. -/
def flush (m : ExtTreeMap K V cmp) (ws : List (Write K V)) : ExtTreeMap K V cmp :=
  ws.foldl Write.apply m

/-- The next write of the `i`th call, and the writes left after it. -/
def next (calls : List (List (Write K V))) (i : ℕ) :
    Option (Write K V × List (List (Write K V))) :=
  match calls[i]? with
  | some (w :: rest) => some (w, calls.set i rest)
  | _ => none

/-- No call that came before the `i`th has yet to write the key. -/
def InTurn (calls : List (List (Write K V))) (i : ℕ) (k : K) : Prop :=
  ∀ ws ∈ calls.take i, ∀ w ∈ ws, w.key ≠ k

variable {m : ExtTreeMap K V cmp} {w : Write K V} {ws ws' : List (Write K V)}
  {calls calls' : List (List (Write K V))} {i : ℕ} {k : K}

lemma get_apply [LawfulEqCmp cmp] [DecidableEq K] :
    (w.apply m)[k]? = if w.key = k then w.value else m[k]? := by
  unfold Write.apply
  cases w.value <;> simp [ExtTreeMap.getElem?_insert, ExtTreeMap.getElem?_erase]

@[simp] lemma flush_nil : flush m [] = m := rfl

@[simp] lemma flush_cons : flush m (w :: ws) = flush (w.apply m) ws := rfl

lemma flush_append : flush m (ws ++ ws') = flush (flush m ws) ws' := by
  simp [flush, List.foldl_append]

/-- Writes of two keys may change places. -/
lemma apply_comm [LawfulEqCmp cmp] {w' : Write K V} (h : w'.key ≠ w.key) :
    w'.apply (w.apply m) = w.apply (w'.apply m) := by
  classical
  refine ExtTreeMap.ext_getElem? fun k => ?_
  simp only [get_apply]
  by_cases hk : w.key = k
  · have : w'.key ≠ k := fun h' => h (h'.trans hk.symm)
    simp [hk, this]
  · simp [hk]

/-- A write may be taken before those of other keys. -/
lemma flush_overtake [LawfulEqCmp cmp] (h : ∀ w' ∈ ws, w'.key ≠ w.key) :
    flush m (ws ++ w :: ws') = flush (w.apply m) (ws ++ ws') := by
  induction ws generalizing m with
  | nil => rfl
  | cons w' ws ih =>
    have hw := h w' List.mem_cons_self
    have hws : ∀ w'' ∈ ws, w''.key ≠ w.key := fun w'' h'' => h w'' (List.mem_cons_of_mem _ h'')
    simp only [List.cons_append, flush_cons, ih hws, apply_comm hw]

lemma next_eq (h : next calls i = some (w, calls')) :
    ∃ rest, calls[i]? = some (w :: rest) ∧ calls' = calls.set i rest := by
  unfold next at h
  split at h
  · rename_i rest hi
    cases h
    exact ⟨rest, hi, rfl⟩
  · cases h

/-- What a call writes next, between what the calls before and after it have to write. -/
lemma next_cut (h : next calls i = some (w, calls')) :
    ∃ rest, calls.flatten = (calls.take i).flatten ++ w :: (rest ++ (calls.drop (i + 1)).flatten) ∧
      calls'.flatten = (calls.take i).flatten ++ (rest ++ (calls.drop (i + 1)).flatten) := by
  obtain ⟨rest, hi, rfl⟩ := next_eq h
  obtain ⟨hlt, hget⟩ := List.getElem?_eq_some_iff.mp hi
  have hcut : calls = calls.take i ++ (w :: rest) :: calls.drop (i + 1) := by
    rw [← hget, List.getElem_cons_drop, List.take_append_drop]
  have hset : calls.set i rest = calls.take i ++ rest :: calls.drop (i + 1) :=
    List.set_eq_take_append_cons_drop.trans (if_pos hlt)
  refine ⟨rest, ?_, ?_⟩
  · conv_lhs => rw [hcut]
    simp
  · rw [hset]
    simp

lemma InTurn.flatten (h : InTurn calls i k) : ∀ w ∈ (calls.take i).flatten, w.key ≠ k :=
  fun w hw => by
    obtain ⟨ws, hws, hw⟩ := List.mem_flatten.mp hw
    exact h ws hws w hw

/-- **A write taken in its turn leaves the outcome as it is.** -/
theorem next_flush [LawfulEqCmp cmp] (h : next calls i = some (w, calls'))
    (ht : InTurn calls i w.key) : flush (w.apply m) calls'.flatten = flush m calls.flatten := by
  obtain ⟨rest, hbefore, hafter⟩ := next_cut h
  rw [hbefore, hafter]
  exact (flush_overtake ht.flatten).symm

/-- Writes that say what a function says bring the copy to it. -/
lemma flush_eq [LawfulEqCmp cmp] {f : K → Option V} (hw : ∀ w ∈ ws, w.value = f w.key)
    (hm : ∀ k, (∀ w ∈ ws, w.key ≠ k) → m[k]? = f k) : (flush m ws)[k]? = f k := by
  classical
  induction ws generalizing m with
  | nil => exact hm k (by simp)
  | cons w ws ih =>
    refine ih (fun w' h' => hw w' (List.mem_cons_of_mem _ h')) fun k hk => ?_
    rw [get_apply]
    split_ifs with he
    · exact he ▸ hw w List.mem_cons_self
    · exact hm k fun w' h' => by
        rcases List.mem_cons.mp h' with rfl | h'
        · exact he
        · exact hk w' h'

/-! ### What the writes change -/

variable {R : Option V → Option V → Prop}

/-- Every write changes the entry of its key as the relation allows. -/
def Each (R : Option V → Option V → Prop) : ExtTreeMap K V cmp → List (Write K V) → Prop
  | _, [] => True
  | m, w :: ws => R m[w.key]? w.value ∧ Each R (w.apply m) ws

lemma each_append : Each R m (ws ++ ws') ↔ Each R m ws ∧ Each R (flush m ws) ws' := by
  induction ws generalizing m with
  | nil => simp [Each]
  | cons w ws ih => simp only [List.cons_append, Each, ih, flush_cons, and_assoc]

lemma each_overtake [LawfulEqCmp cmp] (h : ∀ w' ∈ ws, w'.key ≠ w.key)
    (he : Each R m (ws ++ w :: ws')) : R m[w.key]? w.value ∧ Each R (w.apply m) (ws ++ ws') := by
  classical
  induction ws generalizing m with
  | nil => exact he
  | cons w' ws ih =>
    obtain ⟨hne, hws⟩ := List.forall_mem_cons.mp h
    obtain ⟨hw', he⟩ := he
    obtain ⟨hw, he⟩ := ih hws he
    rw [get_apply, if_neg hne] at hw
    rw [apply_comm hne.symm] at he
    refine ⟨hw, ?_, he⟩
    rwa [get_apply, if_neg hne.symm]

/-- **A write taken in its turn changes its entry as the relation allows.** -/
theorem next_each [LawfulEqCmp cmp] (h : next calls i = some (w, calls'))
    (ht : InTurn calls i w.key) (he : Each R m calls.flatten) :
    R m[w.key]? w.value ∧ Each R (w.apply m) calls'.flatten := by
  obtain ⟨rest, hbefore, hafter⟩ := next_cut h
  rw [hbefore] at he
  rw [hafter]
  exact each_overtake ht.flatten he

end MouseKeeper.WriteBehind
