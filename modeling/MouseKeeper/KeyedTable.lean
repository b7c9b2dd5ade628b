import Mathlib.Data.List.Nodup
import Mathlib.Tactic.Common

/-!
Tables with a primary key.

A table is a list of rows no two of which have one key. A change of rows that pass a test is not
seen once these are deleted.
-/

namespace MouseKeeper

@[ext]
structure Table {α κ : Type} (key : α → κ) where
  rows : List α
  nodup : (rows.map key).Nodup

namespace Table

variable {α κ : Type} {key : α → κ}

def empty : Table key := ⟨[], List.nodup_nil⟩

def delete (t : Table key) (p : α → Bool) : Table key :=
  ⟨t.rows.filter fun r => !p r, t.nodup.sublist (List.filter_sublist.map key)⟩

/-- Changes rows, but not their keys. -/
def modify (t : Table key) (p : α → Bool) (f : α → α) (hf : ∀ r, key (f r) = key r) : Table key :=
  ⟨t.rows.map fun r => if p r then f r else r, by
    have h : (key ∘ fun r => if p r then f r else r) = key := by
      funext r
      by_cases hp : p r = true <;> simp [hp, hf]
    rw [List.map_map, h]
    exact t.nodup⟩

variable [DecidableEq κ]

def find (t : Table key) (k : κ) : Option α := t.rows.find? fun r => key r = k

/-- A new row; there must be none with its key. -/
def insert (t : Table key) (r : α) : Option (Table key) :=
  if h : key r ∉ t.rows.map key then
    some ⟨t.rows ++ [r], by
      rw [List.map_append]
      refine t.nodup.append (List.nodup_singleton _) fun k hk hk' => h ?_
      rwa [← List.mem_singleton.mp hk']⟩
  else none

def insertAll (t : Table key) : List α → Option (Table key)
  | [] => some t
  | r :: rs => (t.insert r).bind fun t => t.insertAll rs

/-- `on conflict do update`: the row takes the place of the one with its key. -/
def put (t : Table key) (r : α) : Table key :=
  match h : t.insert r with
  | some t' => t'
  | none => ⟨t.rows.map fun x => if key x = key r then r else x, by
      have hk : (key ∘ fun x => if key x = key r then r else x) = key := by
        funext x
        by_cases hx : key x = key r <;> simp [hx]
      rw [List.map_map, hk]
      exact t.nodup⟩

/-! ### Rows -/

variable {t t' : Table key} {p q : α → Bool} {r x : α} {rs : List α}

omit [DecidableEq κ] in
@[simp] lemma mem_delete : x ∈ (t.delete p).rows ↔ x ∈ t.rows ∧ p x = false := by
  simp [delete]

omit [DecidableEq κ] in
/-- What is left of some columns when rows are deleted by what they have there. -/
lemma map_delete {β : Type} {f : α → β} (g : β → Bool) (h : ∀ x, p x = g (f x)) :
    (t.delete p).rows.map f = (t.rows.map f).filter fun b => !g b := by
  rw [List.filter_map]
  refine congrArg (List.map f) (List.filter_congr fun x _ => ?_)
  rw [h x, Function.comp_apply]

omit [DecidableEq κ] in
lemma keys_modify {f : α → α} {hf : ∀ r, key (f r) = key r} :
    (t.modify p f hf).rows.map key = t.rows.map key := by
  refine (List.map_map ..).trans (List.map_congr_left fun x _ => ?_)
  rw [Function.comp_apply]
  split_ifs
  · exact hf x
  · rfl

lemma mem_of_find {k : κ} (h : t.find k = some r) : r ∈ t.rows ∧ key r = k :=
  ⟨List.mem_of_find?_eq_some h, by simpa using List.find?_some h⟩

lemma find_of_mem (h : r ∈ t.rows) : t.find (key r) = some r := by
  have hsome : (t.find (key r)).isSome = true :=
    List.find?_isSome.mpr ⟨r, h, decide_eq_true rfl⟩
  obtain ⟨x, hx⟩ := Option.isSome_iff_exists.mp hsome
  obtain ⟨hmem, hkey⟩ := mem_of_find hx
  rw [hx, List.inj_on_of_nodup_map t.nodup hmem h hkey]

lemma find_modify {f : α → α} {hf : ∀ r, key (f r) = key r} {k : κ} :
    (t.modify p f hf).find k = (t.find k).map fun r => if p r then f r else r := by
  rw [find, modify, List.find?_map]
  congr 2
  funext r
  by_cases hp : p r = true
  · simp [hp, hf]
  · simp [hp]

lemma rows_insert (h : t.insert r = some t') : t'.rows = t.rows ++ [r] := by
  rw [insert] at h
  split at h
  · cases h
    rfl
  · cases h

/-- A new row is found under its own key only. -/
lemma find_insert (h : t.insert r = some t') {k : κ} (hx : t.find k = some x) :
    t'.find k = some x := by
  rw [find, rows_insert h, List.find?_append]
  exact Option.or_eq_some_iff.mpr (.inl hx)

lemma rows_insertAll (h : t.insertAll rs = some t') : t'.rows = t.rows ++ rs := by
  induction rs generalizing t with
  | nil =>
    cases h
    exact (List.append_nil _).symm
  | cons r rs ih =>
    obtain ⟨t₁, h₁, h⟩ := Option.bind_eq_some_iff.mp h
    rw [ih h, rows_insert h₁, List.append_assoc]
    rfl

lemma mem_put (h : x ∈ (t.put r).rows) : x ∈ t.rows ∨ x = r := by
  rw [put] at h
  split at h
  · next t' ht =>
    rw [rows_insert ht] at h
    exact (List.mem_append.mp h).imp_right List.mem_singleton.mp
  · obtain ⟨y, hy, rfl⟩ := List.mem_map.mp h
    split_ifs
    · exact .inr rfl
    · exact .inl hy

/-! ### Changes of rows that are deleted afterwards -/

omit [DecidableEq κ] in
lemma delete_eq (h : t.rows.filter (fun r => !p r) = t'.rows.filter fun r => !p r) :
    t.delete p = t'.delete p :=
  Table.ext h

omit [DecidableEq κ] in
lemma delete_delete (h : ∀ x, q x = true → p x = true) : (t.delete q).delete p = t.delete p := by
  refine delete_eq ?_
  rw [delete, List.filter_filter]
  refine List.filter_congr fun x _ => ?_
  cases hq : q x with
  | true => simp [h x hq]
  | false => simp

omit [DecidableEq κ] in
lemma filter_map_unseen {f : α → α} (h : ∀ x, f x = x ∨ p x = true ∧ p (f x) = true)
    (rows : List α) :
    (rows.map f).filter (fun r => !p r) = rows.filter fun r => !p r := by
  induction rows with
  | nil => rfl
  | cons y rows ih =>
    rw [List.map_cons, List.filter_cons, List.filter_cons, ih]
    rcases h y with hy | ⟨hy, hy'⟩
    · rw [hy]
    · simp [hy, hy']

omit [DecidableEq κ] in
lemma delete_modify {f : α → α} {hf : ∀ r, key (f r) = key r}
    (h : ∀ x, q x = true → p x = true ∧ p (f x) = true) :
    (t.modify q f hf).delete p = t.delete p := by
  refine delete_eq (filter_map_unseen (fun x => ?_) t.rows)
  cases hq : q x with
  | true => exact .inr (h x hq)
  | false => exact .inl rfl

lemma delete_insertAll (h : t.insertAll rs = some t') (hp : ∀ r ∈ rs, p r = true) :
    t'.delete p = t.delete p := by
  refine delete_eq ?_
  rw [rows_insertAll h, List.filter_append, List.append_right_eq_self, List.filter_eq_nil_iff]
  exact fun r hr => by simp [hp r hr]

lemma delete_put (h : ∀ x, key x = key r → p x = true) : (t.put r).delete p = t.delete p := by
  rw [put]
  split
  · next t' ht =>
    refine delete_eq ?_
    rw [rows_insert ht, List.filter_append, List.append_right_eq_self, List.filter_eq_nil_iff]
    intro x hx
    rw [List.mem_singleton.mp hx, h r rfl]
    exact Bool.false_ne_true
  · refine delete_eq (filter_map_unseen (fun x => ?_) t.rows)
    by_cases hx : key x = key r
    · rw [if_pos hx]
      exact .inr ⟨h x hx, h r rfl⟩
    · exact .inl (if_neg hx)

end Table

end MouseKeeper
