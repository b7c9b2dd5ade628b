import MouseKeeper.Rely
import Mathlib.Data.List.Nodup

/-!
Tables of rows with identifiers under read committed.

Rows are inserted and changed, never deleted. What the others do to a table while a call holds
locks: every row goes on in a later version of itself, locked rows are as they were, and a locked
entry of a unique index does not come in.
-/

namespace MouseKeeper.ReadCommitted

variable {α L : Type}

/-- The rows with the values set where the identifier is one of the given. -/
def setRows (id : α → ℕ) (ids : List ℕ) (set : α → α) (rows : List α) : List α :=
  rows.map fun x => if id x ∈ ids then set x else x

section setRows

variable {id : α → ℕ} {ids : List ℕ} {set : α → α} {rows : List α}

lemma mem_setRows {y : α} :
    y ∈ setRows id ids set rows ↔ ∃ x ∈ rows, (if id x ∈ ids then set x else x) = y :=
  List.mem_map

lemma mem_setRows_of_not_mem {x : α} (hx : x ∈ rows) (h : id x ∉ ids) :
    x ∈ setRows id ids set rows :=
  mem_setRows.mpr ⟨x, hx, if_neg h⟩

lemma mem_setRows_of_mem {x : α} (hx : x ∈ rows) (h : id x ∈ ids) :
    set x ∈ setRows id ids set rows :=
  mem_setRows.mpr ⟨x, hx, if_pos h⟩

lemma map_id_setRows (h : ∀ x ∈ rows, id x ∈ ids → id (set x) = id x) :
    (setRows id ids set rows).map id = rows.map id := by
  rw [setRows, List.map_map]
  refine List.map_congr_left fun x hx => ?_
  rw [Function.comp_apply]
  split
  · exact h x hx ‹_›
  · rfl

@[simp] lemma setRows_nil : setRows id [] set rows = rows := by simp [setRows]

lemma setRows_congr {ids' : List ℕ} (h : ∀ x ∈ rows, id x ∈ ids ↔ id x ∈ ids') :
    setRows id ids set rows = setRows id ids' set rows :=
  List.map_congr_left fun x hx => by simp only [h x hx]

/-- Values set twice are set once. -/
lemma setRows_setRows {ids' : List ℕ} (hid : ∀ x, id (set x) = id x)
    (hset : ∀ x, set (set x) = set x) :
    setRows id ids' set (setRows id ids set rows) = setRows id (ids ++ ids') set rows := by
  rw [setRows, setRows, List.map_map]
  refine List.map_congr_left fun x _ => ?_
  by_cases h : id x ∈ ids <;> by_cases h' : id x ∈ ids' <;> simp [h, h', hid, hset]

end setRows

/-- Two rows with one identifier are one row. -/
lemma eq_of_id_eq {id : α → ℕ} {rows : List α} (h : (rows.map id).Nodup) {x y : α}
    (hx : x ∈ rows) (hy : y ∈ rows) (hid : id x = id y) : x = y :=
  List.inj_on_of_nodup_map h hx hy hid

/-- The identifiers, locks and index entries of a table, and what a row may become. -/
structure RowSpec (α L : Type) where
  id : α → ℕ
  lock : ℕ → L
  entries : α → List L
  later : α → α → Prop
  refl : ∀ x, later x x
  trans : ∀ {x y z}, later x y → later y z → later x z
  later_id : ∀ {x y}, later x y → id y = id x
  later_entries : ∀ {x y}, later x y → entries y = entries x

/-- What the others do to the table. -/
structure RowRely (S : RowSpec α L) (held : List L) (rows rows' : List α) : Prop where
  later : ∀ x ∈ rows, ∃ y ∈ rows', S.later x y
  locked : ∀ x, S.lock (S.id x) ∈ held → (x ∈ rows ↔ x ∈ rows')
  entry : ∀ y ∈ rows', ∀ l ∈ S.entries y, l ∈ held → ∃ x ∈ rows, l ∈ S.entries x

/-- What a commit does to the table: it changes locked rows, or it inserts a row whose entries are
locked and not yet in. -/
inductive RowEffect (α : Type)
  | none
  | change (ids : List ℕ) (set : α → α)
  | insert (row : α)

def RowEffect.apply (id : α → ℕ) : RowEffect α → List α → List α
  | .none, rows => rows
  | .change ids set, rows => setRows id ids set rows
  | .insert row, rows => rows ++ [row]

/-- The effect can be committed, and every new version and every new row is fine. -/
def RowEffect.Enabled (S : RowSpec α L) (fine : α → Prop) (held : List L) (rows : List α) :
    RowEffect α → Prop
  | .none => True
  | .change ids set => ∀ x, S.id x ∈ ids → S.lock (S.id x) ∈ held ∧
      (x ∈ rows → S.later x (set x) ∧ fine (set x))
  | .insert row => S.lock (S.id row) ∈ held ∧ (∀ l ∈ S.entries row, l ∈ held) ∧
      (∀ x ∈ rows, S.id x ≠ S.id row ∧ ∀ l ∈ S.entries x, l ∉ S.entries row) ∧ fine row

section RowRely

variable {S : RowSpec α L} {fine : α → Prop} {held held' : List L} {a b c rows rows' : List α}

lemma RowRely.refl (S : RowSpec α L) (held : List L) (rows : List α) : RowRely S held rows rows where
  later := fun x hx => ⟨x, hx, S.refl x⟩
  locked := fun _ _ => Iff.rfl
  entry := fun y hy _ hl _ => ⟨y, hy, hl⟩

lemma RowRely.trans (h : RowRely S held a b) (h' : RowRely S held b c) : RowRely S held a c where
  later := by
    intro x hx
    obtain ⟨y, hy, hxy⟩ := h.later x hx
    obtain ⟨z, hz, hyz⟩ := h'.later y hy
    exact ⟨z, hz, S.trans hxy hyz⟩
  locked := fun x hx => (h.locked x hx).trans (h'.locked x hx)
  entry := by
    intro z hz l hl hheld
    obtain ⟨y, hy, hl⟩ := h'.entry z hz l hl hheld
    exact h.entry y hy l hl hheld

lemma RowRely.mono (h : RowRely S held' a b) (hs : held ⊆ held') : RowRely S held a b where
  later := h.later
  locked := fun x hx => h.locked x (hs hx)
  entry := fun y hy l hl hheld => h.entry y hy l hl (hs hheld)

/-- An effect that can be committed still can be when the others have done something. -/
lemma RowEffect.Enabled.rely {e : RowEffect α} (h : e.Enabled S fine held rows)
    (hr : RowRely S held rows rows') : e.Enabled S fine held rows' := by
  cases e with
  | none => exact True.intro
  | change ids set =>
    intro x hx
    obtain ⟨hlock, hset⟩ := h x hx
    exact ⟨hlock, fun hm => hset ((hr.locked x hlock).mpr hm)⟩
  | insert row =>
    obtain ⟨hlock, hentries, hfresh, hfine⟩ := h
    refine ⟨hlock, hentries, fun y hy => ⟨fun hid => ?_, fun l hl hrow => ?_⟩, hfine⟩
    · have hm := (hr.locked y (hid ▸ hlock)).mpr hy
      exact (hfresh y hm).1 hid
    · obtain ⟨x, hx, hlx⟩ := hr.entry y hy l hl (hentries l hrow)
      exact (hfresh x hx).2 l hlx hrow

lemma RowEffect.Enabled.mono {e : RowEffect α} (h : e.Enabled S fine held rows)
    (hs : held ⊆ held') : e.Enabled S fine held' rows := by
  cases e with
  | none => exact True.intro
  | change ids set => exact fun x hx => ⟨hs (h x hx).1, (h x hx).2⟩
  | insert row => exact ⟨hs h.1, fun l hl => hs (h.2.1 l hl), h.2.2⟩

/-- An effect that can be committed is something that calls with other locks allow. -/
lemma RowEffect.Enabled.guarantee {e : RowEffect α} (h : e.Enabled S fine held rows)
    (hd : List.Disjoint held held') : RowRely S held' rows (e.apply S.id rows) := by
  cases e with
  | none => exact .refl S held' rows
  | change ids set =>
    have hfree : ∀ x, S.lock (S.id x) ∈ held' → S.id x ∉ ids := fun x hl hx => hd (h x hx).1 hl
    refine ⟨fun x hx => ?_, fun x hl => ?_, fun y hy l hl _ => ?_⟩
    · by_cases hid : S.id x ∈ ids
      · exact ⟨set x, mem_setRows_of_mem hx hid, ((h x hid).2 hx).1⟩
      · exact ⟨x, mem_setRows_of_not_mem hx hid, S.refl x⟩
    · refine ⟨fun hx => mem_setRows_of_not_mem hx (hfree x hl), fun hy => ?_⟩
      obtain ⟨x', hx', heq⟩ := mem_setRows.mp hy
      split at heq
      · rename_i hid
        have hback := S.later_id ((h x' hid).2 hx').1
        rw [heq] at hback
        exact absurd (hback ▸ hid) (hfree x hl)
      · exact heq ▸ hx'
    · obtain ⟨x, hx, rfl⟩ := mem_setRows.mp hy
      refine ⟨x, hx, ?_⟩
      split at hl
      · rename_i hid
        rwa [S.later_entries ((h x hid).2 hx).1] at hl
      · exact hl
  | insert row =>
    obtain ⟨hlock, hentries, -, -⟩ := h
    refine ⟨fun x hx => ⟨x, List.mem_append_left _ hx, S.refl x⟩, fun x hl => ?_,
      fun y hy l hl hheld => ?_⟩
    · refine ⟨List.mem_append_left _, fun hx => ?_⟩
      rcases List.mem_append.mp hx with hx | hx
      · exact hx
      · rw [List.mem_singleton.mp hx] at hl
        exact absurd hl (hd hlock)
    · rcases List.mem_append.mp hy with hy | hy
      · exact ⟨y, hy, hl⟩
      · rw [List.mem_singleton.mp hy] at hl
        exact absurd hheld (hd (hentries l hl))

/-- An effect keeps the identifiers distinct. -/
lemma RowEffect.Enabled.nodup {e : RowEffect α} (h : e.Enabled S fine held rows)
    (hn : (rows.map S.id).Nodup) : ((e.apply S.id rows).map S.id).Nodup := by
  cases e with
  | none => exact hn
  | change ids set =>
    rw [apply, map_id_setRows fun x hx hid => S.later_id ((h x hid).2 hx).1]
    exact hn
  | insert row =>
    rw [apply, List.map_append, List.map_singleton]
    refine List.Nodup.append hn (List.nodup_singleton _) fun i hi hrow => ?_
    obtain ⟨x, hx, rfl⟩ := List.mem_map.mp hi
    exact (h.2.2.1 x hx).1 (List.mem_singleton.mp hrow)

lemma RowEffect.Enabled.allFine {e : RowEffect α} (h : e.Enabled S fine held rows)
    (hf : ∀ x ∈ rows, fine x) : ∀ x ∈ e.apply S.id rows, fine x := by
  cases e with
  | none => exact hf
  | change ids set =>
    intro y hy
    obtain ⟨x, hx, rfl⟩ := mem_setRows.mp hy
    split
    · exact ((h x ‹_›).2 hx).2
    · exact hf x hx
  | insert row =>
    intro y hy
    rcases List.mem_append.mp hy with hy | hy
    · exact hf y hy
    · exact List.mem_singleton.mp hy ▸ h.2.2.2

end RowRely

end MouseKeeper.ReadCommitted
