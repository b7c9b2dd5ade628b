import Mathlib.Tactic.Common

/-!
Pages of a filtered list.

The rows of a list are fetched in batches and filtered one by one. A page ends at the first
hit that it has no room for, and the offset of that row, counted in rows and not in hits, is
where the next page goes on.
-/

namespace MouseKeeper.Paging

variable {α : Type}

/-- The hits so far, the number of the row that comes next, and where the next page starts
once this one is full. -/
structure Scan (α : Type) where
  entries : List α
  offset : ℕ
  next : Option ℕ

variable (hit : α → Bool) (limit : ℕ)

/-- The rows of a batch. -/
def scanRows : List α → Scan α → Scan α
  | [], s => s
  | r :: rs, s =>
    if hit r then
      if s.entries.length = limit then { s with next := some s.offset }
      else scanRows rs { s with entries := s.entries ++ [r], offset := s.offset + 1 }
    else scanRows rs { s with offset := s.offset + 1 }

variable {hit limit} {s : Scan α} {l : List α}

lemma scanRows_offset (h : (scanRows hit limit l s).next = none) :
    (scanRows hit limit l s).offset = s.offset + l.length := by
  induction l generalizing s with
  | nil => rfl
  | cons r rs ih =>
    simp only [scanRows] at h ⊢
    split at h
    · split at h
      · cases h
      · rw [if_pos ‹_›, if_neg ‹_›, ih h, List.length_cons, Nat.add_assoc, Nat.add_comm 1]
    · rw [if_neg ‹_›, ih h, List.length_cons, Nat.add_assoc, Nat.add_comm 1]

/-- `limit … offset …`. -/
def fetch (batch : ℕ) (rows : List α) (offset : ℕ) : List α := (rows.drop offset).take batch

variable (hit limit) in
/-- Batch after batch, until the page is full or a batch is not. -/
def scanBatches (batch : ℕ) (rows : List α) (s : Scan α) : Scan α :=
  if fetch batch rows s.offset = [] then s
  else if (scanRows hit limit (fetch batch rows s.offset) s).next ≠ none then
    scanRows hit limit (fetch batch rows s.offset) s
  else if (fetch batch rows s.offset).length < batch then
    scanRows hit limit (fetch batch rows s.offset) s
  else scanBatches batch rows (scanRows hit limit (fetch batch rows s.offset) s)
termination_by rows.length - s.offset
decreasing_by
  rename_i hne hn _
  have hpos := List.length_pos_iff.mpr hne
  rw [scanRows_offset (not_not.mp hn)]
  simp only [fetch, List.length_take, List.length_drop] at hpos ⊢
  omega

/-- Rows in two parts. -/
lemma scanRows_append {l' : List α} (h : (scanRows hit limit l s).next = none) :
    scanRows hit limit (l ++ l') s = scanRows hit limit l' (scanRows hit limit l s) := by
  induction l generalizing s with
  | nil => rfl
  | cons r rs ih =>
    simp only [List.cons_append, scanRows] at h ⊢
    split at h
    · split at h
      · cases h
      · rw [if_pos ‹_›, if_neg ‹_›, if_pos ‹_›, if_neg ‹_›, ih h]
    · rw [if_neg ‹_›, if_neg ‹_›, ih h]

/-- A page that is full within the first part. -/
lemma scanRows_append_full {l' : List α} (hs : s.next = none)
    (h : (scanRows hit limit l s).next ≠ none) :
    scanRows hit limit (l ++ l') s = scanRows hit limit l s := by
  induction l generalizing s with
  | nil => exact absurd hs h
  | cons r rs ih =>
    simp only [List.cons_append, scanRows] at h ⊢
    split
    · rename_i hr
      rw [if_pos hr] at h
      split
      · rfl
      · rename_i hf
        rw [if_neg hf] at h
        exact ih hs h
    · rename_i hr
      rw [if_neg hr] at h
      exact ih hs h

lemma fetch_append (batch : ℕ) (rows : List α) (o : ℕ) :
    fetch batch rows o ++ rows.drop (o + (fetch batch rows o).length) = rows.drop o := by
  rw [← List.drop_drop, fetch, List.length_take]
  by_cases h : batch ≤ (rows.drop o).length
  · rw [Nat.min_eq_left h, List.take_append_drop]
  · rw [Nat.min_eq_right (by omega), List.take_of_length_le (by omega), List.drop_length,
      List.append_nil]

/-- **The batches do not show**: the page is the one of all rows at once. -/
lemma scanBatches_eq {batch : ℕ} (hb : 0 < batch) (rows : List α) (hs : s.next = none) :
    scanBatches hit limit batch rows s = scanRows hit limit (rows.drop s.offset) s := by
  fun_induction scanBatches hit limit batch rows s with
  | case1 s hf =>
    rcases List.take_eq_nil_iff.mp hf with hz | hd
    · omega
    · rw [hd, scanRows]
  | case2 s hf hn => rw [← fetch_append batch, scanRows_append_full hs hn]
  | case3 s hf hn hl =>
    have hd : fetch batch rows s.offset = rows.drop s.offset := by
      refine List.take_of_length_le ?_
      rw [fetch, List.length_take] at hl
      omega
    rw [hd]
  | case4 s hf hn hl ih =>
    have hn := not_not.mp hn
    rw [ih hn, scanRows_offset hn, ← scanRows_append hn, fetch_append]

/-- What a page takes of the hits, and what it leaves. -/
structure Splits (hit : α → Bool) (limit : ℕ) (l : List α) (s s' : Scan α) : Prop where
  last : s'.next = none → s'.entries = s.entries ++ l.filter hit
  more : ∀ o, s'.next = some o → s'.entries.length = limit ∧ ∃ k, o = s.offset + k ∧
    k < l.length ∧ s'.entries ++ (l.drop k).filter hit = s.entries ++ l.filter hit

lemma scanRows_splits (hs : s.next = none) (hl : s.entries.length ≤ limit) :
    Splits hit limit l s (scanRows hit limit l s) := by
  induction l generalizing s with
  | nil => exact ⟨fun _ => by simp [scanRows], fun o ho => by simp [scanRows, hs] at ho⟩
  | cons r rs ih =>
    simp only [scanRows]
    split
    · rename_i hr
      split
      · rename_i hf
        refine ⟨fun hn => by simp at hn, fun o ho => ⟨hf, 0, ?_, by simp, by simp⟩⟩
        simpa using ho.symm
      · rename_i hf
        have hi := ih (s := ⟨s.entries ++ [r], s.offset + 1, s.next⟩) hs
          (by rw [List.length_append, List.length_singleton]; omega)
        refine ⟨fun hn => ?_, fun o ho => ?_⟩
        · rw [hi.last hn, List.filter_cons_of_pos hr, List.append_assoc, List.singleton_append]
        · obtain ⟨hlen, k, rfl, hk, hsplit⟩ := hi.more o ho
          refine ⟨hlen, k + 1, by simp only; omega, by simpa using hk, ?_⟩
          rw [List.drop_succ_cons, hsplit, List.filter_cons_of_pos hr, List.append_assoc,
            List.singleton_append]
    · rename_i hr
      have hi := ih (s := ⟨s.entries, s.offset + 1, s.next⟩) hs hl
      refine ⟨fun hn => ?_, fun o ho => ?_⟩
      · rw [hi.last hn, List.filter_cons_of_neg hr]
      · obtain ⟨hlen, k, rfl, hk, hsplit⟩ := hi.more o ho
        refine ⟨hlen, k + 1, by simp only; omega, by simpa using hk, ?_⟩
        rw [List.drop_succ_cons, hsplit, List.filter_cons_of_neg hr]

/-- The hits of the rows, as far as there is room for them. -/
lemma scanRows_entries (hl : s.entries.length ≤ limit) : (scanRows hit limit l s).entries =
    s.entries ++ (l.filter hit).take (limit - s.entries.length) := by
  induction l generalizing s with
  | nil => simp [scanRows]
  | cons r rs ih =>
    simp only [scanRows]
    split
    · rename_i hr
      rw [List.filter_cons_of_pos hr]
      split
      · rename_i hf
        simp [hf]
      · rename_i hf
        obtain ⟨k, hk⟩ : ∃ k, limit - s.entries.length = k + 1 :=
          ⟨limit - s.entries.length - 1, by omega⟩
        have hlen : limit - (s.entries ++ [r]).length = k := by
          rw [List.length_append, List.length_singleton]
          omega
        rw [ih (by rw [List.length_append, List.length_singleton]; omega), hk]
        simp only [hlen, List.take_succ_cons, List.append_assoc, List.singleton_append]
    · rename_i hr
      rw [List.filter_cons_of_neg hr]
      exact ih hl

variable (hit limit) in
/-- The page that starts at a row. -/
def page (batch : ℕ) (rows : List α) (offset : ℕ) : Scan α :=
  scanBatches hit limit batch rows ⟨[], offset, none⟩

/-- **A page and what follows it** make up the hits from its first row on, and the next page
starts behind it. -/
theorem page_splits (hit : α → Bool) {batch : ℕ} (hb : 0 < batch) (hl : 0 < limit)
    (rows : List α) (offset : ℕ) :
    ((page hit limit batch rows offset).next = none →
        (page hit limit batch rows offset).entries = (rows.drop offset).filter hit) ∧
      ∀ o, (page hit limit batch rows offset).next = some o →
        offset < o ∧ o < rows.length ∧
          (page hit limit batch rows offset).entries ++ (rows.drop o).filter hit =
            (rows.drop offset).filter hit := by
  have h : Splits hit limit (rows.drop offset) ⟨[], offset, none⟩
      (scanRows hit limit (rows.drop offset) ⟨[], offset, none⟩) :=
    scanRows_splits rfl (Nat.zero_le _)
  rw [show page hit limit batch rows offset = _ from scanBatches_eq hb rows rfl]
  refine ⟨fun hn => by simpa using h.last hn, fun o ho => ?_⟩
  obtain ⟨hlen, k, rfl, hk, hsplit⟩ := h.more o ho
  rw [List.length_drop] at hk
  have hk0 : k ≠ 0 := by
    rintro rfl
    have := congrArg List.length hsplit
    simp only [List.drop_zero, List.length_append, List.nil_append, hlen] at this
    omega
  simp only [List.drop_drop, List.nil_append] at hsplit ⊢
  exact ⟨by omega, by omega, hsplit⟩

/-- **A page is the first hits** from its first row on. -/
theorem page_entries {batch : ℕ} (hb : 0 < batch) (rows : List α) (offset : ℕ) :
    (page hit limit batch rows offset).entries = ((rows.drop offset).filter hit).take limit := by
  have h : (scanRows hit limit (rows.drop offset) ⟨[], offset, none⟩).entries = _ :=
    scanRows_entries (Nat.zero_le limit)
  rw [show page hit limit batch rows offset = _ from scanBatches_eq hb rows rfl]
  simpa using h

end MouseKeeper.Paging
