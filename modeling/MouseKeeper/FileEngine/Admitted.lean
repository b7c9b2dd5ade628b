import MouseKeeper.FileEngine.History

/-!
Journals in which every operation has a name of its own.

A plan takes a new name; an operation is executed once, as it was planned; what is undone has
been executed. Such a journal shows each operation once, and an undo by name has one row to go
by.
-/

namespace MouseKeeper.FileEngine

open Posix Trace

def journalIds (entries : List JournalEntry) : List String := entries.map (·.operationId)

def executedIds (entries : List JournalEntry) : List String :=
  (entries.filter (·.status = .executed)).map (·.operationId)

/-- The rows are of one operation: the name and both paths agree. -/
def SameOperation (p e : JournalEntry) : Prop :=
  p.operationId = e.operationId ∧ p.fromPath = e.fromPath ∧ p.toPath = e.toPath

def Admits (entries : List JournalEntry) (e : JournalEntry) : Prop :=
  match e.status with
  | .planned => e.operationId ∉ journalIds entries
  | .executed => (∃ p ∈ entries, p.status = .planned ∧ SameOperation p e) ∧
      e.operationId ∉ executedIds entries
  | .undoPlanned | .undone => e.operationId ∈ executedIds entries

inductive Admitted : List JournalEntry → Prop
  | nil : Admitted []
  | snoc {entries : List JournalEntry} {e : JournalEntry} (h : Admitted entries)
    (he : Admits entries e) : Admitted (entries ++ [e])

variable {entries : List JournalEntry} {e p : JournalEntry} {id : String}

lemma mem_executedIds :
    id ∈ executedIds entries ↔ ∃ e ∈ entries, e.status = .executed ∧ e.operationId = id := by
  simp [executedIds, and_assoc]

lemma executedIds_append :
    executedIds (entries ++ [e]) = executedIds entries ++ executedIds [e] := by
  simp [executedIds]

lemma Admitted.executed_nodup (h : Admitted entries) : (executedIds entries).Nodup := by
  induction h with
  | nil => exact .nil
  | @snoc entries e _ he ih =>
    rw [executedIds_append]
    cases hs : e.status with
    | executed =>
      simp only [Admits, hs] at he
      have hone : executedIds [e] = [e.operationId] := by simp [executedIds, hs]
      rw [hone]
      exact ih.append (List.nodup_singleton _) (List.disjoint_singleton.mpr he.2)
    | planned | undoPlanned | undone =>
      have hnone : executedIds [e] = [] := by simp [executedIds, hs]
      rwa [hnone, List.append_nil]

/-- The plan of an executed row. -/
lemma Admitted.plan (h : Admitted entries) (he : e ∈ entries) (hs : e.status = .executed) :
    ∃ p ∈ entries, p.status = .planned ∧ SameOperation p e := by
  induction h with
  | nil => cases he
  | @snoc entries x _ hx ih =>
    rcases List.mem_append.mp he with he | he
    · obtain ⟨p, hp, hrest⟩ := ih he
      exact ⟨p, List.mem_append_left _ hp, hrest⟩
    · rw [List.mem_singleton.mp he] at hs ⊢
      simp only [Admits, hs] at hx
      obtain ⟨p, hp, hrest⟩ := hx.1
      exact ⟨p, List.mem_append_left _ hp, hrest⟩

/-! ### What the history shows -/

/-- What of an operation no later row changes. -/
def OperationHistoryEntry.about (o : OperationHistoryEntry) : String × String × String :=
  (o.operationId, o.fromPath, o.toPath)

def JournalEntry.about (e : JournalEntry) : String × String × String :=
  (e.operationId, e.fromPath, e.toPath)

lemma modifyFirst_about {q : OperationHistoryEntry → Bool}
    {f : OperationHistoryEntry → OperationHistoryEntry} {operations operations' : List OperationHistoryEntry}
    (h : modifyFirst q f operations = some operations') (hf : ∀ o, (f o).about = o.about) :
    operations'.map (·.about) = operations.map (·.about) := by
  induction operations generalizing operations' with
  | nil => cases h
  | cons o l ih =>
    unfold modifyFirst at h
    split at h
    · cases h
      simp [hf]
    · obtain ⟨l', hl, rfl⟩ := Option.map_eq_some_iff.mp h
      simp [ih hl]

lemma modifyFirst_isSome {α : Type} {q : α → Bool} {f : α → α} {l : List α} {a : α} (ha : a ∈ l)
    (hq : q a) : ∃ l', modifyFirst q f l = some l' := by
  induction l with
  | nil => cases ha
  | cons b l ih =>
    unfold modifyFirst
    split
    · exact ⟨_, rfl⟩
    · next hb =>
      rcases List.mem_cons.mp ha with rfl | ha
      · exact absurd hq hb
      · obtain ⟨l', hl⟩ := ih ha
        exact ⟨b :: l', by rw [hl]; rfl⟩

def planned (entries : List JournalEntry) : List JournalEntry :=
  entries.filter (·.status = .planned)

/-- **The history shows each plan once**, in the order in which the plans were made. -/
lemma Admitted.shown (h : Admitted entries) :
    (entries.foldl foldEntry []).map (·.about) = (planned entries).map (·.about) := by
  induction h with
  | nil => rfl
  | @snoc entries e _ he ih =>
    rw [List.foldl_append, planned, List.filter_append, List.map_append]
    simp only [List.foldl_cons, List.foldl_nil]
    cases hs : e.status with
    | planned =>
      simp only [foldEntry, hs, List.map_append, ih]
      simp [planned, hs, OperationHistoryEntry.about, JournalEntry.about]
    | executed =>
      simp only [Admits, hs] at he
      obtain ⟨p, hp, hplanned, hid, -⟩ := he.1
      have hmem : p.about ∈ (entries.foldl foldEntry []).map (·.about) := by
        rw [ih]
        exact List.mem_map_of_mem (List.mem_filter.mpr ⟨hp, by simpa using hplanned⟩)
      obtain ⟨o, ho, habout⟩ := List.mem_map.mp hmem
      have hoid : o.operationId = e.operationId := (congrArg (·.1) habout).trans hid
      obtain ⟨l', hl⟩ := modifyFirst_isSome (q := fun o => o.operationId = e.operationId)
        (f := fun o => { o with
          latestStatus := .executed, createdUnixMs := e.createdUnixMs, canUndo := true,
          undoBlockedReason := none }) ho (by simpa using hoid)
      simp only [foldEntry, hs, hl]
      rw [modifyFirst_about hl fun _ => rfl, ih]
      simp [planned, hs]
    | undoPlanned =>
      have hkept := getD_about e (fun o => { o with
        canUndo := false, latestStatus := .undoPlanned,
        undoBlockedReason := some "undo is already in progress for this operation" })
        (fun _ => rfl) (entries.foldl foldEntry [])
      simp only [foldEntry, hs, hkept, ih]
      simp [planned, hs]
    | undone =>
      have hkept := getD_about e (fun o => { o with
        canUndo := false, latestStatus := .undone, undoBlockedReason := some "already undone" })
        (fun _ => rfl) (entries.foldl foldEntry [])
      simp only [foldEntry, hs, hkept, ih]
      simp [planned, hs]
where
  getD_about (e : JournalEntry) (f : OperationHistoryEntry → OperationHistoryEntry)
      (hf : ∀ o, (f o).about = o.about) (operations : List OperationHistoryEntry) :
      ((modifyFirst (fun o => o.operationId = e.operationId) f operations).getD operations).map
        (·.about) = operations.map (·.about) := by
    cases h : modifyFirst (fun o => decide (o.operationId = e.operationId)) f operations with
    | none => rfl
    | some l => exact modifyFirst_about h hf

lemma Admitted.planned_nodup (h : Admitted entries) : (journalIds (planned entries)).Nodup := by
  induction h with
  | nil => exact .nil
  | @snoc entries e _ he ih =>
    unfold planned journalIds at *
    rw [List.filter_append, List.map_append]
    cases hs : e.status with
    | planned =>
      simp only [Admits, hs] at he
      have hone : ([e].filter (·.status = .planned)).map (·.operationId) = [e.operationId] := by
        simp [hs]
      rw [hone]
      refine ih.append (List.nodup_singleton _) (List.disjoint_singleton.mpr fun hm => he ?_)
      obtain ⟨p, hp, hid⟩ := List.mem_map.mp hm
      exact List.mem_map.mpr ⟨p, (List.mem_filter.mp hp).1, hid⟩
    | executed | undoPlanned | undone =>
      have hnone : ([e].filter (·.status = .planned)).map (·.operationId) = [] := by simp [hs]
      rwa [hnone, List.append_nil]

/-! ### What an undo by name goes by -/

lemma mem_undoable : e ∈ undoable entries (some id) ↔ e ∈ entries ∧ id = e.operationId ∧
    e.status = .executed ∧ e.operationId ∉ undoneIds entries := by
  simp [undoable, and_assoc]

/-- **An undo by name has one row to go by.** -/
lemma Admitted.undoable_one (h : Admitted entries) (he : e ∈ undoable entries (some id)) :
    undoable entries (some id) = [e] := by
  have hsub : ((undoable entries (some id)).map (·.operationId)).Sublist
      (executedIds entries).reverse := by
    unfold executedIds undoable
    rw [← List.map_reverse, ← List.filter_reverse]
    refine List.Sublist.map _ (List.monotone_filter_right _ fun x hx => ?_)
    simp only [Bool.and_eq_true] at hx
    exact hx.1.2
  have hnodup := (List.nodup_reverse.mpr h.executed_nodup).sublist hsub
  have hall : ∀ x ∈ (undoable entries (some id)).map (·.operationId), x = id := by
    intro x hx
    obtain ⟨y, hy, rfl⟩ := List.mem_map.mp hx
    exact (mem_undoable.mp hy).2.1.symm
  rw [List.eq_replicate_of_mem hall, List.nodup_replicate, List.length_map] at hnodup
  obtain ⟨x, hx⟩ := List.length_eq_one_iff.mp (le_antisymm hnodup (List.length_pos_of_mem he))
  rw [hx] at he ⊢
  rw [List.mem_singleton.mp he]

/-! ### The history beside the undo -/

variable {os : Os} {s : Sys} {root : Path}

lemma blockFromFilesystem_about (o : OperationHistoryEntry) :
    (blockFromFilesystem os s root o).about = o.about := by
  unfold blockFromFilesystem
  split
  · split <;> rfl
  · rfl

def shownOperations (os : Os) (s : Sys) (root : Path) (entries : List JournalEntry) :
    List OperationHistoryEntry :=
  ((entries.foldl foldEntry []).map (blockFromFilesystem os s root)).insertionSort historyOrder

lemma Admitted.shown_perm (h : Admitted entries) :
    ((shownOperations os s root entries).map (·.about)).Perm ((planned entries).map (·.about)) := by
  have hperm := (List.perm_insertionSort historyOrder
    ((entries.foldl foldEntry []).map (blockFromFilesystem os s root))).map (·.about)
  have hsame : ((entries.foldl foldEntry []).map (blockFromFilesystem os s root)).map (·.about) =
      (planned entries).map (·.about) := by
    rw [List.map_map, ← h.shown]
    exact List.map_congr_left fun o _ => blockFromFilesystem_about o
  exact hsame ▸ hperm

/-- No two operations of the history bear one name. -/
lemma Admitted.shown_nodup (h : Admitted entries) :
    ((shownOperations os s root entries).map (·.operationId)).Nodup := by
  have hp : ((shownOperations os s root entries).map (·.about)).Perm
      ((planned entries).map (·.about)) := h.shown_perm
  replace hp := hp.map (·.1)
  simp only [List.map_map] at hp
  exact hp.nodup_iff.mpr h.planned_nodup

/-- What has been executed is in the history under its name, with its paths. -/
lemma Admitted.shown_executed (h : Admitted entries) (he : e ∈ entries) (hs : e.status = .executed) :
    ∃ o ∈ shownOperations os s root entries, o.about = e.about := by
  obtain ⟨p, hp, hplanned, hid, hfrom, hto⟩ := h.plan he hs
  have habout : p.about = e.about := by simp [JournalEntry.about, hid, hfrom, hto]
  have hm : e.about ∈ (planned entries).map (·.about) :=
    habout ▸ List.mem_map_of_mem (List.mem_filter.mpr ⟨hp, by simpa using hplanned⟩)
  obtain ⟨o, ho, he⟩ := List.mem_map.mp (h.shown_perm.mem_iff.mpr hm)
  exact ⟨o, ho, he⟩

end MouseKeeper.FileEngine
