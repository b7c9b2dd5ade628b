import MouseKeeper.FileEngine.Undo

/-!
An undo that is refused changes nothing.

Every refusal but one stands before the first change. The directories made on the way to the
original path are none if something is at that path already. The undo of a README write journals
its plan before it looks for the backup.
-/

namespace MouseKeeper.FileEngine

open Posix Trace

/-- An entry that is skipped leaves the tree and the journal as they were. -/
def SkipsClean (os : Os) (g : PathGuard) (store : JournalStore) (entry : JournalEntry) (s : Sys) :
    Prop :=
  ∀ i tally tally' s', Ends (undoEntryStep os g store i entry tally) s tally' s' →
    tally'.skippedCount = tally.skippedCount + 1 → s' = s

/-- The undo of a README write finds the copy of the file, or the mark that there was none. -/
def BackupFound (g : PathGuard) (entry : JournalEntry) (s : Sys) : Prop :=
  entry.action = .readmeWrite → entry.toPath = "README.md" →
    s.tree.existsAt (join g.root entry.fromPath) = true ∨
      s.tree.existsAt ((join g.root entry.fromPath).withExtension "absent") = true

/-- If the call gives a report, this holds of each entry when its turn comes. -/
def AtEachUndo (os : Os) (root : RawPath) (only : Option String) (s : Sys)
    (P : PathGuard → JournalStore → JournalEntry → Sys → Prop) : Prop :=
  ∀ report s', Ends (undoWithFilter os root only) s report s' →
    ∀ g store s₁, PathGuard.new s.tree root = .ok g →
      Ends (JournalStore.openStore os g.root) s store s₁ →
        AtEach (undoEntryStep os g store) (fun _ => P g store) (undoable s₁.journal only) 0 {} s₁

variable {os : Os} {g : PathGuard} {store : JournalStore} {entry : JournalEntry} {s s' : Sys}
  {reason : String}

lemma parent_subset {raw parent : RawPath} (h : raw.parent = some parent) : parent ⊆ raw := by
  have htrim : ∀ r : RawPath, r.trim ⊆ r := fun r x hx => by
    unfold RawPath.trim at hx
    exact List.mem_reverse.mp ((List.dropWhile_sublist _).subset (List.mem_reverse.mp hx))
  unfold RawPath.parent at h
  split at h
  · cases h
  · next x r hr =>
    cases h
    intro y hy
    have hy : y ∈ raw.trim.reverse := hr ▸ List.mem_cons_of_mem x (List.mem_reverse.mp (htrim _ hy))
    exact htrim raw (List.mem_reverse.mp hy)

lemma dotdot_not_mem_join (root : Path) {relative : String} (h : Seg.dotdot ∉ segsOf relative) :
    Seg.dotdot ∉ join root relative := by
  unfold join
  split
  · exact fun hm => h (List.mem_of_mem_tail hm)
  · rw [List.mem_append, not_or]
    exact ⟨by simp [Path.raw], h⟩

/-! ### Refusals -/

lemma not_ends_recordUndone {purpose : Purpose} {r : Option String} :
    ¬ Ends (recordUndone os store purpose entry r) s (.error reason) s' := by
  intro h
  obtain ⟨_, _, -, h⟩ := ends_bind.mp h
  cases (ends_pure.mp h).1

/-- What is planned is carried out or fails. -/
lemma not_ends_planned {m : Engine UndoError Unit} {purpose : Purpose} {r : Option String} :
    ¬ Ends (do store.append os .row (undoEntry entry .undoPlanned); m; recordUndone os store purpose entry r)
      s (.error reason) s' := by
  intro h
  obtain ⟨_, _, -, h⟩ := ends_bind.mp h
  obtain ⟨_, _, -, h⟩ := ends_bind.mp h
  exact not_ends_recordUndone h

lemma refused_undoCreateFile (h : Ends (undoCreateFile os g store entry) s (.error reason) s') :
    s' = s := by
  unfold undoCreateFile at h
  obtain ⟨_, _, hread, h⟩ := ends_bind.mp h
  obtain ⟨rfl, rfl⟩ := ends_read.mp hread
  split at h
  · exact absurd h not_ends_recordUndone
  · obtain ⟨_, _, hread, h⟩ := ends_bind.mp h
    obtain ⟨rfl, rfl⟩ := ends_read.mp hread
    split at h
    · exact (ends_pure.mp h).2
    · obtain ⟨_, _, hread, h⟩ := ends_bind.mp h
      obtain ⟨rfl, rfl⟩ := ends_read.mp hread
      split at h
      · exact (ends_pure.mp h).2
      · exact absurd h not_ends_planned

lemma refused_undoCreateDir (h : Ends (undoCreateDir os g store entry) s (.error reason) s') :
    s' = s := by
  unfold undoCreateDir at h
  obtain ⟨_, _, hread, h⟩ := ends_bind.mp h
  obtain ⟨rfl, rfl⟩ := ends_read.mp hread
  split at h
  · exact absurd h not_ends_recordUndone
  · obtain ⟨_, _, hread, h⟩ := ends_bind.mp h
    obtain ⟨rfl, rfl⟩ := ends_read.mp hread
    split at h
    · exact (ends_pure.mp h).2
    · obtain ⟨_, _, hread, h⟩ := ends_bind.mp h
      obtain ⟨rfl, rfl⟩ := ends_read.mp hread
      split at h
      · exact (ends_pure.mp h).2
      · exact absurd h not_ends_planned

/-- If something is at the original path, no directory was missing on the way. -/
lemma refused_undoMove (h : Ends (undoMove os g store entry) s (.error reason) s') : s' = s := by
  unfold undoMove at h
  obtain ⟨_, _, hread, h⟩ := ends_bind.mp h
  obtain ⟨rfl, rfl⟩ := ends_read.mp hread
  split at h
  · obtain ⟨_, _, hread, h⟩ := ends_bind.mp h
    obtain ⟨rfl, rfl⟩ := ends_read.mp hread
    split at h
    · exact absurd h not_ends_recordUndone
    · exact (ends_pure.mp h).2
  · dsimp only at h
    split at h
    · exact absurd h ends_throw
    · next parent hparent =>
      obtain ⟨_, s₁, hmade, h⟩ := ends_bind.mp h
      rw [ends_mapErr, ends_fs] at hmade
      obtain ⟨d, hd, rfl⟩ := hmade
      obtain ⟨original, _, hcheck, h⟩ := ends_bind.mp h
      obtain ⟨hcreate, rfl⟩ := ends_check.mp hcheck
      obtain ⟨_, _, hread, h⟩ := ends_bind.mp h
      obtain ⟨rfl, rfl⟩ := ends_read.mp hread
      obtain ⟨⟨parent', r, n, hparent', hr, -, -, rfl⟩, -, hdots⟩ :=
        PathGuard.resolveForCreate_ok.mp (mapError_eq_ok.mp hcreate)
      rw [hparent] at hparent'
      cases hparent'
      split at h
      · next hexists =>
        obtain ⟨-, rfl⟩ := ends_pure.mp h
        have hraw : Seg.dotdot ∉ parent := fun hm =>
          dotdot_not_mem_join g.root hdots (parent_subset hparent hm)
        rcases Disk.createDirAll_fresh hd hraw with rfl | ⟨p, hp, hfree⟩
        · rfl
        · rw [hr] at hp
          cases hp
          obtain ⟨q, hq⟩ := Tree.existsAt_iff.mp hexists
          rw [raw_snoc] at hq
          obtain ⟨p, hp, hpd⟩ := Tree.isDir_of_realpath_snoc hq
          rw [Tree.realpath_raw (Tree.realpath_arrives hr)] at hp
          cases hp
          rw [Tree.realpath_free (Tree.realpath_raw_dir hpd) hpd (hfree n)] at hq
          cases hq
      · exact absurd h not_ends_planned

/-- With a backup or the mark at hand the undo of a README write is carried out or fails. -/
lemma refused_undoReadmeWrite (haction : entry.action = .readmeWrite)
    (hfound : BackupFound g entry s)
    (h : Ends (undoReadmeWrite os g store entry) s (.error reason) s') : s' = s := by
  unfold undoReadmeWrite at h
  split at h
  · exact (ends_pure.mp h).2
  · next hto =>
    obtain ⟨_, s₁, happend, h⟩ := ends_bind.mp h
    cases JournalStore.ends_append.mp happend
    obtain ⟨_, _, hread, h⟩ := ends_bind.mp h
    obtain ⟨rfl, rfl⟩ := ends_read.mp hread
    split at h
    · obtain ⟨_, _, -, h⟩ := ends_bind.mp h
      exact absurd h not_ends_recordUndone
    · next hbackup =>
      obtain ⟨_, _, hread, h⟩ := ends_bind.mp h
      obtain ⟨rfl, rfl⟩ := ends_read.mp hread
      split at h
      · obtain ⟨_, _, hread, h⟩ := ends_bind.mp h
        obtain ⟨rfl, rfl⟩ := ends_read.mp hread
        split at h
        · obtain ⟨_, _, -, h⟩ := ends_bind.mp h
          exact absurd h not_ends_recordUndone
        · exact absurd h not_ends_recordUndone
      · next habsent =>
        rcases hfound haction (not_not.mp hto) with hf | hf
        · exact absurd hf hbackup
        · exact absurd hf habsent

/-- Without them it is refused when its plan has been journaled. -/
lemma planned_undoReadmeWrite (hto : entry.toPath = "README.md")
    (hbackup : s.tree.existsAt (join g.root entry.fromPath) = false)
    (habsent : s.tree.existsAt ((join g.root entry.fromPath).withExtension "absent") = false) :
    Ends (undoReadmeWrite os g store entry) s
      (.error "README write backup is missing; refusing undo")
      (JournalStore.appended os (undoEntry entry .undoPlanned) s) := by
  unfold undoReadmeWrite
  rw [if_neg (not_not.mpr hto)]
  refine ends_bind.mpr ⟨(), _, JournalStore.ends_append.mpr rfl, ?_⟩
  refine ends_bind.mpr ⟨_, _, ends_read.mpr ⟨rfl, rfl⟩, ?_⟩
  rw [JournalStore.appended_toDisk, hbackup]
  refine ends_bind.mpr ⟨_, _, ends_read.mpr ⟨rfl, rfl⟩, ?_⟩
  rw [JournalStore.appended_toDisk, habsent]
  exact ends_pure.mpr ⟨rfl, rfl⟩

lemma refused_undoOne (hfound : BackupFound g entry s)
    (h : Ends (undoOne os g store entry) s (.error reason) s') : s' = s := by
  unfold undoOne at h
  split at h
  · exact refused_undoCreateDir h
  · exact refused_undoCreateFile h
  · next haction => exact refused_undoReadmeWrite haction hfound h
  · exact refused_undoMove h
  · exact refused_undoMove h

lemma skipsClean_iff : SkipsClean os g store entry s ↔ BackupFound g entry s := by
  constructor
  · intro h haction hto
    by_contra hmissing
    rw [not_or, Bool.not_eq_true, Bool.not_eq_true] at hmissing
    have hends : Ends (undoEntryStep os g store 0 entry {}) s _ _ :=
      ends_bind.mpr ⟨_, _, by
        unfold undoOne
        rw [haction]
        exact planned_undoReadmeWrite hto hmissing.1 hmissing.2, ends_pure.mpr ⟨rfl, rfl⟩⟩
    have hsame := congrArg (fun s : Sys => s.journal.length) (h 0 {} _ _ hends rfl)
    simp at hsame
  · intro hfound i tally tally' s' h hskipped
    obtain ⟨r, s₁, hone, h⟩ := ends_bind.mp h
    cases r with
    | ok r =>
      obtain ⟨rfl, -⟩ := ends_pure.mp h
      exact absurd hskipped (Nat.succ_ne_self _).symm
    | error reason =>
      obtain ⟨-, rfl⟩ := ends_pure.mp h
      exact refused_undoOne hfound hone

/-- **A refused undo changes nothing**, except that of a README write whose backup is missing. -/
theorem refused_undo_clean (os : Os) (root : RawPath) (only : Option String) (s : Sys) :
    AtEachUndo os root only s (SkipsClean os) ↔
      AtEachUndo os root only s fun g _ entry s => BackupFound g entry s := by
  constructor
  · intro h report s' hends g store s₁ hg hopen
    exact (h report s' hends g store s₁ hg hopen).mono fun _ _ _ _ => skipsClean_iff.mp
  · intro h report s' hends g store s₁ hg hopen
    exact (h report s' hends g store s₁ hg hopen).mono fun _ _ _ _ => skipsClean_iff.mpr

/-! ### Samples -/

/-- Where the README was written. -/
def notesName : Name := ⟨"notes", by decide⟩

/-- The row of a README write whose backup is `backup`. -/
def readmeRow (status : JournalStatus) (backup : String) : JournalEntry :=
  ⟨"op-0-0", status, .readmeWrite, backup, "README.md", 0⟩

/-- A README write was executed in `/notes`, and there is no backup. -/
def backupGone : Sys where
  toDisk := (Sys.fresh [([notesName], .dir 1)]).toDisk
  journal := [readmeRow .planned "gone.bak", readmeRow .executed "gone.bak"]

/-- The undo is refused, and the operation is left as being undone. -/
theorem not_refused_undo_clean :
    ¬ AtEachUndo .still (Path.raw [notesName]) none backupGone (SkipsClean .still) := by
  intro h
  have hopen : ((JournalStore.openStore .still [notesName]).run backupGone).result.isOk = true := by
    decide +kernel
  obtain ⟨store, hstore⟩ := isOk_iff.mp hopen
  generalize hs : (JournalStore.openStore .still [notesName]).final backupGone = s at *
  have hstore : Ends (JournalStore.openStore .still [notesName]) backupGone store s :=
    ⟨hstore, hs.symm⟩
  have hg : PathGuard.new backupGone.tree (Path.raw [notesName]) = .ok ⟨[notesName]⟩ :=
    new_root (by decide +kernel)
  have hrows : undoable s.journal none = [readmeRow .executed "gone.bak"] := by
    subst hs
    decide +kernel
  have hnone : s.tree.existsAt (join [notesName] "gone.bak") = false ∧
      s.tree.existsAt ((join [notesName] "gone.bak").withExtension "absent") = false := by
    subst hs
    decide +kernel
  have hone : Ends (undoReadmeWrite .still ⟨[notesName]⟩ store (readmeRow .executed "gone.bak")) s
      _ _ := planned_undoReadmeWrite rfl hnone.1 hnone.2
  have hloop : ∃ tally s', Ends (Prog.loop (undoEntryStep .still ⟨[notesName]⟩ store)
      (undoable s.journal none) 0 {}) s tally s' := by
    rw [hrows]
    exact ⟨_, _, ends_bind.mpr ⟨_, _, ends_bind.mpr ⟨_, _, hone, ends_pure.mpr ⟨rfl, rfl⟩⟩,
      ends_pure.mpr ⟨rfl, rfl⟩⟩⟩
  have hends : ∃ report s', Ends (undoWithFilter .still (Path.raw [notesName]) none) backupGone
      report s' := by
    obtain ⟨tally, s', hloop⟩ := hloop
    exact ⟨_, _, ends_bind.mpr ⟨_, _, ends_check.mpr ⟨mapError_eq_ok.mpr hg, rfl⟩,
      ends_bind.mpr ⟨_, _, ends_mapErr.mpr hstore, ends_bind.mpr ⟨_, _, ends_read.mpr ⟨rfl, rfl⟩,
        ends_bind.mpr ⟨_, _, hloop, ends_pure.mpr ⟨rfl, rfl⟩⟩⟩⟩⟩⟩
  obtain ⟨report, s', hends⟩ := hends
  have hfirst := h report s' hends _ store s hg hstore
  rw [hrows] at hfirst
  rcases skipsClean_iff.mp hfirst.1 rfl rfl with hf | hf
  · exact absurd hf (Bool.eq_false_iff.mp hnone.1)
  · exact absurd hf (Bool.eq_false_iff.mp hnone.2)

end MouseKeeper.FileEngine
