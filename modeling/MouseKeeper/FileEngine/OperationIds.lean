import MouseKeeper.FileEngine.Admitted
import MouseKeeper.FileEngine.Steps
import MouseKeeper.Keys

/-!
The names that operations take from the clock.

An item takes one name, in the state in which it starts. If the name is new to the journal, its
rows are admitted; if it is also new to the backups and to the trash, what it keeps there is
apart from what earlier operations have kept.
-/

namespace MouseKeeper.FileEngine

open Posix Trace

/-- The operation whose backup or trashed file a step makes. -/
def keptId (e : Effect) : Option String :=
  match e.purpose with
  | .backup id | .absent id | .target .trash id => some id
  | _ => none

/-- A step adds an admitted row, or leaves the journal as it is. -/
def RowStep (s : Sys) (e : Effect) (s' : Sys) : Prop :=
  match e.act with
  | .appended _ entry => s'.journal = s.journal ++ [entry] ∧ Admits s.journal entry
  | _ => s'.journal = s.journal

variable {os : Os} {g : PathGuard} {store : JournalStore} {check : PrecheckResult} {i : ℕ}
variable {s s' : Sys} {purpose : Purpose} {prior : List JournalEntry}

lemma RowStep.admitted {e : Effect} (h : RowStep s e s') (hs : Admitted s.journal) :
    Admitted s'.journal := by
  unfold RowStep at h
  split at h
  · rw [h.1]
    exact hs.snoc h.2
  · rw [h]
    exact hs

lemma RowStep.grows {e : Effect} (h : RowStep s e s') : s.journal <+: s'.journal := by
  unfold RowStep at h
  split at h
  · rw [h.1]
    exact List.prefix_append _ _
  · rw [h]

/-- A step on the disk. -/
def DiskStep (s : Sys) (e : Effect) (s' : Sys) : Prop :=
  (∃ c, e.act = .fs c) ∧ s'.journal = s.journal

lemma DiskStep.row {e : Effect} (h : DiskStep s e s') : RowStep s e s' := by
  obtain ⟨⟨c, hc⟩, hj⟩ := h
  simpa [RowStep, hc] using hj

lemma disk_fs {α : Type} {m : DiskProg α} : Follows DiskStep (fs purpose m) s := by
  refine follows_zoom (Q := fun _ _ _ => True) ?_ (fun _ => rfl) fun _ c _ _ => ⟨⟨c, rfl⟩, rfl⟩
  unfold Follows
  generalize (m.run s.toDisk).steps = l
  generalize s.toDisk = d
  induction l generalizing d with
  | nil => exact .nil
  | cons x l ih => exact .cons trivial (ih _)

lemma rows_fs {α : Type} {m : DiskProg α} : Follows RowStep (fs purpose m) s :=
  disk_fs.mono fun _ _ _ h => h.row

/-- Work on the disk leaves the journal as it is. -/
lemma journal_of_disk {ε α : Type} {m : Engine ε α} {a : α} (hm : Follows DiskStep m s)
    (h : Ends m s a s') : s'.journal = s.journal :=
  hm.ends (I := fun s' => s'.journal = s.journal) h (fun _ _ _ ha hab => hab.2.trans ha) rfl

lemma journal_of_ends {ε α : Type} {m : DiskProg α} {f : Errno → ε} {a : α}
    (h : Ends (Prog.mapErr f (fs purpose m)) s a s') : s'.journal = s.journal :=
  journal_of_disk disk_fs (ends_mapErr.mp h)

lemma rows_append {ε : Type} {entry : ℕ → JournalEntry} (h : Admits s.journal (entry (rowMs os s))) :
    Follows RowStep (store.append os purpose entry : Engine ε Unit) s :=
  follows_step fun _ _ _ he => by
    cases he
    exact ⟨rfl, h⟩

/-- The row of an operation that has just been planned under a new name. -/
lemma admits_executed {entries : List JournalEntry} {p e : JournalEntry}
    (hnew : p.operationId ∉ journalIds entries) (hp : p.status = .planned)
    (he : e.status = .executed) (hsame : SameOperation p e) : Admits (entries ++ [p]) e := by
  simp only [Admits, he]
  refine ⟨⟨p, by simp, hp, hsame⟩, fun hm => ?_⟩
  obtain ⟨x, hx, hstatus, hid⟩ := mem_executedIds.mp hm
  rcases List.mem_append.mp hx with hx | hx
  · exact hnew (hsame.1 ▸ hid ▸ List.mem_map_of_mem hx)
  · rw [List.mem_singleton.mp hx, hp] at hstatus
    cases hstatus

/-! ### The rows of each executor -/

lemma rows_executeCreateDir (hnew : opId (unixMs os s) i ∉ journalIds s.journal) :
    Follows RowStep (executeCreateDir os g store check i) s := by
  unfold executeCreateDir
  refine follows_read_bind (follows_bind (rows_append hnew) fun _ s₁ h₁ => follows_read_bind ?_)
  cases JournalStore.ends_append.mp h₁
  split
  · exact follows_pure _
  · refine follows_read_bind ?_
    split
    · exact follows_pure _
    · refine follows_bind (follows_mapErr rows_fs) fun _ s₂ h₂ =>
        follows_bind (rows_append ?_) fun _ _ _ => follows_pure _
      rw [journal_of_ends h₂]
      exact admits_executed hnew rfl rfl ⟨rfl, rfl, rfl⟩

lemma rows_executeCreateFile (hnew : opId (unixMs os s) i ∉ journalIds s.journal) :
    Follows RowStep (executeCreateFile os g store check i) s := by
  unfold executeCreateFile
  refine follows_read_bind (follows_bind (rows_append hnew) fun _ s₁ h₁ => ?_)
  cases JournalStore.ends_append.mp h₁
  split
  · exact follows_pure _
  · refine follows_read_bind ?_
    split
    · exact follows_pure _
    · refine follows_attempt_bind rows_fs ?_
      split
      · refine follows_bind (rows_append ?_) fun _ _ _ => follows_pure _
        rw [final_fs]
        exact admits_executed hnew rfl rfl ⟨rfl, rfl, rfl⟩
      · refine follows_read_bind ?_
        split
        · exact follows_pure _
        · exact follows_throw _

lemma rows_executeMove (hnew : opId (unixMs os s) i ∉ journalIds s.journal) :
    Follows RowStep (executeMove os g store check i) s := by
  unfold executeMove
  refine follows_read_bind (follows_bind (rows_append hnew) fun _ s₁ h₁ => follows_read_bind ?_)
  cases JournalStore.ends_append.mp h₁
  split
  · exact follows_pure _
  · dsimp only
    split
    · exact follows_throw _
    · refine follows_bind (follows_mapErr rows_fs) fun _ s₂ h₂ => follows_check_bind fun dst _ =>
        follows_read_bind ?_
      split
      · exact follows_pure _
      · refine follows_bind (follows_mapErr rows_fs) fun _ s₃ h₃ =>
          follows_bind (rows_append ?_) fun _ _ _ => follows_pure _
        rw [journal_of_ends h₃, journal_of_ends h₂]
        exact admits_executed hnew rfl rfl ⟨rfl, rfl, rfl⟩

lemma disk_backupReadme {id : String} : Follows DiskStep (backupReadme os g id) s := by
  unfold backupReadme
  dsimp only
  split
  · refine follows_read_bind ?_
    split <;> exact follows_mapErr disk_fs
  · refine follows_bind (follows_mapErr disk_fs) fun _ _ _ => follows_read_bind ?_
    split <;> exact follows_mapErr disk_fs

lemma rows_executeReadmeWrite (hnew : check.fromPath = "README.md" → check.toPath = "README.md" →
      check.content.isSome → opId (unixMs os s) i ∉ journalIds s.journal) :
    Follows RowStep (executeReadmeWrite os g store check i) s := by
  unfold executeReadmeWrite
  refine follows_ite (fun _ => follows_pure _) fun hpaths => ?_
  cases hcontent : check.content with
  | none => exact follows_pure _
  | some content =>
    have hnew := hnew (by tauto) (by tauto) (by rw [hcontent]; rfl)
    refine follows_read_bind ?_
    dsimp only
    refine follows_bind (disk_backupReadme.mono fun _ _ _ h => h.row) fun _ s₁ h₁ => ?_
    have hj := journal_of_disk disk_backupReadme h₁
    refine follows_bind (rows_append (hj ▸ hnew)) fun _ s₂ h₂ => ?_
    cases JournalStore.ends_append.mp h₂
    refine follows_bind (follows_mapErr rows_fs) fun _ s₃ h₃ =>
      follows_bind (rows_append ?_) fun _ _ _ => follows_pure _
    rw [journal_of_ends h₃]
    exact admits_executed (hj ▸ hnew) rfl rfl ⟨rfl, rfl, rfl⟩

/-- Opening the store writes no row. -/
lemma rows_openStore {root : Path} : Follows RowStep (JournalStore.openStore os root) s := by
  unfold JournalStore.openStore
  refine follows_bind (follows_mapErr rows_fs) fun _ _ _ => follows_check_bind fun _ _ =>
    follows_bind (follows_step fun _ _ _ h => ?_) fun _ _ _ => follows_pure _
  cases h
  rfl

lemma journal_of_openStore {root : Path} (h : Ends (JournalStore.openStore os root) s store s') :
    s'.journal = s.journal := by
  obtain ⟨d, p, -, -, -, rfl⟩ := JournalStore.ends_openStore.mp h
  rfl

/-- The name that a trash item is about to take. -/
def nextTrashId (os : Os) (g : PathGuard) (s : Sys) : String :=
  trashId (unixNanos os ((JournalStore.openStore os g.root).final s))

lemma rows_trashFile {path : String} (hdir : s.tree.isDir g.root = true)
    (hnew : nextTrashId os g s ∉ journalIds s.journal) :
    Follows RowStep (trashFile os g.root.raw path) s := by
  unfold trashFile
  refine follows_check_bind fun g' hg => ?_
  rw [mapError_eq_ok, new_root hdir] at hg
  cases hg
  refine follows_check_bind fun ⟨source, size, modified⟩ hsource => ?_
  refine follows_bind (follows_mapErr rows_openStore) fun store s₁ h₁ =>
    follows_read_bind (follows_read_bind ?_)
  have h₁ := ends_mapErr.mp h₁
  have hj := journal_of_openStore h₁
  have hs₁ : s₁ = (JournalStore.openStore os g.root).final s := h₁.2
  have hnew₁ : trashId (unixNanos os s₁) ∉ journalIds s₁.journal := by
    rw [hj, hs₁]
    exact hnew
  refine follows_bind (rows_append hnew₁) fun _ s₂ h₂ => ?_
  cases JournalStore.ends_append.mp h₂
  refine follows_bind (follows_mapErr rows_fs) fun _ s₃ h₃ => follows_check_bind fun _ _ =>
    follows_check_bind fun _ _ => ?_
  refine follows_bind (follows_mapErr rows_fs) fun _ s₄ h₄ => ?_
  refine follows_bind (follows_mapErr rows_fs) fun _ s₅ h₅ =>
    follows_bind (rows_append ?_) fun _ _ _ => follows_pure _
  rw [journal_of_ends h₅, journal_of_ends h₄, journal_of_ends h₃]
  exact admits_executed hnew₁ rfl rfl ⟨rfl, rfl, rfl⟩

/-! ### What the item takes -/

/-- The names that an item is about to take are new: to the journal, and for what keeps a file
also to the files kept by earlier calls. A planned move that is taken up has not been executed. -/
def ItemNew (os : Os) (g : PathGuard) (prior : List JournalEntry) (used : List String) (i : ℕ)
    (check : PrecheckResult) (s : Sys) : Prop :=
  if check.status = .ready then
    match check.action with
    | .move | .createDir | .createFile => opId (unixMs os s) i ∉ journalIds s.journal
    | .readmeWrite => check.fromPath = "README.md" → check.toPath = "README.md" →
        check.content.isSome → opId (unixMs os s) i ∉ journalIds s.journal ∧
          opId (unixMs os s) i ∉ used
    | .trash => nextTrashId os g s ∉ journalIds s.journal ∧ nextTrashId os g s ∉ used
  else check.status = .missingSource → (g.resolveExisting s.tree check.toPath).isOk →
    ∀ id, pendingPlannedOperation prior check.fromPath check.toPath = some id →
      id ∉ executedIds s.journal

lemma pendingPlannedOperation_some {src dst id : String}
    (h : pendingPlannedOperation prior src dst = some id) :
    ∃ p ∈ prior, p.status = .planned ∧ p.operationId = id ∧ p.fromPath = src ∧ p.toPath = dst := by
  obtain ⟨p, hp, rfl⟩ := Option.map_eq_some_iff.mp h
  have hm := List.find?_some hp
  simp only [Bool.and_eq_true, decide_eq_true_eq] at hm
  exact ⟨p, List.mem_reverse.mp (List.mem_of_find?_eq_some hp), hm.1.1.1.1, rfl, hm.1.1.2, hm.1.2⟩

lemma rows_recoverPlannedMove (hprior : prior <+: s.journal) {used : List String}
    (hstatus : check.status ≠ .ready) (hnew : ItemNew os g prior used i check s) :
    Follows RowStep (recoverPlannedMove os g prior store check) s := by
  unfold recoverPlannedMove
  refine follows_ite (fun _ => follows_pure _) fun hmissing => ?_
  split
  · exact follows_pure _
  · next id hid =>
    refine follows_read_bind ?_
    split
    · next hok =>
      refine follows_bind (rows_append ?_) fun _ _ _ => follows_pure _
      rw [ItemNew, if_neg hstatus] at hnew
      obtain ⟨p, hp, hplanned, hpid, hfrom, hto⟩ := pendingPlannedOperation_some hid
      exact ⟨⟨p, hprior.subset hp, hplanned, hpid, hfrom, hto⟩,
        hnew (not_not.mp hmissing) hok id hid⟩
    · exact follows_pure _

lemma rows_executeReady {used : List String} (hdir : s.tree.isDir g.root = true)
    (hstatus : check.status = .ready) (hnew : ItemNew os g prior used i check s) :
    Follows RowStep (executeReady os g store check i) s := by
  rw [ItemNew, if_pos hstatus] at hnew
  unfold executeReady
  split at hnew <;> simp only [*]
  · exact rows_executeMove hnew
  · exact rows_executeCreateDir hnew
  · exact rows_executeCreateFile hnew
  · exact rows_executeReadmeWrite fun h h' h'' => (hnew h h' h'').1
  · exact follows_bind (follows_mapErr (rows_trashFile hdir hnew.1)) fun _ _ _ => follows_pure _

/-- **The rows of an item** are admitted if its name is new. -/
lemma rows_executeCheck {used : List String} {tally : Tally} (hdir : s.tree.isDir g.root = true)
    (hprior : prior <+: s.journal) (hnew : ItemNew os g prior used i check s) :
    Follows RowStep (executeCheck os g prior store i check tally) s := by
  unfold executeCheck
  refine follows_ite (fun hstatus => ?_) fun hstatus => ?_
  · refine follows_bind (rows_recoverPlannedMove hprior hstatus hnew) fun r _ _ => ?_
    cases r <;> exact follows_pure _
  · refine follows_bind (rows_executeReady hdir (not_not.mp hstatus) hnew) fun r _ _ => ?_
    cases r <;> exact follows_pure _

/-! ### What the item keeps -/

/-- A name that the journal or an earlier call knows. -/
def known (used : List String) (s : Sys) (id : String) : Prop :=
  id ∈ journalIds s.journal ∨ id ∈ used

lemma journal_grows {ε α : Type} {m : Engine ε α} {a : α} (hm : Follows RowStep m s)
    (h : Ends m s a s') : s.journal <+: s'.journal :=
  hm.ends (I := fun s' => s.journal <+: s'.journal) h (fun _ _ _ ha hab => ha.trans hab.grows)
    List.prefix_rfl

variable {used : List String}

lemma known_mono (h : s.journal <+: s'.journal) {id : String} (hk : known used s id) :
    known used s' id := by
  refine hk.imp_left fun hm => ?_
  obtain ⟨e, he, rfl⟩ := List.mem_map.mp hm
  exact List.mem_map_of_mem (h.subset he)

lemma unkept_fs {α : Type} {m : DiskProg α} (hp : ∀ c, keptId ⟨purpose, c⟩ = none) :
    Emits (fun e => keptId e = none) (fs purpose m) s :=
  emits_fs.mpr fun _ _ => hp _

lemma unkept_append {ε : Type} {entry : ℕ → JournalEntry} (hp : ∀ c, keptId ⟨purpose, c⟩ = none) :
    Emits (fun e => keptId e = none) (store.append os purpose entry : Engine ε Unit) s :=
  JournalStore.emits_append.mpr (hp _)

lemma unkept_openStore {root : Path} :
    Emits (fun e => keptId e = none) (JournalStore.openStore os root) s :=
  JournalStore.emits_openStore.mpr ⟨fun _ _ => rfl, fun _ _ _ _ => rfl⟩

/-- One call of the system keeps at most one file. -/
lemma once_call {id : String} {f : Disk → Except Errno (Change × Tree)}
    (hp : ∀ c, keptId ⟨purpose, c⟩ = some id) : Once keptId id (fs purpose (Disk.call f)) s := by
  unfold Once keys fs Prog.zoom
  cases hf : f s.toDisk with
  | error e => simp [Disk.run_call_error hf]
  | ok x => simp [Disk.run_call_ok (c := x.1) (t := x.2) hf, hp]

lemma once_backupReadme {id : String} : Once keptId id (backupReadme os g id) s := by
  unfold backupReadme
  dsimp only
  split
  · refine Once.right (emits_read _) fun b s' _ => ?_
    split <;> exact (once_call fun _ => rfl).mapErr
  · refine Once.right (emits_mapErr.mpr (unkept_fs fun _ => rfl)) fun _ s₁ _ =>
      Once.right (emits_read _) fun b s' _ => ?_
    split <;> exact (once_call fun _ => rfl).mapErr

/-- What keeps nothing only adds to what is known. -/
lemma fresh_of_unkept {ε α : Type} {m : Engine ε α} (h : Emits (fun e => keptId e = none) m s)
    (hrows : Follows RowStep m s) : Fresh keptId (known used) m s :=
  .of_none h fun _ _ he _ hk => known_mono (journal_grows hrows he) hk

lemma fresh_executeReadmeWrite (hnew : check.fromPath = "README.md" → check.toPath = "README.md" →
      check.content.isSome → opId (unixMs os s) i ∉ journalIds s.journal ∧
        opId (unixMs os s) i ∉ used) :
    Fresh keptId (known used) (executeReadmeWrite os g store check i) s := by
  have hrows : Follows RowStep (executeReadmeWrite os g store check i) s :=
    rows_executeReadmeWrite fun h h' h'' => (hnew h h' h'').1
  by_cases hpaths : check.fromPath ≠ "README.md" ∨ check.toPath ≠ "README.md"
  · refine fresh_of_unkept ?_ hrows
    unfold executeReadmeWrite
    rw [if_pos hpaths]
    exact emits_pure _
  · cases hcontent : check.content with
    | none =>
      refine fresh_of_unkept ?_ hrows
      unfold executeReadmeWrite
      rw [if_neg hpaths, hcontent]
      exact emits_pure _
    | some content =>
      obtain ⟨hj, hu⟩ := hnew (by tauto) (by tauto) (by rw [hcontent]; rfl)
      refine .once ?_ (fun h => h.elim hj hu) (k := opId (unixMs os s) i) fun r s' he =>
        ⟨fun _ hk => known_mono (journal_grows hrows he) hk, .inl ?_⟩
      · unfold executeReadmeWrite
        rw [if_neg hpaths, hcontent]
        refine Once.right (emits_read _) fun id s₀ hid => ?_
        obtain ⟨rfl, rfl⟩ := ends_read.mp hid
        refine once_backupReadme.left fun _ s₁ _ => emits_bind.mpr ⟨unkept_append fun _ => rfl,
          fun _ s₂ _ => emits_bind.mpr ⟨emits_mapErr.mpr (unkept_fs fun _ => rfl), fun _ s₃ _ =>
            emits_bind.mpr ⟨unkept_append fun _ => rfl, fun _ _ _ => emits_pure _⟩⟩⟩
      · unfold executeReadmeWrite at he
        rw [if_neg hpaths, hcontent] at he
        obtain ⟨id, s₀, hid, he⟩ := ends_bind.mp he
        obtain ⟨rfl, rfl⟩ := ends_read.mp hid
        obtain ⟨_, s₁, -, he⟩ := ends_bind.mp he
        obtain ⟨_, s₂, h₂, he⟩ := ends_bind.mp he
        cases JournalStore.ends_append.mp h₂
        obtain ⟨_, s₃, h₃, he⟩ := ends_bind.mp he
        obtain ⟨_, s₄, h₄, he⟩ := ends_bind.mp he
        cases JournalStore.ends_append.mp h₄
        obtain ⟨-, rfl⟩ := ends_pure.mp he
        simp [JournalStore.appended_journal, journal_of_ends h₃, journalIds, readmeJournalEntry]

lemma fresh_trashFile {path : String} (hdir : s.tree.isDir g.root = true)
    (hnew : nextTrashId os g s ∉ journalIds s.journal ∧ nextTrashId os g s ∉ used) :
    Fresh keptId (known used) (trashFile os g.root.raw path) s := by
  have hrows : Follows RowStep (trashFile os g.root.raw path) s := rows_trashFile hdir hnew.1
  refine .once ?_ (fun h => h.elim hnew.1 hnew.2) (k := nextTrashId os g s) fun r s' he =>
    ⟨fun _ hk => known_mono (journal_grows hrows he) hk, .inl ?_⟩
  · unfold trashFile
    refine Once.right (emits_check _) fun g' s₀ hg => ?_
    obtain ⟨hg, rfl⟩ := ends_check.mp hg
    rw [mapError_eq_ok, new_root hdir] at hg
    cases hg
    refine Once.right (emits_check _) fun ⟨source, size, modified⟩ s₀ hsource => ?_
    obtain ⟨-, rfl⟩ := ends_check.mp hsource
    refine Once.right (emits_mapErr.mpr unkept_openStore) fun store s₁ h₁ => ?_
    obtain ⟨-, hs₁⟩ := ends_mapErr.mp h₁
    refine Once.right (emits_read _) fun ms s₂ h₂ => ?_
    obtain ⟨-, rfl⟩ := ends_read.mp h₂
    refine Once.right (emits_read _) fun id s₃ h₃ => ?_
    obtain ⟨hid, rfl⟩ := ends_read.mp h₃
    have hid : id = nextTrashId os g s₀ := by rw [hid, hs₁]; rfl
    subst hid
    refine Once.right (unkept_append fun _ => rfl) fun _ _ _ => ?_
    refine Once.right (emits_mapErr.mpr (unkept_fs fun _ => rfl)) fun _ _ _ => ?_
    refine Once.right (emits_check _) fun _ _ _ => Once.right (emits_check _) fun _ _ _ => ?_
    refine Once.right (emits_mapErr.mpr (unkept_fs fun _ => rfl)) fun _ _ _ => ?_
    refine Once.left (Once.mapErr (once_call fun _ => rfl)) fun _ _ _ => emits_bind.mpr
      ⟨unkept_append fun _ => rfl, fun _ _ _ => emits_pure _⟩
  · unfold trashFile at he
    obtain ⟨g', s₀, hg, he⟩ := ends_bind.mp he
    obtain ⟨hg, rfl⟩ := ends_check.mp hg
    rw [mapError_eq_ok, new_root hdir] at hg
    cases hg
    obtain ⟨⟨source, size, modified⟩, s₀, hsource, hrest⟩ := ends_bind.mp he
    obtain ⟨-, rfl⟩ := ends_check.mp hsource
    obtain ⟨store, s₁, h₁, hopened⟩ := ends_bind.mp hrest
    obtain ⟨-, hs₁⟩ := ends_mapErr.mp h₁
    obtain ⟨ms, s₂, h₂, hread⟩ := ends_bind.mp hopened
    obtain ⟨-, rfl⟩ := ends_read.mp h₂
    obtain ⟨id, s₃, h₃, hnamed⟩ := ends_bind.mp hread
    obtain ⟨hid, rfl⟩ := ends_read.mp h₃
    have hid : id = nextTrashId os g s₀ := by rw [hid, hs₁]; rfl
    subst hid
    obtain ⟨_, _, -, h⟩ := ends_bind.mp hnamed
    obtain ⟨_, _, -, h⟩ := ends_bind.mp h
    obtain ⟨_, _, -, h⟩ := ends_bind.mp h
    obtain ⟨_, _, -, h⟩ := ends_bind.mp h
    obtain ⟨_, _, -, h⟩ := ends_bind.mp h
    obtain ⟨_, _, -, h⟩ := ends_bind.mp h
    obtain ⟨_, _, hlast, h⟩ := ends_bind.mp h
    cases JournalStore.ends_append.mp hlast
    obtain ⟨-, rfl⟩ := ends_pure.mp h
    simp [JournalStore.appended_journal, journalIds, trashEntry]

lemma ItemStep.unkept {e : Effect} (h : ItemStep g check s e s') (ht : check.action ≠ .trash)
    (hr : check.action ≠ .readmeWrite) : keptId e = none := by
  cases h with
  | stateDir h | parent id h =>
    obtain ⟨c, d, -, rfl, -⟩ := h
    rfl
  | trashed n haction => exact absurd haction ht
  | backup ms i haction => exact absurd haction hr
  | absent ms i haction => exact absurd haction hr
  | _ => rfl

lemma unkept_recoverPlannedMove :
    Emits (fun e => keptId e = none) (recoverPlannedMove os g prior store check) s := by
  unfold recoverPlannedMove
  split
  · exact emits_pure _
  · split
    · exact emits_pure _
    · refine emits_read_bind.mpr ?_
      split
      · exact emits_bind.mpr ⟨unkept_append fun _ => rfl, fun _ _ _ => emits_pure _⟩
      · exact emits_pure _

lemma fresh_executeReady (hdir : s.tree.isDir g.root = true) (hstatus : check.status = .ready)
    (hnew : ItemNew os g prior used i check s) :
    Fresh keptId (known used) (executeReady os g store check i) s := by
  have hrows : Follows RowStep (executeReady os g store check i) s :=
    rows_executeReady hdir hstatus hnew
  rw [ItemNew, if_pos hstatus] at hnew
  by_cases ht : check.action = .trash
  · simp only [ht] at hnew
    unfold executeReady executeTrash
    simp only [ht]
    exact Fresh.bind (fresh_trashFile hdir hnew).mapErr fun r s' _ =>
      fresh_of_unkept (emits_pure _) (follows_pure _)
  by_cases hr : check.action = .readmeWrite
  · simp only [hr] at hnew
    unfold executeReady
    simp only [hr]
    exact fresh_executeReadmeWrite hnew
  · have hsteps : Follows (ItemStep g check) (executeReady os g store check i) s :=
      follows_executeReady hdir
    exact fresh_of_unkept (hsteps.emits
      (I := fun s => s.tree.isDir g.root = true) (fun _ _ _ ha h => (h.rootKept ha).1)
      (fun _ _ _ _ h => h.unkept ht hr) hdir) hrows

/-- **An item is fresh** if its name is new. -/
lemma fresh_executeCheck {tally : Tally} (hdir : s.tree.isDir g.root = true)
    (hprior : prior <+: s.journal) (hnew : ItemNew os g prior used i check s) :
    Fresh keptId (known used) (executeCheck os g prior store i check tally) s := by
  unfold executeCheck
  split
  · next hstatus =>
    refine Fresh.bind (fresh_of_unkept unkept_recoverPlannedMove
      (rows_recoverPlannedMove hprior hstatus hnew)) fun r s' _ => ?_
    cases r <;> exact fresh_of_unkept (emits_pure _) (follows_pure _)
  · next hstatus =>
    refine Fresh.bind (fresh_executeReady hdir (not_not.mp hstatus) hnew) fun r s' _ => ?_
    cases r <;> exact fresh_of_unkept (emits_pure _) (follows_pure _)

/-! ### The batch -/

/-- The names that a call of `execute_proposals` takes are new, item by item. -/
def BatchNew (os : Os) (used : List String) (root : RawPath) (report : ProposalReport) (s : Sys) :
    Prop :=
  ∀ g precheck store s₁, PathGuard.new s.tree root = .ok g →
    precheckProposals os g s report = .ok precheck →
    Ends (JournalStore.openStore os g.root) s store s₁ →
    AtEach (executeCheck os g s₁.journal store) (ItemNew os g s₁.journal used) precheck.checks 0 {} s₁

variable {root : RawPath} {report : ProposalReport}

/-- What every item of a batch meets: the root is there, and so are the rows that were read. -/
def Batch (g : PathGuard) (prior : List JournalEntry) (s : Sys) : Prop :=
  s.tree.isDir g.root = true ∧ prior <+: s.journal

lemma rows_loop {checks : List PrecheckResult} {tally : Tally} (hs : Batch g prior s)
    (hnew : AtEach (executeCheck os g prior store) (ItemNew os g prior used) checks i tally s) :
    Follows RowStep (Prog.loop (executeCheck os g prior store) checks i tally) s := by
  have hboth : Follows (fun s e s' => RowStep s e s' ∧ BatchStep g s e s')
      (Prog.loop (executeCheck os g prior store) checks i tally) s :=
    follows_loop (I := Batch g prior) hs hnew (fun i check tally s _ hs hnew =>
      Chain.and (rows_executeCheck hs.1 hs.2 hnew)
        ((follows_executeCheck hs.1).mono fun _ _ _ h => ⟨check, h⟩))
      fun _ _ _ ha h => ⟨h.2.isDir ha.1, ha.2.trans h.1.grows⟩
  exact hboth.mono fun _ _ _ h => h.1

lemma fresh_loop {checks : List PrecheckResult} {tally : Tally} (hs : Batch g prior s)
    (hnew : AtEach (executeCheck os g prior store) (ItemNew os g prior used) checks i tally s) :
    Fresh keptId (known used) (Prog.loop (executeCheck os g prior store) checks i tally) s :=
  Fresh.loop hs hnew (fun _ _ _ _ hs hnew => fresh_executeCheck hs.1 hs.2 hnew)
    fun _ check _ _ _ _ hs hnew he =>
      ⟨(rootKept_of_ends check (fun hdir => follows_executeCheck hdir) he hs.1).1,
        hs.2.trans (journal_grows (rows_executeCheck hs.1 hs.2 hnew) he)⟩

/-- The store is open, and the items can be taken. -/
lemma batch_of_open {s₁ : Sys} (hg : PathGuard.new s.tree root = .ok g)
    (h₁ : Ends (JournalStore.openStore os g.root) s store s₁) : Batch g s₁.journal s₁ :=
  ⟨(JournalStore.grown_openStore h₁).isDir (new_ok hg).2, List.prefix_rfl⟩

/-- **The rows of a call** are admitted if its names are new. -/
lemma rows_executeProposals (hnew : BatchNew os used root report s) :
    Follows RowStep (executeProposals os root report) s := by
  unfold executeProposals
  refine follows_check_bind fun g hg => follows_check_bind fun precheck hp => ?_
  have hg := mapError_eq_ok.mp hg
  refine follows_bind (follows_mapErr rows_openStore) fun store s₁ h₁ =>
    follows_read_bind (follows_bind ?_ fun _ _ _ => follows_pure _)
  have hopen := ends_mapErr.mp h₁
  exact rows_loop (batch_of_open hg hopen) (hnew g precheck store s₁ hg (mapError_eq_ok.mp hp) hopen)

/-- **A call is fresh** if its names are new. -/
lemma fresh_executeProposals (hnew : BatchNew os used root report s) :
    Fresh keptId (known used) (executeProposals os root report) s := by
  unfold executeProposals
  refine Fresh.bind (fresh_of_unkept (emits_check _) (follows_check _)) fun g s₀ hg => ?_
  obtain ⟨hg, rfl⟩ := ends_check.mp hg
  refine Fresh.bind (fresh_of_unkept (emits_check _) (follows_check _)) fun precheck s₁ hp => ?_
  obtain ⟨hp, rfl⟩ := ends_check.mp hp
  have hg := mapError_eq_ok.mp hg
  refine Fresh.bind (fresh_of_unkept (emits_mapErr.mpr unkept_openStore)
    (follows_mapErr rows_openStore)) fun store s₂ h₂ => ?_
  have hopen := ends_mapErr.mp h₂
  refine Fresh.bind (fresh_of_unkept (emits_read _) (follows_read _)) fun entries s₃ hr => ?_
  obtain ⟨rfl, rfl⟩ := ends_read.mp hr
  refine Fresh.bind (fresh_loop (batch_of_open hg hopen)
    (hnew g precheck store s₃ hg (mapError_eq_ok.mp hp) hopen)) fun tally s₄ _ =>
    fresh_of_unkept (emits_pure _) (follows_pure _)

/-! ### Undoing -/

lemma admits_undo {entries : List JournalEntry} {entry : JournalEntry} {status : JournalStatus}
    {ms : ℕ} (h : entry.operationId ∈ executedIds entries)
    (hs : status = .undoPlanned ∨ status = .undone) : Admits entries (undoEntry entry status ms) := by
  rcases hs with rfl | rfl <;> exact h

/-- What an undo of the operation may do. -/
def UndoStep (entry : JournalEntry) (e : Effect) : Prop :=
  match e.purpose with
  | .store => True
  | .parent id => id = entry.operationId
  | .undo action id => action = entry.action ∧ id = entry.operationId
  | .row | .recovered => ∃ place status ms, e.act = .appended place (undoEntry entry status ms)
  | _ => False

lemma UndoStep.unkept {entry : JournalEntry} {e : Effect} (h : UndoStep entry e) :
    keptId e = none := by
  unfold UndoStep at h
  unfold keptId
  split at h <;> simp_all

/-- The same with its row. -/
def UndoRow (entry : JournalEntry) (s : Sys) (e : Effect) (s' : Sys) : Prop :=
  RowStep s e s' ∧ UndoStep entry e

variable {entry : JournalEntry}

lemma undo_fs {α : Type} {m : DiskProg α} (hp : ∀ c, UndoStep entry ⟨purpose, c⟩) :
    Follows (UndoRow entry) (fs purpose m) s := by
  have hemits : Follows (fun _ e _ => UndoStep entry e) (fs purpose m) s :=
    chain_labels.mpr (emits_fs.mpr fun _ _ => hp _)
  exact Chain.and rows_fs hemits

lemma undo_append {ε : Type} {status : JournalStatus} (h : entry.operationId ∈ executedIds s.journal)
    (hs : status = .undoPlanned ∨ status = .undone) (hp : purpose = .row ∨ purpose = .recovered) :
    Follows (UndoRow entry) (store.append os purpose (undoEntry entry status) : Engine ε Unit) s := by
  refine follows_step fun _ _ _ he => ?_
  cases he
  refine ⟨⟨rfl, admits_undo h hs⟩, ?_⟩
  rcases hp with rfl | rfl <;> exact ⟨_, _, _, rfl⟩

lemma undo_recordUndone {reason : Option String} (h : entry.operationId ∈ executedIds s.journal)
    (hp : purpose = .row ∨ purpose = .recovered) :
    Follows (UndoRow entry) (recordUndone os store purpose entry reason) s :=
  follows_bind (undo_append h (.inr rfl) hp) fun _ _ _ => follows_pure _

lemma executedIds_mono {entries entries' : List JournalEntry} (h : entries <+: entries')
    {id : String} (hm : id ∈ executedIds entries) : id ∈ executedIds entries' := by
  obtain ⟨e, he, hrest⟩ := mem_executedIds.mp hm
  exact mem_executedIds.mpr ⟨e, h.subset he, hrest⟩

/-- The operation is journaled as being undone, then it is undone, then that is journaled. -/
lemma undo_plan {m : Engine UndoError Unit} {f : Engine UndoError UndoItem}
    (h : entry.operationId ∈ executedIds s.journal) (hm : ∀ s, Follows (UndoRow entry) m s)
    (hf : ∀ s, entry.operationId ∈ executedIds s.journal → Follows (UndoRow entry) f s) :
    Follows (UndoRow entry) (do
      store.append os .row (undoEntry entry .undoPlanned)
      m
      f) s := by
  refine follows_bind (undo_append h (.inl rfl) (.inl rfl)) fun _ s₁ h₁ => ?_
  cases JournalStore.ends_append.mp h₁
  have h₁ := executedIds_mono (List.prefix_append s.journal [undoEntry entry .undoPlanned (rowMs os s)]) h
  refine follows_bind (hm _) fun _ s₂ h₂ => hf s₂ ?_
  exact executedIds_mono (journal_grows ((hm _).mono fun _ _ _ h => h.1) h₂) h₁

lemma undo_undoCreateFile (h : entry.operationId ∈ executedIds s.journal)
    (haction : entry.action = .createFile) :
    Follows (UndoRow entry) (undoCreateFile os g store entry) s := by
  unfold undoCreateFile
  refine follows_read_bind ?_
  split
  · exact undo_recordUndone h (.inr rfl)
  · refine follows_read_bind ?_
    split
    · exact follows_pure _
    · refine follows_read_bind ?_
      split
      · exact follows_pure _
      · exact undo_plan h (fun s => follows_mapErr (undo_fs fun _ => ⟨haction.symm, rfl⟩))
          fun s h => undo_recordUndone h (.inl rfl)

lemma undo_undoCreateDir (h : entry.operationId ∈ executedIds s.journal)
    (haction : entry.action = .createDir) :
    Follows (UndoRow entry) (undoCreateDir os g store entry) s := by
  unfold undoCreateDir
  refine follows_read_bind ?_
  split
  · exact undo_recordUndone h (.inr rfl)
  · refine follows_read_bind ?_
    split
    · exact follows_pure _
    · refine follows_read_bind ?_
      split
      · exact follows_pure _
      · exact undo_plan h (fun s => follows_mapErr (undo_fs fun _ => ⟨haction.symm, rfl⟩))
          fun s h => undo_recordUndone h (.inl rfl)

lemma undo_undoReadmeWrite (h : entry.operationId ∈ executedIds s.journal)
    (haction : entry.action = .readmeWrite) :
    Follows (UndoRow entry) (undoReadmeWrite os g store entry) s := by
  unfold undoReadmeWrite
  refine follows_ite (fun _ => follows_pure _) fun _ => ?_
  dsimp only
  refine follows_bind (undo_append h (.inl rfl) (.inl rfl)) fun _ s₁ h₁ => follows_read_bind ?_
  cases JournalStore.ends_append.mp h₁
  have h₁ := executedIds_mono (List.prefix_append s.journal [undoEntry entry .undoPlanned (rowMs os s)]) h
  have hfs : ∀ {s : Sys} {m : DiskProg Unit},
      Follows (UndoRow entry) (fs (.undo .readmeWrite entry.operationId) m) s :=
    undo_fs fun _ => ⟨haction.symm, rfl⟩
  have hlast : ∀ {s : Sys} {m : Engine UndoError Unit}, entry.operationId ∈ executedIds s.journal →
      Follows (UndoRow entry) m s →
      Follows (UndoRow entry) (m >>= fun _ => recordUndone os store .row entry none) s :=
    fun h hm => follows_bind hm fun _ s' he => undo_recordUndone
      (executedIds_mono (journal_grows (hm.mono fun _ _ _ h => h.1) he) h) (.inl rfl)
  split
  · exact hlast h₁ (follows_mapErr hfs)
  · refine follows_read_bind ?_
    split
    · refine follows_read_bind ?_
      split
      · exact hlast h₁ (follows_mapErr hfs)
      · exact undo_recordUndone h₁ (.inl rfl)
    · exact follows_pure _

lemma undo_undoMove (h : entry.operationId ∈ executedIds s.journal) :
    Follows (UndoRow entry) (undoMove os g store entry) s := by
  unfold undoMove
  refine follows_read_bind ?_
  split
  · refine follows_read_bind ?_
    split
    · exact undo_recordUndone h (.inr rfl)
    · exact follows_pure _
  · dsimp only
    split
    · exact follows_throw _
    · refine follows_bind (follows_mapErr (undo_fs fun _ => rfl)) fun _ s₁ h₁ =>
        follows_check_bind fun original _ => follows_read_bind ?_
      have h₁ : entry.operationId ∈ executedIds s₁.journal := by
        rw [journal_of_ends h₁]
        exact h
      split
      · exact follows_pure _
      · exact undo_plan h₁ (fun s => follows_mapErr (undo_fs fun _ => ⟨rfl, rfl⟩))
          fun s h => undo_recordUndone h (.inl rfl)

/-- **The steps of an undo** are steps of that operation's undo. -/
lemma undo_undoOne (h : entry.operationId ∈ executedIds s.journal) :
    Follows (UndoRow entry) (undoOne os g store entry) s := by
  unfold undoOne
  split
  · next ha => exact undo_undoCreateDir h ha
  · next ha => exact undo_undoCreateFile h ha
  · next ha => exact undo_undoReadmeWrite h ha
  · exact undo_undoMove h
  · exact undo_undoMove h

/-- A step of the undo of one of the rows. -/
def UndoAny (entries : List JournalEntry) (s : Sys) (e : Effect) (s' : Sys) : Prop :=
  RowStep s e s' ∧ (e.purpose = .store ∨ ∃ entry ∈ entries, UndoStep entry e)

lemma mem_undoable_executed {entries : List JournalEntry} {only : Option String}
    (h : entry ∈ undoable entries only) : entry.operationId ∈ executedIds entries := by
  simp only [undoable, List.mem_filter, Bool.and_eq_true, decide_eq_true_eq] at h
  exact mem_executedIds.mpr ⟨entry, List.mem_reverse.mp h.1, h.2.1.2, rfl⟩

/-- **The steps of a call of undo** are steps of the undo of the rows that it goes by. -/
theorem follows_undoWithFilter {only : Option String} :
    Follows (UndoAny (undoable s.journal only)) (undoWithFilter os root only) s := by
  unfold undoWithFilter
  refine follows_check_bind fun g _ => ?_
  have hstore : Emits (fun e => e.purpose = .store ∨ ∃ entry ∈ undoable s.journal only,
      UndoStep entry e) (JournalStore.openStore os g.root) s :=
    JournalStore.emits_openStore.mpr ⟨fun _ _ => .inl rfl, fun _ _ _ _ => .inl rfl⟩
  have hopen : Follows (UndoAny (undoable s.journal only)) (JournalStore.openStore os g.root) s :=
    Chain.and rows_openStore (chain_labels.mpr hstore)
  refine follows_bind (follows_mapErr hopen) fun store s₁ h₁ => follows_read_bind ?_
  have hj := journal_of_openStore (ends_mapErr.mp h₁)
  rw [hj]
  refine follows_bind ?_ fun tally s₂ _ => ?_
  · refine follows_loop (Q := fun _ _ _ => True) (I := fun s' => s.journal <+: s'.journal)
      (hj ▸ List.prefix_rfl) (AtEach.of_forall fun _ _ _ => trivial) (fun i entry tally s' hmem hs' _ => ?_)
      fun _ _ _ ha h => ha.trans h.1.grows
    unfold undoEntryStep
    refine follows_bind ((undo_undoOne (executedIds_mono hs' (mem_undoable_executed hmem))).mono
      fun _ _ _ h => ⟨h.1, .inr ⟨entry, hmem, h.2⟩⟩) fun r _ _ => ?_
    cases r <;> exact follows_pure _
  · split
    · split
      · exact follows_throw _
      · exact follows_pure _
    · exact follows_pure _

end MouseKeeper.FileEngine
