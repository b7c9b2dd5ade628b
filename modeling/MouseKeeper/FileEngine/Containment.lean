import MouseKeeper.FileEngine.Steps

/-!
What a batch touches outside the managed root.

The guard keeps the sources, the destinations and the trash inside. The directories on the
way to a destination, the store, the trash and the README backups are made or written
without it; whether these lie inside is what containment comes down to.
-/

namespace MouseKeeper.FileEngine

open Posix Trace

/-- All a step touches lies inside `root`. -/
def Inside (root : Path) (e : Effect) : Prop := ∀ p ∈ e.places, root <+: p

variable (os : Os) (g : PathGuard)

/-- The directories that are missing on the path `raw` lie inside the root. -/
def DirsInside (raw : RawPath) (t : Tree) : Prop := ∀ p ∈ t.missing raw, g.root <+: p

/-- A file opened for writing at `raw` would be inside the root. -/
def LandsInside (raw : RawPath) (t : Tree) : Prop :=
  ∀ p, t.place raw = .ok p → t.isDir p = false → g.root <+: p

/-- `P` holds of the tree once `create_dir_all` has run, if it succeeds. -/
def WithDirs (raw : RawPath) (d : Disk) (P : Tree → Prop) : Prop :=
  ∀ d', Ends (Disk.createDirAll os.toKernel raw) d () d' → P d'.tree

/-- The journal's directory and database are, or would be made, inside the root. -/
def StoreInside (d : Disk) : Prop :=
  DirsInside g (g.root.raw ++ segsOf STATE_DIR) d.tree ∧
    WithDirs os (g.root.raw ++ segsOf STATE_DIR) d fun t =>
      ∀ p, dbPlace t g.root = .ok p → g.root <+: p

/-- The same for the folder of a trash operation and the metadata in it. -/
def TrashFolderInside (id : String) (d : Disk) : Prop :=
  DirsInside g (join g.root (trashRelativeDir id)) d.tree ∧
    WithDirs os (join g.root (trashRelativeDir id)) d fun t =>
      (trashFree g t (trashedRelativePath id)).isOk →
        ∀ p, trashFree g t (metadataRelativePath id) = .ok p → LandsInside g p.raw t

/-- The same for the backup of `README.md`, or for the mark that there is none. -/
def BackupInside (id : String) (d : Disk) : Prop :=
  let dir := Path.raw (g.root ++ [stateName, backupsName])
  DirsInside g dir d.tree ∧
    WithDirs os dir d fun t =>
      if t.existsAt (join g.root "README.md") then
        (t.readFile (join g.root "README.md")).isOk →
          LandsInside g (join g.root (backupRelative id)) t
      else LandsInside g (join g.root (absentRelative id)) t

/-- What a trash call makes and writes without the guard lies inside. -/
def TrashInside (s : Sys) : Prop :=
  StoreInside os g s.toDisk ∧
    ∀ store s', Ends (JournalStore.openStore os g.root) s store s' →
      TrashFolderInside os g (trashId (unixNanos os s')) s'.toDisk

/-- What an item makes and writes without the guard lies inside, in the state before it. -/
def ItemInside (i : ℕ) (check : PrecheckResult) (s : Sys) : Prop :=
  check.status = .ready →
    match check.action with
    | .move => (g.resolveExisting s.tree check.fromPath).isOk →
        ∀ parent, (join g.root check.toPath).parent = some parent → DirsInside g parent s.tree
    | .trash => (trashSource g s.tree check.fromPath).isOk → TrashInside os g s
    | .readmeWrite => check.fromPath = "README.md" → check.toPath = "README.md" →
        check.content.isSome → BackupInside os g (opId (unixMs os s) i) s.toDisk
    | .createDir | .createFile => True

/-! ### One program after the other -/

variable {os g} {s : Sys} {raw : RawPath} {purpose : Purpose} {store : JournalStore}
  {check : PrecheckResult} {i : ℕ}

lemma inside_fs {m : DiskProg Unit} :
    Emits (fun c => Inside g.root ⟨purpose, .fs c⟩) m s.toDisk ↔
      Emits (Disk.At (g.root <+: ·)) m s.toDisk := Iff.rfl

lemma openStore_inside :
    Emits (Inside g.root) (JournalStore.openStore os g.root) s ↔ StoreInside os g s.toDisk := by
  rw [JournalStore.emits_openStore]
  refine and_congr (by rw [inside_fs]; exact Disk.emits_createDirAll) ?_
  unfold WithDirs Inside Effect.places
  simp only [List.mem_singleton, forall_eq]

lemma store_inside {s' : Sys} (h : StoreInside os g s.toDisk)
    (he : Ends (JournalStore.openStore os g.root) s store s') : g.root <+: store.place := by
  obtain ⟨d, p, hd, hp, rfl, -⟩ := JournalStore.ends_openStore.mp he
  exact h.2 d hd p hp

/-- A row is written where the store is. -/
lemma row_inside (hs : g.root <+: store.place) (entry : JournalEntry) :
    Inside g.root ⟨purpose, .appended store.place entry⟩ := by
  intro p hp
  rw [Effect.places, List.mem_singleton] at hp
  exact hp ▸ hs

lemma append_inside {ε β : Type} {entry : ℕ → JournalEntry} {f : Unit → Engine ε β}
    (hs : g.root <+: store.place) :
    Emits (Inside g.root) (store.append os purpose entry >>= f) s ↔
      Emits (Inside g.root) (f ()) (JournalStore.appended os entry s) := by
  rw [JournalStore.emits_append_bind]
  exact and_iff_right (row_inside hs _)

lemma fs_inside {ε α : Type} {m : DiskProg α} {f : Errno → ε} :
    Emits (Inside g.root) (Prog.mapErr f (fs purpose m)) s ↔
      Emits (Disk.At (g.root <+: ·)) m s.toDisk := by
  rw [emits_mapErr, emits_fs]
  rfl

lemma executeCreateDir_inside (hs : g.root <+: store.place) :
    Emits (Inside g.root) (executeCreateDir os g store check i) s := by
  unfold executeCreateDir
  rw [emits_read_bind, append_inside hs, emits_read_bind]
  split
  · exact emits_pure _
  · next target ht =>
    rw [emits_read_bind]
    split
    · exact emits_pure _
    · rw [emits_fs_bind, inside_fs]
      refine ⟨?_, fun _ _ _ => (append_inside hs).mpr (emits_pure _)⟩
      have hin := PathGuard.resolveForCreate_inside ht
      obtain ⟨r, n, rfl, hr⟩ := PathGuard.resolveForCreate_under ht
      exact Disk.emits_mkdir hr hin

lemma executeCreateFile_inside (hs : g.root <+: store.place) :
    Emits (Inside g.root) (executeCreateFile os g store check i) s := by
  unfold executeCreateFile
  rw [emits_read_bind, append_inside hs]
  split
  · exact emits_pure _
  · rw [emits_read_bind]
    split
    · exact emits_pure _
    · next target ht =>
      rw [emits_attempt_bind, emits_fs, inside_fs]
      constructor
      · have hin := PathGuard.resolveForCreate_inside ht
        obtain ⟨r, n, rfl, hr⟩ := PathGuard.resolveForCreate_under ht
        exact Disk.emits_createNew hr hin
      · split
        · exact (append_inside hs).mpr (emits_pure _)
        · rw [emits_read_bind]
          split
          · exact emits_pure _
          · exact emits_throw _

/-- Of a move, only the parents it makes can lie outside. -/
lemma executeMove_inside (hs : g.root <+: store.place) :
    Emits (Inside g.root) (executeMove os g store check i) s ↔
      ((g.resolveExisting s.tree check.fromPath).isOk →
        ∀ parent, (join g.root check.toPath).parent = some parent →
          DirsInside g parent s.tree) := by
  unfold executeMove
  rw [emits_read_bind, append_inside hs, emits_read_bind, JournalStore.appended_toDisk]
  cases hsrc : g.resolveExisting s.tree check.fromPath with
  | error e => simp [Except.isOk, Except.toBool]
  | ok source =>
    simp only [Except.isOk, Except.toBool, forall_true_left]
    cases hpar : (join g.root check.toPath).parent with
    | none => simp
    | some parent =>
      simp only [Option.some.injEq, forall_eq', emits_fs_bind]
      rw [inside_fs, Disk.emits_createDirAll]
      refine and_iff_left fun _ d hd => emits_check_bind.mpr fun dst hdst => ?_
      rw [emits_read_bind]
      split
      · exact emits_pure _
      · rw [emits_fs_bind, inside_fs]
        refine ⟨?_, fun _ _ _ => (append_inside hs).mpr (emits_pure _)⟩
        -- both ends come from the guard; the parents made since have not moved the source
        obtain ⟨nd, hnd, -⟩ := PathGuard.resolveExisting_entry hsrc
        have hgrown := Disk.grown_of_ends hd
        have hdst := mapError_eq_ok.mp hdst
        have hin := PathGuard.resolveForCreate_inside hdst
        obtain ⟨r, n, rfl, hr⟩ := PathGuard.resolveForCreate_under hdst
        refine Disk.emits_rename ?_ hr (PathGuard.resolveExisting_ok.mp hsrc).2.1 hin
        rw [hgrown.keeps hnd]
        simp

lemma backupReadme_inside (id : String) (hid : '/' ∉ id.toList) :
    Emits (Inside g.root) (backupReadme os g id) s ↔ BackupInside os g id s.toDisk := by
  unfold backupReadme BackupInside
  simp only [parent_backup g.root hid, emits_fs_bind]
  rw [inside_fs, Disk.emits_createDirAll]
  refine and_congr_right fun _ => ⟨fun h d hd => ?_, fun h u d hd => ?_⟩
  · have h := emits_read_bind.mp (h () d hd)
    beta_reduce
    split
    · next he =>
      rw [if_pos he] at h
      exact Disk.emits_copy.mp (fs_inside.mp h)
    · next he =>
      rw [if_neg he] at h
      exact Disk.emits_write.mp (fs_inside.mp h)
  · have h := h d hd
    beta_reduce at h
    refine emits_read_bind.mpr ?_
    split
    · next he =>
      rw [if_pos he] at h
      exact fs_inside.mpr (Disk.emits_copy.mpr h)
    · next he =>
      rw [if_neg he] at h
      exact fs_inside.mpr (Disk.emits_write.mpr h)

/-- With `README.md` no link, only its backup can be written outside. -/
lemma executeReadmeWrite_inside (hs : g.root <+: store.place)
    (hdir : s.tree.isDir g.root = true) (hreadme : ReadmeNoLink g s.tree)
    (haction : check.action = .readmeWrite) :
    Emits (Inside g.root) (executeReadmeWrite os g store check i) s ↔
      (check.fromPath = "README.md" → check.toPath = "README.md" → check.content.isSome →
        BackupInside os g (opId (unixMs os s) i) s.toDisk) := by
  unfold executeReadmeWrite
  by_cases hpaths : check.fromPath ≠ "README.md" ∨ check.toPath ≠ "README.md"
  · rw [if_pos hpaths]
    refine ⟨fun _ hf ht _ => ?_, fun _ => emits_pure _⟩
    rcases hpaths with h | h
    · exact absurd hf h
    · exact absurd ht h
  · rw [if_neg hpaths]
    push Not at hpaths
    cases check.content with
    | none => simp
    | some content =>
      simp only [hpaths.1, hpaths.2, Option.isSome_some, forall_true_left]
      rw [emits_read_bind, emits_bind, backupReadme_inside _ (not_slash_opId _ i)]
      refine and_iff_left fun _ s₁ h₁ => (append_inside hs).mpr (emits_bind.mpr ⟨?_, ?_⟩)
      · obtain ⟨hdir₁, hreadme₁⟩ := rootKept_of_ends check
          (fun _ => follows_backupReadme (i := i) (unixMs os s) haction) h₁ hdir
        refine fs_inside.mpr (Disk.emits_write.mpr fun p hp _ => ?_)
        rw [join_readme, JournalStore.appended_toDisk,
          Tree.place_name hdir₁ (hreadme₁ hreadme)] at hp
        cases hp
        exact List.prefix_append _ _
      · exact fun _ _ _ => (append_inside hs).mpr (emits_pure _)

/-- Of a trash call, the store, the folder and the metadata can lie outside. -/
lemma trashFile_inside (hdir : s.tree.isDir g.root = true) (path : String) :
    Emits (Inside g.root) (trashFile os g.root.raw path) s ↔
      ((trashSource g s.tree path).isOk → TrashInside os g s) := by
  unfold trashFile
  simp only [emits_check_bind, mapError_eq_ok, new_root hdir, Except.ok.injEq, forall_eq']
  cases hsource : trashSource g s.tree path with
  | error e => simp [Except.isOk, Except.toBool]
  | ok x =>
    obtain ⟨source, size, modified⟩ := x
    simp only [Except.ok.injEq, forall_eq', Except.isOk, Except.toBool, forall_true_left]
    rw [emits_bind, emits_mapErr, openStore_inside]
    refine and_congr_right fun hstore => forall₂_congr fun store s₁ => ?_
    rw [ends_mapErr]
    refine forall_congr' fun h₁ => ?_
    rw [emits_read_bind, emits_read_bind, append_inside (store_inside hstore h₁), emits_fs_bind,
      inside_fs, Disk.emits_createDirAll, JournalStore.appended_toDisk]
    refine and_congr_right fun _ => ⟨fun h d hd hok md hmd => ?_, fun h u d hd => ?_⟩
    · obtain ⟨trashed, htrashed⟩ := isOk_iff.mp hok
      have h := emits_check_bind.mp (emits_check_bind.mp (h () d hd) trashed htrashed) md hmd
      exact Disk.emits_write.mp (fs_inside.mp (emits_bind.mp h).1)
    · refine emits_check_bind.mpr fun trashed htrashed => emits_check_bind.mpr fun md hmd => ?_
      refine emits_bind.mpr ⟨fs_inside.mpr (Disk.emits_write.mpr ?_), fun _ s₂ h₂ =>
        emits_bind.mpr ⟨fs_inside.mpr ?_, fun _ _ _ =>
          (append_inside (store_inside hstore h₁)).mpr (emits_pure _)⟩⟩
      · exact h d hd (isOk_iff.mpr ⟨trashed, htrashed⟩) md hmd
      · rw [ends_mapErr, ends_fs] at h₂
        obtain ⟨d', hd', rfl⟩ := h₂
        obtain ⟨hsrc, hdst⟩ := trash_ends hsource h₁ hd htrashed hd'
        obtain ⟨nd, hnd, -⟩ := PathGuard.resolveExisting_entry hsrc
        have hin := PathGuard.resolveForCreate_inside hdst
        obtain ⟨r, n, rfl, hr⟩ := PathGuard.resolveForCreate_under hdst
        exact Disk.emits_rename (by rw [hnd]; simp) hr (PathGuard.resolveExisting_ok.mp hsrc).2.1
          hin

lemma recoverPlannedMove_inside (hs : g.root <+: store.place) {prior : List JournalEntry} :
    Emits (Inside g.root) (recoverPlannedMove os g prior store check) s := by
  unfold recoverPlannedMove
  by_cases hstatus : check.status ≠ .missingSource
  · rw [if_pos hstatus]
    exact emits_pure _
  · rw [if_neg hstatus]
    split
    · exact emits_pure _
    · rw [emits_read_bind]
      by_cases hto : (g.resolveExisting s.tree check.toPath).isOk
      · rw [if_pos hto]
        exact (append_inside hs).mpr (emits_pure _)
      · rw [if_neg hto]
        exact emits_pure _

/-- One item of the batch. -/
lemma executeCheck_inside (hs : g.root <+: store.place) (hdir : s.tree.isDir g.root = true)
    (hreadme : check.status = .ready → check.action = .readmeWrite → ReadmeNoLink g s.tree)
    {prior : List JournalEntry} {tally : Tally} :
    Emits (Inside g.root) (executeCheck os g prior store i check tally) s ↔
      ItemInside os g i check s := by
  unfold executeCheck ItemInside
  by_cases hstatus : check.status ≠ .ready
  · rw [if_pos hstatus]
    refine iff_of_true (emits_bind.mpr ⟨recoverPlannedMove_inside hs, fun r _ _ => ?_⟩)
      fun h => absurd h hstatus
    cases r <;> exact emits_pure _
  · rw [if_neg hstatus]
    push Not at hstatus
    rw [emits_bind, and_iff_left]
    · simp only [hstatus, forall_true_left]
      unfold executeReady
      cases haction : check.action with
      | move => exact executeMove_inside hs
      | trash =>
        refine Iff.trans ?_ (trashFile_inside hdir check.fromPath)
        unfold executeTrash
        rw [emits_bind, emits_mapErr]
        exact and_iff_left fun _ _ _ => emits_pure _
      | createDir => exact iff_of_true (executeCreateDir_inside hs) trivial
      | createFile => exact iff_of_true (executeCreateFile_inside hs) trivial
      | readmeWrite =>
        exact executeReadmeWrite_inside hs hdir (hreadme hstatus haction) haction
    · intro r s' _
      cases r <;> exact emits_pure _

/-! ### The batch -/

variable (os) in
/-- Whatever the call touches, wherever it stops, lies inside its canonical root. -/
def Contained (root : RawPath) (report : ProposalReport) (s : Sys) : Prop :=
  ∀ x ∈ ((executeProposals os root report).run s).steps,
    ∃ g, PathGuard.new s.tree root = .ok g ∧ Inside g.root x.1

variable (os g) in
/-- The store lies inside, and so does, for each item reached, what it makes and writes without
the guard. -/
def BatchInside (report : ProposalReport) (s : Sys) : Prop :=
  ∀ precheck, precheckProposals os g s report = .ok precheck →
    StoreInside os g s.toDisk ∧ ∀ store s₁, Ends (JournalStore.openStore os g.root) s store s₁ →
      AtEach (executeCheck os g s₁.journal store) (ItemInside os g) precheck.checks 0 {} s₁

/-- A README item that passes its check has found `README.md` to be no link. -/
lemma readmeNoLink_of_ready {proposal : Proposal} (hdir : s.tree.isDir g.root = true)
    (hstatus : (precheckProposal os g s proposal).status = .ready)
    (haction : (precheckProposal os g s proposal).action = .readmeWrite) :
    ReadmeNoLink g s.tree := by
  rw [precheckProposal_action] at haction
  intro target htarget
  have hlink : precheckReadmeWrite.isLink g s = true := by
    rw [precheckReadmeWrite.isLink, join_readme]
    have hlast : (g.root.raw ++ [Seg.name readmeName]).getLast? = some (.name readmeName) := by simp
    simp only [Tree.lstat, hlast, Tree.entryAt_name hdir, bind, Except.bind, htarget,
      Tree.lstat.found]
    rfl
  refine absurd hstatus ?_
  unfold precheckProposal
  by_cases hexists : proposal.status = .destinationExists
  · rw [if_pos hexists]
    nofun
  · rw [if_neg hexists, haction]
    simp only [precheckReadmeWrite]
    by_cases hpaths : proposal.fromPath ≠ "README.md" ∨ proposal.toPath ≠ "README.md"
    · rw [if_pos hpaths]
      nofun
    · rw [if_neg hpaths]
      by_cases hcontent : proposal.content.isNone = true
      · rw [if_pos hcontent]
        nofun
      · rw [if_neg hcontent, if_pos hlink]
        nofun

/-- **Containment.** -/
theorem contained_iff (root : RawPath) (report : ProposalReport) (s : Sys) :
    Contained os root report s ↔
      ∀ g, PathGuard.new s.tree root = .ok g → BatchInside os g report s := by
  change Emits (fun e => ∃ g, PathGuard.new s.tree root = .ok g ∧ Inside g.root e) _ s ↔ _
  unfold executeProposals
  rw [emits_check_bind]
  simp only [mapError_eq_ok]
  refine forall₂_congr fun g hg => ?_
  simp only [hg, Except.ok.injEq, exists_eq_left']
  rw [emits_check_bind]
  simp only [mapError_eq_ok]
  refine forall₂_congr fun precheck hprecheck => ?_
  unfold executePrechecked
  rw [emits_bind, emits_mapErr, openStore_inside]
  refine and_congr_right fun hstore => forall₂_congr fun store s₁ => ?_
  rw [ends_mapErr]
  refine forall_congr' fun h₁ => ?_
  rw [JournalStore.readAll, emits_read_bind, emits_bind,
    and_iff_left fun _ _ _ => emits_pure _]
  -- along the loop the root stays a directory and `README.md` no link, if it was none
  have hdir := (new_ok hg).2
  have hkept : RootKept g s.tree s₁.tree := .grown hdir (JournalStore.grown_openStore h₁)
  refine emits_loop (I := fun s' => RootKept g s.tree s'.tree) hkept ?_ ?_
  · intro i check tally s' hcheck hs'
    refine executeCheck_inside (store_inside hstore h₁) hs'.1 fun hstatus haction => ?_
    refine hs'.2 ?_
    unfold precheckProposals at hprecheck
    split at hprecheck
    · cases hprecheck
    · cases hprecheck
      obtain ⟨proposal, -, rfl⟩ := List.mem_map.mp hcheck
      exact readmeNoLink_of_ready hdir hstatus haction
  · intro i check tally s' tally' s'' _ hs' he
    have := rootKept_of_ends check follows_executeCheck he hs'.1
    exact ⟨this.1, this.2 ∘ hs'.2⟩

/-- A managed root with one file, beside it another directory. -/
def besideOutside : Sys := .fresh
  [([⟨"root", validName_root⟩], .dir 1),
    ([⟨"root", validName_root⟩, ⟨"a", validName_a⟩], .file [1] none 2),
    ([⟨"outside", validName_outside⟩], .dir 3)]

/-- A move out of the root leaves a directory outside, though the guard then refuses it. -/
theorem not_contained_parent :
    ¬ Contained .still (Path.raw [⟨"root", by decide⟩])
      ⟨"/root", [.plain .move "a" "../outside/x/y" 1 none]⟩ besideOutside := by
  intro h
  have hdir : besideOutside.tree.isDir [⟨"root", by decide⟩] = true := by decide +kernel
  have hout : ¬ ∀ x ∈ ((executeProposals .still (Path.raw [⟨"root", by decide⟩])
      ⟨"/root", [.plain .move "a" "../outside/x/y" 1 none]⟩).run besideOutside).steps,
      ∀ p ∈ x.1.places, [⟨"root", by decide⟩] <+: p := by decide +kernel
  refine hout fun x hx => ?_
  obtain ⟨g, hg, hi⟩ := h x hx
  rw [new_root hdir] at hg
  cases hg
  exact hi

end MouseKeeper.FileEngine
